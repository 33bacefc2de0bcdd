import FlatRecord.Error
import FlatRecord.Layout
import FlatRecord.Scalar.Convert
import FlatRecord.Schema.Record
import FlatRecord.Schema.Struct

/-! A schema: named types, the type of the root record, and the identifier of its files. -/
namespace FlatRecord

structure Schema where
  records : List RecordType := []
  structs : List StructType := []
  enums : List EnumType := []
  root : Option String := none
  identifier : Option Identifier := none
deriving DecidableEq, Repr

namespace Schema

/-- Every struct has the natural layout. -/
def LaidOut (s : Schema) : Prop := ∀ t ∈ s.structs, t.LaidOut

instance (s : Schema) : Decidable s.LaidOut := inferInstanceAs (Decidable (∀ t ∈ s.structs, t.LaidOut))

/-- A later type of the same name takes the place of an earlier one. -/
def withRecord (s : Schema) (r : RecordType) : Schema :=
  { s with records := s.records.filter (·.name != r.name) ++ [r] }

def withStruct (s : Schema) (t : StructType) : Schema :=
  { s with structs := s.structs.filter (·.name != t.name) ++ [t] }

def withEnum (s : Schema) (e : EnumType) : Schema :=
  { s with enums := s.enums.filter (·.name != e.name) ++ [e] }

/-- The names of the records in order. -/
def recordNames (s : Schema) : List String := (s.records.map (·.name)).mergeSort fun a b => a ≤ b

def record (s : Schema) (name : String) : Except Error RecordType :=
  match s.records.find? (·.name == name) with
  | some r => .ok r
  | none => .error (.schema (.unknownRecord name))

def struct (s : Schema) (name : String) : Except Error StructType :=
  match s.structs.find? (·.name == name) with
  | some t => .ok t
  | none => .error (.schema (.unknownStruct name))

def enumeration (s : Schema) (name : String) : Except Error EnumType :=
  match s.enums.find? (·.name == name) with
  | some e => .ok e
  | none => .error (.schema (.unknownEnum name))

def rootRecord (s : Schema) : Except Error RecordType :=
  match s.root with
  | some name => s.record name
  | none => .error (.schema .noRoot)

def scalarOfInt (t : ScalarType) (v : Int) : Except Error Scalar :=
  match Scalar.ofInt? t v with
  | some s => .ok s
  | none => .error (.schema (.outOfRange v t))

/-- The value of a variant, as an integer. -/
def variant (e : EnumType) (name : String) : Except Error Int :=
  match e.valueOf? name with
  | some v => .ok v
  | none => .error (.schema (.noVariant e.name name))

/-- The stored type of a scalar or enumeration field and the value that it has when absent. -/
def scalarOf (s : Schema) (f : RecordField) : Except Error (ScalarType × Scalar) :=
  match f.type with
  | .scalar t => .ok (t, f.default.getD (Scalar.zero t))
  | .enumeration name => do
    let e ← s.enumeration name
    match f.default with
    | some default => return (e.underlying, default)
    | none => return (e.underlying, ← scalarOfInt e.underlying (← variant e e.default))
  | _ => .error (.schema (.notScalar f.name))

/-- The smallest slot that two fields share. -/
def repeatedSlot? (r : RecordType) : Option Nat :=
  let slots := r.fields.map (·.slot)
  (slots.filter fun slot => 1 < slots.count slot).min?

/-- The names that a field's type refers to are known, and its default is of its type. -/
def validateField (s : Schema) (r : RecordType) (f : RecordField) : Except Error Unit := do
  if slotLimit ≤ f.slot then throw (.schema (.slotTooLarge r.name f.name f.slot))
  match f.type with
  | .scalar _ | .enumeration _ =>
    let (type, default) ← s.scalarOf f
    if default.type ≠ type then
      throw (.schema (.defaultType r.name f.name default.type type))
  | .record name | .vector (.record name) => let _ ← s.record name
  | .struct name | .vector (.struct name) => let _ ← s.struct name
  | .text | .vector (.scalar _) | .vector .text => return

def validateRecord (s : Schema) (r : RecordType) : Except Error Unit := do
  if let some slot := repeatedSlot? r then throw (.schema (.repeatedSlot r.name slot))
  r.fields.forM (s.validateField r)

/-- The first conflict, records in the order in which they were added. -/
def validate (s : Schema) : Except Error Unit := do
  if let some name := s.root then let _ ← s.record name
  s.records.forM s.validateRecord

end Schema

end FlatRecord
