import FlatRecord.Reading.Vector
import FlatRecord.Schema.Basic

/-! Fields read by their description in a schema. -/
namespace FlatRecord

open Reading

/-- An element type with its names looked up. -/
inductive ResolvedElement where
  | scalar (type : ScalarType)
  | text
  | record (name : String)
  | struct (type : StructType)
deriving DecidableEq, Repr

def ResolvedElement.inlineSize : ResolvedElement → Nat
  | scalar type => type.size
  | text | record _ => offsetSize
  | struct type => type.size

def ElementType.resolve (schema : Schema) : ElementType → Except Error ResolvedElement
  | scalar type => .ok (.scalar type)
  | text => .ok .text
  | record name => (schema.record name).map fun _ => .record name
  | struct name => (schema.struct name).map .struct

/-- One value in a buffer. -/
inductive ElementView where
  | scalar (v : Scalar)
  | text (bytes : Bytes)
  | record (type : String) (t : Table)
  | struct (type : StructType) (bytes : Bytes)
deriving DecidableEq, Repr

structure FieldVector where
  element : ResolvedElement
  start : Nat
  length : Nat
deriving DecidableEq, Repr

/-- The elements' bounds were checked when the vector was read. -/
def FieldVector.get (buf : Bytes) (v : FieldVector) (index : Nat) : Except Error ElementView := do
  if v.length ≤ index then throw (.indexOutOfRange index v.length)
  let pos := v.start + index * v.element.inlineSize
  match v.element with
  | .scalar type =>
    return .scalar (Scalar.ofBytes type (← slice buf pos (pos + type.size)).toList)
  | .text => return .text (← Reading.text buf (← follow buf pos))
  | .record name => return .record name (← Table.read buf (← follow buf pos))
  | .struct type => return .struct type (← slice buf pos (pos + type.size))

/-- What a field turns out to be. Scalars are never absent, since they have defaults. -/
inductive FieldView where
  | absent
  | single (e : ElementView)
  | vector (v : FieldVector)
deriving DecidableEq, Repr

namespace Table

def ofOption (e : Option ElementView) : FieldView :=
  match e with
  | some e => .single e
  | none => .absent

def field (buf : Bytes) (t : Table) (schema : Schema) (f : RecordField) : Except Error FieldView := do
  match f.type with
  | .scalar _ | .enumeration _ =>
    let (type, default) ← schema.scalarOf f
    match ← t.fieldPosition buf f.slot type.size with
    | some pos =>
      return .single (.scalar (Scalar.ofBytes type (← slice buf pos (pos + type.size)).toList))
    | none => return .single (.scalar default)
  | .struct name =>
    let type ← schema.struct name
    return ofOption ((← t.struct? buf f.slot type.size).map (.struct type))
  | .text => return ofOption ((← t.text? buf f.slot).map .text)
  | .record name => return ofOption ((← t.record? buf f.slot).map (.record name))
  | .vector element =>
    match ← t.target buf f.slot with
    | none => return .absent
    | some pos =>
      let element ← element.resolve schema
      let (start, length) ← vectorHeader buf pos element.inlineSize
      return .vector { element, start, length }

/-- The field of that name in a record type. -/
def fieldNamed (buf : Bytes) (t : Table) (schema : Schema) (typeName name : String) :
    Except Error FieldView := do
  let type ← schema.record typeName
  match type.field? name with
  | some f => t.field buf schema f
  | none => throw (.schema (.unknownField typeName name))

end Table

end FlatRecord
