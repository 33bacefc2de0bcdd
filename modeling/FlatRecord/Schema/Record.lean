import FlatRecord.Scalar.Basic

/-! Record types and enumerations. -/
namespace FlatRecord

/-- The type of a vector's elements. Vectors of vectors do not exist. -/
inductive ElementType where
  | scalar (type : ScalarType)
  | text
  | record (name : String)
  | struct (name : String)
deriving DecidableEq, Repr

inductive FieldType where
  | scalar (type : ScalarType)
  /-- Named values, stored as scalars. -/
  | enumeration (name : String)
  | text
  | vector (element : ElementType)
  | record (name : String)
  | struct (name : String)
deriving DecidableEq, Repr

/-- Only scalars and enumerations have defaults. A deprecated field keeps its slot and is neither written
nor decoded. -/
structure RecordField where
  name : String
  slot : Nat
  type : FieldType
  default : Option Scalar
  deprecated : Bool := false
deriving DecidableEq, Repr

namespace RecordField

/-- A field with the default that its type suggests: zero for a scalar, and otherwise none. -/
def ofType (name : String) (slot : Nat) (type : FieldType) : RecordField :=
  let default := match type with
    | .scalar t => some (Scalar.zero t)
    | _ => none
  { name, slot, type, default }

/-- The value itself stands in the record, and not an offset to it. -/
def isInline (f : RecordField) : Bool :=
  match f.type with
  | .scalar _ | .enumeration _ | .struct _ => true
  | .text | .vector _ | .record _ => false

end RecordField

structure RecordType where
  name : String
  fields : List RecordField
deriving DecidableEq, Repr

namespace RecordType

def field? (r : RecordType) (name : String) : Option RecordField := r.fields.find? (·.name == name)

def fieldAt? (r : RecordType) (slot : Nat) : Option RecordField := r.fields.find? (·.slot == slot)

def liveFields (r : RecordType) : List RecordField := r.fields.filter (!·.deprecated)

end RecordType

structure EnumType where
  name : String
  underlying : ScalarType
  variants : List (String × Int)
  /-- The name of the variant that an absent field has. -/
  default : String
deriving DecidableEq, Repr

namespace EnumType

def valueOf? (e : EnumType) (variant : String) : Option Int :=
  (e.variants.find? (·.1 == variant)).map (·.2)

def nameOf? (e : EnumType) (value : Int) : Option String :=
  (e.variants.find? (·.2 == value)).map (·.1)

end EnumType

end FlatRecord
