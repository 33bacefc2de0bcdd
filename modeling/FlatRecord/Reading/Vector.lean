import FlatRecord.Reading.Table

/-! Vectors in a buffer, by what the reader knows of their elements. -/
namespace FlatRecord

open Reading

/-- A type of elements that needs no schema. -/
inductive ItemType where
  | scalar (type : ScalarType)
  | text
  | record
deriving DecidableEq, Repr

inductive Item where
  | scalar (v : Scalar)
  | text (bytes : Bytes)
  | record (t : Table)
deriving DecidableEq, Repr

def ItemType.inlineSize : ItemType → Nat
  | scalar type => type.size
  | text | record => offsetSize

/-- The element at `pos`, through its offset if it has one. -/
def ItemType.read (buf : Bytes) (pos : Nat) : ItemType → Except Error Item
  | scalar type => (Reading.scalar buf type pos).map .scalar
  | text => do return .text (← Reading.text buf (← follow buf pos))
  | record => do return .record (← Table.read buf (← follow buf pos))

structure TypedVector where
  type : ItemType
  start : Nat
  length : Nat
deriving DecidableEq, Repr

namespace TypedVector

def read (buf : Bytes) (type : ItemType) (pos : Nat) : Except Error TypedVector := do
  let (start, length) ← vectorHeader buf pos type.inlineSize
  return { type, start, length }

def get (buf : Bytes) (v : TypedVector) (index : Nat) : Except Error Item :=
  if v.length ≤ index then .error (.indexOutOfRange index v.length)
  else v.type.read buf (v.start + index * v.type.inlineSize)

/-- All elements. Each may be defective by itself. -/
def items (buf : Bytes) (v : TypedVector) : List (Except Error Item) :=
  (List.range v.length).map (v.get buf)

/-- The elements of a vector of single bytes. -/
def bytes (buf : Bytes) (v : TypedVector) : Except Error Bytes :=
  slice buf v.start (v.start + v.length)

end TypedVector

/-- A vector of structs, of which only the size is known. -/
structure StructVector where
  start : Nat
  length : Nat
  stride : Nat
deriving DecidableEq, Repr

namespace StructVector

def read (buf : Bytes) (stride pos : Nat) : Except Error StructVector := do
  let (start, length) ← vectorHeader buf pos stride
  return { start, length, stride }

def get (buf : Bytes) (v : StructVector) (index : Nat) : Except Error Bytes :=
  if v.length ≤ index then .error (.indexOutOfRange index v.length)
  else
    let pos := v.start + index * v.stride
    slice buf pos (pos + v.stride)

end StructVector

/-- The scalar at `offset` of a struct's bytes. -/
def Reading.member (struct : Bytes) (offset : Nat) (type : ScalarType) : Except Error Scalar :=
  if offset + type.size ≤ struct.size then
    .ok (Scalar.ofBytes type (struct.extract offset (offset + type.size)).toList)
  else .error (.indexOutOfRange offset struct.size)

namespace Table

def vector? (buf : Bytes) (t : Table) (slot : Nat) (type : ItemType) :
    Except Error (Option TypedVector) := do
  (← t.target buf slot).mapM (TypedVector.read buf type)

def structVector? (buf : Bytes) (t : Table) (slot stride : Nat) :
    Except Error (Option StructVector) := do
  (← t.target buf slot).mapM (StructVector.read buf stride)

end Table

end FlatRecord
