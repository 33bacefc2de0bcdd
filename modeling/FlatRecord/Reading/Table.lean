import FlatRecord.Reading.Bytes

/-! Records in a buffer. A `Table` holds the bounds that were checked when it was read; it is used with the
buffer that it was read from. -/
namespace FlatRecord

structure Table where
  position : Nat
  /-- Where the field table begins, and its length. -/
  fieldTable : Nat
  fieldTableLength : Nat
  /-- The length of the record itself, its offset to the field table included. -/
  inlineSize : Nat
deriving DecidableEq, Repr

namespace Table

open Reading

/-- The record at `pos`, if it and its field table lie in the buffer. -/
def read (buf : Bytes) (pos : Nat) : Except Error Table := do
  let distance ← nat buf pos offsetSize
  let place : Int := pos - (Int32.ofNat distance).toInt
  if place < 0 ∨ buf.size ≤ place.toNat then throw (.corrupt pos .tableOutside)
  let fieldTable := place.toNat
  let fieldTableLength ← nat buf fieldTable entrySize
  let inlineSize ← nat buf (fieldTable + entrySize) entrySize
  if fieldTableLength < tableHeaderSize ∨ fieldTableLength % entrySize ≠ 0 then
    throw (.corrupt fieldTable .badTableLength)
  if buf.size < fieldTable + fieldTableLength then throw (.corrupt fieldTable .tableTooLong)
  if inlineSize < offsetSize ∨ buf.size < pos + inlineSize then
    throw (.corrupt pos .recordTooLong)
  return { position := pos, fieldTable, fieldTableLength, inlineSize }

def slotCount (t : Table) : Nat := (t.fieldTableLength - tableHeaderSize) / entrySize

def entryOffset (slot : Nat) : Nat := tableHeaderSize + slot * entrySize

/-- Where the field stands in its record. A slot past the table's end is absent, as in a record that was
written before the slot came into use. -/
def slotOffset (buf : Bytes) (t : Table) (slot : Nat) : Except Error (Option Nat) := do
  if t.fieldTableLength < entryOffset slot + entrySize then return none
  let entry := t.fieldTable + entryOffset slot
  let offset := LittleEndian.decode (← slice buf entry (entry + entrySize)).toList
  return if offset = 0 then none else some offset

def hasField (buf : Bytes) (t : Table) (slot : Nat) : Except Error Bool :=
  (t.slotOffset buf slot).map (·.isSome)

/-- Where a field of `size` bytes stands in the buffer. The sum is a word, so a size close to the largest
word can pass the comparison. -/
def fieldPosition (buf : Bytes) (t : Table) (slot size : Nat) : Except Error (Option Nat) := do
  match ← t.slotOffset buf slot with
  | none => return none
  | some offset =>
    if offset < offsetSize ∨ t.inlineSize < word (offset + size) then
      throw (.corrupt (t.fieldTable + entryOffset slot) .fieldOutsideRecord)
    return some (t.position + offset)

def scalar? (buf : Bytes) (t : Table) (slot : Nat) (type : ScalarType) :
    Except Error (Option Scalar) := do
  (← t.fieldPosition buf slot type.size).mapM (Reading.scalar buf type)

def scalarD (buf : Bytes) (t : Table) (slot : Nat) (default : Scalar) : Except Error Scalar :=
  (t.scalar? buf slot default.type).map (·.getD default)

/-- Where the object lies that the field refers to. -/
def target (buf : Bytes) (t : Table) (slot : Nat) : Except Error (Option Nat) := do
  (← t.fieldPosition buf slot offsetSize).mapM (follow buf)

def text? (buf : Bytes) (t : Table) (slot : Nat) : Except Error (Option Bytes) := do
  (← t.target buf slot).mapM (Reading.text buf)

def record? (buf : Bytes) (t : Table) (slot : Nat) : Except Error (Option Table) := do
  (← t.target buf slot).mapM (Table.read buf)

/-- The bytes of an inline struct. -/
def struct? (buf : Bytes) (t : Table) (slot size : Nat) : Except Error (Option Bytes) := do
  (← t.fieldPosition buf slot size).mapM fun pos => slice buf pos (pos + size)

end Table

end FlatRecord
