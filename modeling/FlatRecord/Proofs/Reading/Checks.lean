import FlatRecord.Proofs.Results
import FlatRecord.Reading.Buffer
import FlatRecord.Reading.Field

/-! The checks that each reading step makes, one after the other. -/
namespace FlatRecord

open Reading

theorem follow_eq (buf : Bytes) (pos : Nat) : follow buf pos = (do
    let distance ← nat buf pos offsetSize
    if distance = 0 then .error (.corrupt pos .zeroOffset)
    else if buf.size ≤ pos + distance then .error (.corrupt pos .offsetOutside)
    else .ok (pos + distance)) := rfl

theorem vectorHeader_eq (buf : Bytes) (pos elementSize : Nat) :
    vectorHeader buf pos elementSize = (do
      let length ← nat buf pos offsetSize
      if buf.size < pos + offsetSize + length * elementSize then .error (.corrupt pos .vectorTooLong)
      else .ok (pos + offsetSize, length)) := rfl

theorem Buffer.ofSizePrefixed_eq (bytes : Bytes) : Buffer.ofSizePrefixed bytes =
    if bytes.size < 2 * offsetSize then .error (.truncated (2 * offsetSize) bytes.size) else (do
      let length ← nat bytes 0 offsetSize
      if bytes.size < offsetSize + length then .error (.truncated (offsetSize + length) bytes.size)
      else if length < offsetSize then .error (.corrupt 0 .shortSizePrefix)
      else .ok ⟨bytes.take (offsetSize + length), offsetSize⟩) := rfl

namespace Table

theorem read_eq (buf : Bytes) (pos : Nat) : Table.read buf pos = (do
    let distance ← nat buf pos offsetSize
    let place : Int := pos - (Int32.ofNat distance).toInt
    if place < 0 ∨ buf.size ≤ place.toNat then .error (.corrupt pos .tableOutside) else do
    let length ← nat buf place.toNat entrySize
    let inlineSize ← nat buf (place.toNat + entrySize) entrySize
    if length < tableHeaderSize ∨ length % entrySize ≠ 0 then
      .error (.corrupt place.toNat .badTableLength)
    else if buf.size < place.toNat + length then .error (.corrupt place.toNat .tableTooLong)
    else if inlineSize < offsetSize ∨ buf.size < pos + inlineSize then
      .error (.corrupt pos .recordTooLong)
    else .ok ⟨pos, place.toNat, length, inlineSize⟩) := rfl

theorem slotOffset_eq (buf : Bytes) (t : Table) (slot : Nat) : t.slotOffset buf slot =
    if t.fieldTableLength < entryOffset slot + entrySize then .ok none else (do
      let entry ← slice buf (t.fieldTable + entryOffset slot)
        (t.fieldTable + entryOffset slot + entrySize)
      .ok (if LittleEndian.decode entry.toList = 0 then none
        else some (LittleEndian.decode entry.toList))) := rfl

theorem fieldPosition_eq (buf : Bytes) (t : Table) (slot size : Nat) :
    t.fieldPosition buf slot size = (do
      match ← t.slotOffset buf slot with
      | none => .ok none
      | some offset =>
        if offset < offsetSize ∨ t.inlineSize < word (offset + size) then
          .error (.corrupt (t.fieldTable + entryOffset slot) .fieldOutsideRecord)
        else .ok (some (t.position + offset))) := rfl

end Table

/-- The value at `pos`, through its offset if it has one. -/
def ResolvedElement.read (buf : Bytes) (pos : Nat) : ResolvedElement → Except Error ElementView
  | .scalar type => do
    return .scalar (Scalar.ofBytes type (← slice buf pos (pos + type.size)).toList)
  | .text => do return .text (← Reading.text buf (← follow buf pos))
  | .record name => do return .record name (← Table.read buf (← follow buf pos))
  | .struct type => do return .struct type (← slice buf pos (pos + type.size))

theorem FieldVector.get_eq (buf : Bytes) (v : FieldVector) (index : Nat) :
    v.get buf index = if v.length ≤ index then .error (.indexOutOfRange index v.length)
      else v.element.read buf (v.start + index * v.element.inlineSize) := by
  obtain ⟨element, start, length⟩ := v
  cases element <;> rfl

end FlatRecord
