import FlatRecord.Error
import FlatRecord.Layout
import FlatRecord.Scalar.Basic

/-! Checked and unchecked access to the bytes of a buffer that nobody vouches for. -/
namespace FlatRecord.Reading

/-- The bytes `start ..< stop`, for callers that have checked the bounds. -/
def slice (buf : Bytes) (start stop : Nat) : Except Error Bytes :=
  if start ≤ stop ∧ stop ≤ buf.size then .ok (buf.extract start stop)
  else .error (.outside start stop buf.size)

def nat (buf : Bytes) (pos width : Nat) : Except Error Nat :=
  if pos + width ≤ buf.size then
    .ok (LittleEndian.decode (buf.extract pos (pos + width)).toList)
  else .error (.corrupt pos .scalarOutside)

def scalar (buf : Bytes) (type : ScalarType) (pos : Nat) : Except Error Scalar :=
  (nat buf pos type.size).map (Scalar.ofBits type)

/-- The scalar that some bytes begin with, for callers that have checked their number. -/
def scalarAtFront (type : ScalarType) (bytes : Bytes) : Except Error Scalar :=
  (slice bytes 0 type.size).map fun front => Scalar.ofBytes type front.toList

/-- The place that the offset at `pos` leads to. Offsets lead forward, so every chain of them ends. -/
def follow (buf : Bytes) (pos : Nat) : Except Error Nat := do
  let distance ← nat buf pos offsetSize
  if distance = 0 then throw (.corrupt pos .zeroOffset)
  if buf.size ≤ pos + distance then throw (.corrupt pos .offsetOutside)
  return pos + distance

/-- The bytes of the text at `pos`. -/
def text (buf : Bytes) (pos : Nat) : Except Error Bytes := do
  let length ← nat buf pos offsetSize
  let start := pos + offsetSize
  match buf[start + length]? with
  | none => throw (.corrupt pos .textTooLong)
  | some terminator =>
    if terminator ≠ 0 then throw (.corrupt (start + length) .unterminatedText)
    slice buf start (start + length)

/-- Where the elements of the vector at `pos` begin, and how many there are. -/
def vectorHeader (buf : Bytes) (pos elementSize : Nat) : Except Error (Nat × Nat) := do
  let length ← nat buf pos offsetSize
  let start := pos + offsetSize
  if buf.size < start + length * elementSize then throw (.corrupt pos .vectorTooLong)
  return (start, length)

end FlatRecord.Reading
