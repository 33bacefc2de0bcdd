import FlatRecord.Bytes
import FlatRecord.Error
import FlatRecord.Layout

/-! A region that is filled from its end towards its front. A place is named by its distance from the
end, so it stays the same place when the region grows at the front. -/
namespace FlatRecord

/-- `cells[d]` is the byte whose distance from the end is `d + 1`; the first `used` of them are written.
Cells past those are left over from before the region was cleared, and the rest of the capacity is zero. -/
structure Region where
  cells : Bytes
  used : Nat
  capacity : Nat
  maxSize : Nat
deriving Repr, DecidableEq

namespace Region

def new (initialCapacity maxSize : Nat) : Region :=
  { cells := #[], used := 0, capacity := min initialCapacity maxSize, maxSize }

/-- Twice `capacity` again and again until `required` fits. -/
def doubled (required capacity : Nat) : Nat :=
  if 0 < capacity ∧ capacity < required then doubled required (2 * capacity) else capacity
termination_by required - capacity

/-- The capacity that `count` more bytes need. -/
def room (r : Region) (count : Nat) : Except Error Nat :=
  if count ≤ r.capacity - r.used then .ok r.capacity
  else if wordLimit ≤ r.used + count then .error (.sizeLimit largestWord r.maxSize)
  else if r.maxSize < r.used + count then .error (.sizeLimit (r.used + count) r.maxSize)
  else .ok (min (doubled (r.used + count) (max r.capacity 64)) r.maxSize)

def put (cells : Bytes) (d : Nat) (b : UInt8) : Bytes :=
  if d < cells.size then cells.setIfInBounds d b
  else (cells ++ Array.replicate (d - cells.size) 0).push b

/-- Stores `bytes` one after the other, ever farther from the end. -/
def putAll (cells : Bytes) : (d : Nat) → List UInt8 → Bytes
  | _, [] => cells
  | d, b :: rest => putAll (put cells d b) (d + 1) rest

/-- Moves to a larger capacity, which only the written bytes survive. -/
def grow (r : Region) (capacity : Nat) : Region :=
  if capacity = r.capacity then r
  else { r with cells := r.cells.take r.used, capacity }

/-- Puts `bytes` in front of the written ones. The capacity comes from `room`. -/
def extend (r : Region) (capacity : Nat) (bytes : List UInt8) : Region :=
  let r := r.grow capacity
  { r with cells := putAll r.cells r.used bytes.reverse, used := r.used + bytes.length }

/-- Puts `bytes` in front of the written ones, within the size limit. -/
def push (r : Region) (bytes : List UInt8) : Except Error Region :=
  (r.room bytes.length).map (r.extend · bytes)

/-- `length` zeros in front of the written bytes. -/
def reserve (r : Region) (length : Nat) : Except Error Region := do
  let capacity ← r.room length
  return r.extend capacity (List.replicate length 0)

def byteAt (r : Region) (d : Nat) : UInt8 := r.cells[d]?.getD 0

/-- The `length` bytes from distance `d` towards the end, without a check. -/
def bytesAt (r : Region) (d length : Nat) : List UInt8 :=
  (List.range length).map fun i => r.byteAt (d - 1 - i)

def within (r : Region) (d length : Nat) : Except Error Unit :=
  if d ≤ r.capacity ∧ length ≤ d then .ok ()
  else .error (.outside (r.capacity - d) (r.capacity - d + length) r.capacity)

/-- The `length` bytes from distance `d` towards the end. -/
def read (r : Region) (d length : Nat) : Except Error (List UInt8) :=
  (r.within d length).map fun _ => r.bytesAt d length

/-- Replaces bytes from distance `d` towards the end, without a check. -/
def overwrite (r : Region) (d : Nat) (bytes : List UInt8) : Region :=
  { r with cells := putAll r.cells (d - bytes.length) bytes.reverse }

/-- Replaces bytes from distance `d` towards the end. -/
def write (r : Region) (d : Nat) (bytes : List UInt8) : Except Error Region :=
  (r.within d bytes.length).map fun _ => r.overwrite d bytes

/-- The written bytes, from the front. -/
def data (r : Region) : Bytes := (r.cells.take r.used).reverse

/-- The whole allocation, from its front. The written bytes are at its end. -/
def allocation (r : Region) : Bytes :=
  Array.ofFn fun i : Fin r.capacity => r.byteAt (r.capacity - 1 - i)

/-- The written bytes, the allocation without its unwritten front. -/
def intoBytes (r : Region) : Bytes := r.allocation.drop (r.capacity - r.used)

/-- Forgets what is written and keeps the capacity. -/
def clear (r : Region) : Region := { r with used := 0 }

end Region

end FlatRecord
