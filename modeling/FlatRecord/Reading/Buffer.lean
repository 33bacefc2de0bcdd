import FlatRecord.Reading.Table

/-! Finished buffers, with or without a size in front. -/
namespace FlatRecord

open Reading

structure Buffer where
  bytes : Bytes
  /-- Where the offset to the root record stands: at the front, or behind the size. -/
  rootAt : Nat
deriving DecidableEq, Repr

namespace Buffer

/-- Checks only that there is room for the offset to the root. -/
def ofBytes (bytes : Bytes) : Except Error Buffer :=
  if bytes.size < offsetSize then .error (.truncated offsetSize bytes.size)
  else .ok { bytes, rootAt := 0 }

/-- The size in front says how many bytes follow; what comes after those is left alone. -/
def ofSizePrefixed (bytes : Bytes) : Except Error Buffer := do
  if bytes.size < 2 * offsetSize then throw (.truncated (2 * offsetSize) bytes.size)
  let length ← nat bytes 0 offsetSize
  let total := offsetSize + length
  if bytes.size < total then throw (.truncated total bytes.size)
  if length < offsetSize then throw (.corrupt 0 .shortSizePrefix)
  return { bytes := bytes.take total, rootAt := offsetSize }

/-- The four bytes behind the offset to the root, if there are so many. -/
def identifier? (b : Buffer) : Option Bytes :=
  let start := b.rootAt + offsetSize
  if start + identifierSize ≤ b.bytes.size then
    some (b.bytes.extract start (start + identifierSize))
  else none

def hasIdentifier (b : Buffer) (id : Identifier) : Bool := b.identifier? == some id.toArray

def root (b : Buffer) : Except Error Table := do
  Table.read b.bytes (← follow b.bytes b.rootAt)

end Buffer

end FlatRecord
