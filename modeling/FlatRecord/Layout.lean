import FlatRecord.Powers

/-! Sizes and limits of the wire format. All sizes are 64-bit words. -/
namespace FlatRecord

/-- One more than the largest word. -/
def wordLimit : Nat := 2 ^ 64

def largestWord : Nat := 2 ^ 64 - 1

/-- The remainder that a sum or product of words leaves in a word. -/
def word (n : Nat) : Nat := n % wordLimit

/-- The size of an offset to an object, of a count and of a size prefix. -/
def offsetSize : Nat := 4

/-- The size of a field table's entry, and of each of its two header entries. -/
def entrySize : Nat := 2

def identifierSize : Nat := 4

/-- The bytes that tell what a file holds. -/
abbrev Identifier := Vector UInt8 identifierSize

/-- A field table begins with its own length and the length of its record. -/
def tableHeaderSize : Nat := 2 * entrySize

/-- Finished buffers stay small enough for every offset to be a signed 32-bit number. -/
def largestBuffer : Nat := 2 ^ 31 - 1

/-- The length of a record is stored in 16 bits. -/
def largestRecord : Nat := 2 ^ 16 - 1

/-- The number of slots whose entries a field table with a 16-bit length can hold. -/
def slotLimit : Nat := (2 ^ 16 - 1 - tableHeaderSize) / entrySize

/-- The bytes that bring `length` to a multiple of `alignment`, a power of two: the low bits of the
negated length, in word arithmetic. -/
def padding (length alignment : Nat) : Nat :=
  word (wordLimit - word length) &&& word (alignment + largestWord)

end FlatRecord
