import FlatRecord.Builder.Basic
import FlatRecord.Text.Utf8

/-! Texts: a count, the bytes, and a zero byte that the count leaves out. -/
namespace FlatRecord.Builder

def createUnchecked (bytes : List UInt8) : Build (Ref .text) := do
  ensureIdle
  if 2 ^ 32 ≤ bytes.length then throw (.sizeLimit bytes.length (← get).config.maxSize)
  align (bytes.length + 1) offsetSize
  write [0]
  write bytes
  write (LittleEndian.encode offsetSize bytes.length)
  hereAs .text

def createText (text : String) : Build (Ref .text) := createUnchecked (Text.toBytes text).toList

/-- Bytes in the form of a text. They need not be UTF-8 unless the configuration says so. -/
def createBytes (bytes : Bytes) : Build (Ref .text) := do
  if (← get).config.validateText ∧ (Text.toText? bytes).isNone then throw .invalidText
  createUnchecked bytes.toList

end FlatRecord.Builder
