import FlatRecord.Reading.Options
import FlatRecord.Storage.Place

/-! Buffers in files. A file that is made takes the place of whatever was there. -/
namespace FlatRecord.Storage

/-- A buffer that a file holds. It is never empty. -/
structure StoredBuffer where
  bytes : Bytes
  nonempty : bytes.size ≠ 0

/-- The file that holds the given bytes from then on. Empty bytes are refused before the place is looked
at. -/
def create (place : Place) (bytes : Bytes) : Except FileError StoredBuffer :=
  if h : bytes.size = 0 then .error .emptyBuffer
  else match place.refusal? with
    | some e => .error e
    | none => .ok ⟨bytes, h⟩

def openFile (place : Place) : Except FileError StoredBuffer := do
  let bytes ← place.contents
  if h : bytes.size = 0 then .error .emptyFile else .ok ⟨bytes, h⟩

def StoredBuffer.view (s : StoredBuffer) : Except Error Buffer := Buffer.ofBytes s.bytes

def StoredBuffer.viewWith (s : StoredBuffer) (options : ReaderOptions) (schema : Schema) :
    Except Error Buffer :=
  Buffer.openWith s.bytes options schema

end FlatRecord.Storage
