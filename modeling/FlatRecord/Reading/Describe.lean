import FlatRecord.Reading.Buffer
import FlatRecord.Reading.Field
import FlatRecord.Text.Quoted
import FlatRecord.Text.Utf8

/-! One-line descriptions of what was read, for people. -/
namespace FlatRecord

/-- A name, and named parts in braces. -/
def describeParts (name : String) (parts : List (String × String)) : String :=
  name ++ " \x7b " ++ ", ".intercalate (parts.map fun part => part.1 ++ ": " ++ part.2) ++ " \x7d"

def Buffer.describe (b : Buffer) : String :=
  describeParts "BufferView" [("len", toString b.bytes.size), ("root_at", toString b.rootAt)]

def Table.describe (t : Table) : String :=
  describeParts "TableView"
    [("pos", toString t.position), ("slots", toString t.slotCount),
      ("inline_size", toString t.inlineSize)]

def TypedVector.describe (v : TypedVector) : String :=
  describeParts "VectorView" [("start", toString v.start), ("len", toString v.length)]

def StructVector.describe (_ : StructVector) : String := "StructVectorView"

def ResolvedElement.describe : ResolvedElement → String
  | scalar type => "Scalar(" ++ type.code ++ ")"
  | text => "String"
  | record _ => "Record"
  | struct type => describeParts "Struct" [("size", toString type.size)]

def FieldVector.describe (v : FieldVector) : String :=
  describeParts "DynVector" [("element", v.element.describe), ("len", toString v.length)]

namespace Reading

def describeText (bytes : Bytes) : String := Text.quoted (Text.lossy bytes)

def describeStruct (bytes : Bytes) : String := "StructView(" ++ toString bytes.size ++ " bytes)"

end Reading

end FlatRecord
