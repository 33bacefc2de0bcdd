/-! The fixed-width scalar types of the wire format. -/
namespace FlatRecord

inductive ScalarType where
  | bool | int8 | uint8 | int16 | uint16 | int32 | uint32 | int64 | uint64 | float32 | float64
deriving DecidableEq, Repr, Inhabited

namespace ScalarType

def all : List ScalarType :=
  [bool, int8, uint8, int16, uint16, int32, uint32, int64, uint64, float32, float64]

/-- The number of bytes of a value, which is also its natural alignment. -/
def size : ScalarType → Nat
  | bool | int8 | uint8 => 1
  | int16 | uint16 => 2
  | int32 | uint32 | float32 => 4
  | int64 | uint64 | float64 => 8

def name : ScalarType → String
  | bool => "bool"
  | int8 => "int8"
  | uint8 => "uint8"
  | int16 => "int16"
  | uint16 => "uint16"
  | int32 => "int32"
  | uint32 => "uint32"
  | int64 => "int64"
  | uint64 => "uint64"
  | float32 => "float32"
  | float64 => "float64"

/-- The short name of a type, as element descriptions give it. -/
def code : ScalarType → String
  | bool => "Bool"
  | int8 => "I8"
  | uint8 => "U8"
  | int16 => "I16"
  | uint16 => "U16"
  | int32 => "I32"
  | uint32 => "U32"
  | int64 => "I64"
  | uint64 => "U64"
  | float32 => "F32"
  | float64 => "F64"

theorem size_pos (t : ScalarType) : 0 < t.size := by cases t <;> decide

end ScalarType

end FlatRecord
