import FlatRecord.Decimal.Shortest
import FlatRecord.Scalar.Basic

/-! The text of a scalar. -/
namespace FlatRecord.Scalar

def text : Scalar → String
  | bool v => if v then "true" else "false"
  | int8 v => toString v.toInt
  | uint8 v => toString v.toNat
  | int16 v => toString v.toInt
  | uint16 v => toString v.toNat
  | int32 v => toString v.toInt
  | uint32 v => toString v.toNat
  | int64 v => toString v.toInt
  | uint64 v => toString v.toNat
  | float32 bits => Decimal.ofBits FloatFormat.binary32 bits.toNat
  | float64 bits => Decimal.ofBits FloatFormat.binary64 bits.toNat

end FlatRecord.Scalar
