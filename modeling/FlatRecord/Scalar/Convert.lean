import FlatRecord.Scalar.Basic

/-! Conversions between scalar types. An integer keeps its value or is refused; a float takes the nearest
value of its type. -/
namespace FlatRecord

namespace ScalarType

/-- The least and the greatest integer of an integer type. -/
def bounds : ScalarType → Option (Int × Int)
  | int8 => some (-2 ^ 7, 2 ^ 7 - 1)
  | uint8 => some (0, 2 ^ 8 - 1)
  | int16 => some (-2 ^ 15, 2 ^ 15 - 1)
  | uint16 => some (0, 2 ^ 16 - 1)
  | int32 => some (-2 ^ 31, 2 ^ 31 - 1)
  | uint32 => some (0, 2 ^ 32 - 1)
  | int64 => some (-2 ^ 63, 2 ^ 63 - 1)
  | uint64 => some (0, 2 ^ 64 - 1)
  | bool | float32 | float64 => none

end ScalarType

namespace Scalar

/-- The integer that a value stands for, a truth value counting as 0 or 1. -/
def integer? : Scalar → Option Int
  | bool v => some v.toNat
  | int8 v => some v.toInt
  | uint8 v => some v.toNat
  | int16 v => some v.toInt
  | uint16 v => some v.toNat
  | int32 v => some v.toInt
  | uint32 v => some v.toNat
  | int64 v => some v.toInt
  | uint64 v => some v.toNat
  | float32 _ | float64 _ => none

/-- The integer that a value stands for, where it is a signed 64-bit one. -/
def signed? (s : Scalar) : Option Int := s.integer?.filter (· < 2 ^ 63)

/-- The nearest value of type `t`; an integer type refuses what it cannot hold. -/
def ofInt? (t : ScalarType) (v : Int) : Option Scalar :=
  match t with
  | .bool => some (bool (v != 0))
  | .float32 => some (float32 (UInt32.ofNat (FloatFormat.binary32.ofInt v)))
  | .float64 => some (float64 (UInt64.ofNat (FloatFormat.binary64.ofInt v)))
  | t =>
    match t.bounds with
    | some (least, greatest) =>
      if least ≤ v ∧ v ≤ greatest then some (ofBits t (v % 2 ^ 64).toNat) else none
    | none => none

/-- The pattern of the nearest binary64 number. -/
def binary64 : Scalar → UInt64
  | float32 bits =>
    UInt64.ofNat (FloatFormat.convert FloatFormat.binary32 FloatFormat.binary64 bits.toNat)
  | float64 bits => bits
  | s => UInt64.ofNat (FloatFormat.binary64.ofInt (s.integer?.getD 0))

/-- The value as type `t`. A truth value is never converted, nor is a float to an integer. A float type
is reached by way of binary64. -/
def convert? (s : Scalar) (t : ScalarType) : Option Scalar :=
  if s.type = t then some s
  else if s.type = .bool ∨ t = .bool then none
  else
    match t with
    | .float32 =>
      some (float32 (UInt32.ofNat
        (FloatFormat.convert FloatFormat.binary64 FloatFormat.binary32 s.binary64.toNat)))
    | .float64 => some (float64 s.binary64)
    | t => s.signed?.bind (ofInt? t)

end Scalar

end FlatRecord
