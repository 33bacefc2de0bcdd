import FlatRecord.Bytes
import FlatRecord.FloatFormat
import FlatRecord.Scalar.Type

/-! Scalar values, and their patterns of bits. A pattern is a number below `256 ^ size`, written with the
least significant byte first. -/
namespace FlatRecord

/-- Floats are kept as bit patterns, so that a NaN keeps its payload and zero its sign. -/
inductive Scalar where
  | bool (v : Bool)
  | int8 (v : Int8)
  | uint8 (v : UInt8)
  | int16 (v : Int16)
  | uint16 (v : UInt16)
  | int32 (v : Int32)
  | uint32 (v : UInt32)
  | int64 (v : Int64)
  | uint64 (v : UInt64)
  | float32 (bits : UInt32)
  | float64 (bits : UInt64)
deriving DecidableEq, Repr, Inhabited

namespace Scalar

def type : Scalar → ScalarType
  | bool _ => .bool
  | int8 _ => .int8
  | uint8 _ => .uint8
  | int16 _ => .int16
  | uint16 _ => .uint16
  | int32 _ => .int32
  | uint32 _ => .uint32
  | int64 _ => .int64
  | uint64 _ => .uint64
  | float32 _ => .float32
  | float64 _ => .float64

def bits : Scalar → Nat
  | bool v => v.toNat
  | int8 v => v.toUInt8.toNat
  | uint8 v => v.toNat
  | int16 v => v.toUInt16.toNat
  | uint16 v => v.toNat
  | int32 v => v.toUInt32.toNat
  | uint32 v => v.toNat
  | int64 v => v.toUInt64.toNat
  | uint64 v => v.toNat
  | float32 bits => bits.toNat
  | float64 bits => bits.toNat

/-- Every pattern but zero is true as a `bool`. -/
def ofBits (t : ScalarType) (n : Nat) : Scalar :=
  match t with
  | .bool => bool (n != 0)
  | .int8 => int8 (Int8.ofNat n)
  | .uint8 => uint8 (UInt8.ofNat n)
  | .int16 => int16 (Int16.ofNat n)
  | .uint16 => uint16 (UInt16.ofNat n)
  | .int32 => int32 (Int32.ofNat n)
  | .uint32 => uint32 (UInt32.ofNat n)
  | .int64 => int64 (Int64.ofNat n)
  | .uint64 => uint64 (UInt64.ofNat n)
  | .float32 => float32 (UInt32.ofNat n)
  | .float64 => float64 (UInt64.ofNat n)

def size (s : Scalar) : Nat := s.type.size

def zero (t : ScalarType) : Scalar := ofBits t 0

def toBytes (s : Scalar) : List UInt8 := LittleEndian.encode s.size s.bits

/-- The value in the first `t.size` bytes. -/
def ofBytes (t : ScalarType) (bytes : List UInt8) : Scalar :=
  ofBits t (LittleEndian.decode (bytes.take t.size))

/-- Equality as numbers of one type: unlike equality of patterns it tells a NaN from itself and makes the
two zeros equal. -/
def sameNumber : Scalar → Scalar → Bool
  | float32 a, float32 b => FloatFormat.binary32.sameNumber a.toNat b.toNat
  | float64 a, float64 b => FloatFormat.binary64.sameNumber a.toNat b.toNat
  | a, b => a == b

theorem type_ofBits (t : ScalarType) (n : Nat) : (ofBits t n).type = t := by cases t <;> rfl

theorem ofBits_bits (s : Scalar) : ofBits s.type s.bits = s := by
  cases s <;> simp only [ofBits, bits, type, UInt8.ofNat_toNat, UInt16.ofNat_toNat,
    UInt32.ofNat_toNat, UInt64.ofNat_toNat]
  case bool v => cases v <;> rfl
  case int8 => exact congrArg int8 (Int8.toBitVec_inj.1 (by simp))
  case int16 => exact congrArg int16 (Int16.toBitVec_inj.1 (by simp))
  case int32 => exact congrArg int32 (Int32.toBitVec_inj.1 (by simp))
  case int64 => exact congrArg int64 (Int64.toBitVec_inj.1 (by simp))

theorem bits_lt (s : Scalar) : s.bits < 256 ^ s.size := by
  cases s with
  | bool v => cases v <;> decide
  | int8 v => exact v.toUInt8.toNat_lt
  | uint8 v => exact v.toNat_lt
  | int16 v => exact v.toUInt16.toNat_lt
  | uint16 v => exact v.toNat_lt
  | int32 v => exact v.toUInt32.toNat_lt
  | uint32 v => exact v.toNat_lt
  | int64 v => exact v.toUInt64.toNat_lt
  | uint64 v => exact v.toNat_lt
  | float32 v => exact v.toNat_lt
  | float64 v => exact v.toNat_lt

theorem length_toBytes (s : Scalar) : s.toBytes.length = s.size := by simp [toBytes]

/-- Reading at a value's own type gives back the same pattern, whatever follows. -/
theorem ofBytes_toBytes (s : Scalar) (rest : List UInt8) : ofBytes s.type (s.toBytes ++ rest) = s := by
  have take : (s.toBytes ++ rest).take s.type.size = s.toBytes :=
    List.take_left' s.length_toBytes
  rw [ofBytes, take, toBytes, LittleEndian.decode_encode, Nat.mod_eq_of_lt s.bits_lt, ofBits_bits]

end Scalar

end FlatRecord
