import FlatRecord.Proofs.Codec.Structs

/-! Scalars from one type to another, as far as integers go. On the way an integer is a signed one of 64 bits, which
cannot hold the greater half of the unsigned ones. Nothing is lost by that, nor refused without need: what comes out
is the value of the new type that stands for the same integer, wherever there is one. -/
namespace FlatRecord

open Encoding

namespace ScalarType

def IsFloat (t : ScalarType) : Prop := t = .float32 ∨ t = .float64

/-- A truth value counts as 0 or 1, but is no integer. -/
def IsInteger : ScalarType → Prop
  | .int8 | .int16 | .int32 | .int64 | .uint8 | .uint16 | .uint32 | .uint64 => True
  | .bool | .float32 | .float64 => False

/-- The integers of as many bits as the type has, in two's complement where it has a sign. -/
def Represents (t : ScalarType) (n : Int) : Prop :=
  match t with
  | .int8 | .int16 | .int32 | .int64 => -2 ^ (8 * t.size - 1) ≤ n ∧ n < 2 ^ (8 * t.size - 1)
  | .uint8 | .uint16 | .uint32 | .uint64 => 0 ≤ n ∧ n < 2 ^ (8 * t.size)
  | .bool | .float32 | .float64 => False

variable {t : ScalarType} {n : Int}

theorem IsInteger.ne_bool (whole : t.IsInteger) : t ≠ .bool := by
  rintro rfl
  exact whole

theorem IsFloat.not_integer (float : t.IsFloat) : ¬t.IsInteger := by
  rcases float with rfl | rfl <;> exact id

/-- Only the largest unsigned type goes beyond signed 64-bit integers. -/
theorem Represents.eq_uint64 (inside : t.Represents n) (great : 2 ^ 63 ≤ n) : t = .uint64 := by
  cases t with
  | uint64 => rfl
  | bool | float32 | float64 => exact inside.elim
  | _ =>
    simp only [Represents, size] at inside
    omega

end ScalarType

namespace Scalar

variable {v w : Scalar} {t : ScalarType} {n : Int}

theorem represents_integer (whole : v.type.IsInteger) : ∃ n, v.integer? = some n ∧ v.type.Represents n := by
  cases v with
  | bool | float32 | float64 => exact whole.elim
  | int8 v | int16 v | int32 v | int64 v => exact ⟨v.toInt, rfl, v.le_toInt, v.toInt_lt⟩
  | uint8 v | uint16 v | uint32 v | uint64 v =>
    exact ⟨v.toNat, rfl, Int.natCast_nonneg _, Int.ofNat_lt.2 v.toNat_lt⟩

/-- No two values of an integer type stand for the same integer. -/
theorem eq_of_integer (whole : v.type.IsInteger) (types : v.type = w.type) (same : v.integer? = w.integer?) :
    v = w := by
  cases v <;> cases w <;> cases types
  case bool.bool | float32.float32 | float64.float64 => exact whole.elim
  all_goals
    simpa only [integer?, Option.some.injEq, Int.natCast_inj, Int8.toInt_inj, Int16.toInt_inj, Int32.toInt_inj,
      Int64.toInt_inj, UInt8.toNat_inj, UInt16.toNat_inj, UInt32.toNat_inj, UInt64.toNat_inj, int8.injEq, uint8.injEq,
      int16.injEq, uint16.injEq, int32.injEq, uint32.injEq, int64.injEq, uint64.injEq] using same

theorem ofInt?_isSome (whole : t.IsInteger) : (ofInt? t n).isSome ↔ t.Represents n := by
  cases t with
  | bool | float32 | float64 => exact whole.elim
  | _ =>
    simp only [ofInt?, ScalarType.bounds, ScalarType.Represents, ScalarType.size, Option.isSome_ite]
    omega

theorem ofInt?_eq_none (whole : t.IsInteger) (outside : ¬t.Represents n) : ofInt? t n = none :=
  Option.not_isSome_iff_eq_none.1 (mt (ofInt?_isSome whole).1 outside)

theorem integer_ofInt (held : ofInt? t n = some w) (whole : t.IsInteger) : w.integer? = some n := by
  cases t with
  | bool | float32 | float64 => exact whole.elim
  | int8 | int16 | int32 | int64 =>
    simp only [ofInt?, ScalarType.bounds, Option.ite_none_right_eq_some, Option.some.injEq] at held
    obtain ⟨inside, rfl⟩ := held
    simp only [ofBits, integer?, Option.some.injEq, Int.bmod_def, Int8.toInt_ofNat', Int16.toInt_ofNat',
      Int32.toInt_ofNat', Int64.toInt_ofNat', Int8.size, Int16.size, Int32.size, Int64.size]
    omega
  | uint8 | uint16 | uint32 | uint64 =>
    simp only [ofInt?, ScalarType.bounds, Option.ite_none_right_eq_some, Option.some.injEq] at held
    obtain ⟨inside, rfl⟩ := held
    simp only [ofBits, integer?, Option.some.injEq, UInt8.toNat_ofNat', UInt16.toNat_ofNat',
      UInt32.toNat_ofNat', UInt64.toNat_ofNat']
    omega

/-- An integer type takes an integer as the value that stands for it, or not at all. -/
theorem ofInt?_eq_some_iff (whole : t.IsInteger) : ofInt? t n = some w ↔ w.type = t ∧ w.integer? = some n := by
  constructor
  · intro held
    exact ⟨type_ofInt held, integer_ofInt held whole⟩
  · rintro ⟨rfl, stands⟩
    obtain ⟨m, stands', inside⟩ := represents_integer whole
    cases stands.symm.trans stands'
    obtain ⟨w', held⟩ := Option.isSome_iff_exists.1 ((ofInt?_isSome whole).2 inside)
    rw [held, eq_of_integer whole (type_ofInt held).symm (stands.trans (integer_ofInt held whole).symm)]

theorem signed_float (float : v.type.IsFloat) : v.signed? = none := by
  cases v with
  | float32 | float64 => rfl
  | _ => rcases float with same | same <;> cases same

theorem convert?_bool (mixed : Xor (v.type = .bool) (t = .bool)) : v.convert? t = none := by
  unfold convert?
  rcases mixed with ⟨truth, other⟩ | ⟨truth, other⟩
  · rw [if_neg (truth ▸ Ne.symm other), if_pos (.inl truth)]
  · rw [if_neg (truth ▸ other), if_pos (.inr truth)]

theorem convert?_of_ne (number : v.type ≠ .bool) (whole : t.IsInteger) (other : v.type ≠ t) :
    v.convert? t = v.signed?.bind (ofInt? t) := by
  unfold convert?
  rw [if_neg other, if_neg (not_or.2 ⟨number, whole.ne_bool⟩)]
  cases t with
  | bool | float32 | float64 => exact whole.elim
  | _ => rfl

theorem convert?_float (float : v.type.IsFloat) (whole : t.IsInteger) : v.convert? t = none := by
  have other : v.type ≠ t := fun same => float.not_integer (same ▸ whole)
  have number : v.type ≠ .bool := by rcases float with same | same <;> rw [same] <;> decide
  rw [convert?_of_ne number whole other, signed_float float]
  rfl

/-- Neither the way through signed 64-bit integers nor the shortcut past it can be told from a direct conversion. -/
theorem convert?_eq_ofInt? (whole : v.type.IsInteger) (whole' : t.IsInteger) (stands : v.integer? = some n) :
    v.convert? t = ofInt? t n := by
  by_cases same : v.type = t
  · rw [(ofInt?_eq_some_iff whole').2 ⟨same, stands⟩]
    exact if_pos same
  · rw [convert?_of_ne whole.ne_bool whole' same, signed?, stands]
    by_cases small : n < 2 ^ 63
    · have passes : (some n).filter (fun i => decide (i < 2 ^ 63)) = some n := if_pos (decide_eq_true small)
      rw [passes]
      rfl
    · -- Only `uint64` has integers as great as this, and one of the two types is another.
      obtain ⟨m, stands', inside⟩ := represents_integer whole
      cases stands.symm.trans stands'
      have outside : ¬t.Represents n := fun inside' =>
        same ((inside.eq_uint64 (Int.not_lt.1 small)).trans (inside'.eq_uint64 (Int.not_lt.1 small)).symm)
      rw [Option.filter_some_neg (by simpa using small), ofInt?_eq_none whole' outside]
      rfl

end Scalar

theorem Encoding.coerce_refused {v : Scalar} {t : ScalarType} (refused : v.convert? t = none) (field : String) :
    coerce v t field = .error (.schema (.scalarType field t v.type)) := by
  rw [coerce, refused]

/-- Conversions between integer types are exact: they succeed for the integers that the new type represents, and give
the same integer. No truth value becomes anything else nor the other way round, and no float becomes an integer. -/
theorem integer_coercion_exact (v : Scalar) (t : ScalarType) (field : String) :
    (v.type.IsInteger → t.IsInteger → ∃ n, v.integer? = some n ∧
      ((∃ w, coerce v t field = .ok w) ↔ t.Represents n) ∧
      (∀ w, coerce v t field = .ok w → w.type = t ∧ w.integer? = some n) ∧
      (¬t.Represents n → coerce v t field = .error (.schema (.scalarType field t v.type)))) ∧
    (Xor (v.type = .bool) (t = .bool) ∨ v.type.IsFloat ∧ t.IsInteger →
      coerce v t field = .error (.schema (.scalarType field t v.type))) := by
  constructor
  · intro whole whole'
    obtain ⟨n, stands, -⟩ := Scalar.represents_integer whole
    have direct : v.convert? t = Scalar.ofInt? t n := Scalar.convert?_eq_ofInt? whole whole' stands
    refine ⟨n, stands, ?_, fun w coerced => ?_, fun outside => ?_⟩
    · simp only [coerce_eq_ok, direct, ← Scalar.ofInt?_isSome whole', Option.isSome_iff_exists]
    · rw [coerce_eq_ok, direct] at coerced
      exact (Scalar.ofInt?_eq_some_iff whole').1 coerced
    · exact coerce_refused (direct.trans (Scalar.ofInt?_eq_none whole' outside)) field
  · rintro (mixed | ⟨float, whole⟩)
    · exact coerce_refused (Scalar.convert?_bool mixed) field
    · exact coerce_refused (Scalar.convert?_float float whole) field

/-- The least integer of 16 bits comes out of a wider type. A word too great to have a sign, a truth value and a whole
float are refused. -/
theorem leastShort_coerced :
    (Scalar.int64 (-32768)).type.IsInteger ∧ ScalarType.int16.IsInteger ∧
    (∃ w, coerce (.int64 (-32768)) .int16 "hp" = .ok w ∧ w.type = .int16 ∧ w.integer? = some (-32768)) ∧
    coerce (.uint64 0x8000000000000000) .int64 "hp" = .error (.schema (.scalarType "hp" .int64 .uint64)) ∧
    coerce (.bool true) .int16 "hp" = .error (.schema (.scalarType "hp" .int16 .bool)) ∧
    coerce (.float64 0x4059000000000000) .int16 "hp" = .error (.schema (.scalarType "hp" .int16 .float64)) := by
  refine ⟨trivial, trivial, ?_, ?_, ?_, ?_⟩
  · obtain ⟨n, stands, succeeds, keeps, -⟩ := (integer_coercion_exact (.int64 (-32768)) .int16 "hp").1 trivial trivial
    cases stands
    obtain ⟨w, coerced⟩ := succeeds.2 ⟨by decide, by decide⟩
    exact ⟨w, coerced, keeps w coerced⟩
  · obtain ⟨n, stands, -, -, refused⟩ :=
      (integer_coercion_exact (.uint64 0x8000000000000000) .int64 "hp").1 trivial trivial
    cases stands
    exact refused fun inside => absurd inside.2 (by decide +kernel)
  · exact (integer_coercion_exact (.bool true) .int16 "hp").2 (.inl (.inl ⟨rfl, by decide⟩))
  · exact (integer_coercion_exact (.float64 0x4059000000000000) .int16 "hp").2 (.inr ⟨.inr rfl, trivial⟩)

end FlatRecord
