import FlatRecord.Powers

/-! Binary floating-point formats as bit patterns, in exact integer arithmetic. Conversions round to the
nearest value of the target format, ties to the even bit pattern. -/
namespace FlatRecord

/-- An interchange format: a sign bit, `exponent` bits, then `fraction` bits. -/
structure FloatFormat where
  fraction : Nat
  exponent : Nat
deriving DecidableEq, Repr

namespace FloatFormat

def binary32 : FloatFormat := ⟨23, 8⟩
def binary64 : FloatFormat := ⟨52, 11⟩

/-- What a bit pattern stands for, its sign apart. `finite m q` is `m * 2 ^ q`. -/
inductive Magnitude where
  | finite (significand : Nat) (power : Int)
  | infinite
  | nan (payload : Nat)
deriving DecidableEq, Repr

def signWeight (f : FloatFormat) : Nat := 2 ^ (f.fraction + f.exponent)

/-- The pattern of infinity; the patterns above it are the NaNs. -/
def infinity (f : FloatFormat) : Nat := (2 ^ f.exponent - 1) * 2 ^ f.fraction

/-- The power of two of the last place of the subnormal numbers. -/
def leastPower (f : FloatFormat) : Int := 2 - 2 ^ (f.exponent - 1) - f.fraction

def isNegative (f : FloatFormat) (bits : Nat) : Bool := f.signWeight ≤ bits

def isNaN (f : FloatFormat) (bits : Nat) : Bool := f.infinity < bits % f.signWeight

/-- Numeric equality: a NaN equals nothing, and the two zeros are equal. -/
def sameNumber (f : FloatFormat) (a b : Nat) : Bool :=
  !f.isNaN a && !f.isNaN b && (a == b || (a % f.signWeight == 0 && b % f.signWeight == 0))

def magnitude (f : FloatFormat) (bits : Nat) : Magnitude :=
  let biased := bits % f.signWeight / 2 ^ f.fraction
  let fraction := bits % 2 ^ f.fraction
  if biased = 2 ^ f.exponent - 1 then
    if fraction = 0 then .infinite else .nan fraction
  else if biased = 0 then .finite fraction f.leastPower
  else .finite (2 ^ f.fraction + fraction) (f.leastPower + (biased - 1 : Nat))

/-- `n / 2 ^ shift` to the nearest integer, a half to the even one. -/
def roundShift (n shift : Nat) : Nat :=
  let quotient := n / 2 ^ shift
  let excess := 2 * (n % 2 ^ shift)
  if excess < 2 ^ shift || (excess == 2 ^ shift && quotient % 2 == 0) then quotient else quotient + 1

/-- The pattern nearest to `n * 2 ^ power`. Patterns of one sign are ordered like their values, so a
significand that rounds up to the next power of two carries into the exponent, and what passes the
largest finite value lands on infinity or above it. -/
def nearest (f : FloatFormat) (n : Nat) (power : Int) : Nat :=
  let last := max (power + Nat.log2 n - f.fraction) f.leastPower
  let significand :=
    if last ≤ power then n * 2 ^ (power - last).toNat else roundShift n (last - power).toNat
  if n = 0 then 0
  else min ((last - f.leastPower).toNat * 2 ^ f.fraction + significand) f.infinity

def withSign (f : FloatFormat) (negative : Bool) (bits : Nat) : Nat :=
  if negative then f.signWeight + bits else bits

def ofInt (f : FloatFormat) (v : Int) : Nat :=
  f.withSign (decide (v < 0)) (f.nearest v.natAbs 0)

/-- A NaN keeps its sign and the leading bits of its payload and becomes quiet. -/
def convert (source target : FloatFormat) (bits : Nat) : Nat :=
  target.withSign (source.isNegative bits) <|
    match source.magnitude bits with
    | .finite n power => target.nearest n power
    | .infinite => target.infinity
    | .nan payload =>
      let kept := payload * 2 ^ target.fraction / 2 ^ source.fraction
      target.infinity + (kept ||| 2 ^ (target.fraction - 1))

end FloatFormat

end FlatRecord
