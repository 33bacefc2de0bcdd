import FlatRecord.FloatFormat

/-! The shortest decimal that reads back as a given binary floating-point number. Every bound that
matters is an exact decimal, since `2 ^ (-k)` is `5 ^ k * 10 ^ (-k)`, so the search is over integers. -/
namespace FlatRecord.Decimal

/-- `coefficient * 10 ^ exponent`. -/
structure Numeral where
  coefficient : Nat
  exponent : Int
deriving DecidableEq, Repr

def digitCount (n : Nat) : Nat := (Nat.toDigits 10 n).length

/-- The numbers that read back, and the number itself, as multiples of one power of ten. The ends
belong to the interval when `closed` holds. -/
structure Interval where
  low : Nat
  value : Nat
  high : Nat
  closed : Bool
deriving Repr

def Interval.contains (i : Interval) (n : Nat) : Bool :=
  if i.closed then i.low ≤ n && n ≤ i.high else i.low < n && n < i.high

/-- The neighbours of the value on the grid of multiples of `10 ^ grid`, the nearer first and the upper
one on a tie, and then those on the next finer grid. The last grid holds the value itself. -/
def Interval.shortest (i : Interval) : (grid : Nat) → Nat × Nat
  | 0 => (i.value, 0)
  | grid + 1 =>
    let step := 10 ^ (grid + 1)
    let down := i.value / step
    let up := down + 1
    let upperFirst := step ≤ 2 * (i.value % step)
    if i.contains (up * step) && (upperFirst || !i.contains (down * step)) then (up, grid + 1)
    else if i.contains (down * step) then (down, grid + 1)
    else i.shortest grid

/-- The interval around `significand * 2 ^ power` reaches half-way to each neighbour. The lower
neighbour is only half as far away where the exponent steps down. -/
def shortest (f : FloatFormat) (significand : Nat) (power : Int) : Numeral :=
  let gap := if significand = 2 ^ f.fraction ∧ f.leastPower < power then 1 else 2
  let quarter := power - 2
  let scale := if 0 ≤ quarter then 2 ^ quarter.toNat else 5 ^ (-quarter).toNat
  let interval : Interval :=
    { low := (4 * significand - gap) * scale
      value := 4 * significand * scale
      high := (4 * significand + 2) * scale
      closed := significand % 2 == 0 }
  let (coefficient, grid) := interval.shortest (digitCount interval.value)
  ⟨coefficient, min quarter 0 + grid⟩

def zeros (n : Nat) : String := String.ofList (List.replicate n '0')

/-- Positional notation, however long, without an exponent. -/
def Numeral.positional (x : Numeral) : String :=
  if 0 ≤ x.exponent then toString x.coefficient ++ zeros x.exponent.toNat
  else
    let digits := Nat.toDigits 10 x.coefficient
    let places := (-x.exponent).toNat
    let whole := digits.take (digits.length - places)
    let fraction := List.replicate (places - digits.length) '0' ++ digits.drop (digits.length - places)
    String.ofList ((if whole.isEmpty then ['0'] else whole) ++ '.' :: fraction)

/-- The text of a bit pattern: whole numbers have no point, and the sign of zero is written. -/
def ofBits (f : FloatFormat) (bits : Nat) : String :=
  let sign := if f.isNegative bits then "-" else ""
  match f.magnitude bits with
  | .nan _ => "NaN"
  | .infinite => sign ++ "inf"
  | .finite significand power =>
    if significand = 0 then sign ++ "0" else sign ++ (shortest f significand power).positional

end FlatRecord.Decimal
