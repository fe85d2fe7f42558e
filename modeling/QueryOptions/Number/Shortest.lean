import QueryOptions.Number.Rounding

/-! The shortest decimal that rounds to a floating-point number, and its plain notation. -/

namespace QueryOptions

structure Decimal where
  digits : Nat
  scale : Int
deriving DecidableEq

namespace Binary64

/-- The numbers that round to a given one, in units of `unit = unitNumerator / unitDenominator`:
those between `low` and `high`, ends included when the significand is even. The number itself lies
at `center`. -/
structure RoundingInterval where
  low : Nat
  center : Nat
  high : Nat
  unitNumerator : Nat
  unitDenominator : Nat
  closed : Bool

/-- The unit is a quarter of the step, since below a power of two the neighbour is only half a
step away. -/
def roundingInterval (x : Binary64) : RoundingInterval where
  low := 4 * x.significand - (if x.significand = exponentWeight ∧ x.exponent ≠ 0 then 1 else 2)
  center := 4 * x.significand
  high := 4 * x.significand + 2
  unitNumerator := Nat.pow 2 x.exponent
  unitDenominator := Nat.pow 2 1076
  closed := x.significand % 2 = 0

namespace RoundingInterval

def contains (interval : RoundingInterval) (digits : Nat) (scale : Int) : Bool :=
  let place := digits * Nat.pow 10 scale.toNat * interval.unitDenominator
  let unit := interval.unitNumerator * Nat.pow 10 (-scale).toNat
  if interval.closed then interval.low * unit ≤ place && place ≤ interval.high * unit
  else interval.low * unit < place && place < interval.high * unit

def below (interval : RoundingInterval) (scale : Int) : Nat :=
  interval.center * interval.unitNumerator * Nat.pow 10 (-scale).toNat /
    (interval.unitDenominator * Nat.pow 10 scale.toNat)

def nearerBelow (interval : RoundingInterval) (digits : Nat) (scale : Int) : Bool :=
  2 * interval.center * interval.unitNumerator * Nat.pow 10 (-scale).toNat <
    (2 * digits + 1) * Nat.pow 10 scale.toNat * interval.unitDenominator

def leading (interval : RoundingInterval) : Int :=
  let numerator := interval.center * interval.unitNumerator
  let denominator := interval.unitDenominator
  if denominator ≤ numerator then digitCount (numerator / denominator)
  else 1 - digitCount ((denominator + numerator - 1) / numerator - 1)

/-- The best multiple of `10 ^ scale` in the interval: the nearer of the center's two neighbours,
the upper one on a tie. -/
def nearest? (interval : RoundingInterval) (scale : Int) : Option Nat :=
  let digits := interval.below scale
  match interval.contains digits scale, interval.contains (digits + 1) scale with
  | true, true => some (if interval.nearerBelow digits scale then digits else digits + 1)
  | true, false => some digits
  | false, true => some (digits + 1)
  | false, false => none

def search (interval : RoundingInterval) (leading : Int) : Nat → Nat → Decimal
  | _, 0 => ⟨0, 0⟩
  | count, fuel + 1 =>
      match interval.nearest? (leading - count) with
      | some digits =>
          if digits % 10 = 0 then ⟨digits / 10, leading - count + 1⟩ else ⟨digits, leading - count⟩
      | none => search interval leading (count + 1) fuel

end RoundingInterval

/-- The decimal of fewest digits among those that round to a finite number, and the nearest to it
of these. Seventeen digits are always enough. -/
def shortest (x : Binary64) : Decimal :=
  if x.magnitude = 0 then ⟨0, 0⟩
  else x.roundingInterval.search x.roundingInterval.leading 1 17

end Binary64

def Decimal.plain (value : Decimal) : List Char :=
  let digits := Nat.toDigits 10 value.digits
  if 0 ≤ value.scale then
    digits ++ List.replicate value.scale.toNat '0' ++ ['.', '0']
  else
    let places := (-value.scale).toNat
    let padded := List.replicate (places + 1 - digits.length) '0' ++ digits
    padded.take (padded.length - places) ++ '.' :: padded.drop (padded.length - places)

def Binary64.text (x : Binary64) : List Char :=
  if x.isNaN then ['N', 'a', 'N']
  else
    (if x.isNegative then ['-'] else []) ++
      if x.isFinite then x.shortest.plain else ['i', 'n', 'f']

end QueryOptions
