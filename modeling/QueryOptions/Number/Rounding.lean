import QueryOptions.Number.Binary64

/-! Rounding exact numbers to the nearest floating-point number, ties to the even one. -/

namespace QueryOptions

def roundQuotient (numerator denominator : Nat) : Nat :=
  let quotient := numerator / denominator
  let remainder := numerator % denominator
  if 2 * remainder < denominator then quotient
  else if denominator < 2 * remainder then quotient + 1
  else if quotient % 2 = 0 then quotient
  else quotient + 1

namespace Binary64

/-- The step between neighbours around `numerator / denominator` is `2 ^ (binade - 1074)`, where
the smallest step serves all small numbers. -/
def binade (numerator denominator : Nat) : Nat :=
  let estimate := numerator.log2 + 1022 - denominator.log2
  if numerator = 0 ∨ estimate = 0 then 0
  else if numerator * Nat.pow 2 1022 < denominator * Nat.pow 2 estimate then estimate - 1
  else estimate

/-- The magnitude nearest to `numerator / denominator`. A significand that rounds up to the next
power of two carries into the exponent, and what lies beyond the largest number is infinite. -/
def magnitudeOfRatio (numerator denominator : Nat) : Nat :=
  let step := binade numerator denominator
  let significand := roundQuotient (numerator * Nat.pow 2 1074) (denominator * Nat.pow 2 step)
  min (step * exponentWeight + significand) infiniteMagnitude

def ofInt (value : Int) : Binary64 :=
  ofMagnitude (value < 0) (magnitudeOfRatio value.natAbs 1)

def digitCount (value : Nat) : Nat :=
  (Nat.toDigits 10 value).length

/-- The magnitude nearest to `digits * 10 ^ scale`. Scales far outside the range of finite numbers
are answered without computing the power. -/
def magnitudeOfDecimal (digits : Nat) (scale : Int) : Nat :=
  let size := (digitCount digits : Int) + scale
  if digits = 0 ∨ size < -400 then 0
  else if 400 < size then infiniteMagnitude
  else magnitudeOfRatio (digits * Nat.pow 10 scale.toNat) (Nat.pow 10 (-scale).toNat)

def ofDecimal (negative : Bool) (digits : Nat) (scale : Int) : Binary64 :=
  ofMagnitude negative (magnitudeOfDecimal digits scale)

end Binary64

end QueryOptions
