import QueryOptions.Proofs.Number.Rounding

/-!
The order of floating-point numbers, and of the integers that are rounded to them. Rounding keeps
the order of integers, and it keeps them apart unless both are large.
-/

namespace QueryOptions

theorem roundQuotient_mul (quotient : Nat) {denominator : Nat} (positive : 0 < denominator) :
    roundQuotient (quotient * denominator) denominator = quotient := by
  rw [roundQuotient]
  simp [Nat.mul_div_cancel quotient positive, positive]

theorem roundQuotient_mono {numerator other denominator : Nat}
    (order : numerator ≤ other) :
    roundQuotient numerator denominator ≤ roundQuotient other denominator := by
  have floors := Nat.div_le_div_right (c := denominator) order
  have first := Nat.div_add_mod numerator denominator
  have second := Nat.div_add_mod other denominator
  rw [roundQuotient, roundQuotient]
  by_cases same : numerator / denominator = other / denominator
  · have rests : numerator % denominator ≤ other % denominator := by
      rw [same] at first
      omega
    rw [same]
    split_ifs <;> omega
  · split_ifs <;> omega

namespace Binary64

theorem compare?_eq_some_iff {x y : Binary64} {order : Ordering} :
    x.compare? y = some order ↔
      (x.isNaN = false ∧ y.isNaN = false) ∧ compare x.rank y.rank = order := by
  simp [compare?]

theorem compare?_eq {x y : Binary64} (first : x.isNaN = false) (second : y.isNaN = false) :
    x.compare? y = some (compare x.rank y.rank) :=
  compare?_eq_some_iff.mpr ⟨⟨first, second⟩, rfl⟩

theorem rank_eq_iff {x y : Binary64} :
    x.rank = y.rank ↔ x = y ∨ x.magnitude = 0 ∧ y.magnitude = 0 := by
  constructor
  · intro equal
    by_cases zero : x.magnitude = 0
    · right
      rw [rank, rank] at equal
      split_ifs at equal <;> omega
    · left
      have parts : x.isNegative = y.isNegative ∧ x.magnitude = y.magnitude := by
        rw [rank, rank] at equal
        split_ifs at equal with first second second
        · exact ⟨first.trans second.symm, by omega⟩
        · omega
        · omega
        · rw [Bool.not_eq_true] at first second
          exact ⟨first.trans second.symm, by omega⟩
      rw [← ofMagnitude_magnitude x, ← ofMagnitude_magnitude y, parts.1, parts.2]
  · rintro (same | ⟨first, second⟩)
    · rw [same]
    · simp [rank, first, second]

theorem not_isNaN_of_magnitude_eq_zero {x : Binary64} (zero : x.magnitude = 0) :
    x.isNaN = false := by
  rw [isNaN, zero]
  decide

theorem same_iff {x y : Binary64} :
    x.same y = true ↔
      x = y ∨ x.isNaN = true ∧ y.isNaN = true ∨ x.magnitude = 0 ∧ y.magnitude = 0 := by
  rw [same, Bool.or_eq_true, Bool.and_eq_true, beq_iff_eq]
  by_cases numbers : x.isNaN = false ∧ y.isNaN = false
  · rw [compare?_eq numbers.1 numbers.2, Option.some.injEq, compare_eq_iff_eq, rank_eq_iff]
    simp [numbers.1]
  · have unordered : x.compare? y = none := by
      rw [compare?, if_pos]
      cases first : x.isNaN <;> cases second : y.isNaN <;> simp_all
    constructor
    · rintro (nans | ordered)
      · exact .inr (.inl nans)
      · simp [unordered] at ordered
    · rintro (rfl | nans | ⟨first, second⟩)
      · left
        simpa using numbers
      · exact .inl nans
      · exact absurd ⟨not_isNaN_of_magnitude_eq_zero first, not_isNaN_of_magnitude_eq_zero second⟩
          numbers

section

variable {numerator other denominator : Nat}

theorem binade_mono (positive : 0 < denominator) (order : numerator ≤ other) :
    binade numerator denominator ≤ binade other denominator := by
  by_contra higher
  have exponents : binade other denominator + 53 ≤ binade numerator denominator + 52 := by omega
  have below := (binade_spec other positive).1
  have above := (binade_spec numerator positive).2.resolve_left (by omega)
  have shifted : denominator * 2 ^ (binade other denominator + 53) ≤
      denominator * 2 ^ (binade numerator denominator + 52) :=
    Nat.mul_le_mul_left _ (Nat.pow_le_pow_right (by decide) exponents)
  have scaled := Nat.mul_le_mul_right (2 ^ 1074) order
  exact absurd below (Nat.not_lt.mpr (shifted.trans (above.trans scaled)))

/-- The significand that a ratio is rounded to, before it may carry into the exponent. -/
def roundedSignificand (numerator denominator : Nat) : Nat :=
  roundQuotient (numerator * 2 ^ 1074) (denominator * 2 ^ binade numerator denominator)

theorem magnitudeOfRatio_eq_min (numerator denominator : Nat) :
    magnitudeOfRatio numerator denominator =
      min (binade numerator denominator * exponentWeight +
        roundedSignificand numerator denominator) infiniteMagnitude := by
  obtain ⟨finest, finestEq⟩ : ∃ finest, finest = 1074 := ⟨_, rfl⟩
  simp only [magnitudeOfRatio, roundedSignificand, Nat.pow_eq, ← finestEq]

theorem roundedSignificand_bounds (numerator : Nat) (positive : 0 < denominator) :
    roundedSignificand numerator denominator ≤ 2 * exponentWeight ∧
      (binade numerator denominator = 0 ∨
        exponentWeight ≤ roundedSignificand numerator denominator) := by
  have unit : 0 < denominator * 2 ^ binade numerator denominator := by positivity
  obtain ⟨below, above⟩ := binade_spec numerator positive
  rw [roundedSignificand]
  constructor
  · rw [← roundQuotient_mul (2 * exponentWeight) unit]
    apply roundQuotient_mono
    calc numerator * 2 ^ 1074 ≤ denominator * 2 ^ (binade numerator denominator + 53) := below.le
      _ = 2 * exponentWeight * (denominator * 2 ^ binade numerator denominator) := by
        rw [Nat.pow_add, exponentWeight]
        ring
  · apply above.imp_right
    intro large
    rw [← roundQuotient_mul exponentWeight unit]
    apply roundQuotient_mono
    calc exponentWeight * (denominator * 2 ^ binade numerator denominator)
        = denominator * 2 ^ (binade numerator denominator + 52) := by
          rw [Nat.pow_add, exponentWeight]
          ring
      _ ≤ numerator * 2 ^ 1074 := large

theorem magnitudeOfRatio_mono (positive : 0 < denominator) (order : numerator ≤ other) :
    magnitudeOfRatio numerator denominator ≤ magnitudeOfRatio other denominator := by
  rw [magnitudeOfRatio_eq_min, magnitudeOfRatio_eq_min]
  apply min_le_min_right
  have binades := binade_mono positive order
  obtain ⟨below, -⟩ := roundedSignificand_bounds numerator positive
  obtain ⟨-, above⟩ := roundedSignificand_bounds other positive
  by_cases same : binade numerator denominator = binade other denominator
  · have significands : roundedSignificand numerator denominator ≤
        roundedSignificand other denominator := by
      rw [roundedSignificand, roundedSignificand, same]
      exact roundQuotient_mono (Nat.mul_le_mul_right _ order)
    rw [same]
    omega
  · rw [exponentWeight] at below above ⊢
    omega

end

theorem binade_integer_le {value : Nat} (exact : value < 2 ^ 53) : binade value 1 ≤ 1074 := by
  by_contra coarse
  have above := (binade_spec value Nat.one_pos).2.resolve_left (by omega)
  obtain ⟨finest, finestEq⟩ : ∃ finest, finest = 1074 := ⟨_, rfl⟩
  rw [← finestEq] at coarse above
  have exponents : 53 + finest ≤ binade value 1 + 52 := by omega
  have scaled := Nat.mul_lt_mul_of_pos_right exact (Nat.two_pow_pos finest)
  have reached : 2 ^ 53 * 2 ^ finest ≤ 1 * 2 ^ (binade value 1 + 52) := by
    rw [← Nat.pow_add, Nat.one_mul]
    exact Nat.pow_le_pow_right (by decide) exponents
  exact absurd scaled (Nat.not_lt.mpr (reached.trans above))

theorem roundedSignificand_integer {value step : Nat} (binadeEq : binade value 1 = step)
    (fine : step ≤ 1074) :
    roundedSignificand value 1 = value * 2 ^ (1074 - step) ∧
      value * 2 ^ (1074 - step) < 2 * exponentWeight := by
  have power : value * 2 ^ 1074 = value * 2 ^ (1074 - step) * (1 * 2 ^ step) := by
    rw [Nat.one_mul, Nat.mul_assoc, ← Nat.pow_add, Nat.sub_add_cancel fine]
  have unit : 0 < 1 * 2 ^ step := by positivity
  constructor
  · rw [roundedSignificand, binadeEq, power, roundQuotient_mul _ unit]
  · have below := (binade_spec value Nat.one_pos).1
    rw [binadeEq, power] at below
    apply Nat.lt_of_mul_lt_mul_right (a := 1 * 2 ^ step)
    calc value * 2 ^ (1074 - step) * (1 * 2 ^ step) < 1 * 2 ^ (step + 53) := below
      _ = 2 * exponentWeight * (1 * 2 ^ step) := by
        rw [Nat.pow_add, exponentWeight]
        ring

theorem magnitudeOfRatio_lt {first second : Nat} (order : first < second)
    (exact : first < 2 ^ 53) : magnitudeOfRatio first 1 < magnitudeOfRatio second 1 := by
  have binades := binade_mono Nat.one_pos order.le
  have fine := binade_integer_le exact
  obtain ⟨firstEq, below⟩ := roundedSignificand_integer rfl fine
  obtain ⟨-, above⟩ := roundedSignificand_bounds second Nat.one_pos
  rw [magnitudeOfRatio_eq_min, magnitudeOfRatio_eq_min, lt_min_iff]
  constructor
  · apply min_lt_of_left_lt
    by_cases same : binade second 1 = binade first 1
    · rw [(roundedSignificand_integer same fine).1, same, firstEq]
      gcongr
    · rw [exponentWeight] at below above ⊢
      omega
  · apply min_lt_of_left_lt
    rw [infiniteMagnitude, exponentWeight] at *
    omega

theorem magnitude_ofMagnitude (negative : Bool) {magnitude : Nat}
    (small : magnitude < signWeight) :
    (ofMagnitude negative magnitude).magnitude = magnitude ∧
      (ofMagnitude negative magnitude).isNegative = negative := by
  rw [signWeight] at small
  have bits : (ofMagnitude negative magnitude).bits.toNat =
      (if negative then signWeight else 0) + magnitude := by
    rw [ofMagnitude, Nat.toUInt64, UInt64.toNat_ofNat', signWeight]
    split <;> omega
  rw [Binary64.magnitude, isNegative, bits, signWeight]
  cases negative
  · simp
    omega
  · simp
    omega

theorem ofInt_spec (value : Int) :
    (ofInt value).magnitude = magnitudeOfRatio value.natAbs 1 ∧
      (ofInt value).isNegative = decide (value < 0) := by
  apply magnitude_ofMagnitude
  have finite : magnitudeOfRatio value.natAbs 1 ≤ infiniteMagnitude := by
    rw [magnitudeOfRatio_eq_min]
    exact Nat.min_le_right _ _
  rw [infiniteMagnitude, exponentWeight] at finite
  rw [signWeight]
  omega

theorem isNaN_ofInt (value : Int) : (ofInt value).isNaN = false := by
  rw [isNaN, (ofInt_spec value).1, magnitudeOfRatio_eq_min, decide_eq_false_iff_not, not_lt]
  exact Nat.min_le_right _ _

theorem rank_ofInt (value : Int) :
    (ofInt value).rank =
      if value < 0 then -(magnitudeOfRatio value.natAbs 1 : Int)
      else magnitudeOfRatio value.natAbs 1 := by
  rw [rank, (ofInt_spec value).1, (ofInt_spec value).2]
  simp only [decide_eq_true_eq]

/-- Rounding keeps the order of integers. -/
theorem rank_ofInt_mono {first second : Int} (order : first ≤ second) :
    (ofInt first).rank ≤ (ofInt second).rank := by
  rw [rank_ofInt, rank_ofInt]
  split_ifs with firstNegative secondNegative secondNegative
  · have magnitudes := magnitudeOfRatio_mono Nat.one_pos
      (show second.natAbs ≤ first.natAbs by omega)
    omega
  · omega
  · omega
  · have magnitudes := magnitudeOfRatio_mono Nat.one_pos
      (show first.natAbs ≤ second.natAbs by omega)
    omega

theorem large_of_rank_eq {first second : Int} (different : first ≠ second)
    (same : (ofInt first).rank = (ofInt second).rank) :
    2 ^ 53 ≤ first.natAbs ∧ 2 ^ 53 ≤ second.natAbs := by
  have apart : ∀ {small large : Nat}, small < large →
      magnitudeOfRatio small 1 = magnitudeOfRatio large 1 → 2 ^ 53 ≤ small := by
    intro small large order equal
    by_contra exact
    exact absurd equal (magnitudeOfRatio_lt order (by omega)).ne
  have positive : ∀ {size : Nat}, 0 < size → 0 < magnitudeOfRatio size 1 := by
    intro size nonzero
    exact Nat.zero_lt_of_lt (magnitudeOfRatio_lt nonzero (by decide))
  -- A number and its magnitude are on the same side of zero, so the two integers are as well.
  have sizes : first.natAbs ≠ second.natAbs ∧
      magnitudeOfRatio first.natAbs 1 = magnitudeOfRatio second.natAbs 1 := by
    rw [rank_ofInt, rank_ofInt] at same
    split_ifs at same with firstNegative secondNegative secondNegative
    · omega
    · have := positive (show 0 < first.natAbs by omega)
      omega
    · have := positive (show 0 < second.natAbs by omega)
      omega
    · omega
  obtain less | more := Nat.lt_or_gt_of_ne sizes.1
  · have large := apart less sizes.2
    omega
  · have large := apart more sizes.2.symm
    omega

end Binary64

end QueryOptions
