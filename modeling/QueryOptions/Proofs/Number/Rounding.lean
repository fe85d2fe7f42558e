import Mathlib.Algebra.Order.Field.Rat
import Mathlib.Algebra.Order.Field.Basic
import Mathlib.Tactic.FieldSimp
import Mathlib.Tactic.Linarith
import Mathlib.Tactic.Positivity
import Mathlib.Tactic.Ring
import QueryOptions.Number.Shortest

/-!
Rounding to the nearest floating-point number. Whatever lies in the rounding interval of a finite
number is rounded to that number.
-/

namespace QueryOptions

theorem roundQuotient_eq {numerator denominator quotient : Nat} (positive : 0 < denominator)
    (lower : 2 * quotient * denominator ≤ 2 * numerator + denominator)
    (upper : 2 * numerator ≤ (2 * quotient + 1) * denominator)
    (tie : quotient % 2 = 0 ∨ 2 * quotient * denominator < 2 * numerator + denominator ∧
      2 * numerator < (2 * quotient + 1) * denominator) :
    roundQuotient numerator denominator = quotient := by
  have split := Nat.div_add_mod numerator denominator
  have small := Nat.mod_lt numerator positive
  rw [roundQuotient]
  generalize numerator / denominator = floor at split ⊢
  generalize numerator % denominator = rest at split small ⊢
  have atMost : floor ≤ quotient := by
    by_contra above
    have := Nat.mul_le_mul_left denominator (show quotient + 1 ≤ floor by omega)
    grind
  have atLeast : quotient ≤ floor + 1 := by
    by_contra below
    have := Nat.mul_le_mul_left denominator (show floor + 2 ≤ quotient by omega)
    grind
  obtain same | next : floor = quotient ∨ quotient = floor + 1 := by omega
  · subst same
    have half : 2 * rest ≤ denominator := by grind
    grind
  · subst next
    have half : denominator ≤ 2 * rest := by grind
    grind

namespace Binary64

theorem pow_mul_pow {first second third fourth : Nat} (same : first + second = third + fourth) :
    2 ^ first * 2 ^ second = 2 ^ third * 2 ^ fourth := by
  rw [← Nat.pow_add, ← Nat.pow_add, same]

theorem binade_spec (numerator : Nat) {denominator : Nat} (positive : 0 < denominator) :
    numerator * 2 ^ 1074 < denominator * 2 ^ (binade numerator denominator + 53) ∧
      (binade numerator denominator = 0 ∨
        denominator * 2 ^ (binade numerator denominator + 52) ≤ numerator * 2 ^ 1074) := by
  have numeratorBelow : numerator < 2 ^ (numerator.log2 + 1) := Nat.lt_log2_self
  have denominatorBelow : denominator < 2 ^ (denominator.log2 + 1) := Nat.lt_log2_self
  have denominatorAbove : 2 ^ denominator.log2 ≤ denominator := Nat.log2_self_le (by omega)
  -- The powers stay symbolic: only the distance of the two exponents matters.
  obtain ⟨bias, biasEq⟩ : ∃ bias, bias = 1022 := ⟨_, rfl⟩
  have finest : 1074 = bias + 52 := by omega
  simp only [binade, Nat.pow_eq, ← biasEq, finest]
  split
  · rename_i small
    refine ⟨?_, .inl rfl⟩
    rcases small with zero | low
    · rw [zero, Nat.zero_mul]
      positivity
    · calc numerator * 2 ^ (bias + 52)
          < 2 ^ (numerator.log2 + 1) * 2 ^ (bias + 52) := by gcongr
        _ = 2 ^ (numerator.log2 + bias) * 2 ^ (0 + 53) := pow_mul_pow (by omega)
        _ ≤ 2 ^ denominator.log2 * 2 ^ (0 + 53) := by
            gcongr
            · decide
            · omega
        _ ≤ denominator * 2 ^ (0 + 53) := by gcongr
  · rename_i large
    have numeratorAbove : 2 ^ numerator.log2 ≤ numerator := Nat.log2_self_le (by tauto)
    obtain ⟨estimate, estimateEq⟩ :
        ∃ estimate, estimate = numerator.log2 + bias - denominator.log2 := ⟨_, rfl⟩
    have total : denominator.log2 + estimate = numerator.log2 + bias := by omega
    simp only [← estimateEq]
    split
    · rename_i below
      have lower : estimate - 1 + 53 = estimate + 52 := by omega
      constructor
      · calc numerator * 2 ^ (bias + 52)
            = numerator * 2 ^ bias * 2 ^ 52 := by rw [Nat.pow_add, Nat.mul_assoc]
          _ < denominator * 2 ^ estimate * 2 ^ 52 := by gcongr
          _ = denominator * 2 ^ (estimate - 1 + 53) := by
              rw [lower, Nat.pow_add, Nat.mul_assoc]
      · right
        calc denominator * 2 ^ (estimate - 1 + 52)
            ≤ 2 ^ (denominator.log2 + 1) * 2 ^ (estimate - 1 + 52) := by gcongr
          _ = 2 ^ numerator.log2 * 2 ^ (bias + 52) := pow_mul_pow (by omega)
          _ ≤ numerator * 2 ^ (bias + 52) := by gcongr
    · rename_i notBelow
      have above : denominator * 2 ^ estimate ≤ numerator * 2 ^ bias := Nat.not_lt.mp notBelow
      constructor
      · calc numerator * 2 ^ (bias + 52)
            < 2 ^ (numerator.log2 + 1) * 2 ^ (bias + 52) := by gcongr
          _ = 2 ^ denominator.log2 * 2 ^ (estimate + 53) := pow_mul_pow (by omega)
          _ ≤ denominator * 2 ^ (estimate + 53) := by gcongr
      · right
        calc denominator * 2 ^ (estimate + 52)
            = denominator * 2 ^ estimate * 2 ^ 52 := by rw [Nat.pow_add, Nat.mul_assoc]
          _ ≤ numerator * 2 ^ bias * 2 ^ 52 := by gcongr
          _ = numerator * 2 ^ (bias + 52) := by rw [Nat.pow_add, Nat.mul_assoc]

theorem magnitude_eq (x : Binary64) :
    x.magnitude = x.exponent * exponentWeight + x.significand := by
  rw [exponent, significand, exponentWeight]
  split <;> omega

theorem significand_lt (x : Binary64) : x.significand < 2 * exponentWeight := by
  rw [significand, exponentWeight]
  split <;> omega

theorem exponentWeight_le_significand {x : Binary64} (normal : x.exponent ≠ 0) :
    exponentWeight ≤ x.significand := by
  rw [exponent] at normal
  rw [significand]
  split <;> simp_all

theorem significand_pos {x : Binary64} (nonzero : x.magnitude ≠ 0) : 0 < x.significand := by
  rw [significand, exponentWeight]
  split <;> omega

theorem magnitudeOfRatio_eq {numerator denominator step significand : Nat}
    (stepEq : binade numerator denominator = step)
    (rounded : roundQuotient (numerator * 2 ^ 1074) (denominator * 2 ^ step) = significand)
    (finite : step * exponentWeight + significand < infiniteMagnitude) :
    magnitudeOfRatio numerator denominator = step * exponentWeight + significand := by
  simp only [magnitudeOfRatio, Nat.pow_eq, stepEq, rounded]
  omega

theorem ofMagnitude_magnitude (x : Binary64) : ofMagnitude x.isNegative x.magnitude = x := by
  have size := x.bits.toNat_lt
  have value : (if x.isNegative then signWeight else 0) + x.magnitude = x.bits.toNat := by
    rw [isNegative, magnitude, signWeight]
    by_cases negative : 0x8000000000000000 ≤ x.bits.toNat
    · rw [decide_eq_true negative, if_pos rfl]
      omega
    · rw [decide_eq_false negative, if_neg Bool.false_ne_true]
      omega
  rw [ofMagnitude, value]
  simp

theorem magnitudeOfDecimal_le (digits : Nat) (scale : Int) :
    magnitudeOfDecimal digits scale ≤ infiniteMagnitude := by
  rw [magnitudeOfDecimal]
  split
  · exact Nat.zero_le _
  · split
    · exact Nat.le_refl _
    · exact Nat.min_le_right _ _

theorem isNegative_ofDecimal (digits : Nat) (scale : Int) :
    (ofDecimal false digits scale).isNegative = false := by
  have finite := magnitudeOfDecimal_le digits scale
  rw [infiniteMagnitude, exponentWeight] at finite
  have bits : (ofDecimal false digits scale).bits.toNat =
      magnitudeOfDecimal digits scale % 2 ^ 64 := by
    simp [ofDecimal, ofMagnitude]
  rw [isNegative, signWeight, decide_eq_false_iff_not, bits]
  omega

namespace RoundingInterval

def unit (interval : RoundingInterval) : ℚ :=
  interval.unitNumerator / interval.unitDenominator

/-- A number lies between the ends of the interval, or at one of them if these are included. -/
def Spans (interval : RoundingInterval) (value : ℚ) : Prop :=
  (interval.low * interval.unit ≤ value ∧ value ≤ interval.high * interval.unit) ∧
    (interval.closed = true ∨
      interval.low * interval.unit < value ∧ value < interval.high * interval.unit)

theorem unit_le_ratio (interval : RoundingInterval) (count numerator : Nat) {denominator : Nat}
    (measured : 0 < interval.unitDenominator) (positive : 0 < denominator) :
    count * interval.unit ≤ (numerator / denominator : ℚ) ↔
      count * (interval.unitNumerator * denominator) ≤ numerator * interval.unitDenominator := by
  rw [RoundingInterval.unit, mul_div_assoc', div_le_div_iff₀ (by positivity) (by positivity),
    ← Nat.mul_assoc]
  exact_mod_cast Iff.rfl

theorem ratio_le_unit (interval : RoundingInterval) (count numerator : Nat) {denominator : Nat}
    (measured : 0 < interval.unitDenominator) (positive : 0 < denominator) :
    (numerator / denominator : ℚ) ≤ count * interval.unit ↔
      numerator * interval.unitDenominator ≤ count * (interval.unitNumerator * denominator) := by
  rw [RoundingInterval.unit, mul_div_assoc', div_le_div_iff₀ (by positivity) (by positivity),
    ← Nat.mul_assoc]
  exact_mod_cast Iff.rfl

theorem spans_ratio_iff (interval : RoundingInterval) (numerator : Nat) {denominator : Nat}
    (measured : 0 < interval.unitDenominator) (positive : 0 < denominator) :
    interval.Spans (numerator / denominator) ↔
      (interval.low * (interval.unitNumerator * denominator) ≤
          numerator * interval.unitDenominator ∧
        numerator * interval.unitDenominator ≤
          interval.high * (interval.unitNumerator * denominator)) ∧
      (interval.closed = true ∨
        interval.low * (interval.unitNumerator * denominator) <
            numerator * interval.unitDenominator ∧
          numerator * interval.unitDenominator <
            interval.high * (interval.unitNumerator * denominator)) := by
  rw [RoundingInterval.Spans, ← not_le, ← not_le, unit_le_ratio _ _ _ measured positive,
    unit_le_ratio _ _ _ measured positive, ratio_le_unit _ _ _ measured positive,
    ratio_le_unit _ _ _ measured positive, not_le, not_le]

end RoundingInterval

theorem roundingInterval_low (x : Binary64) :
    (x.significand = exponentWeight ∧ x.exponent ≠ 0) ∧
        x.roundingInterval.low = 4 * x.significand - 1 ∨
      ¬(x.significand = exponentWeight ∧ x.exponent ≠ 0) ∧
        x.roundingInterval.low = 4 * x.significand - 2 := by
  by_cases first : x.significand = exponentWeight ∧ x.exponent ≠ 0
  · exact .inl ⟨first, congrArg _ (if_pos first)⟩
  · exact .inr ⟨first, congrArg _ (if_neg first)⟩

theorem four_significand_le (x : Binary64) :
    4 * x.significand ≤ x.roundingInterval.low + 2 := by
  have low := x.roundingInterval_low
  omega

theorem shift_le {first exponent extra : Nat} (denominator : Nat)
    (order : first ≤ exponent + extra) :
    denominator * 2 ^ first ≤ 2 ^ extra * (denominator * 2 ^ exponent) := by
  calc denominator * 2 ^ first
      ≤ denominator * 2 ^ (exponent + extra) :=
        Nat.mul_le_mul_left _ (Nat.pow_le_pow_right (by decide) order)
    _ = 2 ^ extra * (denominator * 2 ^ exponent) := by rw [Nat.pow_add]; ring

theorem unitDenominator_pos (x : Binary64) : 0 < x.roundingInterval.unitDenominator := by
  simp only [roundingInterval, Nat.pow_eq]
  positivity

theorem spans_quarters {x : Binary64} {numerator denominator : Nat} (positive : 0 < denominator)
    (spans : x.roundingInterval.Spans (numerator / denominator)) :
    let place := numerator * 2 ^ 1074
    let unit := denominator * 2 ^ x.exponent
    (x.roundingInterval.low * unit ≤ 4 * place ∧ 4 * place ≤ (4 * x.significand + 2) * unit) ∧
      (x.significand % 2 = 0 ∨
        x.roundingInterval.low * unit < 4 * place ∧ 4 * place < (4 * x.significand + 2) * unit) := by
  intro place unit
  have measured := x.unitDenominator_pos
  have placeEq : numerator * x.roundingInterval.unitDenominator = 4 * place := by
    obtain ⟨finest, finestEq⟩ : ∃ finest, finest = 1074 := ⟨_, rfl⟩
    have quarter : 1076 = finest + 2 := by omega
    simp only [place, roundingInterval, Nat.pow_eq, quarter, ← finestEq, Nat.pow_add]
    ring
  have unitEq : x.roundingInterval.unitNumerator * denominator = unit := Nat.mul_comm _ _
  have high : x.roundingInterval.high = 4 * x.significand + 2 := rfl
  have closed : x.roundingInterval.closed = true ↔ x.significand % 2 = 0 := decide_eq_true_iff
  have bounds := (RoundingInterval.spans_ratio_iff _ numerator measured positive).mp spans
  simpa only [placeEq, unitEq, high, closed] using bounds

theorem binade_of_spans {x : Binary64} {numerator denominator : Nat} (positive : 0 < denominator)
    (lower : x.roundingInterval.low * (denominator * 2 ^ x.exponent) ≤ 4 * (numerator * 2 ^ 1074))
    (upper : 4 * (numerator * 2 ^ 1074) ≤
      (4 * x.significand + 2) * (denominator * 2 ^ x.exponent)) :
    binade numerator denominator = x.exponent ∨
      x.significand = exponentWeight ∧ x.exponent = binade numerator denominator + 1 := by
  have weight : exponentWeight = 2 ^ 52 := rfl
  have small := x.significand_lt
  have fourfold := x.four_significand_le
  obtain ⟨below, start⟩ := binade_spec numerator positive
  generalize binade numerator denominator = step at below start ⊢
  generalize numerator * 2 ^ 1074 = place at lower upper below start
  have unitPositive : 0 < denominator * 2 ^ x.exponent := by positivity
  rcases Nat.lt_trichotomy step x.exponent with less | same | more
  · right
    have normal : x.exponent ≠ 0 := by omega
    have large := exponentWeight_le_significand normal
    have first : x.significand = exponentWeight := by
      have shifted : denominator * 2 ^ (step + 53) ≤ 2 ^ 52 * (denominator * 2 ^ x.exponent) :=
        shift_le denominator (by omega)
      have lowBound : x.roundingInterval.low < 4 * 2 ^ 52 := by
        refine Nat.lt_of_mul_lt_mul_right (a := denominator * 2 ^ x.exponent) ?_
        omega
      omega
    refine ⟨first, ?_⟩
    by_contra far
    have shifted : denominator * 2 ^ (step + 53) ≤ 2 ^ 51 * (denominator * 2 ^ x.exponent) :=
      shift_le denominator (by omega)
    have lowBound : x.roundingInterval.low < 4 * 2 ^ 51 := by
      refine Nat.lt_of_mul_lt_mul_right (a := denominator * 2 ^ x.exponent) ?_
      omega
    omega
  · exact .inl same
  · have reached : denominator * 2 ^ (step + 52) ≤ place := start.resolve_left (by omega)
    have shifted : denominator * 2 ^ (x.exponent + 53) ≤ 2 ^ 0 * (denominator * 2 ^ (step + 52)) :=
      shift_le denominator (by omega)
    have expanded : denominator * 2 ^ (x.exponent + 53) =
        2 ^ 53 * (denominator * 2 ^ x.exponent) := by rw [Nat.pow_add]; ring
    have bound : 4 * 2 ^ 53 ≤ 4 * x.significand + 2 := by
      refine Nat.le_of_mul_le_mul_right (c := denominator * 2 ^ x.exponent) ?_ unitPositive
      omega
    omega

/-- Whatever lies in the rounding interval of a finite number is rounded to it. -/
theorem magnitudeOfRatio_of_spans {x : Binary64} (finite : x.isFinite = true)
    {numerator denominator : Nat} (positive : 0 < denominator)
    (spans : x.roundingInterval.Spans (numerator / denominator)) :
    magnitudeOfRatio numerator denominator = x.magnitude := by
  rw [isFinite, decide_eq_true_eq, magnitude_eq] at finite
  have unitPositive : 0 < denominator * 2 ^ x.exponent := by positivity
  obtain ⟨⟨lower, upper⟩, ends⟩ := spans_quarters positive spans
  rcases binade_of_spans positive lower upper with same | ⟨first, next⟩
  · have near : 4 * x.significand * (denominator * 2 ^ x.exponent) ≤
        (x.roundingInterval.low + 2) * (denominator * 2 ^ x.exponent) :=
      Nat.mul_le_mul_right _ x.four_significand_le
    rw [magnitude_eq]
    refine magnitudeOfRatio_eq same (roundQuotient_eq unitPositive ?_ ?_ ?_) finite
    all_goals
      simp only [Nat.add_mul, Nat.mul_assoc, Nat.one_mul] at lower upper near ends ⊢
      omega
  · -- The number starts a binade: what lies below it is rounded up to it in finer steps.
    have lowEq : x.roundingInterval.low = 4 * exponentWeight - 1 := by
      have low := x.roundingInterval_low
      omega
    obtain ⟨below, _⟩ := binade_spec numerator positive
    have stepPositive : 0 < denominator * 2 ^ binade numerator denominator := by positivity
    have sum : x.exponent * exponentWeight + x.significand =
        binade numerator denominator * exponentWeight + 2 * exponentWeight := by
      rw [first, next]
      ring
    have doubled : denominator * 2 ^ x.exponent =
        2 * (denominator * 2 ^ binade numerator denominator) := by
      rw [next, Nat.pow_succ]
      ring
    have widened : denominator * 2 ^ (binade numerator denominator + 53) =
        2 ^ 53 * (denominator * 2 ^ binade numerator denominator) := by
      rw [Nat.pow_add]
      ring
    rw [lowEq, doubled] at lower
    rw [widened] at below
    rw [magnitude_eq, sum]
    refine magnitudeOfRatio_eq rfl (roundQuotient_eq stepPositive ?_ ?_ (.inl rfl)) (by omega)
    all_goals
      simp only [exponentWeight] at lower ⊢
      omega

end Binary64

end QueryOptions
