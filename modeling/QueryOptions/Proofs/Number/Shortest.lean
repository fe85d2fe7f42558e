import Mathlib.Algebra.Order.Field.Power
import Mathlib.Data.Nat.Cast.Order.Field
import QueryOptions.Proofs.Number.Decimal
import QueryOptions.Proofs.Number.Rounding

/-!
The shortest decimal of a finite number is rounded back to the number: some decimal of at most
seventeen digits lies in the rounding interval, and plain notation denotes the one that is found.
-/

namespace QueryOptions

theorem lt_pow_digitCount (number : Nat) : number < 10 ^ Binary64.digitCount number :=
  (Nat.length_toDigits_le_iff (by decide) Nat.length_toDigits_pos).mp (Nat.le_refl _)

theorem pow_digitCount_le {number : Nat} (positive : 0 < number) :
    10 ^ (Binary64.digitCount number - 1) ≤ number := by
  by_cases single : Binary64.digitCount number = 1
  · rw [single]
    exact positive
  · have nonempty : 0 < Binary64.digitCount number := Nat.length_toDigits_pos
    have fewer : 0 < Binary64.digitCount number - 1 := by omega
    refine Nat.not_lt.mp fun small => ?_
    have short := (Nat.length_toDigits_le_iff (by decide) fewer).mpr small
    rw [← Binary64.digitCount] at short
    omega

theorem ten_zpow (scale : Int) :
    (10 : ℚ) ^ scale = (10 ^ scale.toNat : ℕ) / (10 ^ (-scale).toNat : ℕ) := by
  push_cast
  rcases Int.le_total 0 scale with natural | negative
  · obtain ⟨size, rfl⟩ := Int.eq_ofNat_of_zero_le natural
    simp
  · obtain ⟨size, sizeEq⟩ := Int.eq_ofNat_of_zero_le (show 0 ≤ -scale by omega)
    obtain rfl : scale = -size := by omega
    simp

theorem decimal_ratio (digits : Nat) (scale : Int) :
    (digits * 10 ^ scale : ℚ) =
      ((digits * 10 ^ scale.toNat : ℕ) : ℚ) / (10 ^ (-scale).toNat : ℕ) := by
  rw [ten_zpow, mul_div_assoc', Nat.cast_mul]

def Decimal.value (decimal : Decimal) : ℚ :=
  decimal.digits * 10 ^ decimal.scale

namespace Binary64

namespace RoundingInterval

theorem contains_iff {interval : RoundingInterval} (measured : 0 < interval.unitDenominator)
    (digits : Nat) (scale : Int) :
    interval.contains digits scale = true ↔ interval.Spans (digits * 10 ^ scale) := by
  rw [decimal_ratio, spans_ratio_iff interval _ measured (by positivity), contains]
  simp only [Nat.pow_eq]
  split
  · rename_i closed
    simp [closed]
  · rename_i isOpen
    simp only [isOpen, Bool.and_eq_true, decide_eq_true_eq]
    constructor
    · intro bounds
      exact ⟨⟨bounds.1.le, bounds.2.le⟩, .inr bounds⟩
    · simp

theorem below_spec {interval : RoundingInterval} (measured : 0 < interval.unitDenominator)
    (scale : Int) :
    interval.below scale * (10 : ℚ) ^ scale ≤ interval.center * interval.unit ∧
      interval.center * interval.unit < (interval.below scale + 1 : ℕ) * (10 : ℚ) ^ scale := by
  have positive : 0 < 10 ^ (-scale).toNat := by positivity
  have divisor : 0 < interval.unitDenominator * 10 ^ scale.toNat := by positivity
  rw [decimal_ratio, decimal_ratio, ← not_le, ratio_le_unit _ _ _ measured positive,
    ratio_le_unit _ _ _ measured positive, not_le, below]
  simp only [Nat.pow_eq]
  have lower := Nat.div_mul_le_self
    (interval.center * interval.unitNumerator * 10 ^ (-scale).toNat)
    (interval.unitDenominator * 10 ^ scale.toNat)
  have upper := Nat.lt_div_mul_add divisor
    (a := interval.center * interval.unitNumerator * 10 ^ (-scale).toNat)
  constructor
  · grind
  · grind

theorem leading_spec {interval : RoundingInterval} (measured : 0 < interval.unitDenominator)
    (positive : 0 < interval.center * interval.unitNumerator) :
    (10 : ℚ) ^ (interval.leading - 1) ≤ interval.center * interval.unit := by
  have center : (interval.center * interval.unit : ℚ) =
      ((interval.center * interval.unitNumerator : ℕ) : ℚ) / interval.unitDenominator := by
    rw [unit, mul_div_assoc', Nat.cast_mul]
  rw [center, leading]
  generalize interval.center * interval.unitNumerator = numerator at positive ⊢
  generalize interval.unitDenominator = denominator at measured ⊢
  split
  · rename_i large
    have quotient := pow_digitCount_le (Nat.div_pos large measured)
    have nonempty : 0 < digitCount (numerator / denominator) := Nat.length_toDigits_pos
    have exponent : (digitCount (numerator / denominator) : Int) - 1 =
        (digitCount (numerator / denominator) - 1 : ℕ) := by omega
    rw [exponent, zpow_natCast]
    calc (10 : ℚ) ^ (digitCount (numerator / denominator) - 1)
        ≤ (numerator / denominator : ℕ) := by exact_mod_cast quotient
      _ ≤ numerator / denominator := Nat.cast_div_le
  · rename_i small
    obtain ⟨ceiling, ceilingEq⟩ : ∃ ceiling, ceiling = (denominator + numerator - 1) / numerator :=
      ⟨_, rfl⟩
    have division := Nat.div_add_mod (denominator + numerator - 1) numerator
    have remainder := Nat.mod_lt (denominator + numerator - 1) positive
    have power := lt_pow_digitCount (ceiling - 1)
    rw [← ceilingEq] at division ⊢
    generalize digitCount (ceiling - 1) = count at power ⊢
    have covered : denominator ≤ numerator * 10 ^ count :=
      calc denominator ≤ numerator * ceiling := by omega
        _ ≤ numerator * 10 ^ count := Nat.mul_le_mul_left _ (by omega)
    have exponent : (1 - (count : Int)) - 1 = -count := by omega
    rw [exponent, zpow_neg, zpow_natCast, inv_eq_one_div,
      div_le_div_iff₀ (by positivity) (by positivity), one_mul]
    exact_mod_cast covered

theorem spans_of_lt {interval : RoundingInterval} {value : ℚ}
    (lower : interval.low * interval.unit < value) (upper : value < interval.high * interval.unit) :
    interval.Spans value :=
  ⟨⟨lower.le, upper.le⟩, .inr ⟨lower, upper⟩⟩

theorem spans_of_nearest? {interval : RoundingInterval} (measured : 0 < interval.unitDenominator)
    {scale : Int} {digits : Nat} (found : interval.nearest? scale = some digits) :
    interval.Spans (digits * 10 ^ scale) := by
  rw [← contains_iff measured]
  rw [nearest?] at found
  split at found
  · rename_i first second
    cases found
    split
    · exact first
    · exact second
  · rename_i first _
    cases found
    exact first
  · rename_i _ second
    cases found
    exact second
  · contradiction

theorem nearest?_isSome {interval : RoundingInterval} (measured : 0 < interval.unitDenominator)
    (scale : Int) (lowered : interval.low * interval.unit ≤ interval.center * interval.unit)
    (raised : interval.center * interval.unit < interval.high * interval.unit)
    (fine : (10 : ℚ) ^ scale < interval.high * interval.unit - interval.low * interval.unit) :
    (interval.nearest? scale).isSome = true := by
  obtain ⟨atMost, above⟩ := below_spec measured scale
  cases first : interval.contains (interval.below scale) scale with
  | true => cases second : interval.contains (interval.below scale + 1) scale <;> simp [nearest?, first, second]
  | false =>
      cases second : interval.contains (interval.below scale + 1) scale with
      | true => simp [nearest?, first, second]
      | false =>
          exfalso
          rw [← Bool.not_eq_true, contains_iff measured] at first second
          have low : interval.below scale * (10 : ℚ) ^ scale ≤ interval.low * interval.unit := by
            by_contra inside
            exact first (spans_of_lt (not_le.mp inside) (by linarith))
          have high : interval.high * interval.unit ≤
              (interval.below scale + 1 : ℕ) * (10 : ℚ) ^ scale := by
            by_contra inside
            exact second (spans_of_lt (by linarith) (not_le.mp inside))
          push_cast at high
          linarith

theorem search_spec {interval : RoundingInterval} (measured : 0 < interval.unitDenominator)
    {leading : Int} {count fuel more : Nat} (within : more < fuel)
    (hit : (interval.nearest? (leading - (count + more : ℕ))).isSome = true) :
    interval.Spans (interval.search leading count fuel).value := by
  induction fuel generalizing count more with
  | zero => omega
  | succ fuel ih =>
      rw [search]
      cases found : interval.nearest? (leading - count) with
      | some digits =>
          have spans := spans_of_nearest? measured found
          dsimp only
          split
          · rename_i trailing
            have tenfold : ((digits / 10 : ℕ) : ℚ) * 10 = digits := by
              exact_mod_cast Nat.div_mul_cancel (Nat.dvd_of_mod_eq_zero trailing)
            have shifted : ((digits / 10 : ℕ) : ℚ) * 10 ^ (leading - count + 1) =
                digits * 10 ^ (leading - count) := by
              rw [zpow_add_one₀ (by decide), ← tenfold]
              ring
            rw [Decimal.value, shifted]
            exact spans
          · exact spans
      | none =>
          cases more with
          | zero => simp [found] at hit
          | succ more =>
              refine ih (by omega : more < fuel) ?_
              rwa [Nat.add_right_comm, Nat.add_assoc]

end RoundingInterval

theorem roundingInterval_center (x : Binary64) :
    x.roundingInterval.center = 4 * x.significand :=
  rfl

theorem roundingInterval_high (x : Binary64) :
    x.roundingInterval.high = 4 * x.significand + 2 :=
  rfl

theorem unit_pos (x : Binary64) : 0 < x.roundingInterval.unit := by
  simp only [RoundingInterval.unit, roundingInterval, Nat.pow_eq]
  positivity

theorem center_lt_width {x : Binary64} (nonzero : x.magnitude ≠ 0) :
    x.roundingInterval.low ≤ 4 * x.significand ∧
      4 * x.significand + 10 ^ 16 * x.roundingInterval.low <
        10 ^ 16 * x.roundingInterval.high := by
  have positive := significand_pos nonzero
  have small := x.significand_lt
  have low := x.roundingInterval_low
  rw [roundingInterval_high]
  simp only [exponentWeight] at small low
  omega

/-- Grids of seventeen digits are finer than the rounding interval is wide. -/
theorem seventeen_digits {x : Binary64} (nonzero : x.magnitude ≠ 0) :
    (x.roundingInterval.nearest? (x.roundingInterval.leading - 17)).isSome = true := by
  have positive := significand_pos nonzero
  have unitPositive := x.unit_pos
  have measured := x.unitDenominator_pos
  have numerator : 0 < x.roundingInterval.center * x.roundingInterval.unitNumerator := by
    simp only [roundingInterval, Nat.pow_eq]
    positivity
  have leads := RoundingInterval.leading_spec measured numerator
  have exponent : x.roundingInterval.leading - 1 = x.roundingInterval.leading - 17 + 16 := by omega
  rw [exponent, zpow_add₀ (by decide), roundingInterval_center] at leads
  obtain ⟨lowered, narrow⟩ := center_lt_width nonzero
  have loweredUnits : x.roundingInterval.low * x.roundingInterval.unit ≤
      (4 * x.significand : ℕ) * x.roundingInterval.unit := by gcongr
  have narrowUnits : ((4 * x.significand + 10 ^ 16 * x.roundingInterval.low : ℕ) : ℚ) *
      x.roundingInterval.unit <
        (10 ^ 16 * x.roundingInterval.high : ℕ) * x.roundingInterval.unit := by gcongr
  refine RoundingInterval.nearest?_isSome measured _ loweredUnits ?_ ?_
  · rw [roundingInterval_center, roundingInterval_high]
    gcongr
    omega
  · push_cast at narrowUnits leads
    linarith

/-- The shortest decimal of a finite number other than zero lies in its rounding interval. -/
theorem spans_shortest {x : Binary64} (nonzero : x.magnitude ≠ 0) :
    x.roundingInterval.Spans x.shortest.value := by
  rw [shortest, if_neg nonzero]
  exact RoundingInterval.search_spec x.unitDenominator_pos (by decide : 16 < 17)
    (seventeen_digits nonzero)

theorem two_pow_le_ten_pow {small large : Nat} (order : small ≤ 3 * large) :
    (2 : ℚ) ^ small ≤ 10 ^ large :=
  calc (2 : ℚ) ^ small ≤ 2 ^ (3 * large) := pow_le_pow_right₀ (by norm_num) order
    _ = 8 ^ large := by rw [pow_mul]; norm_num
    _ ≤ 10 ^ large := pow_le_pow_left₀ (by norm_num) (by norm_num) large

theorem unit_bounds {x : Binary64} (finite : x.isFinite = true) :
    (10 : ℚ) ^ (-359 : Int) ≤ x.roundingInterval.unit ∧
      x.roundingInterval.unit ≤ 10 ^ (323 : Int) := by
  have largest : x.exponent ≤ 2045 := by
    rw [isFinite, decide_eq_true_eq, infiniteMagnitude, exponentWeight] at finite
    rw [exponent, exponentWeight]
    split <;> omega
  obtain ⟨finest, finestEq⟩ : ∃ finest, finest = 1076 := ⟨_, rfl⟩
  have unitEq : x.roundingInterval.unit = 2 ^ x.exponent / 2 ^ finest := by
    simp only [RoundingInterval.unit, roundingInterval, Nat.pow_eq, ← finestEq]
    push_cast
    rfl
  have small : (2 : ℚ) ^ finest ≤ 10 ^ 359 := two_pow_le_ten_pow (by omega)
  have large : (2 : ℚ) ^ 969 ≤ 10 ^ 323 := two_pow_le_ten_pow (by omega)
  rw [unitEq]
  constructor
  · calc (10 : ℚ) ^ (-359 : Int) = 1 / 10 ^ 359 := by rw [zpow_neg, inv_eq_one_div]; rfl
      _ ≤ 2 ^ x.exponent / 2 ^ finest := by
        gcongr
        exact one_le_pow₀ (by norm_num)
  · rw [div_le_iff₀ (by positivity)]
    calc (2 : ℚ) ^ x.exponent ≤ 2 ^ (969 + finest) := pow_le_pow_right₀ (by norm_num) (by omega)
      _ = 2 ^ 969 * 2 ^ finest := pow_add _ _ _
      _ ≤ 10 ^ (323 : Int) * 2 ^ finest := by
        gcongr
        exact large

theorem magnitudeOfDecimal_of_spans {x : Binary64} (finite : x.isFinite = true)
    (nonzero : x.magnitude ≠ 0) {digits : Nat} {scale : Int}
    (spans : x.roundingInterval.Spans (digits * 10 ^ scale)) :
    magnitudeOfDecimal digits scale = x.magnitude := by
  obtain ⟨lowest, highest⟩ := unit_bounds finite
  obtain ⟨lower, upper⟩ := spans.1
  have unitPositive := x.unit_pos
  have atLeast : x.roundingInterval.unit ≤ digits * 10 ^ scale := by
    have low : (1 : ℚ) ≤ x.roundingInterval.low := by
      have positive := significand_pos nonzero
      have low := x.four_significand_le
      exact_mod_cast (by omega : 1 ≤ x.roundingInterval.low)
    nlinarith
  have atMost : digits * 10 ^ scale ≤ (10 : ℚ) ^ (340 : Int) := by
    have high : (x.roundingInterval.high : ℚ) ≤ 10 ^ (17 : Int) := by
      have small := x.significand_lt
      rw [exponentWeight] at small
      rw [roundingInterval_high]
      exact_mod_cast (by omega : 4 * x.significand + 2 ≤ 10 ^ 17)
    calc (digits * 10 ^ scale : ℚ) ≤ x.roundingInterval.high * x.roundingInterval.unit := upper
      _ ≤ 10 ^ (17 : Int) * 10 ^ (323 : Int) := by gcongr
      _ = 10 ^ (340 : Int) := by rw [← zpow_add₀ (by norm_num)]; rfl
  have digitsPositive : 0 < digits := by
    rcases Nat.eq_zero_or_pos digits with zero | positive
    · rw [zero, Nat.cast_zero, zero_mul] at atLeast
      linarith
    · exact positive
  have sizeAbove : -359 < (digitCount digits : Int) + scale := by
    rw [← zpow_lt_zpow_iff_right₀ (by norm_num : (1 : ℚ) < 10), zpow_add₀ (by norm_num), zpow_natCast]
    have count : (digits : ℚ) < 10 ^ digitCount digits := by
      exact_mod_cast lt_pow_digitCount digits
    calc (10 : ℚ) ^ (-359 : Int) ≤ digits * 10 ^ scale := lowest.trans atLeast
      _ < 10 ^ digitCount digits * 10 ^ scale := by gcongr
  have sizeBelow : (digitCount digits - 1 : ℕ) + scale ≤ 340 := by
    rw [← zpow_le_zpow_iff_right₀ (by norm_num : (1 : ℚ) < 10), zpow_add₀ (by norm_num), zpow_natCast]
    have count : (10 : ℚ) ^ (digitCount digits - 1) ≤ digits := by
      exact_mod_cast pow_digitCount_le digitsPositive
    calc (10 : ℚ) ^ (digitCount digits - 1) * 10 ^ scale ≤ digits * 10 ^ scale := by gcongr
      _ ≤ 10 ^ (340 : Int) := atMost
  rw [decimal_ratio] at spans
  rw [magnitudeOfDecimal, if_neg (by omega), if_neg (by omega)]
  exact magnitudeOfRatio_of_spans finite (Nat.pow_pos (by decide)) spans

theorem shortest_canonical (x : Binary64) : 0 < x.shortest.digits ∨ x.shortest.scale = 0 := by
  by_cases zero : x.magnitude = 0
  · rw [shortest, if_pos zero]
    exact .inr rfl
  · left
    have positive := significand_pos zero
    have low := x.four_significand_le
    have lowPositive : 0 < x.roundingInterval.low := by omega
    have unitPositive := x.unit_pos
    have below : 0 < x.roundingInterval.low * x.roundingInterval.unit := by positivity
    have spans := (spans_shortest zero).1.1
    by_contra none
    have digitsZero : x.shortest.digits = 0 := by omega
    rw [Decimal.value, digitsZero, Nat.cast_zero, zero_mul] at spans
    linarith

theorem ofDecimal_of_value {x : Binary64} (finite : x.isFinite = true) {digits : Nat} {scale : Int}
    (value : (digits * 10 ^ scale : ℚ) = x.shortest.value) :
    ofDecimal x.isNegative digits scale = x := by
  have magnitude : magnitudeOfDecimal digits scale = x.magnitude := by
    by_cases zero : x.magnitude = 0
    · rw [shortest, if_pos zero, Decimal.value, Nat.cast_zero, zero_mul, mul_eq_zero] at value
      have digitsZero : digits = 0 := by
        rcases value with digitsZero | powerZero
        · exact_mod_cast digitsZero
        · exact absurd powerZero (zpow_ne_zero scale (by norm_num))
      rw [magnitudeOfDecimal, if_pos (.inl digitsZero), zero]
    · exact magnitudeOfDecimal_of_spans finite zero (value ▸ spans_shortest zero)
  rw [ofDecimal, magnitude, ofMagnitude_magnitude]

end Binary64

namespace Decimal

def padded (decimal : Decimal) : List Char :=
  let digits := Nat.toDigits 10 decimal.digits
  List.replicate ((-decimal.scale).toNat + 1 - digits.length) '0' ++ digits

def whole (decimal : Decimal) : List Char :=
  if 0 ≤ decimal.scale then
    Nat.toDigits 10 decimal.digits ++ List.replicate decimal.scale.toNat '0'
  else decimal.padded.take (decimal.padded.length - (-decimal.scale).toNat)

def fraction (decimal : Decimal) : List Char :=
  if 0 ≤ decimal.scale then ['0']
  else decimal.padded.drop (decimal.padded.length - (-decimal.scale).toNat)

theorem plain_eq (decimal : Decimal) :
    decimal.plain = decimal.whole ++ '.' :: decimal.fraction := by
  rw [plain, whole, fraction]
  split
  · rfl
  · rfl

theorem isDigit_of_mem_padded {decimal : Decimal} {c : Char} (member : c ∈ decimal.padded) :
    c.isDigit = true := by
  rcases List.mem_append.mp member with zero | digit
  · rw [List.eq_of_mem_replicate zero]
    decide
  · exact isDigit_of_mem_toDigits digit

theorem isDigit_of_mem_whole {decimal : Decimal} {c : Char} (member : c ∈ decimal.whole) :
    c.isDigit = true := by
  rw [whole] at member
  split at member
  · rcases List.mem_append.mp member with digit | zero
    · exact isDigit_of_mem_toDigits digit
    · rw [List.eq_of_mem_replicate zero]
      decide
  · exact isDigit_of_mem_padded (List.mem_of_mem_take member)

theorem isDigit_of_mem_fraction {decimal : Decimal} {c : Char} (member : c ∈ decimal.fraction) :
    c.isDigit = true := by
  rw [fraction] at member
  split at member
  · rw [List.mem_singleton.mp member]
    decide
  · exact isDigit_of_mem_padded (List.mem_of_mem_drop member)

theorem length_padded_gt (decimal : Decimal) :
    (-decimal.scale).toNat < decimal.padded.length := by
  simp only [padded, List.length_append, List.length_replicate]
  omega

theorem whole_ne_nil (decimal : Decimal) : decimal.whole ≠ [] := by
  have longer := decimal.length_padded_gt
  rw [whole]
  split
  · simp
  · rw [ne_eq, List.take_eq_nil_iff, ← List.length_eq_zero_iff]
    omega

theorem fraction_length (decimal : Decimal) :
    (decimal.fraction.length : Int) = if 0 ≤ decimal.scale then 1 else -decimal.scale := by
  have longer := decimal.length_padded_gt
  rw [fraction]
  split
  · rfl
  · rw [List.length_drop]
    omega

theorem fraction_ne_nil (decimal : Decimal) : decimal.fraction ≠ [] := by
  have length := decimal.fraction_length
  rw [ne_eq, ← List.length_eq_zero_iff]
  split at length <;> omega

theorem head?_append_toDigits {number : Nat} (positive : 0 < number) (rest : List Char) :
    (Nat.toDigits 10 number ++ rest).head? ≠ some '0' := by
  rw [List.head?_append_of_ne_nil _ Nat.toDigits_ne_nil]
  exact head?_toDigits positive

theorem whole_leading {decimal : Decimal} (canonical : 0 < decimal.digits ∨ decimal.scale = 0) :
    decimal.whole = ['0'] ∨ decimal.whole.head? ≠ some '0' := by
  rw [whole]
  split
  · by_cases positive : 0 < decimal.digits
    · exact .inr (head?_append_toDigits positive _)
    · have digitsZero : decimal.digits = 0 := by omega
      have scaleZero : decimal.scale = 0 := by tauto
      simp [digitsZero, scaleZero]
  · rename_i negative
    have positive : 0 < decimal.digits := by omega
    by_cases short : (Nat.toDigits 10 decimal.digits).length ≤ (-decimal.scale).toNat
    · have length : decimal.padded.length - (-decimal.scale).toNat = 1 := by
        simp only [padded, List.length_append, List.length_replicate]
        omega
      obtain ⟨zeros, zerosEq⟩ : ∃ zeros, (-decimal.scale).toNat + 1 -
          (Nat.toDigits 10 decimal.digits).length = zeros + 1 :=
        ⟨(-decimal.scale).toNat - (Nat.toDigits 10 decimal.digits).length, by omega⟩
      left
      rw [length, padded, zerosEq, List.replicate_succ]
      rfl
    · have unpadded : decimal.padded = Nat.toDigits 10 decimal.digits := by
        have zeros : (-decimal.scale).toNat + 1 - (Nat.toDigits 10 decimal.digits).length = 0 := by
          omega
        rw [padded, zeros, List.replicate_zero, List.nil_append]
      right
      rw [unpadded, List.head?_take, if_neg (by omega)]
      exact head?_toDigits positive

theorem decimalValue_digits (decimal : Decimal) :
    decimalValue (decimal.whole ++ decimal.fraction) =
      if 0 ≤ decimal.scale then decimal.digits * 10 ^ (decimal.scale.toNat + 1)
      else decimal.digits := by
  rw [whole, fraction]
  split
  · rw [List.append_assoc, ← List.replicate_succ', decimalValue_append_zeros, decimalValue_toDigits]
  · rw [List.take_append_drop, padded, decimalValue_zeros_append, decimalValue_toDigits]

theorem value_plain (decimal : Decimal) :
    (decimalValue (decimal.whole ++ decimal.fraction) *
      10 ^ (-(decimal.fraction.length : Int)) : ℚ) = decimal.value := by
  rw [decimalValue_digits, fraction_length, value]
  split
  · rename_i natural
    obtain ⟨size, sizeEq⟩ := Int.eq_ofNat_of_zero_le natural
    rw [sizeEq, Int.toNat_natCast, zpow_natCast, pow_succ, zpow_neg_one, Nat.cast_mul, Nat.cast_mul,
      Nat.cast_pow]
    field_simp
    norm_num
    ring
  · rw [neg_neg]

end Decimal

theorem Binary64.ofDecimal_plain {x : Binary64} (finite : x.isFinite = true) :
    ofDecimal x.isNegative (decimalValue (x.shortest.whole ++ x.shortest.fraction))
      (-(x.shortest.fraction.length : Int)) = x :=
  ofDecimal_of_value finite x.shortest.value_plain

end QueryOptions
