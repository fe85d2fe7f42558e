import Mathlib.Algebra.Group.Nat.Defs
import Mathlib.Data.Nat.Digits.Defs
import Mathlib.Tactic.Common
import QueryOptions.Number.Integer

/-! Decimal digits denote the number they were written for, and a number fits into a word up to the
largest one of its kind. -/

namespace QueryOptions

structure IsNumeral (digits : List Char) : Prop where
  nonempty : digits ≠ []
  isDigit : ∀ c ∈ digits, c.isDigit = true

/-- The number that digits denote by their places, of which the last one is that of the units. -/
def placeValue (digits : List Char) : Nat :=
  Nat.ofDigits 10 (digits.reverse.map fun digit => digit.toNat - '0'.toNat)

theorem decimalValue_eq_placeValue (digits : List Char) :
    decimalValue digits = placeValue digits := by
  simp only [placeValue, Nat.ofDigits_eq_foldr, List.foldr_map, List.foldr_reverse, decimalValue,
    Nat.cast_id, Nat.add_comm]

theorem decimalValue_toDigits (number : Nat) : decimalValue (Nat.toDigits 10 number) = number := by
  rw [decimalValue, ← Nat.ofDigitChars_eq_foldl]
  exact Nat.ofDigitChars_ten_toDigits

theorem decimalValue_append_zeros (digits : List Char) (count : Nat) :
    decimalValue (digits ++ List.replicate count '0') = decimalValue digits * 10 ^ count := by
  simp only [decimalValue, ← Nat.ofDigitChars_eq_foldl]
  rw [Nat.ofDigitChars_append, Nat.ofDigitChars_replicate_zero, Nat.mul_comm]

theorem decimalValue_zeros_append (count : Nat) (digits : List Char) :
    decimalValue (List.replicate count '0' ++ digits) = decimalValue digits := by
  simp only [decimalValue, ← Nat.ofDigitChars_eq_foldl]
  rw [Nat.ofDigitChars_append, Nat.ofDigitChars_replicate_zero, Nat.mul_zero]

theorem isDigit_of_mem_toDigits {c : Char} {number : Nat} (member : c ∈ Nat.toDigits 10 number) :
    c.isDigit = true :=
  Nat.isDigit_of_mem_toDigits (by decide) (by decide) member

theorem head?_toDigits {number : Nat} (positive : 0 < number) :
    (Nat.toDigits 10 number).head? ≠ some '0' := by
  induction number using Nat.strongRecOn with
  | ind number ih =>
      by_cases small : number < 10
      · rw [Nat.toDigits_of_lt_base small]
        have digits : ∀ digit < 10, 0 < digit → [Nat.digitChar digit].head? ≠ some '0' := by
          decide
        exact digits number small positive
      · rw [Nat.toDigits_of_base_le (by decide) (by omega)]
        have shorter := ih (number / 10) (by omega) (by omega)
        cases front : Nat.toDigits 10 (number / 10) with
        | nil => exact absurd front Nat.toDigits_ne_nil
        | cons c rest => simpa [front] using shorter

theorem int64?_toInt (value : Int64) : int64? value.toInt = some value := by
  have lower := value.le_toInt
  have upper := value.toInt_lt
  rw [int64?, if_pos ⟨by simpa using lower, by simpa using upper⟩, Int64.ofInt_toInt]

theorem toInt_of_int64? {value : Int} {number : Int64} (fits : int64? value = some number) :
    number.toInt = value := by
  rw [int64?] at fits
  split at fits
  · rename_i bounds
    cases fits
    exact Int64.toInt_ofInt_of_le (by simpa using bounds.1) (by simpa using bounds.2)
  · contradiction

theorem exists_int64? {number : Nat} (fits : number ≤ 2 ^ 63 - 1) :
    ∃ value : Int64, int64? number = some value ∧ value.toInt = number := by
  have found : int64? number = some (Int64.ofInt number) := if_pos ⟨by omega, by omega⟩
  exact ⟨_, found, toInt_of_int64? found⟩

theorem int64?_eq_none {number : Nat} (large : 2 ^ 63 - 1 < number) : int64? number = none :=
  if_neg (by omega)

theorem exists_uint64? {number : Nat} (fits : number ≤ 2 ^ 64 - 1) :
    ∃ value : UInt64, uint64? number = some value ∧ value.toNat = number := by
  have small : number < 2 ^ 64 := by omega
  exact ⟨number.toUInt64, if_pos small, UInt64.toNat_ofNat_of_lt' small⟩

theorem uint64?_eq_none {number : Nat} (large : 2 ^ 64 - 1 < number) : uint64? number = none :=
  if_neg (by omega)

theorem toNat_of_uint64? {number : Nat} {value : UInt64} (fits : uint64? number = some value) :
    value.toNat = number := by
  rw [uint64?] at fits
  split at fits
  · rename_i small
    cases fits
    exact UInt64.toNat_ofNat_of_lt' small
  · contradiction

end QueryOptions
