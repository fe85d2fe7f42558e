import QueryOptions.Count
import QueryOptions.Proofs.CommaList
import QueryOptions.Proofs.Filter.Lexemes
import QueryOptions.Proofs.Filter.RoundTrip
import QueryOptions.Proofs.Text.Placement
import QueryOptions.Proofs.Text.Trim

/-!
Integers as text. However long a run of digits is, a filter reads it as the number that it denotes
up to the largest signed integer of 64 bits, and a count is read up to the largest unsigned one.
Greater numbers are refused, a literal where it starts and a count by the name of its option.
-/

namespace QueryOptions

open Text (Blanks IsPropertyName Stops isBlank isNameChar trim)

namespace IsNumeral

theorem names {digits : List Char} (numeral : IsNumeral digits) :
    ∀ c ∈ digits, isNameChar c = true :=
  fun c member => Filter.isNameChar_of_isDigit (numeral.isDigit c member)

theorem exists_cons {digits : List Char} (numeral : IsNumeral digits) :
    ∃ c rest, digits = c :: rest ∧ c.isDigit = true := by
  cases digits with
  | nil => exact absurd rfl numeral.nonempty
  | cons c rest => exact ⟨c, rest, rfl, numeral.isDigit c (by simp)⟩

end IsNumeral

namespace Filter

theorem readOperand_digits {digits : List Char} (numeral : IsNumeral digits) :
    readOperand digits =
      match int64? (placeValue digits) with
      | some value => .ok (.single (.integer value), [])
      | none => fail .integerOutOfRange digits := by
  have read := readNumber_run numeral.isDigit (Text.stops_nil _) (by simp)
  rw [List.append_nil, decimalValue_eq_placeValue] at read
  obtain ⟨c, rest, rfl, digit⟩ := numeral.exists_cons
  rw [readOperand, readLiteral_digit digit, read]
  cases int64? (placeValue (c :: rest)) with
  | none => rfl
  | some value => rfl

theorem read_comparison {limits : Limits} (few : 0 < limits.terms) {c : Char} {text : List Char}
    (name : isNameChar c = true) {outcome : Except Failure Comparison}
    (reading : readComparison (c :: text) = outcome.map fun comparison => (comparison, [])) :
    read limits (c :: text) = outcome.map leaf := by
  have start : Text.skipBlanks (c :: text) = c :: text :=
    Text.skipBlanks_of_stops ((Text.stops_cons _ _ _).mpr (Text.isBlank_of_isNameChar name))
  rw [read_eq limits _ (by simp [start]), readExpression, start,
    readTerm_name limits _ 0 0 start name few, start, reading]
  cases outcome with
  | error failure => rfl
  | ok comparison => rfl

theorem read_digits {limits : Limits} (few : 0 < limits.terms) {property digits : List Char}
    (nonempty : property ≠ []) (names : ∀ c ∈ property, isNameChar c = true)
    {operator : Operator} (scalar : operator.takesList = false) (numeral : IsNumeral digits) :
    read limits (property ++ ' ' :: (operator.word ++ ' ' :: digits)) =
      match int64? (placeValue digits) with
      | some value => .ok (leaf ⟨String.ofList property, operator, .single (.integer value), none⟩)
      | none => fail .integerOutOfRange digits := by
  have toDigits : Text.skipBlanks digits = digits :=
    Text.skipBlanks_name numeral.nonempty numeral.names
  have reading := readComparison_eq (isName_word nonempty names _) Text.blanks_space
    (isName_operator operator digits) (Text.sameWord_refl operator.word) (breaksWord_space digits)
    Text.blanks_space
  rw [toDigits, readOperand_digits numeral] at reading
  obtain ⟨c, rest, rfl⟩ := List.exists_cons_of_ne_nil nonempty
  have name := names c (by simp)
  cases fits : int64? (placeValue digits) with
  | none =>
      have refused : readComparison (c :: (rest ++ ' ' :: (operator.word ++ ' ' :: digits))) =
          Except.map (fun comparison => (comparison, [])) (fail .integerOutOfRange digits) := by
        rw [fits] at reading
        exact reading
      exact read_comparison few name refused
  | some value =>
      have made : readComparison (c :: (rest ++ ' ' :: (operator.word ++ ' ' :: digits))) =
          Except.map (fun comparison => (comparison, []))
            (.ok ⟨String.ofList (c :: rest), operator, .single (.integer value), none⟩) := by
        rw [fits] at reading
        simpa [bind, Except.bind, Except.map, shapeFault?, Value.isNull, scalar] using reading
      exact read_comparison few name made

end Filter

namespace Count

def IsSign (sign : List Char) : Prop :=
  sign = [] ∨ sign = ['+']

theorem IsSign.stops {sign digits : List Char} (isSign : IsSign sign) (numeral : IsNumeral digits)
    (rest : List Char) : Stops isBlank (sign ++ (digits ++ rest)) := by
  rcases isSign with rfl | rfl
  · exact Text.stops_blank_name numeral.nonempty numeral.names rest
  · exact (Text.stops_cons _ _ _).mpr (by decide)

theorem dropPlus_append {sign digits : List Char} (isSign : IsSign sign)
    (numeral : IsNumeral digits) : dropPlus (sign ++ digits) = digits := by
  rcases isSign with rfl | rfl
  · obtain ⟨c, rest, rfl, digit⟩ := numeral.exists_cons
    rw [List.nil_append, dropPlus]
    rintro _ ⟨⟩
    exact absurd digit (by decide)
  · rfl

theorem dropPlus_split (text : List Char) : ∃ sign, IsSign sign ∧ text = sign ++ dropPlus text := by
  rw [dropPlus.eq_def]
  split
  · exact ⟨['+'], .inr rfl, rfl⟩
  · exact ⟨[], .inl rfl, rfl⟩

theorem read?_digits {sign digits : List Char} (isSign : IsSign sign)
    (numeral : IsNumeral digits) : read? (sign ++ digits) = uint64? (placeValue digits) := by
  have digitsOnly : digits.all Char.isDigit = true := List.all_eq_true.mpr numeral.isDigit
  have nonempty : digits.isEmpty = false := List.isEmpty_eq_false_iff.mpr numeral.nonempty
  simp only [read?, dropPlus_append isSign numeral, nonempty, digitsOnly, Bool.not_true,
    Bool.or_self, Bool.false_eq_true, if_false, decimalValue_eq_placeValue]

theorem read?_eq_some {text : List Char} {count : UInt64} (read : read? text = some count) :
    ∃ sign digits, IsSign sign ∧ IsNumeral digits ∧ text = sign ++ digits ∧
      placeValue digits = count.toNat := by
  obtain ⟨sign, isSign, textEq⟩ := dropPlus_split text
  simp only [read?] at read
  split at read
  · contradiction
  · rename_i valid
    simp only [Bool.or_eq_true, List.isEmpty_iff, Bool.not_eq_true', not_or, Bool.not_eq_false,
      List.all_eq_true] at valid
    refine ⟨sign, dropPlus text, isSign, ⟨valid.1, valid.2⟩, textEq, ?_⟩
    rw [toNat_of_uint64? read, decimalValue_eq_placeValue]

theorem trim_digits {before sign digits after : List Char} (blanksBefore : Blanks before)
    (isSign : IsSign sign) (numeral : IsNumeral digits) (blanksAfter : Blanks after) :
    trim (before ++ (sign ++ (digits ++ after))) = sign ++ digits := by
  have stops := isSign.stops numeral after
  have solid := (Text.endsSolid_name numeral.nonempty numeral.names).append sign
  rw [← List.append_assoc] at stops
  rw [← List.append_assoc sign]
  exact Text.trim_padded blanksBefore stops solid blanksAfter

end Count

/-- Digits are read as the number they denote, or refused if it does not fit: behind a property and
`eq` as the signed integer that the property is compared with, and in a count, where blanks may
stand around them and a plus sign in front, as the unsigned one. Nothing else is a count. -/
theorem integers_exact_to_limits :
    (∀ (limits : Filter.Limits) (property : String) (digits : List Char), 0 < limits.terms →
      IsPropertyName property → IsNumeral digits →
      let start := property ++ " eq "
      let text := start ++ String.ofList digits
      (placeValue digits ≤ 2 ^ 63 - 1 → ∃ value : Int64, value.toInt = placeValue digits ∧
        Filter.parse limits text =
          .ok (.leaf { property, operator := .eq, operand := .single (.integer value) })) ∧
      (2 ^ 63 - 1 < placeValue digits → Filter.parse limits text =
        .error (.malformed "Integer literal out of range" start.utf8ByteSize text))) ∧
    (∀ (option : String) (before sign digits after : List Char), Blanks before →
      Count.IsSign sign → IsNumeral digits → Blanks after →
      let text := before ++ (sign ++ (digits ++ after))
      (placeValue digits ≤ 2 ^ 64 - 1 → ∃ count : UInt64, count.toNat = placeValue digits ∧
        Count.parse option text = .ok count) ∧
      (2 ^ 64 - 1 < placeValue digits → Count.parse option text =
        .error (.invalidOption option ("expected a non-negative integer, found '" ++
          String.ofList (sign ++ digits) ++ "'")))) ∧
    ∀ (option : String) (text : List Char) (count : UInt64), Count.parse option text = .ok count →
      ∃ before sign digits after, Blanks before ∧ Count.IsSign sign ∧ IsNumeral digits ∧
        Blanks after ∧ text = before ++ (sign ++ (digits ++ after)) ∧
        placeValue digits = count.toNat := by
  refine ⟨?_, ?_, ?_⟩
  · intro limits property digits few isName numeral start text
    have spelled : text.toList =
        property.toList ++ ' ' :: (Operator.eq.word ++ ' ' :: digits) := by
      simp [text, start, Operator.word]
    have scalar : Operator.eq.takesList = false := rfl
    have read := Filter.read_digits few isName.toList_ne_nil isName.2 scalar numeral
    rw [Filter.parse, spelled, read, String.ofList_toList]
    constructor
    · intro fits
      obtain ⟨value, found, valueEq⟩ := exists_int64? fits
      exact ⟨value, valueEq, by rw [found]; rfl⟩
    · intro large
      have reported := Text.Fault.toError_eq ⟨.integerOutOfRange, digits⟩ (rfl : text = _)
      rw [int64?_eq_none large, ← spelled]
      exact congrArg Except.error reported
  · intro option before sign digits after blanksBefore isSign numeral blanksAfter text
    have trimmed := Count.trim_digits blanksBefore isSign numeral blanksAfter
    rw [Count.parse, trimmed, Count.read?_digits isSign numeral]
    constructor
    · intro fits
      obtain ⟨count, found, value⟩ := exists_uint64? fits
      exact ⟨count, value, by rw [found]⟩
    · intro large
      rw [uint64?_eq_none large]
  · intro option text count parsed
    rw [Count.parse] at parsed
    split at parsed
    · rename_i found read
      cases parsed
      obtain ⟨before, after, blanksBefore, blanksAfter, _, textEq⟩ := Text.trim_split text
      obtain ⟨sign, digits, isSign, numeral, trimmed, value⟩ := Count.read?_eq_some read
      refine ⟨before, sign, digits, after, blanksBefore, isSign, numeral, blanksAfter, ?_, value⟩
      rw [← List.append_assoc sign, ← trimmed]
      exact textEq
    · contradiction

/-- The largest integers of either kind, with zeros in front, and the ones after them. The letters
of the property take more than one byte. -/
theorem integers_exact_to_limits_edges :
    (∃ value : Int64, value.toInt = 9223372036854775807 ∧
      Filter.parse {} "größe eq 0009223372036854775807" =
        .ok (.leaf { property := "größe", operator := .eq, operand := .single (.integer value) })) ∧
    Filter.parse {} "größe eq 9223372036854775808" =
      .error (.malformed "Integer literal out of range" 11 "größe eq 9223372036854775808") ∧
    (∃ count : UInt64, count.toNat = 18446744073709551615 ∧
      Count.parse "top" ('\u2003' :: '+' :: ("018446744073709551615".toList ++ [' '])) =
        .ok count) ∧
    Count.parse "skip" "18446744073709551616".toList = .error (.invalidOption "skip"
      "expected a non-negative integer, found '18446744073709551616'") ∧
    Count.parse "top" "+007 ".toList = .ok 7 ∧
    ∃ digits, IsNumeral digits ∧ placeValue digits = 7 ∧ digits <:+: "+007 ".toList := by
  obtain ⟨literals, counts, onlyCounts⟩ := integers_exact_to_limits
  have isName : IsPropertyName "größe" := ⟨by decide, List.all_eq_true.mp (by decide +kernel)⟩
  have numeral (digits : List Char) (nonempty : digits ≠ []) (all : digits.all Char.isDigit = true) :
      IsNumeral digits := ⟨nonempty, List.all_eq_true.mp all⟩
  have wide : Blanks ['\u2003'] := List.all_eq_true.mp (by decide)
  have seven : Count.parse "top" "+007 ".toList = .ok 7 := by decide +kernel
  refine ⟨?_, ?_, ?_, ?_, seven, ?_⟩
  · have largest : placeValue "0009223372036854775807".toList = 9223372036854775807 := by
      decide +kernel
    have read := (literals {} "größe" "0009223372036854775807".toList (by decide) isName
      (numeral _ (by decide) (by decide))).1 (by rw [largest]; decide)
    rwa [largest] at read
  · have beyond : placeValue "9223372036854775808".toList = 9223372036854775808 := by
      decide +kernel
    exact (literals {} "größe" "9223372036854775808".toList (by decide) isName
      (numeral _ (by decide) (by decide))).2 (by rw [beyond]; decide)
  · have largest : placeValue "018446744073709551615".toList = 18446744073709551615 := by
      decide +kernel
    have read := (counts "top" ['\u2003'] ['+'] "018446744073709551615".toList [' '] wide (.inr rfl)
      (numeral _ (by decide) (by decide)) Text.blanks_space).1 (by rw [largest]; decide)
    rwa [largest] at read
  · have beyond : placeValue "18446744073709551616".toList = 18446744073709551616 := by
      decide +kernel
    exact (counts "skip" [] [] "18446744073709551616".toList [] Text.blanks_nil (.inl rfl)
      (numeral _ (by decide) (by decide)) Text.blanks_nil).2 (by rw [beyond]; decide)
  · obtain ⟨before, sign, digits, after, _, _, isNumeral, _, textEq, value⟩ := onlyCounts _ _ _ seven
    refine ⟨digits, isNumeral, value, before ++ sign, after, ?_⟩
    rw [textEq, List.append_assoc, List.append_assoc]

end QueryOptions
