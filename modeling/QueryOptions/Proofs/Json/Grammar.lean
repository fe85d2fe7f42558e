import QueryOptions.Proofs.Json.Quotation
import QueryOptions.Proofs.Json.Scalar

/-!
The strings and numbers of JSON text by their grammar. The readers take in whatever it derives, up
to where it ends.
-/

namespace QueryOptions.Json

open Text (Stops)

inductive IsUnit : List Char → Piece → Prop
  | character {c : Char} (noQuote : c ≠ '"') (noBackslash : c ≠ '\\') (printable : 0x20 ≤ c.toNat) :
      IsUnit [c] (.char c)
  | letter {letter c : Char} (known : shortEscape? letter = some c) :
      IsUnit ['\\', letter] (.char c)
  | code {a b c d : Char} {code : Nat} (hexadecimal : hexCode? a b c d = some code) :
      IsUnit ['\\', 'u', a, b, c, d] (.escape code)

theorem readString_unit {unit : List Char} {piece : Piece} (isUnit : IsUnit unit piece)
    (rest : List Char) :
    readString (unit ++ rest) =
      (readString rest).map fun (pieces, rest) => (piece :: pieces, rest) := by
  cases isUnit with
  | @character c noQuote noBackslash printable =>
      have noControl : ¬(c.toNat < 0x20 ∨ c = '\\') := by
        rintro (control | backslash)
        · omega
        · exact noBackslash backslash
      rw [List.singleton_append, readString.eq_5 c rest noQuote, if_neg noControl]
      · cases readString rest <;> rfl
      · intro a b c d tail backslash
        exact absurd backslash noBackslash
      · intro letter tail backslash
        exact absurd backslash noBackslash
  | @letter letter c known =>
      have noCode : letter ≠ 'u' := by
        rintro rfl
        cases known
      rw [List.cons_append, List.singleton_append, readString.eq_4 letter rest, known]
      · cases readString rest <;> rfl
      · intro a b c d tail code
        exact absurd code noCode
  | code hexadecimal =>
      simp only [List.cons_append, List.nil_append, readString, hexadecimal]
      cases readString rest <;> rfl

inductive IsFraction : List Char → List Char → Prop
  | missing : IsFraction [] []
  | given {digits : List Char} (nonempty : digits ≠ []) (isDigit : ∀ c ∈ digits, c.isDigit = true) :
      IsFraction ('.' :: digits) digits

inductive IsExponent : List Char → Option Int → Prop
  | missing : IsExponent [] none
  | given {mark : Char} {sign digits : List Char} (isMark : mark = 'e' ∨ mark = 'E')
      (isSign : sign = [] ∨ sign = ['+'] ∨ sign = ['-']) (nonempty : digits ≠ [])
      (isDigit : ∀ c ∈ digits, c.isDigit = true) :
      IsExponent (mark :: (sign ++ digits))
        (some (if sign = ['-'] then -(decimalValue digits : Int) else decimalValue digits))

inductive IsNumber : List Char → Numeral → Prop
  | mk {negative : Bool} {whole fraction places exponent : List Char} {power : Option Int}
      (nonempty : whole ≠ []) (isDigit : ∀ c ∈ whole, c.isDigit = true)
      (leading : whole.head? = some '0' → whole = ['0']) (isFraction : IsFraction fraction places)
      (isExponent : IsExponent exponent power) :
      IsNumber ((if negative then ['-'] else []) ++ (whole ++ (fraction ++ exponent)))
        ⟨negative, decimalValue (whole ++ places), places.length, power.getD 0,
          places.isEmpty && power.isNone⟩

theorem readExponentDigits_digits (negative : Bool) {digits rest : List Char}
    (nonempty : digits ≠ []) (isDigit : ∀ c ∈ digits, c.isDigit = true)
    (stops : Stops Char.isDigit rest) :
    readExponentDigits negative (digits ++ rest) =
      some (some (if negative then -(decimalValue digits : Int) else decimalValue digits),
        rest) := by
  rw [readExponentDigits, Text.takeWhile_run _ _ _ isDigit stops,
    Text.dropWhile_run _ _ _ isDigit stops]
  split
  · contradiction
  · rfl

theorem isDigit_of_starts {digits rest tail : List Char} {c : Char} (nonempty : digits ≠ [])
    (isDigit : ∀ c ∈ digits, c.isDigit = true) (starts : digits ++ rest = c :: tail) :
    c.isDigit = true := by
  cases digits with
  | nil => contradiction
  | cons digit digits =>
      cases starts
      exact isDigit c (by simp)

theorem readExponent_exponent {exponent rest : List Char} {power : Option Int}
    (isExponent : IsExponent exponent power) (ends : EndsNumber rest) :
    readExponent (exponent ++ rest) = some (power, rest) := by
  cases isExponent with
  | missing => exact readExponent_none ends
  | @given mark sign digits isMark isSign nonempty isDigit =>
      have read (negative : Bool) :=
        readExponentDigits_digits negative nonempty isDigit ends.1
      rw [List.cons_append, List.append_assoc, readExponent.eq_def]
      dsimp only
      rw [if_pos isMark]
      rcases isSign with rfl | rfl | rfl
      · rw [List.nil_append]
        split
        · rename_i tail plus
          exact absurd (isDigit_of_starts nonempty isDigit plus) (by decide)
        · rename_i tail minus
          exact absurd (isDigit_of_starts nonempty isDigit minus) (by decide)
        · exact read false
      · exact read false
      · exact read true

theorem EndsNumber.exponent {exponent rest : List Char} {power : Option Int}
    (isExponent : IsExponent exponent power) (ends : EndsNumber rest) :
    Stops Char.isDigit (exponent ++ rest) ∧ (exponent ++ rest).head? ≠ some '.' := by
  cases isExponent with
  | missing => exact ⟨ends.1, fun point => (ends.2 '.' point).1 rfl⟩
  | given isMark =>
      rw [List.cons_append, Text.stops_cons, List.head?_cons]
      rcases isMark with rfl | rfl <;> decide

theorem readFraction_fraction {fraction places rest : List Char}
    (isFraction : IsFraction fraction places) (stops : Stops Char.isDigit rest)
    (noPoint : rest.head? ≠ some '.') :
    readFraction (fraction ++ rest) = some (places, rest) := by
  cases isFraction with
  | missing =>
      rw [List.nil_append, readFraction.eq_def]
      split
      · simp at noPoint
      · rfl
  | given nonempty isDigit =>
      rw [List.cons_append, readFraction, Text.takeWhile_run _ _ _ isDigit stops,
        Text.dropWhile_run _ _ _ isDigit stops]
      split
      · contradiction
      · rfl

theorem IsFraction.stops {fraction places rest : List Char}
    (isFraction : IsFraction fraction places) (stops : Stops Char.isDigit rest) :
    Stops Char.isDigit (fraction ++ rest) := by
  cases isFraction with
  | missing => exact stops
  | given _ _ => exact (Text.stops_cons _ _ _).mpr (by decide)

theorem readNumber_unsigned (negative : Bool) {whole fraction places exponent : List Char}
    {power : Option Int} (nonempty : whole ≠ []) (isDigit : ∀ c ∈ whole, c.isDigit = true)
    (leading : whole.head? = some '0' → whole = ['0']) (isFraction : IsFraction fraction places)
    (isExponent : IsExponent exponent power) {rest : List Char} (ends : EndsNumber rest) :
    readNumber negative (whole ++ (fraction ++ (exponent ++ rest))) =
      some (⟨negative, decimalValue (whole ++ places), places.length, power.getD 0,
        places.isEmpty && power.isNone⟩, rest) := by
  obtain ⟨stops, noPoint⟩ := ends.exponent isExponent
  have wholeStops := isFraction.stops stops
  rw [readNumber, Text.takeWhile_run _ _ _ isDigit wholeStops,
    Text.dropWhile_run _ _ _ isDigit wholeStops]
  split
  · contradiction
  · simp at leading
  · simp [readFraction_fraction isFraction stops noPoint, readExponent_exponent isExponent ends]

theorem IsNumber.mem {lexeme : List Char} {numeral : Numeral} (isNumber : IsNumber lexeme numeral)
    {c : Char} (member : c ∈ lexeme) :
    c.isDigit = true ∨ c ∈ ['-', '+', '.', 'e', 'E'] := by
  obtain ⟨_, isDigit, _, isFraction, isExponent⟩ := isNumber
  simp only [List.mem_append] at member
  rcases member with sign | whole | fraction | exponent
  · split at sign
    · exact .inr (by simp_all)
    · contradiction
  · exact .inl (isDigit c whole)
  · cases isFraction with
    | missing => contradiction
    | given _ digits =>
        rcases List.mem_cons.mp fraction with rfl | digit
        · exact .inr (by simp)
        · exact .inl (digits c digit)
  · cases isExponent with
    | missing => contradiction
    | given isMark isSign _ digits =>
        rcases List.mem_cons.mp exponent with rfl | rest
        · exact .inr (by rcases isMark with rfl | rfl <;> simp)
        · rcases List.mem_append.mp rest with sign | digit
          · exact .inr (by rcases isSign with rfl | rfl | rfl <;> simp_all)
          · exact .inl (digits c digit)

theorem readDoc_isNumber (fuel : Nat) {lexeme rest : List Char} {numeral : Numeral}
    (isNumber : IsNumber lexeme numeral) (ends : EndsNumber rest) :
    readDoc (fuel + 1) (lexeme ++ rest) = some (.number numeral, rest) := by
  obtain ⟨nonempty, isDigit, leading, isFraction, isExponent⟩ := isNumber
  rename_i negative whole fraction places exponent power
  have read := readNumber_unsigned negative nonempty isDigit leading isFraction isExponent ends
  simp only [List.append_assoc]
  cases negative with
  | true => simp [readDoc, skipSpace, isSpace, read]
  | false =>
      cases whole with
      | nil => contradiction
      | cons digit whole =>
          rw [List.cons_append] at read
          simp only [Bool.false_eq_true, if_false, List.nil_append, List.cons_append]
          rw [readDoc_number fuel _ (isDigit digit (by simp)), read]
          rfl

theorem endsNumber_spaces {spaces : List Char} (all : Spaces spaces) {text : List Char}
    (ends : EndsNumber text) : EndsNumber (spaces ++ text) := by
  cases spaces with
  | nil => exact ends
  | cons c spaces =>
      have space := all c (by simp)
      simp only [isSpace, Bool.or_eq_true, beq_iff_eq] at space
      rcases space with ((rfl | rfl) | rfl) | rfl <;>
        exact ⟨(Text.stops_cons _ _ _).mpr (by decide), by simp⟩

end QueryOptions.Json
