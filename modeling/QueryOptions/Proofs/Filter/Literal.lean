import QueryOptions.Filter.Parser
import QueryOptions.Proofs.Outcome
import QueryOptions.Proofs.Text.Word

/-!
Literals as lexemes. Each reader of a literal takes the same characters off the head of a text,
whatever stands behind them, so a literal can be told from its own characters alone.
-/

namespace QueryOptions.Filter

open Text (Stops EndsValue sameWord keyword?)

def constants : List Value :=
  [.null, .boolean true, .boolean false]

/-- The characters of a literal and the operand they denote. -/
inductive Literal : List Char → Operand → Prop
  | quoted {body characters : List Char} (read : readQuoted body = some (characters, [])) :
      Literal ('\'' :: body) (.single (.text (String.ofList characters)))
  | number {lexeme : List Char} {value : Value} (digit : lexeme.head?.any Char.isDigit = true)
      (read : readNumber lexeme = .ok (value, [])) : Literal lexeme (.single value)
  | array {lexeme : List Char} {values : List Value} (bracket : lexeme.head? = some '[')
      (read : readArray lexeme = .ok (values, [])) : Literal lexeme (.list values)
  | constant {lexeme : List Char} {value : Value} (member : value ∈ constants)
      (same : sameWord value.literal lexeme = true) : Literal lexeme (.single value)

theorem readQuoted_lexeme {text characters rest : List Char}
    (read : readQuoted text = some (characters, rest)) :
    ∃ body, text = body ++ rest ∧ ∀ more, readQuoted (body ++ more) = some (characters, more) := by
  fun_induction readQuoted text generalizing characters rest with
  | case1 => contradiction
  | case2 tail =>
      simp only [Option.some.injEq, Prod.mk.injEq] at read
      obtain ⟨charactersEq, restEq⟩ := read
      subst charactersEq restEq
      exact ⟨['\''], rfl, fun more => by simp [readQuoted]⟩
  | case3 tail ih =>
      obtain ⟨⟨inner, innerRest⟩, innerRead, pairEq⟩ := Option.map_eq_some_iff.mp read
      simp only [Prod.mk.injEq] at pairEq
      obtain ⟨charactersEq, restEq⟩ := pairEq
      subst charactersEq restEq
      obtain ⟨body, tailEq, any⟩ := ih innerRead
      refine ⟨'\\' :: '\'' :: body, by simp [tailEq], fun more => ?_⟩
      simp [readQuoted, any more]
  | case4 c tail notQuote notEscape ih =>
      obtain ⟨⟨inner, innerRest⟩, innerRead, pairEq⟩ := Option.map_eq_some_iff.mp read
      simp only [Prod.mk.injEq] at pairEq
      obtain ⟨charactersEq, restEq⟩ := pairEq
      subst charactersEq restEq
      obtain ⟨body, tailEq, any⟩ := ih innerRead
      refine ⟨c :: body, by simp [tailEq], fun more => ?_⟩
      have stillPlain : ∀ rest, c = '\\' → body ++ more = '\'' :: rest → False := by
        intro rest backslash quote
        cases body with
        | nil =>
            have empty := any []
            simp [readQuoted] at empty
        | cons d body =>
            simp only [List.cons_append, List.cons.injEq] at quote
            refine notEscape (body ++ innerRest) backslash ?_
            simp [tailEq, quote.1]
      rw [List.cons_append, readQuoted.eq_4 _ _ notQuote stillPlain, any more]
      rfl

def Closes (quoting : Text.Quoting) (depth : Nat) (c : Char) : Prop :=
  quoting = .outside ∧ c = ']' ∧ depth ≤ 1

instance (quoting : Text.Quoting) (depth : Nat) (c : Char) : Decidable (Closes quoting depth c) :=
  inferInstanceAs (Decidable (_ ∧ _ ∧ _))

def openAfter (quoting : Text.Quoting) (depth : Nat) (c : Char) : Nat :=
  if quoting ≠ .outside then depth
  else if c = '[' then depth + 1
  else if c = ']' then depth - 1
  else depth

theorem cutArray?_cons (quoting : Text.Quoting) (depth : Nat) (c : Char) (rest : List Char) :
    cutArray? quoting depth (c :: rest) =
      if Closes quoting depth c then some ([c], rest)
      else (cutArray? (quoting.step c) (openAfter quoting depth c) rest).map fun (array, rest) =>
        (c :: array, rest) := by
  rw [cutArray?, openAfter]
  by_cases inside : quoting ≠ .outside
  · have goesOn : ¬Closes quoting depth c := fun closes => inside closes.1
    simp only [if_pos inside, if_neg goesOn]
  · simp only [if_neg inside]
    rw [not_not] at inside
    subst inside
    by_cases opening : c = '['
    · subst opening
      have goesOn : ¬Closes .outside depth '[' := fun closes => absurd closes.2.1 (by decide)
      simp only [if_pos, if_neg goesOn]
      rfl
    · simp only [if_neg opening]
      by_cases closing : c = ']'
      · subst closing
        by_cases last : depth ≤ 1
        · have closes : Closes .outside depth ']' := ⟨rfl, rfl, last⟩
          simp only [if_pos, if_pos last, if_pos closes]
        · have goesOn : ¬Closes .outside depth ']' := fun closes => last closes.2.2
          simp only [if_pos, if_neg last, if_neg goesOn]
          rfl
      · have goesOn : ¬Closes .outside depth c := fun closes => closing closes.2.1
        simp only [if_neg closing, if_neg goesOn]

theorem cutArray?_lexeme {quoting : Text.Quoting} {depth : Nat} {text array rest : List Char}
    (cut : cutArray? quoting depth text = some (array, rest)) :
    text = array ++ rest ∧
      ∀ more, cutArray? quoting depth (array ++ more) = some (array, more) := by
  induction text generalizing quoting depth array with
  | nil => simp [cutArray?] at cut
  | cons c text ih =>
      rw [cutArray?_cons] at cut
      by_cases closes : Closes quoting depth c
      · rw [if_pos closes, Option.some.injEq, Prod.mk.injEq] at cut
        obtain ⟨arrayEq, restEq⟩ := cut
        subst arrayEq restEq
        refine ⟨rfl, fun more => ?_⟩
        rw [List.singleton_append, cutArray?_cons, if_pos closes]
      · rw [if_neg closes] at cut
        obtain ⟨⟨tail, tailRest⟩, tailCut, pairEq⟩ := Option.map_eq_some_iff.mp cut
        simp only [Prod.mk.injEq] at pairEq
        obtain ⟨arrayEq, restEq⟩ := pairEq
        subst arrayEq restEq
        obtain ⟨textEq, any⟩ := ih tailCut
        refine ⟨by simp [textEq], fun more => ?_⟩
        rw [List.cons_append, cutArray?_cons, if_neg closes, any more]
        rfl

theorem readArray_lexeme {text rest : List Char} {values : List Value}
    (read : readArray text = .ok (values, rest)) :
    ∃ lexeme, text = lexeme ++ rest ∧ ∀ more, readArray (lexeme ++ more) = .ok (values, more) := by
  rw [readArray] at read
  split at read
  · contradiction
  · rename_i array arrayRest cut
    obtain ⟨textEq, any⟩ := cutArray?_lexeme cut
    split at read
    · rename_i items decoded
      obtain ⟨found, valued, pairEq⟩ := Outcome.map_eq_ok.mp read
      simp only [Prod.mk.injEq] at pairEq
      obtain ⟨valuesEq, restEq⟩ := pairEq
      subst valuesEq restEq
      refine ⟨array, textEq, fun more => ?_⟩
      simp [readArray, any more, decoded, valued, Except.map]
    · contradiction

theorem isDigit_of_isBlank {c : Char} (blank : Text.isBlank c = true) : c.isDigit = false := by
  have outside := Text.isNameChar_of_isBlank blank
  simp only [Text.isNameChar, Text.isAlphanumeric, Char.isAlphanum, Bool.or_eq_false_iff] at outside
  exact outside.1.1.1.2

theorem stops_number_of_endsValue {rest : List Char} (ends : EndsValue rest) :
    Stops Char.isDigit rest ∧ rest.head? ≠ some '.' := by
  cases rest with
  | nil => simp [Stops]
  | cons c rest =>
      simp only [EndsValue, List.head?_cons, Option.mem_some_iff, forall_eq'] at ends
      rw [Text.stops_cons, List.head?_cons, ne_eq, Option.some.injEq]
      rcases ends with blank | closing
      · refine ⟨isDigit_of_isBlank blank, fun point => ?_⟩
        subst c
        exact absurd blank (by decide)
      · subst c
        decide

theorem readNumber_run {whole rest : List Char} (digits : ∀ c ∈ whole, c.isDigit = true)
    (stops : Stops Char.isDigit rest) (noPoint : rest.head? ≠ some '.') :
    readNumber (whole ++ rest) =
      match int64? (decimalValue whole) with
      | some value => .ok (.integer value, rest)
      | none => .error .integerOutOfRange := by
  simp only [readNumber, Text.takeWhile_run Char.isDigit whole rest digits stops,
    Text.dropWhile_run Char.isDigit whole rest digits stops]
  split
  · simp at noPoint
  · cases int64? (decimalValue whole) with
    | none => rfl
    | some value => rfl

theorem readNumber_whole {whole rest : List Char} {value : Int64}
    (digits : ∀ c ∈ whole, c.isDigit = true) (stops : Stops Char.isDigit rest)
    (noPoint : rest.head? ≠ some '.') (fits : int64? (decimalValue whole) = some value) :
    readNumber (whole ++ rest) = .ok (.integer value, rest) := by
  rw [readNumber_run digits stops noPoint, fits]

theorem readNumber_fraction (whole fraction rest : List Char)
    (wholeDigits : ∀ c ∈ whole, c.isDigit = true) (digits : ∀ c ∈ fraction, c.isDigit = true)
    (nonempty : fraction ≠ []) (stops : Stops Char.isDigit rest)
    (noPoint : rest.head? ≠ some '.') :
    readNumber (whole ++ '.' :: (fraction ++ rest)) =
      .ok (.real (.ofDecimal false (decimalValue (whole ++ fraction)) (-fraction.length)),
        rest) := by
  have pointStops : Stops Char.isDigit ('.' :: (fraction ++ rest)) := by
    rw [Text.stops_cons]
    rfl
  simp only [readNumber, Text.takeWhile_run Char.isDigit whole _ wholeDigits pointStops,
    Text.dropWhile_run Char.isDigit whole _ wholeDigits pointStops,
    Text.takeWhile_run Char.isDigit fraction rest digits stops,
    Text.dropWhile_run Char.isDigit fraction rest digits stops]
  rw [if_neg]
  simp [nonempty, noPoint]

theorem readNumber_lexeme {text rest : List Char} {value : Value}
    (read : readNumber text = .ok (value, rest)) :
    ∃ lexeme, text = lexeme ++ rest ∧ Stops Char.isDigit rest ∧
      ∀ more, Stops Char.isDigit more → more.head? ≠ some '.' →
        readNumber (lexeme ++ more) = .ok (value, more) := by
  have wholeDigits := Text.all_of_takeWhile Char.isDigit text
  have textEq : text = text.takeWhile Char.isDigit ++ text.dropWhile Char.isDigit :=
    List.takeWhile_append_dropWhile.symm
  simp only [readNumber] at read
  split at read
  · rename_i tail tailEq
    have tailSplit : tail = tail.takeWhile Char.isDigit ++ tail.dropWhile Char.isDigit :=
      List.takeWhile_append_dropWhile.symm
    split at read
    · contradiction
    · rename_i valid
      simp only [Bool.or_eq_true, List.isEmpty_iff, beq_iff_eq, not_or] at valid
      simp only [Except.ok.injEq, Prod.mk.injEq] at read
      obtain ⟨valueEq, restEq⟩ := read
      subst valueEq restEq
      refine ⟨text.takeWhile Char.isDigit ++ '.' :: tail.takeWhile Char.isDigit, ?_,
        Text.stops_dropWhile Char.isDigit tail, ?_⟩
      · rw [List.append_assoc, List.cons_append, ← tailSplit, ← tailEq, ← textEq]
      · intro more stops noPoint
        rw [List.append_assoc, List.cons_append]
        exact readNumber_fraction _ _ more wholeDigits (Text.all_of_takeWhile Char.isDigit tail)
          valid.1 stops noPoint
  · split at read
    · rename_i small fits
      simp only [Except.ok.injEq, Prod.mk.injEq] at read
      obtain ⟨valueEq, restEq⟩ := read
      subst valueEq restEq
      refine ⟨text.takeWhile Char.isDigit, textEq, Text.stops_dropWhile Char.isDigit text,
        fun more stops noPoint => ?_⟩
      exact readNumber_whole wholeDigits stops noPoint fits
    · simp at read

theorem keyword?_eq_none {v w : Char} {word other lexeme : List Char} (rest : List Char)
    (same : sameWord (w :: word) lexeme = true) (different : v.toLower ≠ w.toLower) :
    keyword? (v :: other) (lexeme ++ rest) = none := by
  cases lexeme with
  | nil => simp [sameWord] at same
  | cons c lexeme =>
      rw [Text.sameWord_cons] at same
      rw [keyword?, List.cons_append, Text.stripWord?, if_neg (same.1 ▸ different)]
      rfl

theorem readConstant?_append {value : Value} {lexeme rest : List Char} (member : value ∈ constants)
    (same : sameWord value.literal lexeme = true) (ends : Text.atWordEnd rest = true) :
    readConstant? (lexeme ++ rest) = some (value, rest) := by
  have found : keyword? value.literal (lexeme ++ rest) = some rest :=
    (Text.keyword?_eq_some_iff _ _ _).mpr ⟨ends, lexeme, rfl, same⟩
  simp only [constants, List.mem_cons, List.not_mem_nil, or_false] at member
  rcases member with rfl | rfl | rfl
  · simp [readConstant?, found]
  · have notNull : keyword? Value.null.literal (lexeme ++ rest) = none :=
      keyword?_eq_none rest same (by decide)
    simp [readConstant?, found, notNull]
  · have notNull : keyword? Value.null.literal (lexeme ++ rest) = none :=
      keyword?_eq_none rest same (by decide)
    have notTrue : keyword? (Value.boolean true).literal (lexeme ++ rest) = none :=
      keyword?_eq_none rest same (by decide)
    simp [readConstant?, found, notNull, notTrue]

theorem readConstant?_eq_some {text rest : List Char} {value : Value}
    (read : readConstant? text = some (value, rest)) :
    value ∈ constants ∧ ∃ lexeme, text = lexeme ++ rest ∧ sameWord value.literal lexeme = true := by
  obtain ⟨candidate, member, found⟩ := List.exists_of_findSome?_eq_some read
  obtain ⟨after, keyword, pairEq⟩ := Option.map_eq_some_iff.mp found
  simp only [Prod.mk.injEq] at pairEq
  obtain ⟨valueEq, restEq⟩ := pairEq
  subst valueEq restEq
  exact ⟨member, ((Text.keyword?_eq_some_iff _ _ _).mp keyword).2⟩

theorem readLiteral_sound {text rest : List Char} {operand : Operand}
    (read : readLiteral text = .ok (operand, rest)) :
    ∃ lexeme, text = lexeme ++ rest ∧ Literal lexeme operand := by
  rw [readLiteral.eq_def] at read
  split at read
  · rename_i tail
    split at read
    · rename_i characters tailRest quoted
      simp only [Except.ok.injEq, Prod.mk.injEq] at read
      obtain ⟨operandEq, restEq⟩ := read
      subst operandEq restEq
      obtain ⟨body, tailEq, any⟩ := readQuoted_lexeme quoted
      exact ⟨'\'' :: body, by simp [tailEq], .quoted (by simpa using any [])⟩
    · contradiction
  · rename_i tail
    obtain ⟨found, array, pairEq⟩ := Outcome.map_eq_ok.mp read
    simp only [Prod.mk.injEq] at pairEq
    obtain ⟨operandEq, restEq⟩ := pairEq
    subst operandEq restEq
    obtain ⟨lexeme, textEq, any⟩ := readArray_lexeme array
    have bracket : lexeme.head? = some '[' := by
      cases lexeme with
      | nil => simpa [readArray, cutArray?] using any []
      | cons c lexeme =>
          simp only [List.cons_append, List.cons.injEq] at textEq
          rw [List.head?_cons, ← textEq.1]
    exact ⟨lexeme, textEq, .array bracket (by simpa using any [])⟩
  · split at read
    · rename_i digit
      obtain ⟨found, number, pairEq⟩ := Outcome.map_eq_ok.mp read
      simp only [Prod.mk.injEq] at pairEq
      obtain ⟨operandEq, restEq⟩ := pairEq
      subst operandEq restEq
      obtain ⟨lexeme, textEq, stops, any⟩ := readNumber_lexeme number
      have lexemeDigit : lexeme.head?.any Char.isDigit = true := by
        rw [textEq] at digit
        cases lexeme with
        | nil =>
            cases after : found.2 with
            | nil => simp [after] at digit
            | cons c tail =>
                rw [after, Text.stops_cons] at stops
                simp [after, stops] at digit
        | cons c lexeme => simpa using digit
      have alone := any [] (Text.stops_nil _) (by simp)
      exact ⟨lexeme, textEq, .number lexemeDigit (by simpa using alone)⟩
    · split at read
      · rename_i value constantRest constant
        simp only [Except.ok.injEq, Prod.mk.injEq] at read
        obtain ⟨operandEq, restEq⟩ := read
        subst operandEq restEq
        obtain ⟨member, lexeme, textEq, same⟩ := readConstant?_eq_some constant
        exact ⟨lexeme, textEq, .constant member same⟩
      · contradiction

theorem readOperand_sound {text rest : List Char} {operand : Operand}
    (read : readOperand text = .ok (operand, rest)) :
    ∃ lexeme, text = lexeme ++ rest ∧ Literal lexeme operand ∧ EndsValue rest := by
  rw [readOperand] at read
  split at read
  · simp [fail] at read
  · rename_i found foundRest literal
    split at read
    · rename_i ends
      simp only [Except.ok.injEq, Prod.mk.injEq] at read
      obtain ⟨operandEq, restEq⟩ := read
      subst operandEq restEq
      obtain ⟨lexeme, textEq, derived⟩ := readLiteral_sound literal
      exact ⟨lexeme, textEq, derived, (Text.atValueEnd_iff _).mp ends⟩
    · simp [fail] at read

theorem atWordEnd_of_endsValue {rest : List Char} (ends : EndsValue rest) :
    Text.atWordEnd rest = true := by
  cases rest with
  | nil => rfl
  | cons c rest =>
      simp only [EndsValue, List.head?_cons, Option.mem_some_iff, forall_eq'] at ends
      rcases ends with blank | closing
      · simp [Text.atWordEnd, blank]
      · simp [Text.atWordEnd, closing]

theorem toLower_of_isDigit {c : Char} (digit : c.isDigit = true) : c.toLower = c := by
  simp only [Char.isDigit, ge_iff_le, UInt32.le_iff_toNat_le, Bool.and_eq_true,
    decide_eq_true_eq] at digit
  have notUpper : ¬('A'.val ≤ c.val ∧ c.val ≤ 'Z'.val) := by
    rintro ⟨lower, _⟩
    have bound : 'A'.val.toNat ≤ '9'.val.toNat :=
      Nat.le_trans (UInt32.le_iff_toNat_le.mp lower) digit.2
    exact absurd bound (by decide)
  exact dif_neg notUpper

theorem constant_head {value : Value} {lexeme : List Char} (member : value ∈ constants)
    (same : sameWord value.literal lexeme = true) :
    ∃ c tail, lexeme = c :: tail ∧ c ≠ '\'' ∧ c ≠ '[' ∧ c.isDigit = false := by
  have letters : ∀ value ∈ constants, ∃ w word, value.literal = w :: word ∧
      w.toLower ≠ '\'' ∧ w.toLower ≠ '[' ∧ w.toLower.isDigit = false := by
    simp only [constants, List.mem_cons, List.not_mem_nil, or_false, forall_eq_or_imp, forall_eq]
    exact ⟨⟨'n', _, rfl, by decide⟩, ⟨'t', _, rfl, by decide⟩, ⟨'f', _, rfl, by decide⟩⟩
  obtain ⟨w, word, wordEq, notQuote, notBracket, notDigit⟩ := letters value member
  cases lexeme with
  | nil => simp [wordEq, sameWord] at same
  | cons c tail =>
      rw [wordEq, Text.sameWord_cons] at same
      rw [same.1] at notQuote notBracket notDigit
      refine ⟨c, tail, rfl, ?_, ?_, ?_⟩
      · rintro rfl
        exact notQuote rfl
      · rintro rfl
        exact notBracket rfl
      · by_contra digit
        rw [Bool.not_eq_false] at digit
        rw [toLower_of_isDigit digit, digit] at notDigit
        contradiction

theorem readLiteral_digit {c : Char} (digit : c.isDigit = true) (rest : List Char) :
    readLiteral (c :: rest) =
      (readNumber (c :: rest)).map fun (value, rest) => (.single value, rest) := by
  have notQuote : c ≠ '\'' := by
    rintro rfl
    exact absurd digit (by decide)
  have notBracket : c ≠ '[' := by
    rintro rfl
    exact absurd digit (by decide)
  rw [readLiteral.eq_3 _ (by simpa using notQuote) (by simpa using notBracket)]
  simp [digit]

theorem readLiteral_complete {lexeme rest : List Char} {operand : Operand}
    (literal : Literal lexeme operand) (ends : EndsValue rest) :
    readLiteral (lexeme ++ rest) = .ok (operand, rest) := by
  cases literal with
  | quoted read =>
      obtain ⟨body, bodyEq, any⟩ := readQuoted_lexeme read
      rw [List.append_nil] at bodyEq
      subst bodyEq
      simp [readLiteral, any rest]
  | number digit read =>
      obtain ⟨stops, noPoint⟩ := stops_number_of_endsValue ends
      obtain ⟨body, bodyEq, _, any⟩ := readNumber_lexeme read
      rw [List.append_nil] at bodyEq
      subst bodyEq
      have read := any rest stops noPoint
      cases lexeme with
      | nil => simp at digit
      | cons c lexeme =>
          simp only [List.head?_cons, Option.any_some] at digit
          rw [List.cons_append] at read ⊢
          rw [readLiteral_digit digit, read]
          rfl
  | array bracket read =>
      obtain ⟨body, bodyEq, any⟩ := readArray_lexeme read
      rw [List.append_nil] at bodyEq
      subst bodyEq
      have read := any rest
      cases lexeme with
      | nil => simp at bracket
      | cons c lexeme =>
          simp only [List.head?_cons, Option.some.injEq] at bracket
          subst c
          rw [List.cons_append] at read ⊢
          simp [readLiteral, read, Except.map]
  | constant member same =>
      have read := readConstant?_append member same (atWordEnd_of_endsValue ends)
      obtain ⟨c, tail, lexemeEq, notQuote, notBracket, notDigit⟩ := constant_head member same
      subst lexemeEq
      rw [List.cons_append] at read ⊢
      rw [readLiteral.eq_3 _ (by simpa using notQuote) (by simpa using notBracket)]
      simp [notDigit, read]

theorem readOperand_complete {lexeme rest : List Char} {operand : Operand}
    (literal : Literal lexeme operand) (ends : EndsValue rest) :
    readOperand (lexeme ++ rest) = .ok (operand, rest) := by
  rw [readOperand, readLiteral_complete literal ends]
  simp [(Text.atValueEnd_iff rest).mpr ends]

end QueryOptions.Filter
