import QueryOptions.Proofs.Filter.Literal

/-!
The grammar of filter text, as a relation between characters and filters that does not mention the
reader, and the proof that the reader accepts exactly what the grammar derives within its limits.
-/

namespace QueryOptions.Filter

open Text (Blanks BreaksWord EndsValue Stops isBlank isNameChar sameWord skipBlanks)

namespace Grammar

def IsName (name following : List Char) : Prop :=
  name ≠ [] ∧ (∀ c ∈ name, isNameChar c = true) ∧ Stops isNameChar following

/-- The characters of a comparison that stands before the text `following`. -/
inductive IsComparison : (lexeme following : List Char) → Comparison → Prop
  | mk {property before word after literal following : List Char} {operator : Operator}
      {operand : Operand}
      (isProperty : IsName property (before ++ (word ++ (after ++ (literal ++ following)))))
      (blanksBefore : Blanks before)
      (isWord : IsName word (after ++ (literal ++ following)))
      (same : sameWord operator.word word = true)
      (breaks : BreaksWord (after ++ (literal ++ following)))
      (blanksAfter : Blanks after)
      (isLiteral : Literal literal operand)
      (ends : EndsValue following)
      (wellShaped : shapeFault? operator operand = none) :
      IsComparison (property ++ (before ++ (word ++ (after ++ literal)))) following
        { property := String.ofList property, operator, operand }

inductive Nonterminal
  | term
  | expression

/-- What a nonterminal derives before the text `following`: its characters, the filter they denote,
the number of comparisons in them, and how deep their groups nest. A chain of terms is built up
from its left end, whatever its connectives are. -/
inductive Derives : Nonterminal → (lexeme following : List Char) → Filter →
    (comparisons nesting : Nat) → Prop
  | comparison {lexeme following : List Char} {comparison : Comparison}
      (isComparison : IsComparison lexeme following comparison) :
      Derives .term lexeme following (leaf comparison) 1 0
  | group {before body after following : List Char} {filter : Filter} {comparisons nesting : Nat}
      (blanksBefore : Blanks before)
      (inner : Derives .expression body (after ++ ')' :: following) filter comparisons nesting)
      (blanksAfter : Blanks after) :
      Derives .term ('(' :: (before ++ (body ++ (after ++ [')'])))) following filter comparisons
        (nesting + 1)
  | single {lexeme following : List Char} {filter : Filter} {comparisons nesting : Nat}
      (term : Derives .term lexeme following filter comparisons nesting) :
      Derives .expression lexeme following filter comparisons nesting
  | joined {left before word after right following : List Char} {first second : Filter}
      {connective : Connective} {firstCount secondCount firstNesting secondNesting : Nat}
      (chain : Derives .expression left (before ++ (word ++ (after ++ (right ++ following)))) first
        firstCount firstNesting)
      (blanksBefore : Blanks before)
      (same : sameWord connective.word word = true)
      (breaks : BreaksWord (after ++ (right ++ following)))
      (blanksAfter : Blanks after)
      (term : Derives .term right following second secondCount secondNesting) :
      Derives .expression (left ++ (before ++ (word ++ (after ++ right)))) following
        (join connective [first, second]) (firstCount + secondCount)
        (max firstNesting secondNesting)

def DerivesText (text : List Char) (filter : Filter) (comparisons nesting : Nat) : Prop :=
  ∃ before lexeme after, text = before ++ (lexeme ++ after) ∧ Blanks before ∧ Blanks after ∧
    Derives .expression lexeme after filter comparisons nesting

end Grammar

open Grammar

theorem ofWord?_eq_some_iff (word : List Char) (operator : Operator) :
    Operator.ofWord? word = some operator ↔ sameWord operator.word word = true := by
  constructor
  · intro found
    rw [Operator.ofWord?] at found
    simpa using List.find?_some found
  · intro same
    simp only [sameWord, beq_iff_eq] at same
    simp only [Operator.ofWord?, sameWord, ← same]
    cases operator <;> decide

theorem readOperator_complete {word rest : List Char} {operator : Operator}
    (isWord : IsName word rest) (same : sameWord operator.word word = true) (breaks : BreaksWord rest) :
    readOperator (word ++ rest) = .ok (operator, rest) := by
  rw [readOperator, Text.takeName?_run word rest isWord.1 isWord.2.1 isWord.2.2]
  simp [(ofWord?_eq_some_iff word operator).mpr same, (Text.atWordEnd_iff rest).mpr (.inr breaks)]

theorem readOperator_sound {text rest : List Char} {operator : Operator}
    (read : readOperator text = .ok (operator, rest)) :
    ∃ word, text = word ++ rest ∧ IsName word rest ∧ sameWord operator.word word = true ∧
      Text.atWordEnd rest = true := by
  rw [readOperator] at read
  split at read
  · simp [fail] at read
  · rename_i word wordRest taken
    split at read
    · rename_i found known
      split at read
      · rename_i ends
        simp only [Except.ok.injEq, Prod.mk.injEq] at read
        obtain ⟨operatorEq, restEq⟩ := read
        subst operatorEq restEq
        obtain ⟨textEq, isWord⟩ := Text.takeName?_eq_some taken
        exact ⟨word, textEq, isWord, (ofWord?_eq_some_iff word found).mp known, ends⟩
      · simp [fail] at read
    · simp [fail] at read

theorem readConnective?_append {connective : Connective} {word rest : List Char}
    (same : sameWord connective.word word = true) (breaks : BreaksWord rest) :
    readConnective? (word ++ rest) = some (connective, rest) := by
  have found : Text.keyword? connective.word (word ++ rest) = some rest :=
    (Text.keyword?_eq_some_iff _ _ _).mpr
      ⟨(Text.atWordEnd_iff rest).mpr (.inr breaks), word, rfl, same⟩
  cases connective with
  | and => simp [readConnective?, found]
  | or =>
      have notAnd : Text.keyword? Connective.and.word (word ++ rest) = none :=
        keyword?_eq_none rest same (by decide)
      simp [readConnective?, found, notAnd]

theorem readConnective?_eq_some {text rest : List Char} {connective : Connective}
    (read : readConnective? text = some (connective, rest)) :
    Text.atWordEnd rest = true ∧
      ∃ word, text = word ++ rest ∧ sameWord connective.word word = true := by
  obtain ⟨candidate, _, found⟩ := List.exists_of_findSome?_eq_some read
  obtain ⟨after, keyword, pairEq⟩ := Option.map_eq_some_iff.mp found
  simp only [Prod.mk.injEq] at pairEq
  obtain ⟨connectiveEq, restEq⟩ := pairEq
  subst connectiveEq restEq
  exact (Text.keyword?_eq_some_iff _ _ _).mp keyword

theorem stops_blank_of_isName {name following : List Char} (isName : IsName name following)
    (rest : List Char) : Stops isBlank (name ++ rest) :=
  Text.stops_blank_name isName.1 isName.2.1 rest

theorem Literal.stops_blank {lexeme : List Char} {operand : Operand}
    (literal : Literal lexeme operand) (rest : List Char) : Stops isBlank (lexeme ++ rest) := by
  cases literal with
  | quoted _ =>
      rw [List.cons_append, Text.stops_cons]
      decide
  | number digit _ =>
      cases lexeme with
      | nil => simp at digit
      | cons c lexeme =>
          simp only [List.head?_cons, Option.any_some] at digit
          rw [List.cons_append, Text.stops_cons]
          by_contra blank
          rw [Bool.not_eq_false] at blank
          rw [isDigit_of_isBlank blank] at digit
          contradiction
  | array bracket _ =>
      cases lexeme with
      | nil => simp at bracket
      | cons c lexeme =>
          simp only [List.head?_cons, Option.some.injEq] at bracket
          subst c
          rw [List.cons_append, Text.stops_cons]
          decide
  | constant member same =>
      have letters : constants.all (fun value => value.literal.all isNameChar) = true := by decide
      have spelled := List.all_eq_true.mp (List.all_eq_true.mp letters _ member)
      have names := Text.all_isNameChar_of_sameWord same spelled
      obtain ⟨c, tail, lexemeEq, _⟩ := constant_head member same
      subst lexemeEq
      rw [List.cons_append, Text.stops_cons]
      exact Text.isBlank_of_isNameChar (names c (by simp))

theorem readComparison_eq {property before word after text : List Char} {operator : Operator}
    (isProperty : IsName property (before ++ (word ++ (after ++ text))))
    (blanksBefore : Blanks before) (isWord : IsName word (after ++ text))
    (same : sameWord operator.word word = true) (breaks : BreaksWord (after ++ text))
    (blanksAfter : Blanks after) :
    readComparison (property ++ (before ++ (word ++ (after ++ text)))) =
      readOperand (skipBlanks text) >>= fun read =>
        (shapeFault? operator read.1).elim
          (.ok ({ property := String.ofList property, operator, operand := read.1 }, read.2))
          fun fault => .error (.shape (String.ofList property) operator fault) := by
  have readName : Text.readProperty (property ++ (before ++ (word ++ (after ++ text)))) =
      .ok (property, before ++ (word ++ (after ++ text))) := by
    rw [Text.readProperty, Text.takeName?_run _ _ isProperty.1 isProperty.2.1 isProperty.2.2]
  have toWord : skipBlanks (before ++ (word ++ (after ++ text))) = word ++ (after ++ text) :=
    Text.skipBlanks_blanks blanksBefore (stops_blank_of_isName isWord _)
  have toOperand : skipBlanks (after ++ text) = skipBlanks text :=
    List.dropWhile_append_of_pos blanksAfter
  simp only [readComparison, readName, Outcome.mapError_ok, toWord,
    readOperator_complete isWord same breaks, toOperand, bind, Except.bind]
  cases readOperand (skipBlanks text) with
  | error failure => rfl
  | ok read =>
      dsimp only
      cases shapeFault? operator read.1 with
      | some fault => rfl
      | none => rfl

theorem readComparison_complete {lexeme following : List Char} {comparison : Comparison}
    (isComparison : IsComparison lexeme following comparison) :
    readComparison (lexeme ++ following) = .ok (comparison, following) := by
  cases isComparison with
  | @mk property before word after literal _ operator operand isProperty blanksBefore isWord same
      breaks blanksAfter isLiteral ends wellShaped =>
      have start : skipBlanks (literal ++ following) = literal ++ following :=
        Text.skipBlanks_of_stops (isLiteral.stops_blank following)
      simp only [List.append_assoc]
      rw [readComparison_eq isProperty blanksBefore isWord same breaks blanksAfter, start,
        readOperand_complete isLiteral ends]
      simp only [bind, Except.bind, wellShaped, Option.elim]

theorem Literal.ne_nil {lexeme : List Char} {operand : Operand} (literal : Literal lexeme operand) :
    lexeme ≠ [] := by
  cases literal with
  | quoted _ => simp
  | number digit _ =>
      rintro rfl
      simp at digit
  | array bracket _ =>
      rintro rfl
      simp at bracket
  | constant member same =>
      obtain ⟨c, tail, lexemeEq, _⟩ := constant_head member same
      simp [lexemeEq]

theorem readComparison_sound {text rest : List Char} {comparison : Comparison}
    (read : readComparison text = .ok (comparison, rest)) :
    ∃ lexeme, text = lexeme ++ rest ∧ IsComparison lexeme rest comparison := by
  rw [readComparison] at read
  obtain ⟨⟨property, afterProperty⟩, readName, read⟩ := Outcome.bind_eq_ok.mp read
  obtain ⟨⟨operator, afterOperator⟩, readWord, read⟩ := Outcome.bind_eq_ok.mp read
  obtain ⟨⟨operand, afterOperand⟩, readValue, read⟩ := Outcome.bind_eq_ok.mp read
  have isProperty : text = property ++ afterProperty ∧ IsName property afterProperty := by
    rw [Outcome.mapError_eq_ok, Text.readProperty] at readName
    split at readName
    · rename_i found taken
      simp only [Except.ok.injEq] at readName
      subst found
      exact Text.takeName?_eq_some taken
    · simp [Text.fail] at readName
  obtain ⟨textEq, isProperty⟩ := isProperty
  obtain ⟨before, blanksBefore, beforeEq⟩ := Text.skipBlanks_split afterProperty
  obtain ⟨word, wordEq, isWord, same, wordEnds⟩ := readOperator_sound readWord
  obtain ⟨after, blanksAfter, afterEq⟩ := Text.skipBlanks_split afterOperator
  obtain ⟨literal, literalEq, isLiteral, ends⟩ := readOperand_sound readValue
  dsimp only at beforeEq wordEq afterEq literalEq read
  rw [literalEq] at afterEq
  have breaks : BreaksWord afterOperator := by
    rcases (Text.atWordEnd_iff afterOperator).mp wordEnds with atEnd | breaks
    · rw [atEnd] at afterEq
      simp [isLiteral.ne_nil] at afterEq
    · exact breaks
  split at read
  · contradiction
  · rename_i wellShaped
    simp only [Except.ok.injEq, Prod.mk.injEq] at read
    obtain ⟨comparisonEq, restEq⟩ := read
    subst comparisonEq restEq
    rw [wordEq, afterEq] at beforeEq
    rw [afterEq] at isWord breaks
    rw [beforeEq] at isProperty textEq
    refine ⟨_, ?_, .mk isProperty blanksBefore isWord same breaks blanksAfter isLiteral ends
      wellShaped⟩
    simp only [textEq, List.append_assoc]

end QueryOptions.Filter
