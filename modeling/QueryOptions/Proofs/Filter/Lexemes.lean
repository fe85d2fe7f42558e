import Mathlib.Data.List.TakeWhile
import QueryOptions.Proofs.Filter.Acceptance
import QueryOptions.Proofs.Text.Split
import QueryOptions.Proofs.Text.Trim

/-!
What filter text is made of: runs of names and blanks, strings, arrays, and parentheses around
groups. A property of texts that these have, and that lasts when texts are put together, belongs to
all that is read as a filter. Blanks at either end do not matter.
-/

namespace QueryOptions.Filter

open Text (Blanks BreaksWord EndsSolid EndsValue Quoting Stops dropTrailingBlanks isBlank isInert
  isNameChar trim)
open Grammar

theorem isNameChar_of_isDigit {c : Char} (digit : c.isDigit = true) : isNameChar c = true := by
  simp [isNameChar, Text.isAlphanumeric, Char.isAlphanum, digit]

theorem isNameChar_of_digits {text : List Char} (digits : text.dropWhile Char.isDigit = []) :
    ∀ c ∈ text, isNameChar c = true :=
  fun c member => isNameChar_of_isDigit (List.dropWhile_eq_nil_iff.mp digits c member)

theorem isNameChar_of_readNumber {lexeme : List Char} {value : Value}
    (read : readNumber lexeme = .ok (value, [])) : ∀ c ∈ lexeme, isNameChar c = true := by
  have lexemeEq : lexeme = lexeme.takeWhile Char.isDigit ++ lexeme.dropWhile Char.isDigit :=
    List.takeWhile_append_dropWhile.symm
  simp only [readNumber] at read
  split at read
  · rename_i tail point
    split at read
    · contradiction
    · simp only [Except.ok.injEq, Prod.mk.injEq] at read
      have fraction := isNameChar_of_digits read.2
      rw [point] at lexemeEq
      intro c member
      rw [lexemeEq, List.mem_append, List.mem_cons] at member
      rcases member with digit | rfl | digit
      · exact isNameChar_of_isDigit (Text.all_of_takeWhile Char.isDigit lexeme c digit)
      · decide +kernel
      · exact fraction c digit
  · split at read
    · simp only [Except.ok.injEq, Prod.mk.injEq] at read
      exact isNameChar_of_digits read.2
    · simp at read

theorem isNameChar_of_constant {lexeme : List Char} {value : Value} (member : value ∈ constants)
    (same : Text.sameWord value.literal lexeme = true) : ∀ c ∈ lexeme, isNameChar c = true := by
  have letters : (constants.all fun value => value.literal.all isNameChar) = true := by
    decide +kernel
  exact Text.all_isNameChar_of_sameWord same
    (List.all_eq_true.mp (List.all_eq_true.mp letters value member))

theorem cutArray?_whole {quoting : Quoting} {depth : Nat} {c : Char} {array : List Char}
    (cut : cutArray? quoting depth (c :: array) = some (c :: array, [])) :
    Closes quoting depth c ∧ array = [] ∨
      ¬Closes quoting depth c ∧
        cutArray? (quoting.step c) (openAfter quoting depth c) array = some (array, []) := by
  rw [cutArray?_cons] at cut
  by_cases closes : Closes quoting depth c
  · rw [if_pos closes] at cut
    cases cut
    exact .inl ⟨closes, rfl⟩
  · rw [if_neg closes] at cut
    obtain ⟨⟨tail, rest⟩, tailCut, pairEq⟩ := Option.map_eq_some_iff.mp cut
    cases pairEq
    exact .inr ⟨closes, tailCut⟩

theorem readArray_cut {lexeme : List Char} {values : List Value}
    (read : readArray lexeme = .ok (values, [])) :
    cutArray? .outside 0 lexeme = some (lexeme, []) ∧
      ∃ doc, Json.decode? (doubleQuoted none lexeme) = some doc := by
  rw [readArray] at read
  split at read
  · contradiction
  · rename_i array rest cut
    split at read
    · rename_i items decoded
      obtain ⟨_, _, pairEq⟩ := Outcome.map_eq_ok.mp read
      cases pairEq
      have whole := (cutArray?_lexeme cut).1
      rw [List.append_nil] at whole
      subst whole
      exact ⟨cut, _, decoded⟩
    · contradiction

theorem readArray_body {lexeme : List Char} {values : List Value}
    (bracket : lexeme.head? = some '[') (read : readArray lexeme = .ok (values, [])) :
    ∃ body, lexeme = '[' :: body ∧ cutArray? .outside 1 body = some (body, []) := by
  have cut := (readArray_cut read).1
  obtain ⟨body, rfl⟩ := List.head?_eq_some_iff.mp bracket
  rcases cutArray?_whole cut with ⟨⟨_, closing, _⟩, _⟩ | ⟨_, cut⟩
  · contradiction
  · exact ⟨body, rfl, cut⟩

/-- A property of texts that is found in all parts of filter text, where `admits` tells the
operands that matter. -/
structure Covers (admits : Operand → Prop) (holds : List Char → Prop) : Prop where
  run : ∀ {run}, (∀ c ∈ run, isInert c = true) → holds run
  string : ∀ {body characters}, readQuoted body = some (characters, []) →
    admits (.single (.text (String.ofList characters))) → holds ('\'' :: body)
  array : ∀ {lexeme values}, lexeme.head? = some '[' → readArray lexeme = .ok (values, []) →
    holds lexeme
  append : ∀ {left right}, holds left → holds right → holds (left ++ right)
  group : ∀ {body}, holds body → holds ('(' :: (body ++ [')']))

section
variable {admits : Operand → Prop} {holds : List Char → Prop}

theorem Covers.blanks (covers : Covers admits holds) {run : List Char} (blanks : Blanks run) :
    holds run :=
  covers.run fun c member => Text.isInert_of_isBlank (blanks c member)

theorem Covers.name (covers : Covers admits holds) {run : List Char}
    (name : ∀ c ∈ run, isNameChar c = true) : holds run :=
  covers.run fun c member => Text.isInert_of_isNameChar (name c member)

theorem Covers.literal (covers : Covers admits holds) {lexeme : List Char} {operand : Operand}
    (literal : Literal lexeme operand) (admitted : admits operand) : holds lexeme := by
  cases literal with
  | quoted read => exact covers.string read admitted
  | number _ read => exact covers.name (isNameChar_of_readNumber read)
  | array bracket read => exact covers.array bracket read
  | constant member same => exact covers.name (isNameChar_of_constant member same)

theorem Covers.comparison (covers : Covers admits holds) {lexeme following : List Char}
    {comparison : Comparison} (isComparison : IsComparison lexeme following comparison)
    (admitted : admits comparison.operand) : holds lexeme := by
  cases isComparison with
  | mk isProperty blanksBefore isWord _ _ blanksAfter isLiteral _ _ =>
      exact covers.append (covers.name isProperty.2.1) (covers.append (covers.blanks blanksBefore)
        (covers.append (covers.name isWord.2.1) (covers.append (covers.blanks blanksAfter)
          (covers.literal isLiteral admitted))))

theorem isNameChar_of_connective {connective : Connective} {word : List Char}
    (same : Text.sameWord connective.word word = true) : ∀ c ∈ word, isNameChar c = true := by
  have letters : connective.word.all isNameChar = true := by cases connective <;> decide +kernel
  exact Text.all_isNameChar_of_sameWord same (List.all_eq_true.mp letters)

theorem Covers.derives (covers : Covers admits holds) {nonterminal : Nonterminal}
    {lexeme following : List Char} {filter : Filter} {comparisons nesting : Nat}
    (derives : Derives nonterminal lexeme following filter comparisons nesting)
    (admitted : ∀ comparison ∈ filter.leaves, admits comparison.operand) : holds lexeme := by
  induction derives with
  | comparison isComparison =>
      exact covers.comparison isComparison (admitted _ (by simp [leaves]))
  | @group before body after _ _ _ _ blanksBefore _ blanksAfter ih =>
      have grouped := covers.group (covers.append (covers.blanks blanksBefore)
        (covers.append (ih admitted) (covers.blanks blanksAfter)))
      simpa only [List.append_assoc] using grouped
  | single _ ih => exact ih admitted
  | joined _ blanksBefore same _ blanksAfter _ ihFirst ihSecond =>
      simp only [leaves, leavesOf, List.append_nil, List.mem_append] at admitted
      have first := ihFirst fun comparison member => admitted comparison (.inl member)
      have second := ihSecond fun comparison member => admitted comparison (.inr member)
      exact covers.append first (covers.append (covers.blanks blanksBefore)
        (covers.append (covers.name (isNameChar_of_connective same))
          (covers.append (covers.blanks blanksAfter) second)))

theorem Covers.text (covers : Covers admits holds) {text : List Char} {filter : Filter}
    {limits : Limits} (read : read limits text = .ok filter)
    (admitted : ∀ comparison ∈ filter.leaves, admits comparison.operand) : holds text := by
  obtain ⟨_, _, ⟨before, lexeme, after, rfl, blanksBefore, blanksAfter, derives⟩, _⟩ :=
    read_sound read
  exact covers.append (covers.blanks blanksBefore)
    (covers.append (covers.derives derives admitted) (covers.blanks blanksAfter))

end

theorem readQuoted_endsSolid {text characters : List Char}
    (read : readQuoted text = some (characters, [])) : EndsSolid text := by
  fun_induction readQuoted text generalizing characters with
  | case1 => contradiction
  | case2 tail =>
      cases read
      exact ⟨[], '\'', rfl, by decide⟩
  | case3 tail ih =>
      obtain ⟨⟨inner, _⟩, readInner, pairEq⟩ := Option.map_eq_some_iff.mp read
      cases pairEq
      exact (ih readInner).append ['\\', '\'']
  | case4 c tail _ _ ih =>
      obtain ⟨⟨inner, _⟩, readInner, pairEq⟩ := Option.map_eq_some_iff.mp read
      cases pairEq
      exact (ih readInner).append [c]

theorem cutArray?_endsSolid {quoting : Quoting} {depth : Nat} {array : List Char}
    (cut : cutArray? quoting depth array = some (array, [])) : EndsSolid array := by
  induction array generalizing quoting depth with
  | nil => simp [cutArray?] at cut
  | cons c array ih =>
      rcases cutArray?_whole cut with ⟨⟨_, rfl, _⟩, rfl⟩ | ⟨_, cut⟩
      · exact ⟨[], ']', rfl, by decide⟩
      · exact (ih cut).append [c]

theorem Literal.endsSolid {lexeme : List Char} {operand : Operand}
    (literal : Literal lexeme operand) : EndsSolid lexeme := by
  have nonempty := literal.ne_nil
  cases literal with
  | quoted read => exact (readQuoted_endsSolid read).append ['\'']
  | number _ read => exact Text.endsSolid_name nonempty (isNameChar_of_readNumber read)
  | array _ read => exact cutArray?_endsSolid (readArray_cut read).1
  | constant member same => exact Text.endsSolid_name nonempty (isNameChar_of_constant member same)

namespace Grammar

theorem Derives.endsSolid {nonterminal : Nonterminal} {lexeme following : List Char}
    {filter : Filter} {comparisons nesting : Nat}
    (derives : Derives nonterminal lexeme following filter comparisons nesting) :
    EndsSolid lexeme := by
  induction derives with
  | comparison isComparison =>
      cases isComparison with
      | @mk property before word after _ _ _ _ _ _ _ _ _ _ isLiteral _ _ =>
          have ends := isLiteral.endsSolid.append (property ++ (before ++ (word ++ after)))
          simpa only [List.append_assoc] using ends
  | @group before body after =>
      exact ⟨'(' :: (before ++ (body ++ after)), ')', by simp, by decide⟩
  | single _ ih => exact ih
  | @joined left before word after _ _ _ _ _ _ _ _ _ _ _ _ _ _ _ _ ihSecond =>
      have ends := ihSecond.append (left ++ (before ++ (word ++ after)))
      simpa only [List.append_assoc] using ends

section
variable {text : List Char} (nonempty : text ≠ []) (following other : List Char)
include nonempty

theorem head?_elsewhere : (text ++ following).head? = (text ++ other).head? := by
  cases text with
  | nil => contradiction
  | cons c text => rfl

theorem stops_elsewhere {inClass : Char → Bool} (stops : Stops inClass (text ++ following)) :
    Stops inClass (text ++ other) := by
  rwa [Stops, ← head?_elsewhere nonempty following other]

theorem endsValue_elsewhere (ends : EndsValue (text ++ following)) : EndsValue (text ++ other) := by
  rwa [EndsValue, ← head?_elsewhere nonempty following other]

theorem breaksWord_elsewhere (breaks : BreaksWord (text ++ following)) :
    BreaksWord (text ++ other) := by
  cases text with
  | nil => contradiction
  | cons c text =>
      obtain ⟨d, _, textEq, mark⟩ := breaks
      cases textEq
      exact ⟨c, _, rfl, mark⟩

end

theorem IsComparison.elsewhere {lexeme following : List Char} {comparison : Comparison}
    (isComparison : IsComparison lexeme following comparison) {other : List Char}
    (ends : EndsValue following → EndsValue other) : IsComparison lexeme other comparison := by
  cases isComparison with
  | @mk property before word after literal _ _ _ isProperty blanksBefore isWord same breaks
      blanksAfter isLiteral endsFollowing wellShaped =>
      have rest : after ++ literal ≠ [] := by simp [isLiteral.ne_nil]
      have longer : before ++ (word ++ (after ++ literal)) ≠ [] := by simp [isLiteral.ne_nil]
      have propertyStops := isProperty.2.2
      have wordStops := isWord.2.2
      simp only [← List.append_assoc] at propertyStops wordStops breaks
      refine .mk ⟨isProperty.1, isProperty.2.1, ?_⟩ blanksBefore ⟨isWord.1, isWord.2.1, ?_⟩ same ?_
        blanksAfter isLiteral (ends endsFollowing) wellShaped
      · simpa using stops_elsewhere longer following other (by simpa using propertyStops)
      · simpa using stops_elsewhere rest following other (by simpa using wordStops)
      · simpa using breaksWord_elsewhere rest following other (by simpa using breaks)

theorem Derives.elsewhere {nonterminal : Nonterminal} {lexeme following : List Char}
    {filter : Filter} {comparisons nesting : Nat}
    (derives : Derives nonterminal lexeme following filter comparisons nesting) {other : List Char}
    (ends : EndsValue following → EndsValue other) :
    Derives nonterminal lexeme other filter comparisons nesting := by
  induction derives generalizing other with
  | comparison isComparison => exact .comparison (isComparison.elsewhere ends)
  | @group _ _ after following _ _ _ blanksBefore _ blanksAfter ih =>
      refine .group blanksBefore (ih fun inside => ?_) blanksAfter
      have closed := endsValue_elsewhere (by simp : after ++ [')'] ≠ []) following other
      simpa using closed (by simpa using inside)
  | single _ ih => exact .single (ih ends)
  | @joined _ before word after right following _ _ _ _ _ _ _ _ blanksBefore same breaks blanksAfter
      term ihFirst ihSecond =>
      have solid := (term.stops_blank []).1
      refine .joined (ihFirst fun inside => ?_) blanksBefore same ?_ blanksAfter (ihSecond ends)
      · have moved := endsValue_elsewhere
          (by simp [solid] : before ++ (word ++ (after ++ right)) ≠ []) following other
        simpa using moved (by simpa using inside)
      · have moved := breaksWord_elsewhere (by simp [solid] : after ++ right ≠ []) following other
        simpa using moved (by simpa using breaks)

end Grammar

theorem endsValue_append {text blanks : List Char} (ends : EndsValue text)
    (allBlank : Blanks blanks) : EndsValue (text ++ blanks) := by
  cases text with
  | nil => exact fun c head => .inl (allBlank c (List.mem_of_mem_head? head))
  | cons c text => simpa [EndsValue] using ends

theorem read_padded {limits : Limits} {text before after : List Char} {filter : Filter}
    (found : read limits text = .ok filter) (blanksBefore : Blanks before)
    (blanksAfter : Blanks after) : read limits (before ++ (text ++ after)) = .ok filter := by
  obtain ⟨comparisons, nesting, ⟨front, lexeme, back, rfl, blanksFront, blanksBack, derives⟩, few,
    shallow⟩ := read_sound found
  have padded := derives.elsewhere fun ends => endsValue_append ends blanksAfter
  exact read_complete ⟨before ++ front, lexeme, back ++ after, by simp,
    Text.blanks_append blanksBefore blanksFront, Text.blanks_append blanksBack blanksAfter, padded⟩
    few shallow

theorem read_trim_iff {limits : Limits} {text : List Char} {filter : Filter} :
    read limits (trim (dropTrailingBlanks text)) = .ok filter ↔ read limits text = .ok filter := by
  constructor
  · intro found
    obtain ⟨after, blanksAfter, textEq⟩ := Text.dropTrailingBlanks_split text
    obtain ⟨before, blanksBefore, valueEq⟩ := Text.skipBlanks_split (dropTrailingBlanks text)
    obtain ⟨behind, blanksBehind, coreEq⟩ :=
      Text.dropTrailingBlanks_split (Text.skipBlanks (dropTrailingBlanks text))
    have padded := read_padded found blanksBefore (Text.blanks_append blanksBehind blanksAfter)
    rwa [trim, ← List.append_assoc, ← List.append_assoc, List.append_assoc before, ← coreEq,
      ← valueEq, ← textEq] at padded
  · intro found
    obtain ⟨comparisons, nesting, ⟨before, lexeme, after, rfl, blanksBefore, blanksAfter, derives⟩,
      few, shallow⟩ := read_sound found
    have solid := derives.endsSolid
    have value : dropTrailingBlanks (before ++ (lexeme ++ after)) = before ++ lexeme := by
      rw [← List.append_assoc, Text.dropTrailingBlanks_append (solid.append before),
        Text.dropTrailingBlanks_blanks blanksAfter, List.append_nil]
    have stops : Stops isBlank lexeme := by simpa using (derives.stops_blank []).2
    rw [value, trim, Text.skipBlanks_blanks blanksBefore stops, Text.dropTrailingBlanks_solid solid]
    have alone := derives.elsewhere fun _ => (by simp [EndsValue] : EndsValue [])
    exact read_complete ⟨[], lexeme, [], by simp, Text.blanks_nil, Text.blanks_nil, alone⟩ few
      shallow

end QueryOptions.Filter
