import QueryOptions.Proofs.Filter.Grammar

/-!
The reader of filters accepts exactly what the grammar derives within the limits, and returns the
filter that the grammar gives it.
-/

namespace QueryOptions.Filter

open Text (Blanks BreaksWord EndsValue Stops isBlank isNameChar sameWord skipBlanks)
open Grammar

/-- A derivation below `depth` groups and after `terms` comparisons stays within the limits. -/
def Limits.Leave (limits : Limits) (depth terms comparisons nesting : Nat) : Prop :=
  depth + nesting ≤ limits.depth ∧ terms + comparisons ≤ limits.terms

def readExpression (limits : Limits) (fuel depth terms : Nat) (text : List Char) :
    Except Failure (Filter × Nat × List Char) := do
  let (first, terms, rest) ← readTerm limits fuel depth terms text
  readChain limits fuel depth terms first rest

theorem readTerm_group (limits : Limits) (fuel depth terms : Nat) {text rest : List Char}
    (opening : skipBlanks text = '(' :: rest) (shallow : depth < limits.depth) :
    readTerm limits (fuel + 1) depth terms text = (do
      let (group, terms, rest) ← readExpression limits fuel (depth + 1) terms rest
      let rest ← readClosing rest
      .ok (group, terms, rest)) := by
  rw [readTerm]
  simp only [opening, if_neg (Nat.not_le.mpr shallow), readExpression, bind_assoc]

theorem readTerm_leaf (limits : Limits) (fuel depth terms : Nat) {text : List Char}
    (noGroup : ∀ rest, skipBlanks text ≠ '(' :: rest) (few : terms < limits.terms) :
    readTerm limits (fuel + 1) depth terms text = (do
      let (comparison, rest) ← readComparison (skipBlanks text)
      .ok (leaf comparison, terms + 1, rest)) := by
  rw [readTerm]
  split
  · rename_i rest opening
    exact absurd opening (noGroup rest)
  · rw [if_neg (Nat.not_le.mpr few)]

theorem readTerm_name (limits : Limits) (fuel depth terms : Nat) {text tail : List Char} {c : Char}
    (start : skipBlanks text = c :: tail) (name : isNameChar c = true)
    (few : terms < limits.terms) :
    readTerm limits (fuel + 1) depth terms text = (do
      let (comparison, rest) ← readComparison (skipBlanks text)
      .ok (leaf comparison, terms + 1, rest)) := by
  refine readTerm_leaf limits fuel depth terms (fun rest opening => ?_) few
  rw [start, List.cons.injEq] at opening
  rw [opening.1] at name
  exact absurd name (by decide +kernel)

/-- What the reader of terms does next: it refuses or enters a group, or it refuses or reads a
comparison. -/
theorem readTerm_cases (limits : Limits) (fuel depth terms : Nat) (text : List Char) :
    (limits.depth ≤ depth ∧ readTerm limits (fuel + 1) depth terms text =
      fail (.nestingTooDeep limits.depth) (skipBlanks text)) ∨
    (∃ rest, skipBlanks text = '(' :: rest ∧ depth < limits.depth ∧
      readTerm limits (fuel + 1) depth terms text = (do
        let (group, terms, rest) ← readExpression limits fuel (depth + 1) terms rest
        let rest ← readClosing rest
        .ok (group, terms, rest))) ∨
    (limits.terms ≤ terms ∧ readTerm limits (fuel + 1) depth terms text =
      fail (.tooManyComparisons limits.terms) (skipBlanks text)) ∨
    (terms < limits.terms ∧ readTerm limits (fuel + 1) depth terms text = (do
      let (comparison, rest) ← readComparison (skipBlanks text)
      .ok (leaf comparison, terms + 1, rest))) := by
  by_cases grouped : ∃ rest, skipBlanks text = '(' :: rest
  · obtain ⟨rest, opening⟩ := grouped
    rcases Nat.lt_or_ge depth limits.depth with shallow | deepest
    · exact .inr (.inl ⟨rest, opening, shallow,
        readTerm_group limits fuel depth terms opening shallow⟩)
    · refine .inl ⟨deepest, ?_⟩
      rw [readTerm]
      simp only [opening, if_pos deepest]
  · have noGroup : ∀ rest, skipBlanks text ≠ '(' :: rest := not_exists.mp grouped
    rcases Nat.lt_or_ge terms limits.terms with few | many
    · exact .inr (.inr (.inr ⟨few, readTerm_leaf limits fuel depth terms noGroup few⟩))
    · refine .inr (.inr (.inl ⟨many, ?_⟩))
      rw [readTerm]
      split
      · rename_i rest opening
        exact absurd opening (noGroup rest)
      · rw [if_pos many]

theorem readChain_end (limits : Limits) (fuel depth terms : Nat) (left : Filter) {text : List Char}
    (none : readConnective? (skipBlanks text) = none) :
    readChain limits (fuel + 1) depth terms left text = .ok (left, terms, skipBlanks text) := by
  rw [readChain, none]

theorem readChain_joined (limits : Limits) (fuel depth terms : Nat) (left : Filter)
    {text rest : List Char} {connective : Connective}
    (found : readConnective? (skipBlanks text) = some (connective, rest)) :
    readChain limits (fuel + 1) depth terms left text = (do
      let (right, terms, rest) ← readTerm limits fuel depth terms rest
      readChain limits fuel depth terms (join connective [left, right]) rest) := by
  rw [readChain, found]

theorem read_eq (limits : Limits) (text : List Char) (nonempty : skipBlanks text ≠ []) :
    read limits text = (do
      let (filter, _, rest) ←
        readExpression limits ((skipBlanks text).length + 1) 0 0 (skipBlanks text)
      match rest with
      | [] => .ok filter
      | rest => fail (.unexpected rest.head?) rest) := by
  rw [read]
  split
  · rename_i empty
    exact absurd empty nonempty
  · exact (bind_assoc _ _ _).symm

namespace Grammar

theorem IsComparison.head {lexeme following : List Char} {comparison : Comparison}
    (isComparison : IsComparison lexeme following comparison) :
    ∃ c tail, lexeme = c :: tail ∧ isNameChar c = true := by
  cases isComparison with
  | @mk property before word after literal _ _ _ isProperty =>
      cases property with
      | nil => exact absurd rfl isProperty.1
      | cons c property => exact ⟨c, _, rfl, isProperty.2.1 c (by simp)⟩

theorem Derives.stops_blank {nonterminal : Nonterminal} {lexeme following : List Char}
    {filter : Filter} {comparisons nesting : Nat}
    (derives : Derives nonterminal lexeme following filter comparisons nesting) (rest : List Char) :
    lexeme ≠ [] ∧ Stops isBlank (lexeme ++ rest) := by
  induction derives generalizing rest with
  | comparison isComparison =>
      obtain ⟨c, tail, lexemeEq, name⟩ := isComparison.head
      subst lexemeEq
      exact ⟨by simp, (Text.stops_cons _ _ _).mpr (Text.isBlank_of_isNameChar name)⟩
  | group _ _ _ _ => exact ⟨by simp, (Text.stops_cons _ _ _).mpr (by decide)⟩
  | single _ ih => exact ih rest
  | joined _ _ _ _ _ _ ihChain _ =>
      rw [List.append_assoc]
      exact ⟨by simp [(ihChain []).1], (ihChain _).2⟩

end Grammar

theorem stops_blank_of_sameWord {connective : Connective} {word : List Char}
    (same : sameWord connective.word word = true) (rest : List Char) :
    Stops isBlank (word ++ rest) := by
  have letters : connective.word.all isNameChar = true := by
    cases connective <;> decide
  have names := Text.all_isNameChar_of_sameWord same (List.all_eq_true.mp letters)
  cases word with
  | nil => cases connective <;> simp [sameWord, Connective.word] at same
  | cons c word =>
      rw [List.cons_append, Text.stops_cons]
      exact Text.isBlank_of_isNameChar (names c (by simp))

/-- What it means that the reader takes in a derivation. For an expression the chain goes on with
fuel that the connectives read so far have used up. -/
def Accepts (limits : Limits) (lexeme following : List Char) (filter : Filter)
    (comparisons nesting : Nat) : Nonterminal → Prop
  | .term => ∀ fuel depth terms blanks, Blanks blanks → lexeme.length < fuel →
      limits.Leave depth terms comparisons nesting →
      readTerm limits fuel depth terms (blanks ++ (lexeme ++ following)) =
        .ok (filter, terms + comparisons, following)
  | .expression => ∃ used ≤ lexeme.length, ∀ fuel depth terms blanks, Blanks blanks →
      lexeme.length < fuel → limits.Leave depth terms comparisons nesting →
      readExpression limits fuel depth terms (blanks ++ (lexeme ++ following)) =
        readChain limits (fuel - used) depth (terms + comparisons) filter following

theorem accepts_comparison (limits : Limits) {lexeme following : List Char}
    {comparison : Comparison} (isComparison : IsComparison lexeme following comparison) :
    Accepts limits lexeme following (leaf comparison) 1 0 .term := by
  intro fuel depth terms blanks allBlank enough leave
  obtain ⟨c, tail, lexemeEq, name⟩ := isComparison.head
  have skipped : skipBlanks (blanks ++ (lexeme ++ following)) = lexeme ++ following :=
    Text.skipBlanks_blanks allBlank ((Derives.comparison isComparison).stops_blank following).2
  have start : skipBlanks (blanks ++ (lexeme ++ following)) = c :: (tail ++ following) := by
    rw [skipped, lexemeEq, List.cons_append]
  cases fuel with
  | zero => omega
  | succ fuel =>
      rw [readTerm_name limits fuel depth terms start name (by have := leave.2; omega), skipped,
        readComparison_complete isComparison]
      rfl

theorem readClosing_complete {after : List Char} (blanksAfter : Blanks after)
    (following : List Char) : readClosing (after ++ ')' :: following) = .ok following := by
  have stops : Stops isBlank (')' :: following) := (Text.stops_cons _ _ _).mpr (by decide)
  simp only [readClosing, Text.skipBlanks_blanks blanksAfter stops]

theorem accepts_group (limits : Limits) {before body after following : List Char} {filter : Filter}
    {comparisons nesting : Nat} (blanksBefore : Blanks before)
    (inner : Accepts limits body (after ++ ')' :: following) filter comparisons nesting .expression)
    (blanksAfter : Blanks after) :
    Accepts limits ('(' :: (before ++ (body ++ (after ++ [')'])))) following filter comparisons
      (nesting + 1) .term := by
  intro fuel depth terms blanks allBlank enough leave
  obtain ⟨used, usedBound, reads⟩ := inner
  simp only [List.length_cons, List.length_append, List.length_nil] at enough
  simp only [List.cons_append, List.append_assoc, List.nil_append]
  have opening : skipBlanks (blanks ++ '(' :: (before ++ (body ++ (after ++ ')' :: following)))) =
      '(' :: (before ++ (body ++ (after ++ ')' :: following))) :=
    Text.skipBlanks_blanks allBlank ((Text.stops_cons _ _ _).mpr (by decide))
  have stops : Stops isBlank (')' :: following) := (Text.stops_cons _ _ _).mpr (by decide)
  have closing : skipBlanks (after ++ ')' :: following) = ')' :: following :=
    Text.skipBlanks_blanks blanksAfter stops
  have noConnective : readConnective? (skipBlanks (after ++ ')' :: following)) = none := by
    rw [closing]
    rfl
  cases fuel with
  | zero => omega
  | succ fuel =>
      have left : fuel - used = (fuel - used - 1) + 1 := by omega
      have deeper : limits.Leave (depth + 1) terms comparisons nesting :=
        ⟨by have := leave.1; omega, leave.2⟩
      rw [readTerm_group limits fuel depth terms opening (by have := leave.1; omega),
        reads fuel (depth + 1) terms before blanksBefore (by omega) deeper, left,
        readChain_end limits _ _ _ _ noConnective, closing]
      have closed := readClosing_complete Text.blanks_nil following
      rw [List.nil_append] at closed
      simp [bind, Except.bind, closed]

theorem accepts_single (limits : Limits) {lexeme following : List Char} {filter : Filter}
    {comparisons nesting : Nat}
    (term : Accepts limits lexeme following filter comparisons nesting .term) :
    Accepts limits lexeme following filter comparisons nesting .expression := by
  refine ⟨0, Nat.zero_le _, fun fuel depth terms blanks allBlank enough leave => ?_⟩
  rw [readExpression, term fuel depth terms blanks allBlank enough leave]
  rfl

theorem accepts_joined (limits : Limits) {left before word after right following : List Char}
    {first second : Filter} {connective : Connective}
    {firstCount secondCount firstNesting secondNesting : Nat}
    (chain : Accepts limits left (before ++ (word ++ (after ++ (right ++ following)))) first
      firstCount firstNesting .expression)
    (blanksBefore : Blanks before) (same : sameWord connective.word word = true)
    (breaks : BreaksWord (after ++ (right ++ following))) (blanksAfter : Blanks after)
    (term : Accepts limits right following second secondCount secondNesting .term) :
    Accepts limits (left ++ (before ++ (word ++ (after ++ right)))) following
      (join connective [first, second]) (firstCount + secondCount)
      (max firstNesting secondNesting) .expression := by
  obtain ⟨used, usedBound, reads⟩ := chain
  have wordLength : 0 < word.length := by
    rw [Text.sameWord_length same]
    cases connective <;> decide
  refine ⟨used + 1, by simp only [List.length_append]; omega, ?_⟩
  intro fuel depth terms blanks allBlank enough leave
  simp only [List.length_append] at enough
  simp only [List.append_assoc]
  have firstLeave : limits.Leave depth terms firstCount firstNesting := by
    simp only [Limits.Leave] at leave ⊢
    omega
  have secondLeave : limits.Leave depth (terms + firstCount) secondCount secondNesting := by
    simp only [Limits.Leave] at leave ⊢
    omega
  have connected : readConnective?
      (skipBlanks (before ++ (word ++ (after ++ (right ++ following))))) =
        some (connective, after ++ (right ++ following)) := by
    rw [Text.skipBlanks_blanks blanksBefore (stops_blank_of_sameWord same _)]
    exact readConnective?_append same breaks
  have fuelLeft : fuel - used = (fuel - (used + 1)) + 1 := by omega
  rw [reads fuel depth terms blanks allBlank (by omega) firstLeave, fuelLeft,
    readChain_joined limits _ _ _ _ connected,
    term _ depth (terms + firstCount) after blanksAfter (by omega) secondLeave, Nat.add_assoc]
  rfl

/-- The reader takes in whatever the grammar derives within the limits. -/
theorem Grammar.Derives.accepts (limits : Limits) {nonterminal : Nonterminal}
    {lexeme following : List Char} {filter : Filter} {comparisons nesting : Nat}
    (derives : Derives nonterminal lexeme following filter comparisons nesting) :
    Accepts limits lexeme following filter comparisons nesting nonterminal := by
  induction derives with
  | comparison isComparison => exact accepts_comparison limits isComparison
  | group blanksBefore _ blanksAfter ih => exact accepts_group limits blanksBefore ih blanksAfter
  | single _ ih => exact accepts_single limits ih
  | joined _ blanksBefore same breaks blanksAfter _ ihChain ihTerm =>
      exact accepts_joined limits ihChain blanksBefore same breaks blanksAfter ihTerm

theorem read_complete {limits : Limits} {text : List Char} {filter : Filter}
    {comparisons nesting : Nat} (derives : DerivesText text filter comparisons nesting)
    (few : comparisons ≤ limits.terms) (shallow : nesting ≤ limits.depth) :
    read limits text = .ok filter := by
  obtain ⟨before, lexeme, after, textEq, blanksBefore, blanksAfter, derived⟩ := derives
  obtain ⟨nonempty, stops⟩ := derived.stops_blank after
  obtain ⟨used, usedBound, reads⟩ := derived.accepts limits
  have start : skipBlanks text = lexeme ++ after := by
    rw [textEq]
    exact Text.skipBlanks_blanks blanksBefore stops
  have ended : skipBlanks after = [] := by
    simpa using Text.skipBlanks_blanks blanksAfter (Text.stops_nil isBlank)
  have noConnective : readConnective? (skipBlanks after) = none := by
    rw [ended]
    rfl
  have length : (lexeme ++ after).length + 1 - used =
      ((lexeme ++ after).length - used) + 1 := by
    simp only [List.length_append]
    omega
  have reading := reads ((lexeme ++ after).length + 1) 0 0 [] Text.blanks_nil
    (by simp only [List.length_append]; omega) ⟨by omega, by omega⟩
  rw [length, readChain_end limits _ _ _ _ noConnective, ended, List.nil_append,
    Nat.zero_add] at reading
  rw [read_eq limits text (start ▸ by simp [nonempty]), start, reading]
  rfl

/-- Some derivation within the limits stands behind a term that was read, from the first character
of `text` up to `rest`, and accounts for the comparisons counted on the way. -/
def TermDerived (limits : Limits) (depth terms : Nat) (text : List Char) (filter : Filter)
    (total : Nat) (rest : List Char) : Prop :=
  ∃ before lexeme comparisons nesting, text = before ++ (lexeme ++ rest) ∧ Blanks before ∧
    Derives .term lexeme rest filter comparisons nesting ∧ total = terms + comparisons ∧
    limits.Leave depth terms comparisons nesting

def ExpressionDerived (limits : Limits) (depth terms : Nat) (text : List Char) (filter : Filter)
    (total : Nat) (rest : List Char) : Prop :=
  ∃ before lexeme after comparisons nesting, text = before ++ (lexeme ++ (after ++ rest)) ∧
    Blanks before ∧ Blanks after ∧
    Derives .expression lexeme (after ++ rest) filter comparisons nesting ∧
    total = terms + comparisons ∧ limits.Leave depth terms comparisons nesting

theorem readClosing_sound {text rest : List Char} (read : readClosing text = .ok rest) :
    ∃ blanks, Blanks blanks ∧ text = blanks ++ ')' :: rest := by
  obtain ⟨blanks, allBlank, textEq⟩ := Text.skipBlanks_split text
  rw [readClosing] at read
  split at read
  · rename_i tail closing
    simp only [Except.ok.injEq] at read
    subst tail
    rw [closing] at textEq
    exact ⟨blanks, allBlank, textEq⟩
  · simp [fail] at read

def TermsDerived (limits : Limits) (fuel : Nat) : Prop :=
  ∀ {depth terms text filter total rest}, depth ≤ limits.depth →
    readTerm limits fuel depth terms text = .ok (filter, total, rest) →
    TermDerived limits depth terms text filter total rest

def ChainsDerived (limits : Limits) (fuel : Nat) : Prop :=
  ∀ {depth terms text filter total rest before lexeme left comparisons nesting}, Blanks before →
    Derives .expression lexeme text left comparisons nesting →
    limits.Leave depth terms comparisons nesting →
    readChain limits fuel depth (terms + comparisons) left text = .ok (filter, total, rest) →
    ExpressionDerived limits depth terms (before ++ (lexeme ++ text)) filter total rest

theorem readExpression_sound {limits : Limits} {fuel : Nat} (readTerms : TermsDerived limits fuel)
    (readChains : ChainsDerived limits fuel) {depth terms total : Nat} {text rest : List Char}
    {filter : Filter} (shallow : depth ≤ limits.depth)
    (read : readExpression limits fuel depth terms text = .ok (filter, total, rest)) :
    ExpressionDerived limits depth terms text filter total rest := by
  obtain ⟨⟨first, count, afterFirst⟩, readFirst, readRest⟩ := Outcome.bind_eq_ok.mp read
  obtain ⟨before, lexeme, comparisons, nesting, textEq, blanksBefore, derives, counted, leave⟩ :=
    readTerms shallow readFirst
  dsimp only at readRest
  rw [counted] at readRest
  rw [textEq]
  exact readChains blanksBefore (.single derives) leave readRest

theorem readTerm_step {limits : Limits} {fuel : Nat} (readTerms : TermsDerived limits fuel)
    (readChains : ChainsDerived limits fuel) : TermsDerived limits (fuel + 1) := by
  intro depth terms text filter total rest shallow read
  obtain ⟨before, blanksBefore, textEq⟩ := Text.skipBlanks_split text
  obtain ⟨_, step⟩ | ⟨tail, opening, inside, step⟩ | ⟨_, step⟩ | ⟨few, step⟩ :=
    readTerm_cases limits fuel depth terms text <;> rw [step] at read
  · contradiction
  · obtain ⟨⟨group, count, afterGroup⟩, readGroup, read⟩ := Outcome.bind_eq_ok.mp read
    obtain ⟨afterClosing, closing, read⟩ := Outcome.bind_eq_ok.mp read
    simp only [Except.ok.injEq, Prod.mk.injEq] at read
    obtain ⟨filterEq, totalEq, restEq⟩ := read
    subst filterEq totalEq restEq
    obtain ⟨blanks, body, after, comparisons, nesting, tailEq, blanksInside, blanksAfter, inner,
      counted, leave⟩ :=
      readExpression_sound readTerms readChains (by omega) readGroup
    obtain ⟨closingBlanks, allBlank, closingEq⟩ := readClosing_sound closing
    rw [closingEq, ← List.append_assoc] at inner tailEq
    refine ⟨before, _, comparisons, nesting + 1, ?_, blanksBefore,
      .group blanksInside inner (Text.blanks_append blanksAfter allBlank), counted, ?_⟩
    · rw [textEq, opening, tailEq]
      simp only [List.cons_append, List.append_assoc, List.nil_append]
    · exact ⟨by have := leave.1; omega, leave.2⟩
  · contradiction
  · obtain ⟨⟨comparison, afterComparison⟩, readLeaf, read⟩ := Outcome.bind_eq_ok.mp read
    simp only [Except.ok.injEq, Prod.mk.injEq] at read
    obtain ⟨filterEq, totalEq, restEq⟩ := read
    subst filterEq totalEq restEq
    obtain ⟨lexeme, lexemeEq, isComparison⟩ := readComparison_sound readLeaf
    rw [lexemeEq] at textEq
    exact ⟨before, lexeme, 1, 0, textEq, blanksBefore, .comparison isComparison, rfl,
      by omega, by omega⟩

theorem readChain_step {limits : Limits} {fuel : Nat} (readTerms : TermsDerived limits fuel)
    (readChains : ChainsDerived limits fuel) : ChainsDerived limits (fuel + 1) := by
  intro depth terms text filter total rest before lexeme left comparisons nesting blanksBefore
    derives leave read
  obtain ⟨after, blanksAfter, textEq⟩ := Text.skipBlanks_split text
  cases connected : readConnective? (skipBlanks text) with
  | none =>
      rw [readChain_end limits fuel depth _ left connected] at read
      simp only [Except.ok.injEq, Prod.mk.injEq] at read
      obtain ⟨filterEq, totalEq, restEq⟩ := read
      subst filterEq totalEq restEq
      rw [textEq] at derives
      refine ⟨before, lexeme, after, comparisons, nesting, ?_, blanksBefore, blanksAfter, derives,
        rfl, leave⟩
      rw [← textEq]
  | some found =>
      obtain ⟨connective, afterWord⟩ := found
      rw [readChain_joined limits fuel depth _ left connected] at read
      obtain ⟨⟨right, count, afterRight⟩, readRight, readRest⟩ := Outcome.bind_eq_ok.mp read
      obtain ⟨wordEnds, word, wordEq, same⟩ := readConnective?_eq_some connected
      obtain ⟨gap, second, secondCount, secondNesting, gapEq, blanksGap, derivesSecond, counted,
        secondLeave⟩ := readTerms (by have := leave.1; omega) readRight
      dsimp only at readRest
      rw [wordEq, gapEq] at textEq
      have breaks : BreaksWord (gap ++ (second ++ afterRight)) := by
        rw [gapEq] at wordEnds
        rcases (Text.atWordEnd_iff _).mp wordEnds with atEnd | breaks
        · simp [(derivesSecond.stops_blank []).1] at atEnd
        · exact breaks
      rw [textEq] at derives
      have joined := Derives.joined derives blanksAfter same breaks blanksGap derivesSecond
      have joinedLeave : limits.Leave depth terms (comparisons + secondCount)
          (max nesting secondNesting) := by
        simp only [Limits.Leave] at leave secondLeave ⊢
        omega
      rw [counted, Nat.add_assoc] at readRest
      have prolonged := readChains blanksBefore joined joinedLeave readRest
      rw [textEq]
      simpa only [List.append_assoc] using prolonged

theorem readers_derive (limits : Limits) (fuel : Nat) :
    TermsDerived limits fuel ∧ ChainsDerived limits fuel := by
  induction fuel with
  | zero =>
      constructor
      · intro depth terms text filter total rest _ read
        simp [readTerm, fail] at read
      · intro depth terms text filter total rest before lexeme left comparisons nesting _ _ _ read
        simp [readChain, fail] at read
  | succ fuel ih => exact ⟨readTerm_step ih.1 ih.2, readChain_step ih.1 ih.2⟩

theorem read_sound {limits : Limits} {text : List Char} {filter : Filter}
    (read : read limits text = .ok filter) :
    ∃ comparisons nesting, DerivesText text filter comparisons nesting ∧
      comparisons ≤ limits.terms ∧ nesting ≤ limits.depth := by
  have nonempty : skipBlanks text ≠ [] := by
    intro empty
    simp [Filter.read, empty, fail] at read
  obtain ⟨blanks, allBlank, textEq⟩ := Text.skipBlanks_split text
  rw [read_eq limits text nonempty] at read
  obtain ⟨⟨found, total, rest⟩, readAll, read⟩ := Outcome.bind_eq_ok.mp read
  have readers := readers_derive limits ((skipBlanks text).length + 1)
  obtain ⟨before, lexeme, after, comparisons, nesting, startEq, blanksBefore, blanksAfter, derives,
    _, leave⟩ := readExpression_sound readers.1 readers.2 (Nat.zero_le _) readAll
  dsimp only at read
  split at read
  · simp only [Except.ok.injEq] at read
    subst found
    rw [List.append_nil] at derives startEq
    refine ⟨comparisons, nesting, ⟨blanks ++ before, lexeme, after, ?_,
      Text.blanks_append allBlank blanksBefore, blanksAfter, derives⟩, ?_, ?_⟩
    · rw [List.append_assoc, ← startEq]
      exact textEq
    · have := leave.2
      omega
    · have := leave.1
      omega
  · simp [fail] at read

/-- A text is parsed to a filter exactly when the grammar derives the filter from it, with no more
comparisons and no deeper groups than the limits allow. -/
theorem parse_eq_ok_iff (limits : Limits) (input : String) (filter : Filter) :
    parse limits input = .ok filter ↔
      ∃ comparisons nesting, DerivesText input.toList filter comparisons nesting ∧
        comparisons ≤ limits.terms ∧ nesting ≤ limits.depth := by
  rw [parse, Outcome.mapError_eq_ok]
  constructor
  · exact read_sound
  · rintro ⟨comparisons, nesting, derives, few, shallow⟩
    exact read_complete derives few shallow

end QueryOptions.Filter
