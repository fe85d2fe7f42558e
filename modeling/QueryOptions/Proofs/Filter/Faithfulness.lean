import QueryOptions.Proofs.Filter.Escapes

/-!
Exactly the faithful filters come back from their text. Whatever else a filter that was read holds,
its text is not read again, or as a filter with another operand in the place of the first that is
not faithful.
-/

namespace QueryOptions.Filter

open Text (Quoting EndsValue Stops Blanks isBlank skipBlanks)
open Grammar

def SameValues : List Value → List Value → Prop :=
  List.Forall₂ fun found expected => found.same expected = true

theorem sameValues_of_same {found expected : List Value}
    (same : (Operand.list found).same (.list expected) = true) : SameValues found expected := by
  rw [Operand.same, Bool.and_eq_true, beq_iff_eq] at same
  obtain ⟨lengths, pairs⟩ := same
  rw [SameValues, List.forall₂_iff_zip]
  refine ⟨lengths, fun {a b} member => ?_⟩
  exact List.all_eq_true.mp pairs (a, b) member

theorem calm_bare {run rest : List Char} (bare : run.all isBare = true) (calm : Calm rest) :
    Calm (run ++ rest) := by
  refine calm_append (fun c member => ?_) calm
  have head := List.all_eq_true.mp bare c member
  simp only [isBare, Bool.and_eq_true, bne_iff_ne] at head
  exact head.1.1.2

theorem calm_literal {value : Value} (known : Json.isElement value = true ∨ ∃ s, value = .text s)
    {rest : List Char} (calm : Calm rest) : Calm (value.literal ++ rest) := by
  cases value with
  | null => exact calm_bare (by decide) calm
  | boolean b => exact calm_bare (by cases b <;> decide) calm
  | integer i => exact calm_bare (all_isBare_integerText i.toInt) calm
  | real x =>
      have finite : x.isFinite = true := by simpa [Json.isElement] using known
      exact calm_bare (all_isBare_text finite) calm
  | text s => exact calm_quote _

theorem calm_listBody {values : List Value}
    (known : ∀ value ∈ values, Json.isElement value = true ∨ ∃ s, value = .text s)
    {rest : List Char} (calm : Calm rest) : Calm (listBody values ++ rest) := by
  induction values with
  | nil => exact calm
  | cons value values ih =>
      have head := known value (by simp)
      have tail := ih fun value member => known value (by simp [member])
      cases values with
      | nil =>
          rw [listBody_single]
          exact calm_literal head calm
      | cons next values =>
          rw [listBody_cons_cons, List.append_assoc, List.append_assoc]
          exact calm_literal head (calm_append (by simp) tail)

theorem readItems_cases {fuel : Nat} {text rest : List Char} {items : List Json.Doc}
    (read : Json.readItems fuel text = some (items, rest)) :
    ∃ less item behind others, fuel = less + 1 ∧ Json.readDoc less text = some (item, behind) ∧
      items = item :: others ∧
      ∀ tail, Json.skipSpace behind = ',' :: tail → Json.readItems less tail = some (others, rest) := by
  cases fuel with
  | zero => simp [Json.readItems] at read
  | succ less =>
      rw [Json.readItems, Option.bind_eq_bind, Option.bind_eq_some_iff] at read
      obtain ⟨⟨item, behind⟩, readItem, read⟩ := read
      refine ⟨less, item, behind, ?_⟩
      dsimp only at read
      split at read
      · rename_i tail comma
        rw [Option.bind_eq_bind, Option.bind_eq_some_iff] at read
        obtain ⟨⟨others, othersRest⟩, readOthers, pairEq⟩ := read
        cases pairEq
        refine ⟨others, rfl, readItem, rfl, fun other otherEq => ?_⟩
        rw [comma] at otherEq
        cases otherEq
        exact readOthers
      · rename_i bracket
        cases read
        refine ⟨[], rfl, readItem, rfl, fun other otherEq => ?_⟩
        rw [bracket] at otherEq
        cases otherEq
      · contradiction

theorem elements_cons {doc : Json.Doc} {docs : List Json.Doc} {found : List Value}
    (valued : elements (doc :: docs) = .ok found) :
    ∃ value others, found = value :: others ∧ doc.scalar? = some value ∧
      elements docs = .ok others := by
  rw [elements] at valued
  split at valued
  · contradiction
  · rename_i value _ scalar
    obtain ⟨others, valuedOthers, rfl⟩ := Outcome.map_eq_ok.mp valued
    exact ⟨value, others, rfl, scalar, valuedOthers⟩
  · contradiction

theorem readDoc_requoted (fuel : Nat) (text : List Char) :
    Json.readDoc (fuel + 1) ('"' :: doubleQuoted (some '\'') text) =
      (readRequoted text).map fun (pieces, rest) => (.string pieces, rest) := by
  simp [Json.readDoc, Json.skipSpace, Json.isSpace, readRequoted]

theorem isPlain_of_item {s : String} {more array rest behind : List Char} {fuel : Nat}
    {item : Json.Doc} {value : Value} (calm : Calm more)
    (cut : cutArray? .outside 1 ((Value.text s).literal ++ more) = some (array, rest))
    (read : Json.readDoc fuel (doubleQuoted none array) = some (item, behind))
    (scalar : item.scalar? = some value) (same : value.same (.text s) = true) :
    Json.isPlain s.toList = true := by
  have literalEq : (Value.text s).literal ++ more =
      '\'' :: (escapeQuotes s.toList ++ '\'' :: more) := by
    simp [Value.literal]
  rw [literalEq, cutArray?_cons, if_neg (by decide)] at cut
  obtain ⟨⟨inner, innerRest⟩, innerCut, pairEq⟩ := Option.map_eq_some_iff.mp cut
  cases pairEq
  have spelled := (cutArray?_lexeme innerCut).1.symm
  have requoted : doubleQuoted none ('\'' :: inner) = '"' :: doubleQuoted (some '\'') inner := by
    simp [doubleQuoted, Text.isQuote]
  rw [requoted] at read
  cases fuel with
  | zero => simp [Json.readDoc] at read
  | succ fuel =>
      rw [readDoc_requoted] at read
      obtain ⟨⟨pieces, piecesRest⟩, readPieces, pairEq⟩ := Option.map_eq_some_iff.mp read
      cases pairEq
      rw [Json.Doc.scalar?, Json.string?, Option.map_map] at scalar
      obtain ⟨characters, charactersEq, rfl⟩ := Option.map_eq_some_iff.mp scalar
      have sameText : characters = s.toList := by
        simp only [Function.comp_apply, Value.same, beq_iff_eq] at same
        rw [← same, String.toList_ofList]
      rw [sameText] at charactersEq
      exact isPlain_of_reread calm spelled readPieces charactersEq

theorem isElement_of_item {value found : Value} {more array rest behind : List Char} {fuel : Nat}
    {item : Json.Doc} (known : Json.isElement value = true ∨ ∃ s, value = .text s)
    (calm : Calm more)
    (cut : cutArray? .outside 1 (value.literal ++ more) = some (array, rest))
    (read : Json.readDoc fuel (doubleQuoted none array) = some (item, behind))
    (scalar : item.scalar? = some found) (same : found.same value = true) :
    Json.isElement value = true := by
  rcases known with element | ⟨s, rfl⟩
  · exact element
  · exact isPlain_of_item calm cut read scalar same

theorem elements_of_reread {values found : List Value} {array rest following : List Char}
    {fuel : Nat} {items : List Json.Doc} {jsonRest : List Char}
    (known : ∀ value ∈ values, Json.isElement value = true ∨ ∃ s, value = .text s)
    (calm : Calm following)
    (cut : cutArray? .outside 1 (listBody values ++ ']' :: following) = some (array, rest))
    (read : Json.readItems fuel (doubleQuoted none array) = some (items, jsonRest))
    (valued : elements items = .ok found) (same : SameValues found values) :
    ∀ value ∈ values, Json.isElement value = true := by
  induction values generalizing array fuel items found with
  | nil => simp
  | cons value values ih =>
      obtain ⟨less, item, behind, others, rfl, readItem, rfl, readOthers⟩ := readItems_cases read
      obtain ⟨head, tail, rfl, scalar, valuedTail⟩ := elements_cons valued
      obtain ⟨sameHead, sameTail⟩ := List.forall₂_cons.mp same
      have knownTail : ∀ value ∈ values, Json.isElement value = true ∨ ∃ s, value = .text s :=
        fun value member => known value (by simp [member])
      have bracket : Calm (']' :: following) := calm_cons (by decide) calm
      cases values with
      | nil =>
          rw [listBody_single] at cut
          have element := isElement_of_item (known value (by simp)) bracket cut readItem scalar sameHead
          simpa using element
      | cons next values =>
          have calmTail : Calm ([',', ' '] ++ (listBody (next :: values) ++ ']' :: following)) :=
            calm_append (by simp) (calm_listBody knownTail bracket)
          rw [listBody_cons_cons, List.append_assoc, List.append_assoc] at cut
          have element := isElement_of_item (known value (by simp)) calmTail cut readItem scalar sameHead
          rw [(Crosses.literal element).cut_outside, Crosses.comma.cut_outside, Option.map_map] at cut
          obtain ⟨⟨inner, innerRest⟩, innerCut, pairEq⟩ := Option.map_eq_some_iff.mp cut
          cases pairEq
          rw [(Crosses.literal element).turned, Crosses.comma.turned] at readItem
          cases less with
          | zero => simp [Json.readDoc] at readItem
          | succ less =>
              have ends : Json.EndsNumber ([',', ' '] ++ doubleQuoted none inner) :=
                Json.EndsItem.endsNumber ⟨_, .inl rfl⟩
              rw [Json.readDoc_scalar less element ends] at readItem
              cases readItem
              have readTail := readOthers ([' '] ++ doubleQuoted none inner) (by
                simp [Json.skipSpace, Json.isSpace])
              rw [Json.readItems_spaces _ Json.spaces_space] at readTail
              have elementTail := ih knownTail innerCut readTail valuedTail sameTail
              exact List.forall_mem_cons.mpr ⟨element, elementTail⟩

theorem items_of_decode? {text : List Char} {items : List Json.Doc}
    (decoded : Json.decode? ('[' :: text) = some (.array items)) :
    items = [] ∨ ∃ fuel rest, Json.readItems fuel text = some (items, rest) := by
  rw [Json.decode?, Option.filter_eq_some_iff, Json.read?] at decoded
  obtain ⟨read, _⟩ := decoded
  split at read
  · rename_i doc rest readDoc
    split at read
    · cases read
      rw [Json.readDoc] at readDoc
      have opening : Json.skipSpace ('[' :: text) = '[' :: text := by
        simp [Json.skipSpace, Json.isSpace]
      rw [opening] at readDoc
      simp only at readDoc
      split at readDoc
      · cases readDoc
        exact .inl rfl
      · obtain ⟨⟨found, foundRest⟩, readItems, pairEq⟩ := Option.map_eq_some_iff.mp readDoc
        cases pairEq
        exact .inr ⟨_, _, readItems⟩
    · contradiction
  · contradiction

theorem elements_of_readArray {values found : List Value} {following rest : List Char}
    (known : ∀ value ∈ values, Json.isElement value = true ∨ ∃ s, value = .text s)
    (calm : Calm following)
    (read : readArray ((Operand.list values).literal ++ following) = .ok (found, rest))
    (same : SameValues found values) : ∀ value ∈ values, Json.isElement value = true := by
  have literalEq : (Operand.list values).literal ++ following =
      '[' :: (listBody values ++ ']' :: following) := by
    simp [Operand.literal, listBody]
  have requoted : ∀ array, doubleQuoted none ('[' :: array) = '[' :: doubleQuoted none array := by
    intro array
    simp [doubleQuoted, Text.isQuote]
  have opened : Quoting.outside.step '[' = .outside ∧ openAfter .outside 0 '[' = 1 := by decide
  rw [literalEq, readArray, cutArray?_cons, if_neg (by decide), opened.1, opened.2] at read
  cases cut : cutArray? .outside 1 (listBody values ++ ']' :: following) with
  | none =>
      rw [cut] at read
      contradiction
  | some pair =>
      obtain ⟨array, arrayRest⟩ := pair
      rw [cut, Option.map_some] at read
      dsimp only at read
      rw [requoted] at read
      split at read
      · rename_i items decoded
        obtain ⟨_, valued, pairEq⟩ := Outcome.map_eq_ok.mp read
        cases pairEq
        rcases items_of_decode? decoded with rfl | ⟨fuel, jsonRest, readItems⟩
        · cases valued
          rw [List.forall₂_nil_left_iff.mp same]
          simp
        · exact elements_of_reread known calm cut readItems valued same
      · contradiction

theorem known_of_readArray {text rest : List Char} {values : List Value}
    (read : readArray text = .ok (values, rest)) {value : Value} (member : value ∈ values) :
    Json.isElement value = true ∨ ∃ s, value = .text s := by
  obtain ⟨notNull, doc, scalar⟩ := mem_readArray read member
  cases value with
  | null => contradiction
  | boolean _ | integer _ => exact .inl rfl
  | real x => exact .inl (isFinite_of_scalar? scalar)
  | text s => exact .inr ⟨s, rfl⟩

theorem text_of_infinite {x : Binary64} (infinite : x.isFinite = false)
    (natural : x.isNegative = false) : x.text = ['N', 'a', 'N'] ∨ x.text = ['i', 'n', 'f'] := by
  cases number : x.isNaN <;> simp [Binary64.text, number, infinite, natural]

theorem readOperand_infinite {x : Binary64} (infinite : x.isFinite = false)
    (natural : x.isNegative = false) (following : List Char) {operand : Operand}
    {rest : List Char} : readOperand (x.text ++ following) ≠ .ok (operand, rest) := by
  have unread : ∀ word ∈ [['N', 'a', 'N'], ['i', 'n', 'f']],
      readLiteral (word ++ following) = .error (.expectedLiteral word.head?) := by
    simp only [List.mem_cons, List.not_mem_nil, or_false, forall_eq_or_imp, forall_eq]
    exact ⟨rfl, rfl⟩
  have member : x.text ∈ [['N', 'a', 'N'], ['i', 'n', 'f']] := by
    simpa using text_of_infinite infinite natural
  rw [readOperand, unread _ member]
  simp [fail]

theorem readLiteral_list (values : List Value) (following : List Char) :
    readLiteral ((Operand.list values).literal ++ following) =
      (readArray ((Operand.list values).literal ++ following)).map fun (values, rest) =>
        (.list values, rest) := by
  simp [Operand.literal, readLiteral]

theorem isFaithful_of_readOperand {lexeme following rest : List Char} {operand found : Operand}
    (literal : Literal lexeme operand) (calm : Calm following)
    (read : readOperand (operand.literal ++ following) = .ok (found, rest))
    (same : found.same operand = true) : operand.isFaithful = true := by
  cases literal with
  | quoted _ => rfl
  | constant member _ =>
      simp only [constants, List.mem_cons, List.not_mem_nil, or_false] at member
      rcases member with rfl | rfl | rfl <;> rfl
  | number _ readValue =>
      obtain ⟨number, rfl, _⟩ | ⟨x, rfl, natural⟩ := readNumber_value readValue
      · rfl
      · rw [Operand.isFaithful]
        by_contra infinite
        rw [Bool.not_eq_true] at infinite
        exact readOperand_infinite infinite natural following read
  | @array _ values _ readValues =>
      have known : ∀ value ∈ values, Json.isElement value = true ∨ ∃ s, value = .text s :=
        fun value => known_of_readArray readValues
      rw [readOperand, readLiteral_list] at read
      split at read
      · simp [fail] at read
      · rename_i readBack
        obtain ⟨⟨back, backRest⟩, readBack, pairEq⟩ := Outcome.map_eq_ok.mp readBack
        cases pairEq
        split at read
        · cases read
          have elements := elements_of_readArray known calm readBack (sameValues_of_same same)
          rw [Operand.isFaithful, List.all_eq_true]
          intro value member
          cases value with
          | text s => exact elements _ member
          | null | boolean _ | integer _ | real _ => rfl
        · simp [fail] at read

theorem readComparison_operand {property text rest : List Char} {operator : Operator}
    {found : Comparison} (isProperty : IsName property (' ' :: (operator.word ++ ' ' :: text)))
    (read : readComparison (property ++ ' ' :: (operator.word ++ ' ' :: text)) = .ok (found, rest)) :
    readOperand (skipBlanks text) = .ok (found.operand, rest) := by
  have reading := readComparison_eq isProperty Text.blanks_space (isName_operator operator text)
    (Text.sameWord_refl operator.word) (breaksWord_space text) Text.blanks_space
  obtain ⟨⟨operand, behind⟩, readLiteral, checked⟩ := Outcome.bind_eq_ok.mp (reading.symm.trans read)
  cases fault : shapeFault? operator operand with
  | some fault => simp [fault] at checked
  | none =>
      simp only [fault, Option.elim, Except.ok.injEq, Prod.mk.injEq] at checked
      obtain ⟨rfl, rfl⟩ := checked
      exact readLiteral

theorem skipBlanks_literal {lexeme : List Char} {operand : Operand} (literal : Literal lexeme operand)
    (unfaithful : operand.isFaithful = false) (following : List Char) :
    skipBlanks (operand.literal ++ following) = operand.literal ++ following := by
  cases literal with
  | quoted _ => cases unfaithful
  | constant member _ =>
      simp only [constants, List.mem_cons, List.not_mem_nil, or_false] at member
      rcases member with rfl | rfl | rfl <;> cases unfaithful
  | number _ read =>
      obtain ⟨number, rfl, _⟩ | ⟨x, rfl, natural⟩ := readNumber_value read
      · cases unfaithful
      · have literalEq : (Operand.single (.real x)).literal = x.text := rfl
        rw [literalEq]
        rcases text_of_infinite unfaithful natural with text | text <;>
          (rw [text]; exact List.dropWhile_cons_of_neg (by decide))
  | array _ _ => exact List.dropWhile_cons_of_neg (by decide)

theorem isFaithful_of_readComparison {lexeme behind following rest : List Char}
    {comparison found : Comparison} (isComparison : IsComparison lexeme behind comparison)
    (calm : Calm following)
    (read : readComparison (comparison.render ++ following) = .ok (found, rest))
    (same : found.same comparison = true) : comparison.operand.isFaithful = true := by
  cases isComparison with
  | @mk property _ _ _ _ _ operator operand isProperty _ _ _ _ _ isLiteral _ _ =>
      have written : Comparison.render ⟨String.ofList property, operator, operand, none⟩ ++ following =
          property ++ ' ' :: (operator.word ++ ' ' :: (operand.literal ++ following)) := by
        simp [Comparison.render]
      rw [written] at read
      have readBack := readComparison_operand (isName_word isProperty.1 isProperty.2.1 _) read
      rw [Comparison.same, Bool.and_eq_true] at same
      by_contra unfaithful
      rw [skipBlanks_literal isLiteral (by simpa using unfaithful)] at readBack
      exact unfaithful (isFaithful_of_readOperand isLiteral calm readBack same.2)

theorem calm_names {name rest : List Char} (names : ∀ c ∈ name, Text.isNameChar c = true)
    (calm : Calm rest) : Calm (name ++ rest) := by
  refine calm_append (fun c member => ?_) calm
  rintro rfl
  exact absurd (names _ member) (by decide +kernel)

theorem calm_operand {lexeme rest : List Char} {operand : Operand} (literal : Literal lexeme operand)
    (calm : Calm rest) : Calm (operand.literal ++ rest) := by
  cases literal with
  | quoted _ => exact calm_quote _
  | constant member _ =>
      simp only [constants, List.mem_cons, List.not_mem_nil, or_false] at member
      rcases member with rfl | rfl | rfl <;> exact calm_bare (by decide) calm
  | number _ read =>
      obtain ⟨number, rfl, _⟩ | ⟨x, rfl, natural⟩ := readNumber_value read
      · exact calm_bare (all_isBare_integerText number.toInt) calm
      · have literalEq : (Operand.single (.real x)).literal = x.text := rfl
        rw [literalEq]
        cases finite : x.isFinite with
        | true => exact calm_bare (all_isBare_text finite) calm
        | false =>
            rcases text_of_infinite finite natural with text | text <;>
              (rw [text]; exact calm_bare (by decide) calm)
  | @array _ values _ read =>
      have literalEq : (Operand.list values).literal ++ rest =
          '[' :: (listBody values ++ ']' :: rest) := by
        simp [Operand.literal, listBody]
      rw [literalEq]
      exact calm_cons (by decide)
        (calm_listBody (fun value => known_of_readArray read) (calm_cons (by decide) calm))

theorem calm_comparison {lexeme behind rest : List Char} {comparison : Comparison}
    (isComparison : IsComparison lexeme behind comparison) (calm : Calm rest) :
    Calm (comparison.render ++ rest) := by
  cases isComparison with
  | @mk property _ _ _ _ _ operator operand isProperty _ _ _ _ _ isLiteral _ _ =>
      have written : Comparison.render ⟨String.ofList property, operator, operand, none⟩ ++ rest =
          property ++ ' ' :: (operator.word ++ ' ' :: (operand.literal ++ rest)) := by
        simp [Comparison.render]
      rw [written]
      refine calm_names isProperty.2.1 (calm_cons (by decide) ?_)
      exact calm_names (isName_operator operator rest).2.1
        (calm_cons (by decide) (calm_operand isLiteral calm))

def SameComparisons : List Comparison → List Comparison → Prop :=
  List.Forall₂ fun found expected => found.same expected = true

def Starts (found expected : List Comparison) : Prop :=
  SameComparisons (found.take expected.length) expected

theorem Starts.left {found left right : List Comparison} (starts : Starts found (left ++ right)) :
    Starts found left := by
  have same := List.forall₂_take_append _ left right starts
  rwa [List.take_take, List.length_append, Nat.min_eq_left (Nat.le_add_right _ _)] at same

theorem Starts.right (before : List Comparison) {found left right : List Comparison}
    (starts : Starts (before ++ found) (left ++ right)) (level : before.length = left.length) :
    Starts found right := by
  have same := List.forall₂_drop_append _ left right starts
  rwa [List.drop_take, ← level, List.drop_left, List.length_append, level, Nat.add_sub_cancel_left]
    at same

theorem Starts.head {found expected : Comparison} {rest : List Comparison}
    (starts : Starts (found :: rest) [expected]) : found.same expected = true :=
  (List.forall₂_cons.mp starts).1

theorem sameComparisons_of_same {found expected : Filter} (same : found.same expected = true) :
    SameComparisons found.leaves expected.leaves := by
  induction found generalizing expected with
  | leaf comparison =>
      cases expected with
      | leaf other =>
          rw [Filter.same] at same
          simpa [leaves, SameComparisons] using same
      | join _ _ => simp [Filter.same] at same
  | join connective children ih =>
      cases expected with
      | leaf _ => simp [Filter.same] at same
      | join other others =>
          simp only [Filter.same, Bool.and_eq_true] at same
          have sameChildren := same.2
          simp only [leaves]
          clear same
          induction children generalizing others with
          | nil =>
              cases others with
              | nil => exact .nil
              | cons _ _ => simp [sameAll] at sameChildren
          | cons child children ihChildren =>
              cases others with
              | nil => simp [sameAll] at sameChildren
              | cons first rest =>
                  simp only [sameAll, Bool.and_eq_true] at sameChildren
                  exact List.rel_append (ih child (by simp) sameChildren.1)
                    (ihChildren (fun child member => ih child (by simp [member])) rest sameChildren.2)

theorem readChain_leaves {limits : Limits} {fuel depth terms total : Nat} {left back : Filter}
    {text rest : List Char}
    (read : readChain limits fuel depth terms left text = .ok (back, total, rest)) :
    ∃ more, back.leaves = left.leaves ++ more := by
  induction fuel generalizing terms left text with
  | zero => simp [readChain, fail] at read
  | succ fuel ih =>
      cases connected : readConnective? (skipBlanks text) with
      | none =>
          rw [readChain_end limits fuel depth _ left connected] at read
          cases read
          exact ⟨[], by simp⟩
      | some found =>
          obtain ⟨connective, behind⟩ := found
          rw [readChain_joined limits fuel depth _ left connected] at read
          obtain ⟨⟨right, count, afterRight⟩, _, readRest⟩ := Outcome.bind_eq_ok.mp read
          obtain ⟨more, leavesEq⟩ := ih readRest
          exact ⟨right.leaves ++ more, by simpa [leaves, leavesOf] using leavesEq⟩

/-- Wherever the text of a filter is read as a term, the filter is faithful if its own comparisons
are what is found first. -/
def ReturnsTerm (limits : Limits) (filter : Filter) : Prop :=
  ∀ {fuel depth terms blanks following back total rest more}, Blanks blanks → Calm following →
    EndsValue following → (parenthesized filter.isJoin filter.render).length < fuel →
    limits.Leave depth terms filter.leaves.length
      (if filter.isJoin then filter.nesting + 1 else filter.nesting) →
    readTerm limits fuel depth terms
      (blanks ++ (parenthesized filter.isJoin filter.render ++ following)) = .ok (back, total, rest) →
    Starts (back.leaves ++ more) filter.leaves → filter.isFaithful = true

def ReturnsExpression (limits : Limits) (filter : Filter) : Prop :=
  ∀ {fuel depth terms following back total rest more}, Calm following → EndsValue following →
    filter.render.length < fuel → limits.Leave depth terms filter.leaves.length filter.nesting →
    readExpression limits fuel depth terms (filter.render ++ following) = .ok (back, total, rest) →
    Starts (back.leaves ++ more) filter.leaves → filter.isFaithful = true

structure Returns (limits : Limits) (filter : Filter) : Prop where
  head : ∃ c tail, filter.render = c :: tail ∧ Text.isNameChar c = true
  calm : ∀ {following}, Calm following → Calm (filter.render ++ following)
  term : ReturnsTerm limits filter
  expression : ReturnsExpression limits filter

theorem render_head {lexeme behind : List Char} {comparison : Comparison}
    (isComparison : IsComparison lexeme behind comparison) :
    ∃ c tail, comparison.render = c :: tail ∧ Text.isNameChar c = true := by
  cases isComparison with
  | @mk property _ _ _ _ _ _ _ isProperty =>
      cases property with
      | nil => exact absurd rfl isProperty.1
      | cons c property => exact ⟨c, _, by simp [Comparison.render]; rfl, isProperty.2.1 c (by simp)⟩

theorem isFaithful_of_readTerm {limits : Limits} {lexeme behind : List Char}
    {comparison : Comparison} (isComparison : IsComparison lexeme behind comparison)
    {fuel depth terms total : Nat} {blanks following rest : List Char} {back : Filter}
    {more : List Comparison} (allBlank : Blanks blanks) (calm : Calm following)
    (few : terms < limits.terms)
    (read : readTerm limits fuel depth terms (blanks ++ (comparison.render ++ following)) =
      .ok (back, total, rest))
    (starts : Starts (back.leaves ++ more) [comparison]) :
    comparison.operand.isFaithful = true := by
  obtain ⟨c, tail, renderEq, name⟩ := render_head isComparison
  have stops : Stops isBlank (comparison.render ++ following) := by
    rw [renderEq]
    exact (Text.stops_cons _ _ _).mpr (Text.isBlank_of_isNameChar name)
  have skipped := Text.skipBlanks_blanks allBlank stops
  have start : skipBlanks (blanks ++ (comparison.render ++ following)) = c :: (tail ++ following) := by
    rw [skipped, renderEq, List.cons_append]
  cases fuel with
  | zero => simp [readTerm, fail] at read
  | succ fuel =>
      rw [readTerm_name limits fuel depth terms start name few, skipped] at read
      obtain ⟨⟨found, foundRest⟩, readLeaf, pairEq⟩ := Outcome.bind_eq_ok.mp read
      cases pairEq
      exact isFaithful_of_readComparison isComparison calm readLeaf starts.head

theorem returns_leaf (limits : Limits) {lexeme behind : List Char} {comparison : Comparison}
    (isComparison : IsComparison lexeme behind comparison) : Returns limits (leaf comparison) := by
  refine ⟨?_, fun calm => ?_, ?_, ?_⟩
  · rw [render]
    exact render_head isComparison
  · rw [render]
    exact calm_comparison isComparison calm
  · intro fuel depth terms blanks following back total rest more allBlank calm _ _ leave read starts
    simp only [parenthesized, isJoin, render, leaves] at read starts
    have faithful := isFaithful_of_readTerm isComparison allBlank calm leave.2 read starts
    simpa [isFaithful, leaves] using faithful
  · intro fuel depth terms following back total rest more calm _ _ leave read starts
    obtain ⟨⟨first, count, behindFirst⟩, readFirst, readRest⟩ := Outcome.bind_eq_ok.mp read
    obtain ⟨others, leavesEq⟩ := readChain_leaves readRest
    rw [leavesEq, List.append_assoc, leaves] at starts
    simp only [render] at readFirst
    have faithful :=
      isFaithful_of_readTerm isComparison Text.blanks_nil calm leave.2 readFirst starts
    simpa [isFaithful, leaves] using faithful

theorem Returns.calm_term {limits : Limits} {filter : Filter} (returns : Returns limits filter)
    {following : List Char} (calm : Calm following) :
    Calm (parenthesized filter.isJoin filter.render ++ following) := by
  rw [parenthesized]
  split
  · have closed := returns.calm (calm_cons (by decide : ')' ≠ '\\') calm)
    simpa using calm_cons (by decide : '(' ≠ '\\') closed
  · exact returns.calm calm

def secondText (connective : Connective) (second : Filter) (following : List Char) : List Char :=
  [' '] ++ (connective.word ++ ([' '] ++
    (parenthesized second.isJoin second.render ++ following)))

theorem render_join (connective : Connective) (first second : Filter) (following : List Char) :
    (join connective [first, second]).render ++ following =
      first.render ++ secondText connective second following := by
  simp [render, renderAll, renderTail, secondText]

theorem Returns.calm_secondText {limits : Limits} {second : Filter} (right : Returns limits second)
    (connective : Connective) {following : List Char} (calm : Calm following) :
    Calm (secondText connective second following) := by
  have letters : ∀ c ∈ connective.word, c ≠ '\\' := by cases connective <;> simp [Connective.word]
  exact calm_append (by simp) (calm_append letters (calm_append (by simp) (right.calm_term calm)))

theorem readExpression_join {limits : Limits} {connective : Connective} {first second back : Filter}
    (spelled : DerivesExpression first) {fuel depth terms total : Nat} {following rest : List Char}
    (enough : (first.render ++ secondText connective second []).length < fuel)
    (leave : limits.Leave depth terms first.leaves.length first.nesting)
    (read : readExpression limits fuel depth terms
      (first.render ++ secondText connective second following) = .ok (back, total, rest)) :
    ∃ less found count behind others,
      (parenthesized second.isJoin second.render).length < less ∧
      readTerm limits less depth (terms + first.leaves.length)
        ([' '] ++ (parenthesized second.isJoin second.render ++ following)) =
          .ok (found, count, behind) ∧
      back.leaves = first.unbound.fold.leaves ++ (found.leaves ++ others) := by
  have derives := spelled (secondText connective second following) (endsValue_space _)
  obtain ⟨used, usedBound, reads⟩ := derives.accepts limits
  simp only [secondText, List.append_nil, List.length_append, List.length_singleton] at enough
  have taken := reads fuel depth terms [] Text.blanks_nil (by omega) leave
  rw [List.nil_append] at taken
  have connected : readConnective? (skipBlanks (secondText connective second following)) =
      some (connective, [' '] ++ (parenthesized second.isJoin second.render ++ following)) := by
    rw [secondText, Text.skipBlanks_blanks Text.blanks_space
      (stops_blank_of_sameWord (Text.sameWord_refl connective.word) _)]
    exact readConnective?_append (Text.sameWord_refl connective.word) (breaksWord_space _)
  have fuelLeft : fuel - used = (fuel - (used + 1)) + 1 := by omega
  rw [taken, fuelLeft, readChain_joined limits _ _ _ _ connected] at read
  obtain ⟨⟨found, count, behind⟩, readSecond, readRest⟩ := Outcome.bind_eq_ok.mp read
  obtain ⟨others, backEq⟩ := readChain_leaves readRest
  refine ⟨_, found, count, behind, others, by omega, readSecond, ?_⟩
  simpa [leaves, leavesOf] using backEq

theorem returnsExpression_join {limits : Limits} {connective : Connective} {first second : Filter}
    (left : Returns limits first) (spelled : first.isFaithful = true → DerivesExpression first)
    (right : Returns limits second) :
    ReturnsExpression limits (join connective [first, second]) := by
  intro fuel depth terms following back total rest more calm endsFollowing enough leave read starts
  have leavesEq : (join connective [first, second]).leaves = first.leaves ++ second.leaves := by
    simp [leaves, leavesOf]
  have nestingEq : (join connective [first, second]).nesting = max first.nesting
      (if second.isJoin then second.nesting + 1 else second.nesting) := by
    simp [nesting, nestingAll, nestingTail]
  have written := render_join connective first second []
  rw [List.append_nil] at written
  rw [written] at enough
  rw [leavesEq, nestingEq, Limits.Leave, List.length_append] at leave
  rw [render_join] at read
  rw [leavesEq] at starts
  have firstFaithful := left.expression (right.calm_secondText connective calm) (endsValue_space _)
    (by rw [List.length_append] at enough; omega) ⟨by omega, by omega⟩ read starts.left
  have spelledFirst := spelled firstFaithful
  obtain ⟨less, found, count, behind, others, enoughLeft, readSecond, backEq⟩ :=
    readExpression_join spelledFirst enough ⟨by omega, by omega⟩ read
  have level := (spelledFirst [] (by simp [EndsValue])).derived.leaves
  have secondStarts : Starts (found.leaves ++ (others ++ more)) second.leaves := by
    rw [backEq] at starts
    refine Starts.right first.unbound.fold.leaves ?_ level
    simpa only [List.append_assoc] using starts
  have secondFaithful := right.term Text.blanks_space calm endsFollowing enoughLeft
    ⟨by omega, by omega⟩ readSecond secondStarts
  rw [isFaithful, leavesEq, List.all_append, Bool.and_eq_true]
  exact ⟨firstFaithful, secondFaithful⟩

theorem returnsTerm_join {limits : Limits} {connective : Connective} {children : List Filter}
    (expression : ReturnsExpression limits (join connective children)) :
    ReturnsTerm limits (join connective children) := by
  intro fuel depth terms blanks following back total rest more allBlank calm _ enough leave read
    starts
  have grouped : parenthesized (join connective children).isJoin
      (join connective children).render ++ following =
        '(' :: ((join connective children).render ++ ')' :: following) := by
    simp [parenthesized, isJoin]
  have opening : skipBlanks (blanks ++
      '(' :: ((join connective children).render ++ ')' :: following)) =
        '(' :: ((join connective children).render ++ ')' :: following) :=
    Text.skipBlanks_blanks allBlank ((Text.stops_cons _ _ _).mpr (by decide))
  have closed : EndsValue (')' :: following) := by simp [EndsValue]
  simp only [isJoin, if_true, parenthesized, Limits.Leave] at leave enough
  rw [grouped] at read
  cases fuel with
  | zero => omega
  | succ fuel =>
      rw [readTerm_group limits fuel depth terms opening (by omega)] at read
      obtain ⟨⟨group, count, behind⟩, readGroup, readRest⟩ := Outcome.bind_eq_ok.mp read
      obtain ⟨_, _, pairEq⟩ := Outcome.bind_eq_ok.mp readRest
      cases pairEq
      refine expression (calm_cons (by decide) calm) closed ?_ ⟨by omega, by omega⟩ readGroup starts
      simp only [List.length_cons, List.length_append] at enough
      omega

theorem returns_join (limits : Limits) {connective : Connective} {first second : Filter}
    (left : Returns limits first) (spelled : first.isFaithful = true → DerivesExpression first)
    (right : Returns limits second) : Returns limits (join connective [first, second]) := by
  have expression : ReturnsExpression limits (join connective [first, second]) :=
    returnsExpression_join left spelled right
  refine ⟨?_, fun calm => ?_, returnsTerm_join expression, expression⟩
  · obtain ⟨c, tail, renderEq, name⟩ := left.head
    have written := render_join connective first second []
    rw [renderEq, List.append_nil] at written
    exact ⟨c, _, written, name⟩
  · rw [render_join]
    exact left.calm (right.calm_secondText connective calm)

theorem Grammar.Derives.returns (limits : Limits) {nonterminal : Nonterminal}
    {lexeme following : List Char} {filter : Filter} {comparisons depth : Nat}
    (derives : Derives nonterminal lexeme following filter comparisons depth) :
    Returns limits filter := by
  induction derives with
  | comparison isComparison => exact returns_leaf limits isComparison
  | group _ _ _ ih => exact ih
  | single _ ih => exact ih
  | joined chain _ _ _ _ _ ihFirst ihSecond =>
      exact returns_join limits ihFirst
        (fun faithful => derivesExpression (chain.isSpellable faithful)) ihSecond

/-- A filter that was read and that comes back from its text is faithful. -/
theorem isFaithful_of_reread {limits : Limits} {input : String} {filter back : Filter}
    (parsed : parse limits input = .ok filter) (reread : parse limits filter.text = .ok back)
    (same : back.same filter = true) : filter.isFaithful = true := by
  rw [parse, Outcome.mapError_eq_ok] at parsed reread
  obtain ⟨comparisons, depth, ⟨_, _, _, _, _, _, derives⟩, few, shallow⟩ := read_sound parsed
  have derived := derives.derived
  have returns := derives.returns limits
  obtain ⟨c, tail, renderEq, name⟩ := returns.head
  have start : skipBlanks filter.text.toList = filter.render := by
    rw [text, String.toList_ofList, renderEq]
    exact List.dropWhile_cons_of_neg (by simp [Text.isBlank_of_isNameChar name])
  rw [read_eq limits _ (by rw [start, renderEq]; simp), start] at reread
  obtain ⟨⟨found, total, rest⟩, readAll, readEnd⟩ := Outcome.bind_eq_ok.mp reread
  have foundEq : found = back := by
    dsimp only at readEnd
    split at readEnd
    · cases readEnd
      rfl
    · simp [fail] at readEnd
  subst foundEq
  have whole : SameComparisons found.leaves filter.leaves := sameComparisons_of_same same
  have starts : Starts (found.leaves ++ []) filter.leaves := by
    rwa [Starts, List.append_nil, ← whole.length_eq, List.take_length]
  rw [← List.append_nil filter.render] at readAll
  refine returns.expression (by simp [Calm]) (by simp [EndsValue]) ?_ ?_ readAll starts
  · simp
  · exact ⟨by have := derived.nesting; omega, by rw [derived.leaves]; omega⟩

/-- Of the filters that are read from some text, exactly the faithful ones are read again from their
own text, and these come back as they were. -/
theorem reread_iff_isFaithful (limits : Limits) (input : String) (filter : Filter)
    (parsed : parse limits input = .ok filter) :
    ((∃ back, parse limits filter.text = .ok back ∧ back.same filter = true) ↔
      filter.isFaithful = true) ∧
    (filter.isFaithful = true → parse limits filter.text = .ok filter) := by
  have again : filter.isFaithful = true → parse limits filter.text = .ok filter :=
    parse_text_of_parse parsed
  refine ⟨⟨?_, fun faithful => ⟨filter, again faithful, filter.same_refl⟩⟩, again⟩
  rintro ⟨back, reread, same⟩
  exact isFaithful_of_reread parsed reread same

/-- Floats, texts with quotes, and groups are written in a way of their own, and come back. -/
theorem reread_floats : ∃ filter,
    parse {} "price lt 007.50 and(name eq 'it\\'s' or tag in [\"a'b\",-0.0,1e21])" = .ok filter ∧
      filter.text =
        "price lt 7.5 and (name eq 'it\\'s' or tag in ['a\\'b', -0.0, 1000000000000000000000.0])" ∧
      parse {} filter.text = .ok filter := by
  obtain ⟨filter, parsed, tested⟩ := Outcome.toOption_any (by decide +kernel :
    (parse {} "price lt 007.50 and(name eq 'it\\'s' or tag in [\"a'b\",-0.0,1e21])").toOption.any
      (fun filter => filter.isFaithful && filter.text ==
        "price lt 7.5 and (name eq 'it\\'s' or tag in ['a\\'b', -0.0, 1000000000000000000000.0])")
      = true)
  rw [Bool.and_eq_true, beq_iff_eq] at tested
  exact ⟨filter, parsed, tested.2, (reread_iff_isFaithful {} _ filter parsed).2 tested.1⟩

/-- The text `x\y` in a list is written as it stands, where its backslash counts as an escape. -/
theorem backslash_not_reread :
    ¬∀ input filter, parse {} input = .ok filter →
      ∃ back, parse {} filter.text = .ok back ∧ back.same filter = true := by
  intro all
  obtain ⟨input, refused⟩ : ∃ input, (parse {} input).toOption.any
      (fun filter => (parse {} filter.text).toOption.isNone) = true :=
    ⟨"a in [\"x\\\\y\"]", by decide +kernel⟩
  obtain ⟨filter, parsed, failed⟩ := Outcome.toOption_any refused
  obtain ⟨back, reread, _⟩ := all input filter parsed
  rw [reread] at failed
  cases failed

end QueryOptions.Filter
