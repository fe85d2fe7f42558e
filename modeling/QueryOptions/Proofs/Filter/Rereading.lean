import QueryOptions.Proofs.Filter.RoundTrip

/-!
Reading the text of a filter that was read before. What the reader produces is spelled so that it
reads the same again, except for infinite numbers, and for texts in lists that hold a backslash or
a control character.
-/

namespace QueryOptions

/-- The operands that are spelled faithfully, once they were read. -/
def Operand.isFaithful : Operand → Bool
  | single (.real x) => x.isFinite
  | single _ => true
  | list values => values.all fun
      | .text s => Json.isPlain s.toList
      | _ => true

theorem Binary64.same_refl (x : Binary64) : x.same x = true := by
  cases number : x.isNaN <;> simp [same, compare?, number]

theorem Value.same_refl (value : Value) : value.same value = true := by
  cases value with
  | real x => exact x.same_refl
  | null | boolean _ | integer _ | text _ => simp [same]

theorem Value.all_same_refl (values : List Value) :
    ((values.zip values).all fun (a, b) => a.same b) = true := by
  induction values with
  | nil => rfl
  | cons value values ih => simpa [Value.same_refl] using ih

theorem Operand.same_refl (operand : Operand) : operand.same operand = true := by
  cases operand with
  | single value => exact value.same_refl
  | list values => simp [same, Value.all_same_refl]

theorem Comparison.same_refl (comparison : Comparison) : comparison.same comparison = true := by
  simp [same, Operand.same_refl]

namespace Filter

open Grammar

theorem same_refl (filter : Filter) : filter.same filter = true := by
  induction filter with
  | leaf comparison => simp only [same, Comparison.same_refl]
  | join connective children ih =>
      have all : sameAll children children = true := by
        induction children with
        | nil => rfl
        | cons child children ihChildren =>
            simp only [sameAll, Bool.and_eq_true]
            exact ⟨ih child (by simp), ihChildren fun child member => ih child (by simp [member])⟩
      simp [same, all]

theorem readQuoted_eq_nil {text rest : List Char} (read : readQuoted text = some ([], rest)) :
    text = '\'' :: rest := by
  fun_cases readQuoted text with
  | case1 => contradiction
  | case2 tail => simpa [readQuoted] using read
  | case3 tail => simp [readQuoted] at read
  | case4 c tail notQuote notEscape =>
      rw [readQuoted.eq_4 _ _ notQuote notEscape] at read
      simp at read

theorem readQuoted_getLast? {text characters rest : List Char}
    (read : readQuoted text = some (characters, rest)) : characters.getLast? ≠ some '\\' := by
  fun_induction readQuoted text generalizing characters rest with
  | case1 => contradiction
  | case2 tail =>
      cases read
      simp
  | case3 tail ih =>
      obtain ⟨⟨inner, innerRest⟩, innerRead, pairEq⟩ := Option.map_eq_some_iff.mp read
      cases pairEq
      cases inner with
      | nil => simp
      | cons d inner => simpa [List.getLast?_cons_cons] using ih innerRead
  | case4 c tail notQuote notEscape ih =>
      obtain ⟨⟨inner, innerRest⟩, innerRead, pairEq⟩ := Option.map_eq_some_iff.mp read
      cases pairEq
      cases inner with
      | nil =>
          have closing := readQuoted_eq_nil innerRead
          simp only [List.getLast?_singleton, ne_eq, Option.some.injEq]
          exact fun backslash => notEscape _ backslash closing
      | cons d inner => simpa [List.getLast?_cons_cons] using ih innerRead

theorem readNumber_value {text rest : List Char} {value : Value}
    (read : readNumber text = .ok (value, rest)) :
    (∃ number : Int64, value = .integer number ∧ 0 ≤ number.toInt) ∨
      ∃ x : Binary64, value = .real x ∧ x.isNegative = false := by
  simp only [readNumber] at read
  split at read
  · split at read
    · contradiction
    · cases read
      exact .inr ⟨_, rfl, Binary64.isNegative_ofDecimal _ _⟩
  · split at read
    · rename_i number fits
      cases read
      have natural := toInt_of_int64? fits
      exact .inl ⟨number, rfl, by omega⟩
    · cases read

theorem mem_elements {docs : List Json.Doc} {values : List Value}
    (read : elements docs = .ok values) {value : Value} (member : value ∈ values) :
    value ≠ .null ∧ ∃ doc : Json.Doc, doc.scalar? = some value := by
  induction docs generalizing values with
  | nil =>
      cases read
      contradiction
  | cons doc docs ih =>
      rw [elements] at read
      split at read
      · contradiction
      · rename_i scalar notNull found
        obtain ⟨others, readOthers, rfl⟩ := Outcome.map_eq_ok.mp read
        rcases List.mem_cons.mp member with rfl | later
        · exact ⟨notNull, doc, found⟩
        · exact ih readOthers later
      · contradiction

theorem mem_readArray {text rest : List Char} {values : List Value}
    (read : readArray text = .ok (values, rest)) {value : Value} (member : value ∈ values) :
    value ≠ .null ∧ ∃ doc : Json.Doc, doc.scalar? = some value := by
  rw [readArray] at read
  split at read
  · contradiction
  · split at read
    · obtain ⟨found, valued, pairEq⟩ := Outcome.map_eq_ok.mp read
      cases pairEq
      exact mem_elements valued member
    · contradiction

theorem isFinite_of_value? {numeral : Json.Numeral} {x : Binary64}
    (valued : numeral.value? = some (.real x)) : x.isFinite = true := by
  simp only [Json.Numeral.value?] at valued
  split at valued
  · split at valued
    · cases valued
    · split at valued
      · rename_i finite
        cases valued
        exact finite
      · contradiction
  · split at valued
    · rename_i finite
      cases valued
      exact finite
    · contradiction

theorem isFinite_of_scalar? {doc : Json.Doc} {x : Binary64} (found : doc.scalar? = some (.real x)) :
    x.isFinite = true := by
  cases doc with
  | number numeral => exact isFinite_of_value? found
  | null | boolean _ => cases found
  | string pieces =>
      rw [Json.Doc.scalar?] at found
      obtain ⟨_, _, impossible⟩ := Option.map_eq_some_iff.mp found
      contradiction
  | array _ | object _ => contradiction

theorem isSpellable_of_literal {lexeme : List Char} {operand : Operand}
    (literal : Literal lexeme operand) (faithful : operand.isFaithful = true) :
    operand.isSpellable = true := by
  cases literal with
  | quoted read =>
      have last := readQuoted_getLast? read
      simpa [Operand.isSpellable, Value.isSpellable, Value.isReadable] using last
  | number _ read =>
      obtain ⟨number, rfl, natural⟩ | ⟨x, rfl, natural⟩ := readNumber_value read
      · simpa [Operand.isSpellable, Value.isSpellable, Value.isReadable] using natural
      · have finite : x.isFinite = true := faithful
        simp [Operand.isSpellable, Value.isSpellable, finite, natural]
  | constant member _ =>
      simp only [constants, List.mem_cons, List.not_mem_nil, or_false] at member
      rcases member with rfl | rfl | rfl <;> rfl
  | array _ read =>
      rename_i values
      simp only [Operand.isFaithful, Operand.isSpellable, List.all_eq_true] at faithful ⊢
      intro value member
      obtain ⟨notNull, doc, found⟩ := mem_readArray read member
      have plain := faithful value member
      cases value with
      | null => contradiction
      | boolean _ | integer _ => rfl
      | real x => exact isFinite_of_scalar? found
      | text s => exact plain

def isFaithful (filter : Filter) : Bool :=
  filter.leaves.all fun comparison => comparison.operand.isFaithful

namespace Grammar

theorem IsComparison.isSpellable {lexeme following : List Char} {comparison : Comparison}
    (isComparison : IsComparison lexeme following comparison)
    (faithful : comparison.operand.isFaithful = true) : comparison.isSpellable = true := by
  cases isComparison with
  | mk isProperty _ _ _ _ _ isLiteral _ wellShaped =>
      simp only [Comparison.isSpellable, String.toList_ofList, wellShaped, Bool.and_eq_true,
        Bool.not_eq_true', List.isEmpty_eq_false_iff, List.all_eq_true, Option.isNone_none, and_true]
      exact ⟨⟨isProperty.1, isProperty.2.1⟩, isSpellable_of_literal isLiteral faithful⟩

/-- What a derivation says of the filter it derives: the filter is joined two by two, and has no
definitions; its comparisons are counted, and so are the parentheses that its text needs. -/
structure Derived (nonterminal : Nonterminal) (filter : Filter) (comparisons depth : Nat) :
    Prop where
  binary : filter.isBinary = true
  unbound : filter.unbound = filter
  leaves : filter.leaves.length = comparisons
  nesting : filter.nesting ≤ depth
  term : nonterminal = .term → filter.isJoin = true → filter.nesting < depth

theorem Derives.derived {nonterminal : Nonterminal} {lexeme following : List Char}
    {filter : Filter} {comparisons depth : Nat}
    (derives : Derives nonterminal lexeme following filter comparisons depth) :
    Derived nonterminal filter comparisons depth := by
  induction derives with
  | comparison isComparison =>
      cases isComparison with
      | mk =>
          refine ⟨?_, ?_, ?_, ?_, ?_⟩
          · simp [isBinary, every_leaf]
          · simp [unbound_leaf, Comparison.unbound]
          · simp [leaves]
          · simp [nesting]
          · simp [isJoin]
  | group _ _ _ ih =>
      refine ⟨ih.binary, ih.unbound, ih.leaves, ?_, ?_⟩
      · have := ih.nesting
        omega
      · intro _ _
        have := ih.nesting
        omega
  | single _ ih => exact ⟨ih.binary, ih.unbound, ih.leaves, ih.nesting, by simp⟩
  | joined _ _ _ _ _ _ first second =>
      refine ⟨?_, ?_, ?_, ?_, by simp⟩
      · have left := first.binary
        have right := second.binary
        simp only [isBinary] at left right
        simp [isBinary, every_join, left, right]
      · simp [unbound_join, first.unbound, second.unbound]
      · simp [leaves, leavesOf, first.leaves, second.leaves]
      · have left := first.nesting
        have right := second.nesting
        have grouped := second.term rfl
        simp only [nesting, nestingAll, nestingTail]
        split
        · rename_i isJoin
          have := grouped isJoin
          omega
        · omega

theorem Derives.isSpellable {nonterminal : Nonterminal} {lexeme following : List Char}
    {filter : Filter} {comparisons depth : Nat}
    (derives : Derives nonterminal lexeme following filter comparisons depth)
    (faithful : filter.isFaithful = true) : filter.isSpellable = true := by
  induction derives with
  | comparison isComparison =>
      rw [Filter.isFaithful, leaves, List.all_cons, Bool.and_eq_true] at faithful
      rw [Filter.isSpellable, every_leaf]
      exact isComparison.isSpellable faithful.1
  | group _ _ _ ih => exact ih faithful
  | single _ ih => exact ih faithful
  | joined _ _ _ _ _ _ ihFirst ihSecond =>
      simp only [Filter.isFaithful, leaves, leavesOf, List.all_append, Bool.and_eq_true] at faithful
      have first := ihFirst faithful.1
      have second := ihSecond faithful.2.1
      simp only [Filter.isSpellable] at first second
      simp [Filter.isSpellable, every_join, first, second]

end Grammar

/-- A filter that was read is read again from its text, under the same limits, if it is faithful. -/
theorem parse_text_of_parse {limits : Limits} {input : String} {filter : Filter}
    (parsed : parse limits input = .ok filter) (faithful : filter.isFaithful = true) :
    parse limits filter.text = .ok filter := by
  rw [parse, Outcome.mapError_eq_ok] at parsed
  obtain ⟨comparisons, depth, ⟨_, _, _, _, _, _, derives⟩, few, shallow⟩ := read_sound parsed
  have derived := derives.derived
  have again : parse limits filter.text = .ok filter.unbound.fold :=
    parse_text_spellable (derives.isSpellable faithful) (by rw [derived.leaves]; exact few)
      (derived.nesting.trans shallow)
  rwa [derived.unbound, fold_of_isBinary derived.binary] at again

end Filter

end QueryOptions
