import QueryOptions.Proofs.Filter.Acceptance
import QueryOptions.Proofs.Filter.Spelling
import QueryOptions.Proofs.Filter.Tree

/-!
Writing a filter and reading it again. The reader joins terms two at a time from the left, so what
comes back is the filter with its joins folded that way; folding changes no answer.
-/

namespace QueryOptions

/-- A comparison whose text stands for it: its property is a name, its operand has a literal, and
its operator takes the operand. -/
def Comparison.isReadable (comparison : Comparison) : Bool :=
  !comparison.property.toList.isEmpty && comparison.property.toList.all Text.isNameChar &&
    (shapeFault? comparison.operator comparison.operand).isNone && comparison.operand.isReadable

def Comparison.isSpellable (comparison : Comparison) : Bool :=
  !comparison.property.toList.isEmpty && comparison.property.toList.all Text.isNameChar &&
    (shapeFault? comparison.operator comparison.operand).isNone && comparison.operand.isSpellable

theorem Comparison.isSpellable_of_isReadable {comparison : Comparison}
    (readable : comparison.isReadable = true) : comparison.isSpellable = true := by
  rw [isReadable, Bool.and_eq_true] at readable
  rw [isSpellable, Bool.and_eq_true]
  exact ⟨readable.1, Operand.isSpellable_of_isReadable readable.2⟩

namespace Filter

open Text (Blanks BreaksWord EndsValue Stops isBlank isNameChar sameWord)
open Grammar

def isReadable : Filter → Bool :=
  every Comparison.isReadable fun children => !children.isEmpty

def isSpellable : Filter → Bool :=
  every Comparison.isSpellable fun children => !children.isEmpty

theorem isSpellable_of_isReadable {filter : Filter} (readable : filter.isReadable = true) :
    filter.isSpellable = true := by
  induction filter with
  | leaf comparison =>
      rw [isReadable, every_leaf] at readable
      rw [isSpellable, every_leaf]
      exact Comparison.isSpellable_of_isReadable readable
  | join connective children ih =>
      simp only [isReadable, isSpellable, every_join, Bool.and_eq_true, List.all_eq_true] at *
      exact ⟨readable.1, fun child member => ih child member (readable.2 child member)⟩

def joinFromLeft (connective : Connective) : List Filter → Filter
  | [] => join connective []
  | first :: rest => rest.foldl (fun left right => join connective [left, right]) first

mutual

/-- The filter with every join folded from the left into joins of two. -/
def fold : Filter → Filter
  | leaf comparison => leaf comparison
  | join connective children => joinFromLeft connective (foldAll children)

def foldAll : List Filter → List Filter
  | [] => []
  | child :: children => child.fold :: foldAll children

end

mutual

def nesting : Filter → Nat
  | leaf _ => 0
  | join _ children => nestingAll children

def nestingAll : List Filter → Nat
  | [] => 0
  | child :: children => max child.nesting (nestingTail children)

def nestingTail : List Filter → Nat
  | [] => 0
  | child :: children =>
      max (if child.isJoin then child.nesting + 1 else child.nesting) (nestingTail children)

end

def isBinary : Filter → Bool :=
  every (fun _ => true) fun children => children.length == 2

theorem foldAll_eq (children : List Filter) : foldAll children = children.map fold := by
  induction children with
  | nil => simp [foldAll]
  | cons child children ih => simp [foldAll, ih]

theorem endsValue_space (text : List Char) : EndsValue (' ' :: text) := by
  simp only [EndsValue, List.head?_cons, Option.mem_some_iff, forall_eq']
  exact .inl (by decide)

theorem breaksWord_space (text : List Char) : BreaksWord (' ' :: text) :=
  ⟨' ', text, rfl, .inl (by decide)⟩

theorem isName_word {word : List Char} (nonempty : word ≠ [])
    (names : ∀ c ∈ word, isNameChar c = true) (following : List Char) :
    IsName word (' ' :: following) :=
  ⟨nonempty, names, (Text.stops_cons _ _ _).mpr (Text.isNameChar_of_isBlank (by decide))⟩

theorem isName_operator (operator : Operator) (text : List Char) :
    IsName operator.word (' ' :: text) := by
  have letters : operator.word ≠ [] ∧ operator.word.all isNameChar = true := by
    cases operator <;> decide
  exact isName_word letters.1 (List.all_eq_true.mp letters.2) text

theorem isComparison_render {comparison : Comparison} (spellable : comparison.isSpellable = true)
    {following : List Char} (ends : EndsValue following) :
    IsComparison comparison.render following comparison.unbound := by
  obtain ⟨property, operator, operand, definition⟩ := comparison
  simp only [Comparison.isSpellable, Bool.and_eq_true, Bool.not_eq_true', List.isEmpty_eq_false_iff,
    List.all_eq_true, Option.isNone_iff_eq_none] at spellable
  obtain ⟨⟨⟨nonempty, names⟩, wellShaped⟩, spellable⟩ := spellable
  have hasMembers : operand ≠ .list [] := by
    rintro rfl
    cases operator <;> simp [shapeFault?, Operator.takesList] at wellShaped
  have isComparison := IsComparison.mk (isName_word nonempty names _) Text.blanks_space
    (isName_operator operator _) (Text.sameWord_refl operator.word)
    (breaksWord_space _) Text.blanks_space (literal_operand spellable hasMembers) ends wellShaped
  rw [String.ofList_toList] at isComparison
  simpa [Comparison.render, Comparison.unbound] using isComparison

/-- The text of a filter is an expression that denotes the folded filter, before any text that can
stand behind a value. -/
def DerivesExpression (filter : Filter) : Prop :=
  ∀ following, EndsValue following →
    Derives .expression filter.render following filter.unbound.fold filter.leaves.length
      filter.nesting

def DerivesTerm (filter : Filter) : Prop :=
  ∀ following, EndsValue following →
    Derives .term (parenthesized filter.isJoin filter.render) following filter.unbound.fold
      filter.leaves.length (if filter.isJoin then filter.nesting + 1 else filter.nesting)

theorem derivesTerm_leaf {comparison : Comparison} (spellable : comparison.isSpellable = true) :
    DerivesTerm (leaf comparison) := by
  intro following ends
  have derives := Derives.comparison (isComparison_render spellable ends)
  simpa [parenthesized, isJoin, render, unbound_leaf, fold, leaves, nesting] using derives

theorem derivesTerm_join {connective : Connective} {children : List Filter}
    (derives : DerivesExpression (join connective children)) :
    DerivesTerm (join connective children) := by
  intro following ends
  have closed : EndsValue (')' :: following) := by simp [EndsValue]
  have group := Derives.group Text.blanks_nil (derives (')' :: following) closed) Text.blanks_nil
  simpa [parenthesized, isJoin] using group

theorem derivesTerm_of_derivesExpression {filter : Filter} (spellable : filter.isSpellable = true)
    (derives : DerivesExpression filter) : DerivesTerm filter := by
  cases filter with
  | leaf comparison =>
      rw [isSpellable, every_leaf] at spellable
      exact derivesTerm_leaf spellable
  | join connective children => exact derivesTerm_join derives

theorem endsValue_renderTail (connective : Connective) (children : List Filter)
    {following : List Char} (ends : EndsValue following) :
    EndsValue (renderTail connective children ++ following) := by
  cases children with
  | nil => simpa [renderTail] using ends
  | cons child children => exact endsValue_space _

theorem derives_renderTail {connective : Connective} {children : List Filter}
    (terms : ∀ child ∈ children, DerivesTerm child) {left following : List Char} {first : Filter}
    {comparisons depth : Nat} (ends : EndsValue following)
    (chain : Derives .expression left (renderTail connective children ++ following) first
      comparisons depth) :
    Derives .expression (left ++ renderTail connective children) following
      (((children.map unbound).map fold).foldl (fun left right => join connective [left, right])
        first)
      (comparisons + (leavesOf children).length) (max depth (nestingTail children)) := by
  -- The chain derived so far carries the induction: each child makes it longer by one join.
  induction children generalizing left first comparisons depth with
  | nil => simpa [renderTail, leavesOf, nestingTail] using chain
  | cons child children ih =>
      have term := terms child (by simp) _ (endsValue_renderTail connective children ends)
      have split : renderTail connective (child :: children) =
          [' '] ++ (connective.word ++ ([' '] ++ (parenthesized child.isJoin child.render ++
            renderTail connective children))) := by
        simp [renderTail]
      rw [split] at chain ⊢
      simp only [List.append_assoc] at chain
      have joined := Derives.joined chain Text.blanks_space (Text.sameWord_refl connective.word)
        (breaksWord_space _) Text.blanks_space term
      have prolonged := ih (fun child member => terms child (by simp [member])) joined
      simpa [leavesOf, nestingTail, Nat.add_assoc, Nat.max_assoc] using prolonged

theorem derivesExpression_join {connective : Connective} {children : List Filter}
    (nonempty : children ≠ []) (expressions : ∀ child ∈ children, DerivesExpression child)
    (terms : ∀ child ∈ children, DerivesTerm child) :
    DerivesExpression (join connective children) := by
  intro following ends
  cases children with
  | nil => contradiction
  | cons child children =>
      have chain := derives_renderTail (fun child member => terms child (by simp [member])) ends
        (expressions child (by simp) _ (endsValue_renderTail connective children ends))
      simpa [render, renderAll, unbound_join, fold, foldAll_eq, joinFromLeft, leaves, leavesOf,
        nesting, nestingAll] using chain

theorem derivesExpression {filter : Filter} (spellable : filter.isSpellable = true) :
    DerivesExpression filter := by
  induction filter with
  | leaf comparison =>
      rw [isSpellable, every_leaf] at spellable
      intro following ends
      have term := derivesTerm_leaf spellable following ends
      exact .single (by simpa [parenthesized, isJoin] using term)
  | join connective children ih =>
      simp only [isSpellable, every_join, Bool.and_eq_true, Bool.not_eq_true',
        List.isEmpty_eq_false_iff, List.all_eq_true] at spellable
      have expressions : ∀ child ∈ children, DerivesExpression child := fun child member =>
        ih child member (spellable.2 child member)
      exact derivesExpression_join spellable.1 expressions fun child member =>
        derivesTerm_of_derivesExpression (spellable.2 child member) (expressions child member)

theorem parse_text_spellable {limits : Limits} {filter : Filter}
    (spellable : filter.isSpellable = true) (few : filter.leaves.length ≤ limits.terms)
    (shallow : filter.nesting ≤ limits.depth) :
    parse limits filter.text = .ok filter.unbound.fold := by
  have derives := derivesExpression spellable [] (by simp [EndsValue])
  have whole : DerivesText filter.text.toList filter.unbound.fold filter.leaves.length
      filter.nesting :=
    ⟨[], filter.render, [], by simp [text], Text.blanks_nil, Text.blanks_nil, derives⟩
  rw [parse, Outcome.mapError_eq_ok]
  exact read_complete whole few shallow

theorem parse_text {limits : Limits} {filter : Filter} (readable : filter.isReadable = true)
    (few : filter.leaves.length ≤ limits.terms) (shallow : filter.nesting ≤ limits.depth) :
    parse limits filter.text = .ok filter.unbound.fold :=
  parse_text_spellable (isSpellable_of_isReadable readable) few shallow

theorem fold_of_isBinary {filter : Filter} (binary : filter.isBinary = true) :
    filter.fold = filter := by
  induction filter with
  | leaf comparison => rw [fold]
  | join connective children ih =>
      simp only [isBinary, every_join, Bool.and_eq_true, beq_iff_eq, List.all_eq_true] at binary
      obtain ⟨first, second, pair⟩ := List.length_eq_two.mp binary.1
      subst pair
      have firstFold := ih first (by simp) (binary.2 first (by simp))
      have secondFold := ih second (by simp) (binary.2 second (by simp))
      simp [fold, foldAll, joinFromLeft, firstFold, secondFold]

theorem isBinary_mapLeaves (change : Comparison → Comparison) (filter : Filter) :
    (filter.mapLeaves change).isBinary = filter.isBinary := by
  induction filter with
  | leaf comparison => simp only [mapLeaves, isBinary, every_leaf]
  | join connective children ih =>
      rw [Bool.eq_iff_iff]
      simp only [isBinary] at ih
      simp only [mapLeaves, mapLeavesOf_eq, isBinary, every_join, List.length_map, List.all_map,
        Bool.and_eq_true, List.all_eq_true, Function.comp_apply]
      exact and_congr_right fun _ => forall₂_congr fun child member => by rw [ih child member]

theorem isBinary_unbound (filter : Filter) : filter.unbound.isBinary = filter.isBinary :=
  isBinary_mapLeaves Comparison.unbound filter

theorem admits_join_map {property : String} {candidate : Value} {connective : Connective}
    {children : List Filter} {change : Filter → Filter}
    (same : ∀ child ∈ children, (change child).admits property candidate =
      child.admits property candidate) :
    (join connective (children.map change)).admits property candidate =
      (join connective children).admits property candidate := by
  rw [Bool.eq_iff_iff]
  cases connective with
  | and =>
      simp only [admits, allAdmit_eq, List.all_map, List.all_eq_true, Function.comp_apply]
      exact forall₂_congr fun child member => by rw [same child member]
  | or =>
      simp only [admits, anyAdmits_eq, List.any_map, List.any_eq_true, Function.comp_apply]
      exact exists_congr fun child => and_congr_right fun member => by rw [same child member]

theorem admits_unbound (property : String) (candidate : Value) (filter : Filter) :
    filter.unbound.admits property candidate = filter.admits property candidate := by
  induction filter with
  | leaf comparison =>
      simp only [unbound_leaf, admits]
      rfl
  | join connective children ih =>
      rw [unbound_join, admits_join_map ih]

theorem admits_joinFromLeft (property : String) (candidate : Value) (connective : Connective)
    (children : List Filter) :
    (joinFromLeft connective children).admits property candidate =
      (join connective children).admits property candidate := by
  cases children with
  | nil => rfl
  | cons first rest =>
      rw [joinFromLeft]
      induction rest generalizing first with
      | nil => cases connective <;> simp [admits, allAdmit, anyAdmits]
      | cons second rest ih =>
          rw [List.foldl_cons, ih]
          cases connective with
          | and => simp [admits, allAdmit, Bool.and_assoc]
          | or => simp [admits, anyAdmits, Bool.or_assoc]

theorem admits_fold (property : String) (candidate : Value) (filter : Filter) :
    filter.fold.admits property candidate = filter.admits property candidate := by
  induction filter with
  | leaf comparison => rw [fold]
  | join connective children ih =>
      rw [fold, admits_joinFromLeft, foldAll_eq, admits_join_map ih]

/-- A readable filter is parsed from its text, under any limits that its comparisons and its
parentheses keep, and comes back folded from the left. Where every join is binary nothing is folded
at all, and folding never changes what a filter admits. -/
theorem parse_text_round_trip (filter : Filter) :
    (∀ limits : Limits, filter.isReadable = true → filter.leaves.length ≤ limits.terms →
      filter.nesting ≤ limits.depth → parse limits filter.text = .ok filter.unbound.fold) ∧
    (filter.isBinary = true → filter.unbound.fold = filter.unbound) ∧
    ∀ property candidate,
      filter.unbound.admits property candidate = filter.admits property candidate ∧
        filter.fold.admits property candidate = filter.admits property candidate := by
  refine ⟨fun limits => parse_text, fun binary => ?_, fun property candidate => ?_⟩
  · exact fold_of_isBinary (by rw [isBinary_unbound, binary])
  · exact ⟨admits_unbound property candidate filter, admits_fold property candidate filter⟩

def twoGroups : Filter :=
  join .and [
    join .or [leaf ⟨"name", .eq, .single (.text "it's"), none⟩,
      leaf ⟨"rank", .ge, .single (.integer 7), none⟩],
    join .or [leaf ⟨"tag", .isIn, .list [.integer (-1), .text "a\"b"], none⟩,
      leaf ⟨"tag", .eq, .single .null, none⟩, leaf ⟨"seen", .ne, .single (.boolean true), none⟩]]

theorem parse_text_twoGroups :
    twoGroups.text = "name eq 'it\\'s' or rank ge 7 and " ++
        "(tag in [-1, 'a\"b'] or tag eq null or seen ne true)" ∧
      parse ⟨1, 5⟩ twoGroups.text = .ok (join .and [
        join .or [leaf ⟨"name", .eq, .single (.text "it's"), none⟩,
          leaf ⟨"rank", .ge, .single (.integer 7), none⟩],
        join .or [
          join .or [leaf ⟨"tag", .isIn, .list [.integer (-1), .text "a\"b"], none⟩,
            leaf ⟨"tag", .eq, .single .null, none⟩],
          leaf ⟨"seen", .ne, .single (.boolean true), none⟩]]) :=
  ⟨by decide +kernel,
    (parse_text_round_trip twoGroups).1 ⟨1, 5⟩ (by decide +kernel) (by decide) (by decide)⟩

end Filter

end QueryOptions
