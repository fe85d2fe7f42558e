import QueryOptions.Options.Basic
import QueryOptions.Proofs.Bounds
import QueryOptions.Proofs.Filter.Merge
import QueryOptions.Proofs.Filter.Range

/-!
The shape of comparisons. Only two places look at it: where a comparison is made, and where it is
read from text. All others take an operator over together with its operand. So every comparison of
every filter that can come about is well formed, and evaluating one never falls through its cases.
-/

namespace QueryOptions

theorem Operator.acceptsNull_iff {operator : Operator} :
    operator.acceptsNull = true ↔ operator = .eq ∨ operator = .ne := by
  cases operator <;> simp [acceptsNull]

theorem Operator.takesList_iff {operator : Operator} :
    operator.takesList = true ↔ operator = .isIn ∨ operator = .between := by
  cases operator <;> simp [takesList]

theorem Value.isNull_iff {value : Value} : value.isNull = true ↔ value = .null := by
  cases value <;> simp [isNull]

theorem shapeFault?_single_eq_none_iff {operator : Operator} {value : Value} :
    shapeFault? operator (.single value) = none ↔
      (value = .null → operator.acceptsNull = true) ∧ operator.takesList = false := by
  rw [shapeFault?, ← Value.isNull_iff]
  split_ifs <;> simp_all

theorem shapeFault?_list_eq_none_iff {operator : Operator} {values : List Value} :
    shapeFault? operator (.list values) = none ↔
      operator.takesList = true ∧ (operator = .between → values.length = 2) ∧
        (operator = .isIn → values ≠ []) ∧ .null ∉ values := by
  have nullMember : values.any Value.isNull = true ↔ .null ∈ values := by
    simp [Value.isNull_iff]
  rw [shapeFault?, ← nullMember]
  split_ifs <;> simp_all

namespace Comparison

/-- The operand is one that the operator can be evaluated with. -/
structure WellFormed (comparison : Comparison) : Prop where
  null : comparison.operand = .single .null → comparison.operator = .eq ∨ comparison.operator = .ne
  list : (∃ values, comparison.operand = .list values) ↔
    comparison.operator = .isIn ∨ comparison.operator = .between
  bounds : ∀ values, comparison.operand = .list values → comparison.operator = .between →
    values.length = 2
  members : ∀ values, comparison.operand = .list values → comparison.operator = .isIn → values ≠ []
  values : ∀ values, comparison.operand = .list values → .null ∉ values

theorem isMade_iff_wellFormed {comparison : Comparison} :
    comparison.IsMade ↔ comparison.WellFormed := by
  obtain ⟨property, operator, operand, definition⟩ := comparison
  rw [isMade_iff]
  cases operand with
  | single value =>
      rw [shapeFault?_single_eq_none_iff, Operator.acceptsNull_iff, ← Bool.not_eq_true,
        Operator.takesList_iff]
      constructor
      · rintro ⟨null, single⟩
        constructor <;> simp_all
      · rintro ⟨null, list, _, _, _⟩
        simp_all
  | list values =>
      rw [shapeFault?_list_eq_none_iff, Operator.takesList_iff]
      constructor
      · rintro ⟨list, bounds, members, noNull⟩
        constructor <;> simp_all
      · rintro ⟨_, list, bounds, members, noNull⟩
        simp_all

/-- What evaluating a comparison comes to. Only the first one is an answer; the other two are
comparisons that no case is written for, and that hold of nothing. -/
inductive Verdict
  | ruled (holds : Bool)
  | notTwoBounds
  | wrongShape
deriving DecidableEq

def Verdict.holds : Verdict → Bool
  | ruled holds => holds
  | notTwoBounds => false
  | wrongShape => false

def verdict (comparison : Comparison) (candidate : Value) : Verdict :=
  match comparison.operator, comparison.operand with
  | .eq, .single value => .ruled (candidate.looseEq value)
  | .ne, .single value => .ruled (!candidate.looseEq value)
  | .gt, .single value => .ruled (candidate.compareNumeric value == some .gt)
  | .ge, .single value => .ruled (atLeast candidate value)
  | .lt, .single value => .ruled (candidate.compareNumeric value == some .lt)
  | .le, .single value => .ruled (atMost candidate value)
  | .isIn, .list values => .ruled (values.any fun value => candidate.looseEq value)
  | .between, .list [low, high] => .ruled (atLeast candidate low && atMost candidate high)
  | .between, .list _ => .notTwoBounds
  | _, _ => .wrongShape

theorem admits_eq_holds_verdict (comparison : Comparison) (candidate : Value) :
    comparison.admits candidate = (comparison.verdict candidate).holds := by
  rw [verdict]
  split <;> simp_all [admits, Verdict.holds]

theorem WellFormed.exists_ruled {comparison : Comparison} (wellFormed : comparison.WellFormed)
    (candidate : Value) : ∃ holds, comparison.verdict candidate = .ruled holds := by
  obtain ⟨property, operator, operand, definition⟩ := comparison
  obtain ⟨_, list, bounds, _, _⟩ := wellFormed
  cases operand with
  | single value => cases operator <;> simp_all [verdict]
  | list values =>
      cases operator with
      | isIn => exact ⟨_, rfl⟩
      | between =>
          obtain ⟨low, high, rfl⟩ := List.length_eq_two.mp (bounds values rfl rfl)
          exact ⟨_, rfl⟩
      | eq | ne | gt | ge | lt | le => simp at list

theorem WellFormed.verdict_eq_ruled {comparison : Comparison} (wellFormed : comparison.WellFormed)
    (candidate : Value) : comparison.verdict candidate = .ruled (comparison.admits candidate) := by
  obtain ⟨holds, ruled⟩ := wellFormed.exists_ruled candidate
  rw [admits_eq_holds_verdict, ruled]
  rfl

theorem wellFormed_of_unbound_eq {comparison source : Comparison}
    (same : comparison.unbound = source.unbound) (wellFormed : source.WellFormed) :
    comparison.WellFormed := by
  rw [← isMade_iff_wellFormed, isMade_iff] at wellFormed ⊢
  rw [unbound, unbound, mk.injEq] at same
  rw [same.2.1, same.2.2.1]
  exact wellFormed

end Comparison

inductive Expand.Carries (filter : Filter) : Expand → Prop
  | own {node : Expand} (has : node.filters = some filter) : Carries filter node
  | nested {node child : Expand} (member : child ∈ node.children) (carries : Carries filter child) :
      Carries filter node

theorem Expand.EveryFilter.of_carries {property : Filter → Prop} {filter : Filter} {node : Expand}
    (every : node.EveryFilter property) (carries : node.Carries filter) : property filter := by
  induction carries with
  | own has =>
      obtain ⟨here, _⟩ := every
      exact here filter has
  | nested member _ ih =>
      obtain ⟨_, below⟩ := every
      exact ih (below _ member)

namespace Filter

/-- The filters that can come about: they are read from text, or made of a comparison or of other
filters, or are part of another, or what options hold once filters are set or merged. -/
inductive Built : Filter → Prop
  | parsed {limits : Limits} {text : String} {filter : Filter}
      (parsed : Filter.parse limits text = .ok filter) : Built filter
  | expanded {limits : Expand.Limits} {text : String} {nodes : List Expand} {node : Expand}
      {filter : Filter} (parsed : Expand.parse limits text = .ok nodes) (member : node ∈ nodes)
      (carries : node.Carries filter) : Built filter
  | made {property : String} {operator : Operator} {operand : Operand} {filter : Filter}
      (made : makeLeaf property operator operand = .ok filter) : Built filter
  | joined (connective : Connective) {children : List Filter}
      (all : ∀ child ∈ children, Built child) : Built (join connective children)
  | part {connective : Connective} {children : List Filter} {child : Filter}
      (whole : Built (join connective children)) (member : child ∈ children) : Built child
  | merged (connective : Connective) {base other : Filter} (ofBase : Built base)
      (ofOther : Built other) : Built (base.merge connective other)
  | bound (catalog : PropertyCatalog) {filter : Filter} (built : Built filter) :
      Built (filter.bindTo catalog)
  | set {options : Options} {filter held : Filter} (built : Built filter)
      (holds : (options.setFilters filter).filters = some held) : Built held
  | mergedInto {options : Options} {connective : Connective} {filter held : Filter}
      (present : ∀ base, options.filters = some base → Built base) (built : Built filter)
      (holds : (options.mergeFilters connective filter).filters = some held) : Built held

def WellFormed (filter : Filter) : Prop :=
  ∀ comparison ∈ filter.leaves, comparison.WellFormed

theorem wellFormed_leaf {comparison : Comparison} :
    (leaf comparison).WellFormed ↔ comparison.WellFormed := by
  simp [WellFormed, leaves]

theorem wellFormed_join {connective : Connective} {children : List Filter} :
    (join connective children).WellFormed ↔ ∀ child ∈ children, child.WellFormed := by
  rw [WellFormed, leaves_join]
  exact List.forall_mem_flatMap

theorem wellFormed_makeLeaf {property : String} {operator : Operator} {operand : Operand}
    {filter : Filter} (made : makeLeaf property operator operand = .ok filter) :
    filter.WellFormed := by
  rw [makeLeaf, Comparison.make] at made
  cases fault : shapeFault? operator operand with
  | some found => simp [fault, Except.map] at made
  | none =>
      simp only [fault, Except.map, Except.ok.injEq] at made
      rw [← made, wellFormed_leaf, ← Comparison.isMade_iff_wellFormed, Comparison.isMade_iff]
      exact fault

theorem Grammar.Derives.wellFormed {nonterminal : Grammar.Nonterminal}
    {lexeme following : List Char} {filter : Filter} {comparisons nesting : Nat}
    (derives : Derives nonterminal lexeme following filter comparisons nesting) :
    filter.WellFormed := by
  induction derives with
  | comparison isComparison =>
      obtain ⟨_, _, _, _, _, _, _, _, wellShaped⟩ := isComparison
      rw [wellFormed_leaf, ← Comparison.isMade_iff_wellFormed, Comparison.isMade_iff]
      exact wellShaped
  | group _ _ _ ih => exact ih
  | single _ ih => exact ih
  | joined _ _ _ _ _ _ first second =>
      rw [wellFormed_join]
      simp [first, second]

theorem wellFormed_read {limits : Limits} {text : List Char} {filter : Filter}
    (read : Filter.read limits text = .ok filter) : filter.WellFormed := by
  obtain ⟨_, _, ⟨_, _, _, _, _, _, derives⟩, _, _⟩ := read_sound read
  exact derives.wellFormed

theorem WellFormed.merge {base other : Filter} (ofBase : base.WellFormed)
    (ofOther : other.WellFormed) (connective : Connective) :
    (base.merge connective other).WellFormed := by
  intro comparison member
  obtain ⟨source, isSource, same⟩ := exists_source_of_mem_merge member
  rcases List.mem_append.mp isSource with inBase | inOther
  · exact Comparison.wellFormed_of_unbound_eq same (ofBase source inBase)
  · exact Comparison.wellFormed_of_unbound_eq same (ofOther source inOther)

theorem WellFormed.bindTo {filter : Filter} (wellFormed : filter.WellFormed)
    (catalog : PropertyCatalog) : (filter.bindTo catalog).WellFormed := by
  intro comparison member
  rw [Filter.bindTo, leaves_mapLeaves] at member
  obtain ⟨source, isSource, changed⟩ := List.mem_map.mp member
  have same : comparison.unbound = source.unbound := by
    rw [← changed]
    rfl
  exact Comparison.wellFormed_of_unbound_eq same (wellFormed source isSource)

theorem WellFormed.setFilters {filter held : Filter} (wellFormed : filter.WellFormed)
    {options : Options} (holds : (options.setFilters filter).filters = some held) :
    held.WellFormed := by
  cases holds
  exact wellFormed.bindTo _

theorem WellFormed.mergeFilters {filter held : Filter} {options : Options}
    {connective : Connective} (present : ∀ base, options.filters = some base → base.WellFormed)
    (wellFormed : filter.WellFormed)
    (holds : (options.mergeFilters connective filter).filters = some held) : held.WellFormed := by
  rw [Options.mergeFilters] at holds
  split at holds
  · rename_i base isPresent
    exact ((present base isPresent).merge wellFormed connective).setFilters holds
  · exact wellFormed.setFilters holds

theorem Built.wellFormed {filter : Filter} (built : filter.Built) : filter.WellFormed := by
  induction built with
  | parsed parsed => exact wellFormed_read (Outcome.mapError_eq_ok.mp parsed)
  | expanded parsed member carries =>
      have every := Expand.everyFilter_readLevel (fun _ _ => wellFormed_read) parsed _ member
      exact every.of_carries carries
  | made made => exact wellFormed_makeLeaf made
  | joined connective _ ih => exact wellFormed_join.mpr ih
  | part _ member ih => exact wellFormed_join.mp ih _ member
  | merged connective _ _ ihBase ihOther => exact ihBase.merge ihOther connective
  | bound catalog _ ih => exact ih.bindTo catalog
  | set _ holds ih => exact ih.setFilters holds
  | mergedInto _ _ holds ihPresent ih => exact WellFormed.mergeFilters ihPresent ih holds

theorem WellFormed.firstBound?_of_list {filter : Filter} (wellFormed : filter.WellFormed)
    {limiting : List Operator} (ranges : Operator.isIn ∉ limiting) {index : Nat}
    (either : index < 2) {property : String} {values : List Value}
    (found : (filter.first? property (some limiting)).map (·.operand) = some (.list values)) :
    ∃ value, values[index]? = some value ∧
      filter.firstBound? limiting index property = some value := by
  obtain ⟨comparison, first, isList⟩ := Option.map_eq_some_iff.mp found
  have made := Comparison.isMade_iff_wellFormed.mpr
    (wellFormed comparison (List.mem_of_find?_eq_some first))
  have limits := (isOn_iff.mp (List.find?_some first)).2
  have notMembership : comparison.operator ≠ .isIn := fun same => ranges (same ▸ limits)
  obtain ⟨value, bound⟩ := Comparison.exists_bound made notMembership either
  rw [firstBound?, first, Option.bind_some]
  refine ⟨value, ?_, bound⟩
  rw [isList] at bound
  exact bound

/-- Every comparison of a filter that can come about is well formed, and evaluating it falls through
for no candidate. Where the first comparison that limits a property has a list, the list has the
bound on either side. -/
theorem built_wellFormed {filter : Filter} (built : filter.Built) :
    (∀ comparison ∈ filter.leaves, comparison.WellFormed ∧ ∀ candidate,
      comparison.verdict candidate = .ruled (comparison.admits candidate)) ∧
    ∀ (property : String) (values : List Value),
      ((filter.first? property (some [.ge, .gt, .between])).map (·.operand) = some (.list values) →
        ∃ low, values[0]? = some low ∧ filter.lowerBound? property = some low) ∧
      ((filter.first? property (some [.le, .lt, .between])).map (·.operand) = some (.list values) →
        ∃ high, values[1]? = some high ∧ filter.upperBound? property = some high) := by
  have wellFormed := built.wellFormed
  refine ⟨fun comparison member => ?_, fun property values => ?_⟩
  · exact ⟨wellFormed comparison member, (wellFormed comparison member).verdict_eq_ruled⟩
  · rw [lowerBound?_eq, upperBound?_eq]
    exact ⟨wellFormed.firstBound?_of_list (by decide) (by decide),
      wellFormed.firstBound?_of_list (by decide) (by decide)⟩

/-- A range takes the place of the bound that was read, in options that hold the filter. -/
theorem built_wellFormed_price :
    let options : Options := { catalog := ⟨"book", ⟨[⟨"price", none, none⟩]⟩, [], [], []⟩ }
    let range : Filter := leaf ⟨"price", .between, .list [.integer 1, .integer 9], none⟩
    ∃ base held, parse {} "price ge 3 and name ne null" = .ok base ∧
      ((options.setFilters base).mergeFilters .or range).filters = some held ∧ held.Built ∧
      (∀ comparison ∈ held.leaves, comparison.WellFormed ∧ ∀ candidate,
        comparison.verdict candidate = .ruled (comparison.admits candidate)) ∧
      (held.first? "price" (some [.ge, .gt, .between])).map (·.operand) =
        some (.list [.integer 1, .integer 9]) ∧
      held.lowerBound? "price" = some (.integer 1) := by
  intro options range
  have tested : (parse {} "price ge 3 and name ne null").toOption.any (fun base =>
      ((options.setFilters base).mergeFilters .or range).filters.bind (fun held =>
        (held.first? "price" (some [.ge, .gt, .between])).map (·.operand)) =
          some (.list [.integer 1, .integer 9])) = true := by
    decide +kernel
  obtain ⟨base, parsed, tested⟩ := Outcome.toOption_any tested
  obtain ⟨held, holds, limited⟩ := Option.bind_eq_some_iff.mp (of_decide_eq_true tested)
  have made : makeLeaf "price" .between (.list [.integer 1, .integer 9]) = .ok range := by rfl
  have built : held.Built := by
    refine .mergedInto ?_ (.made made) holds
    intro present isPresent
    exact .set (.parsed parsed) isPresent
  obtain ⟨sound, bounds⟩ := built_wellFormed built
  obtain ⟨low, first, lower⟩ := (bounds "price" _).1 limited
  cases first
  exact ⟨base, held, parsed, holds, built, sound, limited, lower⟩

end Filter

end QueryOptions
