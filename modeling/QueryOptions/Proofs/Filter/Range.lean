import QueryOptions.Proofs.Filter.Admission

/-!
The bounds that a filter puts on a property. They come from the first comparison that limits the
property on that side. In a conjunction every comparison binds, so that no candidate beyond a bound
is admitted.
-/

namespace QueryOptions

def Operand.bound? (index : Nat) : Operand → Option Value
  | single value => some value
  | list values => values[index]?

namespace Comparison

def IsMade (comparison : Comparison) : Prop :=
  ∃ made, make comparison.property comparison.operator comparison.operand = .ok made

theorem isMade_iff {comparison : Comparison} :
    comparison.IsMade ↔ shapeFault? comparison.operator comparison.operand = none := by
  rw [IsMade, make]
  cases shapeFault? comparison.operator comparison.operand <;> simp

theorem atLeast_iff {candidate bound : Value} :
    atLeast candidate bound = true ↔
      candidate.compareNumeric bound = some .gt ∨ candidate.compareNumeric bound = some .eq := by
  rw [atLeast]
  split <;> simp_all

theorem atMost_iff {candidate bound : Value} :
    atMost candidate bound = true ↔
      candidate.compareNumeric bound = some .lt ∨ candidate.compareNumeric bound = some .eq := by
  rw [atMost]
  split <;> simp_all

theorem between_of_admits {property : String} {definition : Option PropertyDefinition}
    {values : List Value} {candidate : Value}
    (admitted : (⟨property, .between, .list values, definition⟩ : Comparison).admits candidate =
      true) :
    ∃ low high, values = [low, high] ∧ atLeast candidate low = true ∧
      atMost candidate high = true := by
  match values with
  | [low, high] =>
      rw [admits, Bool.and_eq_true] at admitted
      exact ⟨low, high, rfl, admitted⟩
  | [] | [_] | _ :: _ :: _ :: _ => simp [admits] at admitted

theorem bounds_of_admits {comparison : Comparison} {candidate : Value}
    (admitted : comparison.admits candidate = true) :
    (comparison.operator ∈ [.ge, .gt, .between] →
      ∀ low, comparison.operand.bound? 0 = some low → atLeast candidate low = true) ∧
    (comparison.operator ∈ [.le, .lt, .between] →
      ∀ high, comparison.operand.bound? 1 = some high → atMost candidate high = true) := by
  obtain ⟨property, operator, operand, definition⟩ := comparison
  cases operand with
  | single value =>
      simp only [Operand.bound?, Option.some.injEq, forall_eq']
      cases operator <;> simp_all [admits, atLeast_iff, atMost_iff]
  | list values =>
      cases operator with
      | between =>
          obtain ⟨low, high, rfl, above, below⟩ := between_of_admits admitted
          simp [Operand.bound?, above, below]
      | _ => simp_all [admits]

theorem exists_bound {comparison : Comparison} (made : comparison.IsMade)
    (limiting : comparison.operator ≠ .isIn) {index : Nat} (either : index < 2) :
    ∃ value, comparison.operand.bound? index = some value := by
  rw [isMade_iff] at made
  cases operand : comparison.operand with
  | single value => exact ⟨value, rfl⟩
  | list values =>
      rw [operand] at made
      have two : values.length = 2 := by
        by_contra other
        cases operator : comparison.operator <;>
          simp_all [shapeFault?, Operator.takesList]
      exact ⟨values[index], List.getElem?_eq_getElem (by omega)⟩

end Comparison

namespace Filter

inductive Conjunctive : Filter → Prop
  | leaf (comparison : Comparison) : Conjunctive (leaf comparison)
  | and {children : List Filter} (all : ∀ child ∈ children, Conjunctive child) :
      Conjunctive (join .and children)

theorem Conjunctive.holdsBy_iff {filter : Filter} (conjunctive : filter.Conjunctive)
    {holds : Comparison → Prop} :
    filter.HoldsBy holds ↔ ∀ comparison ∈ filter.leaves, holds comparison := by
  induction conjunctive with
  | leaf comparison => simp [holdsBy_leaf_iff, leaves]
  | @and children all ih =>
      rw [holdsBy_and_iff, leaves_join]
      constructor
      · intro holding comparison member
        obtain ⟨child, isChild, within⟩ := List.mem_flatMap.mp member
        exact (ih child isChild).mp (holding child isChild) comparison within
      · intro holding child isChild
        apply (ih child isChild).mpr
        intro comparison within
        exact holding comparison (List.mem_flatMap.mpr ⟨child, isChild, within⟩)

/-- The bound on one side, from the first comparison of the property with a limiting operator. -/
def firstBound? (limiting : List Operator) (index : Nat) (property : String) (filter : Filter) :
    Option Value :=
  (filter.first? property (some limiting)).bind fun comparison => comparison.operand.bound? index

theorem lowerBound?_eq (property : String) (filter : Filter) :
    filter.lowerBound? property = filter.firstBound? [.ge, .gt, .between] 0 property := by
  rw [lowerBound?, firstBound?]
  cases filter.first? property (some [.ge, .gt, .between]) with
  | none => rfl
  | some comparison => cases operand : comparison.operand <;> simp [operand, Operand.bound?]

theorem upperBound?_eq (property : String) (filter : Filter) :
    filter.upperBound? property = filter.firstBound? [.le, .lt, .between] 1 property := by
  rw [upperBound?, firstBound?]
  cases filter.first? property (some [.le, .lt, .between]) with
  | none => rfl
  | some comparison => cases operand : comparison.operand <;> simp [operand, Operand.bound?]

theorem isOn_iff {property : String} {limiting : List Operator} {comparison : Comparison} :
    isOn property (some limiting) comparison = true ↔
      comparison.property = property ∧ comparison.operator ∈ limiting := by
  simp [isOn]

section

variable {filter : Filter} {property : String} {limiting : List Operator} {index : Nat}

theorem exists_of_firstBound? {value : Value}
    (found : filter.firstBound? limiting index property = some value) :
    ∃ comparison ∈ filter.leaves, comparison.property = property ∧
      comparison.operator ∈ limiting ∧ comparison.operand.bound? index = some value := by
  obtain ⟨comparison, first, bound⟩ := Option.bind_eq_some_iff.mp found
  obtain ⟨named, limits⟩ := isOn_iff.mp (List.find?_some first)
  exact ⟨comparison, List.mem_of_find?_eq_some first, named, limits, bound⟩

theorem firstBound?_eq_none_iff (made : ∀ comparison ∈ filter.leaves, comparison.IsMade)
    (ranges : Operator.isIn ∉ limiting) (either : index < 2) :
    filter.firstBound? limiting index property = none ↔
      ∀ comparison ∈ filter.leaves, comparison.property = property →
        comparison.operator ∉ limiting := by
  constructor
  · intro missing comparison member named limits
    have on := isOn_iff.mpr ⟨named, limits⟩
    obtain ⟨first, found⟩ : ∃ first, filter.first? property (some limiting) = some first :=
      Option.isSome_iff_exists.mp (List.find?_isSome.mpr ⟨comparison, member, on⟩)
    have firstLimits := (isOn_iff.mp (List.find?_some found)).2
    have notMembership : first.operator ≠ .isIn := fun same => ranges (same ▸ firstLimits)
    obtain ⟨value, bound⟩ :=
      Comparison.exists_bound (made first (List.mem_of_find?_eq_some found)) notMembership either
    rw [firstBound?, found, Option.bind_some, bound] at missing
    contradiction
  · intro free
    have missing : filter.first? property (some limiting) = none := by
      apply List.find?_eq_none.mpr
      intro comparison member on
      obtain ⟨named, limits⟩ := isOn_iff.mp on
      exact free comparison member named limits
    rw [firstBound?, missing, Option.bind_none]

end

/-- A conjunction admits no candidate below its lower bound on the property, or above its upper
bound. A filter of well-made comparisons has a bound unless none of them limits the property on
that side. -/
theorem bounds_sound_and_exact (filter : Filter) (property : String) :
    (filter.Conjunctive → ∀ candidate, filter.admits property candidate = true →
      (∀ low, filter.lowerBound? property = some low →
        candidate.compareNumeric low = some .gt ∨ candidate.compareNumeric low = some .eq) ∧
      ∀ high, filter.upperBound? property = some high →
        candidate.compareNumeric high = some .lt ∨ candidate.compareNumeric high = some .eq) ∧
    ((∀ comparison ∈ filter.leaves, comparison.IsMade) →
      (filter.lowerBound? property = none ↔ ∀ comparison ∈ filter.leaves,
        comparison.property = property → comparison.operator ∉ [.ge, .gt, .between]) ∧
      (filter.upperBound? property = none ↔ ∀ comparison ∈ filter.leaves,
        comparison.property = property → comparison.operator ∉ [.le, .lt, .between])) := by
  rw [lowerBound?_eq, upperBound?_eq]
  constructor
  · intro conjunctive candidate admitted
    have binding := conjunctive.holdsBy_iff.mp ((admits_iff_holdsBy _ _ _).mp admitted)
    constructor
    · intro low found
      obtain ⟨comparison, member, named, limits, bound⟩ := exists_of_firstBound? found
      rw [← Comparison.atLeast_iff]
      exact (Comparison.bounds_of_admits (binding comparison member named)).1 limits low bound
    · intro high found
      obtain ⟨comparison, member, named, limits, bound⟩ := exists_of_firstBound? found
      rw [← Comparison.atMost_iff]
      exact (Comparison.bounds_of_admits (binding comparison member named)).2 limits high bound
  · intro made
    exact ⟨firstBound?_eq_none_iff made (by decide) (by decide),
      firstBound?_eq_none_iff made (by decide) (by decide)⟩

/-- A float bounds an integer from below, and the upper bound is that of the range, which comes
first. Nothing bounds the name. -/
theorem bounds_sound_and_exact_price :
    let filter := join .and [
      join .and [leaf ⟨"price", .gt, .single (.real ⟨0x3FF8000000000000⟩), none⟩,
        leaf ⟨"name", .ne, .single .null, none⟩],
      leaf ⟨"price", .between, .list [.integer 0, .integer 9], none⟩,
      leaf ⟨"price", .lt, .single (.integer 7), none⟩]
    filter.Conjunctive ∧ (∀ comparison ∈ filter.leaves, comparison.IsMade) ∧
      filter.admits "price" (.integer 3) = true ∧
      (filter.lowerBound? "price" = some (.real ⟨0x3FF8000000000000⟩) ∧
        filter.upperBound? "price" = some (.integer 9)) ∧
      ((Value.integer 3).compareNumeric (.real ⟨0x3FF8000000000000⟩) = some .gt ∨
        (Value.integer 3).compareNumeric (.real ⟨0x3FF8000000000000⟩) = some .eq) ∧
      filter.upperBound? "name" = none := by
  intro filter
  have conjunctive : filter.Conjunctive := by
    apply Conjunctive.and
    simp only [List.forall_mem_cons]
    refine ⟨.and ?_, .leaf _, .leaf _, by simp⟩
    simp only [List.forall_mem_cons]
    exact ⟨.leaf _, .leaf _, by simp⟩
  have made : ∀ comparison ∈ filter.leaves, comparison.IsMade := by
    simp only [Comparison.isMade_iff]
    decide
  have admitted : filter.admits "price" (.integer 3) = true := by decide +kernel
  have lower : filter.lowerBound? "price" = some (.real ⟨0x3FF8000000000000⟩) := by decide +kernel
  exact ⟨conjunctive, made, admitted, ⟨lower, by decide +kernel⟩,
    ((bounds_sound_and_exact filter "price").1 conjunctive _ admitted).1 _ lower,
    ((bounds_sound_and_exact filter "name").2 made).2.mpr (by decide)⟩

end Filter

end QueryOptions
