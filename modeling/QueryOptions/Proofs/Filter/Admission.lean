import QueryOptions.Proofs.Filter.Tree

/-!
What a filter says of records. Joins of either kind hold of more when more is taken for true of
their comparisons. A test that knows one property of a record, and takes every comparison with
another for true, therefore never rules out a record that satisfies the filter.
-/

namespace QueryOptions

abbrev Record := String → Value

namespace Filter

/-- A conjunction holds when all of its children do and a disjunction when one of them does, down to
the comparisons that are taken for true. -/
inductive HoldsBy (holds : Comparison → Prop) : Filter → Prop
  | leaf {comparison : Comparison} (here : holds comparison) : HoldsBy holds (leaf comparison)
  | and {children : List Filter} (all : ∀ child ∈ children, HoldsBy holds child) :
      HoldsBy holds (join .and children)
  | or {children : List Filter} {child : Filter} (member : child ∈ children)
      (one : HoldsBy holds child) : HoldsBy holds (join .or children)

def SatisfiedBy (record : Record) (filter : Filter) : Prop :=
  filter.HoldsBy fun comparison => comparison.admits (record comparison.property) = true

section

variable {holds strong weak : Comparison → Prop}

theorem holdsBy_leaf_iff {comparison : Comparison} :
    (leaf comparison).HoldsBy holds ↔ holds comparison := by
  constructor
  · intro holding
    cases holding with
    | leaf here => exact here
  · exact HoldsBy.leaf

theorem holdsBy_and_iff {children : List Filter} :
    (join .and children).HoldsBy holds ↔ ∀ child ∈ children, child.HoldsBy holds := by
  constructor
  · intro holding
    cases holding with
    | and all => exact all
  · exact HoldsBy.and

theorem holdsBy_or_iff {children : List Filter} :
    (join .or children).HoldsBy holds ↔ ∃ child ∈ children, child.HoldsBy holds := by
  constructor
  · intro holding
    cases holding with
    | or member one => exact ⟨_, member, one⟩
  · rintro ⟨child, member, one⟩
    exact HoldsBy.or member one

theorem HoldsBy.mono {filter : Filter} (holding : filter.HoldsBy strong)
    (weaker : ∀ comparison ∈ filter.leaves, strong comparison → weak comparison) :
    filter.HoldsBy weak := by
  induction holding with
  | leaf here => exact .leaf (weaker _ (by simp [leaves]) here)
  | and all ih =>
      apply HoldsBy.and
      intro child member
      exact ih child member fun comparison within =>
        weaker comparison (mem_leaves_join member within)
  | or member one ih =>
      apply HoldsBy.or member
      exact ih fun comparison within => weaker comparison (mem_leaves_join member within)

end

theorem admits_iff_holdsBy (property : String) (candidate : Value) (filter : Filter) :
    filter.admits property candidate = true ↔
      filter.HoldsBy fun comparison =>
        comparison.property = property → comparison.admits candidate = true := by
  induction filter with
  | leaf comparison =>
      rw [admits, holdsBy_leaf_iff, Bool.or_eq_true, bne_iff_ne]
      by_cases same : comparison.property = property <;> simp [same]
  | join connective children ih =>
      cases connective with
      | and =>
          rw [admits, allAdmit_eq, List.all_eq_true, holdsBy_and_iff]
          exact forall₂_congr ih
      | or =>
          rw [admits, anyAdmits_eq, List.any_eq_true, holdsBy_or_iff]
          exact exists_congr fun child => and_congr_right (ih child)

/-- A record that satisfies a filter is admitted by each of its values. By the values of one
property alone, a filter on nothing else admits exactly the records that satisfy it. -/
theorem admission_sound_and_exact (filter : Filter) (property : String) :
    (∀ record : Record, filter.SatisfiedBy record →
      filter.admits property (record property) = true) ∧
    ((∀ comparison ∈ filter.leaves, comparison.property = property) →
      ∀ (candidate : Value) (record : Record), record property = candidate →
        (filter.admits property candidate = true ↔ filter.SatisfiedBy record)) := by
  simp only [admits_iff_holdsBy]
  have sound : ∀ record : Record, filter.SatisfiedBy record →
      filter.HoldsBy fun comparison =>
        comparison.property = property → comparison.admits (record property) = true := by
    intro record satisfied
    apply satisfied.mono
    intro comparison _ holds same
    rwa [same] at holds
  refine ⟨sound, ?_⟩
  intro only candidate record known
  subst known
  constructor
  · intro admitted
    apply admitted.mono
    intro comparison member holds
    rw [only comparison member]
    exact holds (only comparison member)
  · exact sound record

/-- A record can pass by a property other than the one that is tested. An empty disjunction holds of
no record, and an empty conjunction of all. -/
theorem admission_sound_and_exact_price :
    let pen : Record := fun property => if property = "price" then .integer 2 else .text "pen"
    let dearOrPen := join .and [join .and [],
      join .or [leaf ⟨"price", .ge, .single (.integer 10), none⟩,
        leaf ⟨"name", .eq, .single (.text "pen"), none⟩]]
    let prices := join .or [join .or [],
      join .and [leaf ⟨"price", .between, .list [.integer 1, .real ⟨0x4004000000000000⟩], none⟩,
        leaf ⟨"price", .ne, .single .null, none⟩]]
    (dearOrPen.SatisfiedBy pen ∧ dearOrPen.admits "price" (.integer 2) = true) ∧
      (∀ comparison ∈ prices.leaves, comparison.property = "price") ∧ prices.SatisfiedBy pen := by
  intro pen dearOrPen prices
  have satisfied : dearOrPen.SatisfiedBy pen := by
    apply HoldsBy.and
    simp only [List.forall_mem_cons]
    exact ⟨.and (by simp), .or (.tail _ (.head _)) (.leaf (by decide)), by simp⟩
  have only : ∀ comparison ∈ prices.leaves, comparison.property = "price" := by decide
  exact ⟨⟨satisfied, (admission_sound_and_exact dearOrPen "price").1 pen satisfied⟩, only,
    ((admission_sound_and_exact prices "price").2 only (.integer 2) pen rfl).mp (by decide +kernel)⟩

end Filter

end QueryOptions
