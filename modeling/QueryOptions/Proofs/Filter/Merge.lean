import QueryOptions.Filter.Merge
import QueryOptions.Proofs.Filter.LastWord
import QueryOptions.Proofs.Validation

/-!
What a merge leaves behind. The comparisons of the other filter come one by one and may overwrite
what earlier ones brought, but all that counts in the end is their last word on each property. The
first comparison of the filter on a property takes it over, and properties that are new to the
filter are added to its root. So a second merge changes nothing, and a merge of filters that pass
their checks passes them too.
-/

namespace QueryOptions

namespace Filter

open Comparison

/-- The connectives of a filter and how they nest, with nothing left of the comparisons. -/
def outline (filter : Filter) : Filter :=
  filter.mapLeaves fun _ => ⟨"", .eq, .single .null, none⟩

theorem outline_join (connective : Connective) (children : List Filter) :
    (join connective children).outline = join connective (children.map outline) := by
  rw [outline, mapLeaves, mapLeavesOf_eq]
  rfl

theorem length_leaves_of_outline {filter other : Filter} (same : filter.outline = other.outline) :
    filter.leaves.length = other.leaves.length := by
  have leaves := congrArg (fun tree => tree.leaves.length) same
  simpa [outline, leaves_mapLeaves] using leaves

theorem eq_of_outlines {children others : List Filter}
    (determined : ∀ child ∈ children, ∀ other : Filter, child.outline = other.outline →
      child.leaves = other.leaves → child = other)
    (sameOutlines : children.map outline = others.map outline)
    (sameLeaves : children.flatMap leaves = others.flatMap leaves) : children = others := by
  induction children generalizing others with
  | nil => simpa using sameOutlines
  | cons child children ih =>
      cases others with
      | nil => simp at sameOutlines
      | cons other others =>
          rw [List.forall_mem_cons] at determined
          rw [List.map_cons, List.map_cons, List.cons.injEq] at sameOutlines
          rw [List.flatMap_cons, List.flatMap_cons] at sameLeaves
          obtain ⟨first, rest⟩ :=
            List.append_inj sameLeaves (length_leaves_of_outline sameOutlines.1)
          rw [determined.1 other sameOutlines.1 first, ih determined.2 sameOutlines.2 rest]

theorem eq_of_outline {filter other : Filter} (sameOutline : filter.outline = other.outline)
    (sameLeaves : filter.leaves = other.leaves) : filter = other := by
  induction filter generalizing other with
  | leaf comparison =>
      cases other with
      | leaf comparison' => simpa [leaves] using sameLeaves
      | join connective children => simp [outline, mapLeaves] at sameOutline
  | join connective children ih =>
      cases other with
      | leaf comparison => simp [outline, mapLeaves] at sameOutline
      | join connective' children' =>
          rw [outline_join, outline_join, join.injEq] at sameOutline
          rw [leaves_join, leaves_join] at sameLeaves
          rw [sameOutline.1, eq_of_outlines (fun child member _ => ih child member)
            sameOutline.2 sameLeaves]

def attach (connective : Connective) (added : List Comparison) : Filter → Filter
  | leaf first => if added.isEmpty then leaf first else join connective (leaf first :: added.map leaf)
  | join root children => join root (children ++ added.map leaf)

theorem attach_nil (connective : Connective) (filter : Filter) :
    filter.attach connective [] = filter := by
  cases filter <;> simp [attach]

theorem flatMap_leaf (comparisons : List Comparison) :
    (comparisons.map leaf).flatMap leaves = comparisons := by
  simp [List.flatMap_map, leaves]

theorem leaves_attach (connective : Connective) (added : List Comparison) (filter : Filter) :
    (filter.attach connective added).leaves = filter.leaves ++ added := by
  cases filter with
  | leaf first => cases added <;> simp [attach, leaves_join, flatMap_leaf, leaves]
  | join root children => rw [attach, leaves_join, leaves_join, List.flatMap_append, flatMap_leaf]

theorem outline_attach (connective : Connective) (added : List Comparison) (filter : Filter) :
    (filter.attach connective added).outline =
      filter.outline.attach connective
        (List.replicate added.length ⟨"", .eq, .single .null, none⟩) := by
  have outline_leaf : ∀ comparison,
      (leaf comparison).outline = leaf ⟨"", .eq, .single .null, none⟩ := by
    intro comparison
    rw [outline, mapLeaves]
  cases filter with
  | leaf first =>
      cases added <;>
        simp [attach, outline_leaf, outline_join, List.replicate_succ, Function.comp_def]
  | join root children => simp [attach, outline_leaf, outline_join, Function.comp_def]

theorem append_attach (connective : Connective) (added : List Comparison) (last : Comparison)
    (filter : Filter) :
    (filter.attach connective added).append connective last =
      filter.attach connective (added ++ [last]) := by
  cases filter with
  | leaf first => cases added <;> simp [attach, append]
  | join root children => simp [attach, append]

section

variable {property : String} {change : Comparison → Comparison}

theorem changeFirstOf?_eq_none_iff {children : List Filter} :
    changeFirstOf? property change children = none ↔
      ∀ child ∈ children, child.changeFirst? property change = none := by
  induction children with
  | nil => simp [changeFirstOf?]
  | cons child children ih =>
      rw [changeFirstOf?, List.forall_mem_cons, ← ih]
      cases child.changeFirst? property change <;> simp

theorem changeFirst?_eq_none_iff {filter : Filter} :
    filter.changeFirst? property change = none ↔
      property ∉ filter.leaves.map (·.property) := by
  induction filter with
  | leaf comparison => simp [changeFirst?, leaves, eq_comm]
  | join connective children ih =>
      rw [changeFirst?, Option.map_eq_none_iff, changeFirstOf?_eq_none_iff, leaves_join,
        List.map_flatMap, List.mem_flatMap, not_exists]
      exact forall_congr' fun child => by rw [not_and]; exact forall_congr' (ih child)

theorem changeFirstOf?_eq_some {children changed : List Filter}
    (each : ∀ child ∈ children, ∀ changed : Filter,
      child.changeFirst? property change = some changed → changed.outline = child.outline ∧
        changed.leaves = changeFirsts (changeOn property change) child.leaves)
    (found : changeFirstOf? property change children = some changed) :
    changed.map outline = children.map outline ∧
      changed.flatMap leaves =
        changeFirsts (changeOn property change) (children.flatMap leaves) := by
  induction children generalizing changed with
  | nil => simp [changeFirstOf?] at found
  | cons child children ih =>
      rw [List.forall_mem_cons] at each
      rw [changeFirstOf?] at found
      rw [List.flatMap_cons]
      cases here : child.changeFirst? property change with
      | some changedChild =>
          simp only [here, Option.some.injEq] at found
          subst found
          obtain ⟨sameOutline, leavesEq⟩ := each.1 changedChild here
          have present : property ∈ child.leaves.map (·.property) := by
            by_contra absent
            rw [changeFirst?_eq_none_iff.mpr absent] at here
            contradiction
          rw [List.map_cons, List.map_cons, sameOutline, List.flatMap_cons, leavesEq,
            changeFirsts_append_of_mem change _ present]
          exact ⟨rfl, rfl⟩
      | none =>
          simp only [here, Option.map_eq_some_iff] at found
          obtain ⟨changedRest, later, rfl⟩ := found
          obtain ⟨sameOutlines, leavesEq⟩ := ih each.2 later
          rw [List.map_cons, List.map_cons, sameOutlines, List.flatMap_cons, leavesEq,
            changeFirsts_append_of_notMem change _ (changeFirst?_eq_none_iff.mp here)]
          exact ⟨rfl, rfl⟩

theorem changeFirst?_eq_some {filter changed : Filter}
    (found : filter.changeFirst? property change = some changed) :
    changed.outline = filter.outline ∧
      changed.leaves = changeFirsts (changeOn property change) filter.leaves := by
  induction filter generalizing changed with
  | leaf comparison =>
      rw [changeFirst?] at found
      split at found
      · rename_i same
        cases found
        simp [outline, mapLeaves, leaves, changeFirsts, changeOn, same]
      · contradiction
  | join connective children ih =>
      rw [changeFirst?] at found
      obtain ⟨changedChildren, changedOf, rfl⟩ := Option.map_eq_some_iff.mp found
      obtain ⟨sameOutlines, leavesEq⟩ :=
        changeFirstOf?_eq_some (fun child member _ => ih child member) changedOf
      rw [outline_join, outline_join, sameOutlines, leaves_join, leaves_join, leavesEq]
      exact ⟨rfl, rfl⟩

end

theorem exists_changeFirsts (property : String) (change : Comparison → Comparison)
    (filter : Filter) :
    ∃ changed : Filter, changed.outline = filter.outline ∧
      changed.leaves = changeFirsts (changeOn property change) filter.leaves := by
  cases found : filter.changeFirst? property change with
  | some changed => exact ⟨changed, changeFirst?_eq_some found⟩
  | none =>
      have absent := changeFirst?_eq_none_iff.mp found
      exact ⟨filter, rfl, (changeFirsts_of_notMem change absent).symm⟩

/-- Where a merge stands after some comparisons: `kept` is the filter with their last words on its
own properties, and those on other properties are attached. -/
structure Merges (connective : Connective) (base : Filter) (others : List Comparison)
    (kept merged : Filter) : Prop where
  outline_eq : kept.outline = base.outline
  leaves_eq : kept.leaves = changeFirsts (overwriteFrom others) base.leaves
  merged_eq : merged = kept.attach connective (additions base.leaves others)

section

variable {connective : Connective} {base kept merged : Filter} {others : List Comparison}

theorem Merges.leaves_merged (merges : Merges connective base others kept merged) :
    merged.leaves = kept.leaves ++ additions base.leaves others := by
  rw [merges.merged_eq, leaves_attach]

theorem Merges.property_kept (merges : Merges connective base others kept merged) :
    kept.leaves.map (·.property) = base.leaves.map (·.property) := by
  rw [merges.leaves_eq, property_changeFirsts (property_overwriteFrom others)]

theorem Merges.mem_properties_iff (merges : Merges connective base others kept merged)
    {property : String} :
    property ∈ merged.leaves.map (·.property) ↔
      property ∈ base.leaves.map (·.property) ∨ property ∈ others.map (·.property) := by
  rw [merges.leaves_merged, List.map_append, merges.property_kept, property_additions,
    List.mem_append, mem_newProperties]
  tauto

/-- One more comparison changes the last word on its property, which is with the comparisons that
are kept, or with those attached, or is attached now. -/
theorem Merges.mergeLeaf (merges : Merges connective base others kept merged)
    (last : Comparison) :
    ∃ next, Merges connective base (others ++ [last]) next (merged.mergeLeaf connective last) := by
  obtain ⟨next, nextOutline, nextLeaves⟩ :=
    exists_changeFirsts last.property (·.overwrite last) kept
  refine ⟨next, nextOutline.trans merges.outline_eq, ?_, ?_⟩
  · rw [nextLeaves, merges.leaves_eq,
      changeFirsts_changeFirsts (property_overwriteFrom others)]
    congr 1
    funext comparison
    exact (overwriteFrom_append_singleton others last comparison).symm
  · rw [Filter.mergeLeaf]
    cases found : merged.changeFirst? last.property (·.overwrite last) with
    | none =>
        have new := changeFirst?_eq_none_iff.mp found
        rw [merges.mem_properties_iff] at new
        have absent : last.property ∉ kept.leaves.map (·.property) := by
          rw [merges.property_kept]
          exact fun member => new (.inl member)
        have same : next = kept :=
          eq_of_outline nextOutline (nextLeaves.trans (changeFirsts_of_notMem _ absent))
        rw [additions_append_singleton, if_neg new, same, ← append_attach, ← merges.merged_eq]
    | some changed =>
        obtain ⟨changedOutline, changedLeaves⟩ := changeFirst?_eq_some found
        have known : last.property ∈ base.leaves.map (·.property) ∨
            last.property ∈ others.map (·.property) := by
          by_contra new
          rw [← merges.mem_properties_iff, ← changeFirst?_eq_none_iff, found] at new
          contradiction
        rw [additions_append_singleton, if_pos known]
        refine eq_of_outline ?_ ?_
        · rw [changedOutline, merges.merged_eq, outline_attach, outline_attach, nextOutline,
            List.length_map]
        · rw [changedLeaves, merges.leaves_merged, leaves_attach, nextLeaves,
            changeFirsts_append_additions _ merges.property_kept]

theorem exists_merges (connective : Connective) (base : Filter) (others : List Comparison) :
    ∃ kept, Merges connective base others kept
      (others.foldl (Filter.mergeLeaf connective) base) := by
  induction others using List.reverseRecOn with
  | nil =>
      refine ⟨base, rfl, ?_, (attach_nil connective base).symm⟩
      exact (changeFirsts_id fun comparison _ => rfl).symm
  | append_singleton others last ih =>
      obtain ⟨kept, merges⟩ := ih
      rw [List.foldl_append]
      exact merges.mergeLeaf last

end

/-- A merge leaves the filter's outline as it is. The first comparison on each of its properties
takes over the other filter's last word on it, and all others stay what they were. Behind them
stand the last words on the properties that only the other filter is on, in the order in which it
first comes to them, as further children of the root. -/
theorem merge_exact (connective : Connective) (base other : Filter) :
    ∃ kept added,
      base.merge connective other = attach connective added kept ∧
      kept.outline = base.outline ∧
      (∀ index, kept.leaves[index]? = base.leaves[index]?.map fun comparison =>
        if comparison.property ∈ (base.leaves.take index).map (·.property) then comparison
        else comparison.overwriteFrom other.leaves) ∧
      added.map (·.property) =
        (other.leaves.map (·.property)).eraseDups.filter (· ∉ base.leaves.map (·.property)) ∧
      (∀ comparison ∈ added, lastWord? other.leaves comparison.property = some comparison) ∧
      (base.merge connective other).leaves = kept.leaves ++ added := by
  obtain ⟨kept, merges⟩ := exists_merges connective base other.leaves
  refine ⟨kept, additions base.leaves other.leaves, merges.merged_eq, merges.outline_eq, ?_, ?_,
    fun _ => lastWord?_of_mem_additions, merges.leaves_merged⟩
  · intro index
    rw [merges.leaves_eq, getElem?_changeFirsts]
  · rw [property_additions, newProperties]

example :
    let compared (property : String) (operator : Operator) (value : Int64) : Filter :=
      .leaf ⟨property, operator, .single (.integer value), none⟩
    (compared "a" .eq 1).merge .or
        (.join .and [compared "b" .eq 2, compared "a" .gt 5, compared "b" .lt 3]) =
      .join .or [compared "a" .gt 5, compared "b" .lt 3] := by
  rfl

/-- Merging a filter in once more, with whatever connective, changes nothing. -/
theorem merge_merge (connective again : Connective) (base other : Filter) :
    (base.merge connective other).merge again other = base.merge connective other := by
  obtain ⟨kept, first⟩ := exists_merges connective base other.leaves
  obtain ⟨keptAgain, second⟩ := exists_merges again (base.merge connective other) other.leaves
  have nothingNew : additions (base.merge connective other).leaves other.leaves = [] :=
    additions_eq_nil fun property said => first.mem_properties_iff.mpr (.inr said)
  have keptTwice : changeFirsts (overwriteFrom other.leaves) kept.leaves = kept.leaves := by
    rw [first.leaves_eq, changeFirsts_changeFirsts (property_overwriteFrom other.leaves)]
    simp only [overwriteFrom_overwriteFrom]
  have sameLeaves : keptAgain.leaves = (base.merge connective other).leaves := by
    calc
      keptAgain.leaves =
          changeFirsts (overwriteFrom other.leaves) (base.merge connective other).leaves :=
        second.leaves_eq
      _ = changeFirsts (overwriteFrom other.leaves)
          (kept.leaves ++ additions base.leaves other.leaves) :=
        congrArg _ first.leaves_merged
      _ = kept.leaves ++ additions base.leaves other.leaves := by
        rw [changeFirsts_append_additions _ first.property_kept, keptTwice,
          overwriteFrom_additions]
      _ = (base.merge connective other).leaves := first.leaves_merged.symm
  calc
    (base.merge connective other).merge again other =
        keptAgain.attach again (additions (base.merge connective other).leaves other.leaves) :=
      second.merged_eq
    _ = keptAgain := by rw [nothingNew, attach_nil]
    _ = base.merge connective other := eq_of_outline second.outline_eq sameLeaves

/-- Every comparison of a merged filter says what a comparison of one of the two filters says. -/
theorem exists_source_of_mem_merge {connective : Connective} {base other : Filter}
    {comparison : Comparison} (member : comparison ∈ (base.merge connective other).leaves) :
    ∃ source ∈ base.leaves ++ other.leaves, comparison.unbound = source.unbound := by
  obtain ⟨kept, merges⟩ := exists_merges connective base other.leaves
  have fromOther : ∀ {property word}, lastWord? other.leaves property = some word →
      ∃ source ∈ base.leaves ++ other.leaves, word.unbound = source.unbound := by
    intro property word found
    obtain ⟨source, isSource, same⟩ := exists_of_lastWord? found
    exact ⟨source, List.mem_append_right _ isSource, same⟩
  rcases List.mem_append.mp (merges.leaves_merged ▸ member) with isKept | isAdded
  · rw [merges.leaves_eq] at isKept
    rcases mem_changeFirsts isKept with own | ⟨original, own, rfl⟩
    · exact ⟨comparison, List.mem_append_left _ own, rfl⟩
    · rw [overwriteFrom]
      cases found : lastWord? other.leaves original.property with
      | none => exact ⟨original, List.mem_append_left _ own, rfl⟩
      | some word =>
          -- Overwritten, a comparison keeps its property, and the last word is on that property.
          obtain ⟨source, isSource, same⟩ := fromOther found
          refine ⟨source, isSource, ?_⟩
          rw [← same, Option.elim_some, Comparison.unbound, Comparison.unbound, overwrite,
            property_of_lastWord? found]
  · exact fromOther (lastWord?_of_mem_additions isAdded)

end Filter

theorem Validation.permits_unbound (catalog : PropertyCatalog) (expands : List Expand)
    (comparison : Comparison) :
    Permits catalog expands comparison.unbound ↔ Permits catalog expands comparison :=
  Iff.rfl

theorem Validation.checkFilter_eq_ok_iff (catalog : PropertyCatalog) (expands : List Expand)
    (filter : Filter) :
    checkFilter catalog expands filter = .ok ⟨⟩ ↔
      ∀ comparison ∈ filter.leaves, Permits catalog expands comparison := by
  have checked := checkFilters_eq_ok_iff catalog expands (some filter)
  simpa [checkFilters] using checked

/-- Filters that pass their checks pass them merged, and a merge makes up no comparisons. -/
theorem Validation.checkFilter_merge (catalog : PropertyCatalog) (expands : List Expand)
    (base other : Filter) (connective : Connective) :
    (checkFilter catalog expands base = .ok () → checkFilter catalog expands other = .ok () →
      checkFilter catalog expands (base.merge connective other) = .ok ()) ∧
    ∀ comparison ∈ (base.merge connective other).leaves,
      ∃ source ∈ base.leaves ++ other.leaves, comparison.property = source.property ∧
        comparison.operator = source.operator ∧ comparison.operand = source.operand := by
  constructor
  · intro basePasses otherPasses
    rw [checkFilter_eq_ok_iff] at basePasses otherPasses ⊢
    intro comparison member
    obtain ⟨source, isSource, same⟩ := Filter.exists_source_of_mem_merge member
    rw [← permits_unbound, same, permits_unbound]
    rcases List.mem_append.mp isSource with ofBase | ofOther
    · exact basePasses source ofBase
    · exact otherPasses source ofOther
  · intro comparison member
    obtain ⟨source, isSource, same⟩ := Filter.exists_source_of_mem_merge member
    rw [Comparison.unbound, Comparison.unbound, Comparison.mk.injEq] at same
    exact ⟨source, isSource, same.1, same.2.1, same.2.2.1⟩

/-- Orders by status and, where customers are expanded, by their name. -/
theorem Validation.checkFilter_merge_orders :
    let catalog : PropertyCatalog :=
      ⟨[⟨"status", some [.text "open", .text "closed"], none⟩,
        ⟨"customer.name", none, some ⟨"customer", "customer", none, none⟩⟩]⟩
    let expands : List Expand := [{ property := "customer" }]
    let base : Filter :=
      .join .and [.leaf ⟨"status", .eq, .single (.text "open"), none⟩,
        .leaf ⟨"status", .ne, .single (.text "closed"), none⟩]
    let other : Filter :=
      .join .or [.leaf ⟨"status", .isIn, .list [.text "closed"], none⟩,
        .leaf ⟨"customer.name", .eq, .single (.text "Ann"), none⟩]
    checkFilter catalog expands base = .ok () ∧ checkFilter catalog expands other = .ok () ∧
      checkFilter catalog expands (base.merge .and other) = .ok () ∧
      ∃ source ∈ base.leaves ++ other.leaves, "status" = source.property ∧
        Operator.isIn = source.operator ∧ .list [.text "closed"] = source.operand := by
  intro catalog expands base other
  have basePasses : checkFilter catalog expands base = .ok () := by rfl
  have otherPasses : checkFilter catalog expands other = .ok () := by rfl
  obtain ⟨passes, sources⟩ := checkFilter_merge catalog expands base other .and
  have overwritten : (base.merge .and other).leaves.head? =
      some ⟨"status", .isIn, .list [.text "closed"], none⟩ := by rfl
  exact ⟨basePasses, otherPasses, passes basePasses otherPasses,
    sources _ (List.mem_of_head? overwritten)⟩

end QueryOptions
