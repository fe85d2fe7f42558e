import Mathlib.Data.List.Induction
import Mathlib.Data.List.Nodup
import QueryOptions.Proofs.Filter.Tree

/-!
The last word of a list of comparisons on a property, and what becomes of other comparisons that are
overwritten by it. One more comparison on the property overwrites the last word, so overwriting from
a list is overwriting by its comparisons one after the other.
-/

namespace QueryOptions

namespace Comparison

/-- What comparisons say last of a property: the operator and the operand of the last one on it,
with the definition of the last one on it that has one. -/
def lastWord? (comparisons : List Comparison) (property : String) : Option Comparison :=
  let latestFirst := comparisons.reverse.filter (·.property == property)
  latestFirst.head?.map fun last =>
    { last with definition := latestFirst.findSome? (·.definition) }

def overwriteFrom (others : List Comparison) (comparison : Comparison) : Comparison :=
  (lastWord? others comparison.property).elim comparison comparison.overwrite

def changeOn (property : String) (change : Comparison → Comparison) (comparison : Comparison) :
    Comparison :=
  if comparison.property = property then change comparison else comparison

@[simp] theorem property_overwrite (comparison other : Comparison) :
    (comparison.overwrite other).property = comparison.property :=
  rfl

theorem overwrite_overwrite (comparison second third : Comparison) :
    (comparison.overwrite second).overwrite third =
      comparison.overwrite (second.overwrite third) := by
  simp [overwrite, Option.or_assoc]

theorem overwrite_self (comparison : Comparison) : comparison.overwrite comparison = comparison := by
  cases comparison
  simp [overwrite]

theorem property_of_lastWord? {comparisons : List Comparison} {property : String}
    {last : Comparison} (found : lastWord? comparisons property = some last) :
    last.property = property := by
  obtain ⟨latest, isHead, rfl⟩ := Option.map_eq_some_iff.mp found
  simpa using (List.mem_filter.mp (List.mem_of_head? isHead)).2

theorem lastWord?_isSome_iff (comparisons : List Comparison) (property : String) :
    (lastWord? comparisons property).isSome = true ↔ property ∈ comparisons.map (·.property) := by
  simp [lastWord?]

theorem exists_of_lastWord? {comparisons : List Comparison} {property : String}
    {word : Comparison} (found : lastWord? comparisons property = some word) :
    ∃ source ∈ comparisons, word.unbound = source.unbound := by
  obtain ⟨latest, isHead, rfl⟩ := Option.map_eq_some_iff.mp found
  have member := (List.mem_filter.mp (List.mem_of_head? isHead)).1
  exact ⟨latest, List.mem_reverse.mp member, rfl⟩

theorem lastWord?_append_singleton (comparisons : List Comparison) (last : Comparison)
    (property : String) :
    lastWord? (comparisons ++ [last]) property =
      if last.property = property then
        some ((lastWord? comparisons property).elim last (·.overwrite last))
      else lastWord? comparisons property := by
  rw [lastWord?, lastWord?, List.reverse_append, List.reverse_singleton, List.singleton_append]
  by_cases same : last.property = property
  · rw [if_pos same, List.filter_cons_of_pos (by simpa using same)]
    cases latest : comparisons.reverse.filter (·.property == property) with
    | nil => cases given : last.definition <;> simp [← given]
    | cons word words =>
        have about : word ∈ comparisons.reverse.filter (·.property == property) := by
          rw [latest]
          exact List.mem_cons_self
        have named : word.property = last.property := by
          simpa [same] using (List.mem_filter.mp about).2
        cases given : last.definition <;> simp [overwrite, named, given]
  · rw [if_neg same, List.filter_cons_of_neg (by simpa using same)]

theorem overwriteFrom_append_singleton (others : List Comparison) (last comparison : Comparison) :
    overwriteFrom (others ++ [last]) comparison =
      changeOn last.property (·.overwrite last) (overwriteFrom others comparison) := by
  rw [overwriteFrom, overwriteFrom, lastWord?_append_singleton, changeOn]
  by_cases same : last.property = comparison.property
  · cases lastWord? others comparison.property <;> simp [same, overwrite_overwrite]
  · cases lastWord? others comparison.property <;> simp [same, Ne.symm same]

@[simp] theorem property_overwriteFrom (others : List Comparison) (comparison : Comparison) :
    (overwriteFrom others comparison).property = comparison.property := by
  rw [overwriteFrom]
  cases lastWord? others comparison.property <;> rfl

theorem overwriteFrom_overwriteFrom (others : List Comparison) (comparison : Comparison) :
    overwriteFrom others (overwriteFrom others comparison) = overwriteFrom others comparison := by
  rw [overwriteFrom, property_overwriteFrom, overwriteFrom]
  cases lastWord? others comparison.property with
  | none => rfl
  | some word => simp [overwrite_overwrite, overwrite_self]

def changeFirsts (change : Comparison → Comparison) : List Comparison → List Comparison
  | [] => []
  | comparison :: comparisons =>
      change comparison :: changeFirsts (fun other =>
        if other.property = comparison.property then other else change other) comparisons

theorem changeFirsts_id {change : Comparison → Comparison} {comparisons : List Comparison}
    (same : ∀ comparison ∈ comparisons, change comparison = comparison) :
    changeFirsts change comparisons = comparisons := by
  induction comparisons generalizing change with
  | nil => rfl
  | cons comparison comparisons ih =>
      rw [List.forall_mem_cons] at same
      rw [changeFirsts, same.1, ih]
      intro other member
      rw [same.2 other member, ite_self]

theorem changeFirsts_append (change : Comparison → Comparison) (first second : List Comparison) :
    changeFirsts change (first ++ second) =
      changeFirsts change first ++ changeFirsts (fun other =>
        if other.property ∈ first.map (·.property) then other else change other) second := by
  induction first generalizing change with
  | nil => simp [changeFirsts]
  | cons comparison first ih =>
      rw [List.cons_append, changeFirsts, changeFirsts, ih, List.cons_append]
      congr 3
      funext other
      by_cases same : other.property = comparison.property <;> simp [same]

theorem changeFirsts_changeFirsts {earlier : Comparison → Comparison}
    (keeps : ∀ comparison, (earlier comparison).property = comparison.property)
    (later : Comparison → Comparison) (comparisons : List Comparison) :
    changeFirsts later (changeFirsts earlier comparisons) =
      changeFirsts (fun comparison => later (earlier comparison)) comparisons := by
  induction comparisons generalizing earlier later with
  | nil => rfl
  | cons comparison comparisons ih =>
      rw [changeFirsts, changeFirsts, changeFirsts, ih]
      · congr 2
        funext other
        by_cases same : other.property = comparison.property <;> simp [same, keeps]
      · intro other
        split
        · rfl
        · exact keeps other

theorem property_changeFirsts {change : Comparison → Comparison}
    (keeps : ∀ comparison, (change comparison).property = comparison.property)
    (comparisons : List Comparison) :
    (changeFirsts change comparisons).map (·.property) = comparisons.map (·.property) := by
  induction comparisons generalizing change with
  | nil => rfl
  | cons comparison comparisons ih =>
      rw [changeFirsts, List.map_cons, List.map_cons, keeps, ih]
      intro other
      split
      · rfl
      · exact keeps other

theorem changeFirsts_of_nodup (change : Comparison → Comparison) {comparisons : List Comparison}
    (distinct : (comparisons.map (·.property)).Nodup) :
    changeFirsts change comparisons = comparisons.map change := by
  induction comparisons generalizing change with
  | nil => rfl
  | cons comparison comparisons ih =>
      rw [List.map_cons, List.nodup_cons] at distinct
      rw [changeFirsts, List.map_cons, ih _ distinct.2]
      congr 1
      refine List.map_congr_left fun other member => if_neg fun same => ?_
      exact distinct.1 (same ▸ List.mem_map_of_mem member)

theorem changeFirsts_append_of_mem {property : String} (change : Comparison → Comparison)
    {first : List Comparison} (second : List Comparison)
    (present : property ∈ first.map (·.property)) :
    changeFirsts (changeOn property change) (first ++ second) =
      changeFirsts (changeOn property change) first ++ second := by
  rw [changeFirsts_append]
  refine congrArg _ (changeFirsts_id fun other _ => ?_)
  by_cases same : other.property = property
  · rw [if_pos (same ▸ present)]
  · rw [changeOn, if_neg same, ite_self]

theorem changeFirsts_of_notMem {property : String} (change : Comparison → Comparison)
    {comparisons : List Comparison} (absent : property ∉ comparisons.map (·.property)) :
    changeFirsts (changeOn property change) comparisons = comparisons := by
  refine changeFirsts_id fun other member => ?_
  rw [changeOn, if_neg]
  rintro rfl
  exact absent (List.mem_map_of_mem member)

theorem changeFirsts_append_of_notMem {property : String} (change : Comparison → Comparison)
    {first : List Comparison} (second : List Comparison)
    (absent : property ∉ first.map (·.property)) :
    changeFirsts (changeOn property change) (first ++ second) =
      first ++ changeFirsts (changeOn property change) second := by
  rw [changeFirsts_append, changeFirsts_of_notMem change absent]
  congr 2
  funext other
  by_cases same : other.property = property
  · rw [if_neg (same ▸ absent)]
  · rw [changeOn, if_neg same, ite_self]

theorem getElem?_changeFirsts (change : Comparison → Comparison) (comparisons : List Comparison)
    (index : Nat) :
    (changeFirsts change comparisons)[index]? = comparisons[index]?.map fun comparison =>
      if comparison.property ∈ (comparisons.take index).map (·.property) then comparison
      else change comparison := by
  induction comparisons generalizing change index with
  | nil => rfl
  | cons comparison comparisons ih =>
      cases index with
      | zero => simp [changeFirsts]
      | succ index =>
          rw [changeFirsts, List.getElem?_cons_succ, List.getElem?_cons_succ, ih]
          congr 1
          funext other
          by_cases same : other.property = comparison.property <;> simp [same]

theorem mem_changeFirsts {change : Comparison → Comparison} {comparisons : List Comparison}
    {comparison : Comparison} (member : comparison ∈ changeFirsts change comparisons) :
    comparison ∈ comparisons ∨ ∃ original ∈ comparisons, comparison = change original := by
  obtain ⟨index, found⟩ := List.getElem?_of_mem member
  rw [getElem?_changeFirsts] at found
  obtain ⟨original, isOriginal, rfl⟩ := Option.map_eq_some_iff.mp found
  have present := List.mem_of_getElem? isOriginal
  split
  · exact .inl present
  · exact .inr ⟨original, present, rfl⟩

def newProperties (own others : List Comparison) : List String :=
  (others.map (·.property)).eraseDups.filter (· ∉ own.map (·.property))

def additions (own others : List Comparison) : List Comparison :=
  (newProperties own others).filterMap (lastWord? others)

theorem mem_newProperties {own others : List Comparison} {property : String} :
    property ∈ newProperties own others ↔
      property ∈ others.map (·.property) ∧ property ∉ own.map (·.property) := by
  rw [newProperties, List.mem_filter, List.mem_eraseDups, decide_eq_true_eq]

theorem newProperties_append_singleton (own others : List Comparison) (last : Comparison) :
    newProperties own (others ++ [last]) =
      if last.property ∈ own.map (·.property) ∨ last.property ∈ others.map (·.property) then
        newProperties own others
      else newProperties own others ++ [last.property] := by
  rw [newProperties, newProperties, List.map_append, List.map_singleton, List.eraseDups_append,
    List.filter_append]
  by_cases seen : last.property ∈ others.map (·.property)
  · have nothing : [last.property].removeAll (others.map (·.property)) = [] := by
      simp [List.removeAll, seen, -List.mem_map]
    rw [if_pos (.inr seen), nothing, List.eraseDups_nil, List.filter_nil, List.append_nil]
  · have itself : [last.property].removeAll (others.map (·.property)) = [last.property] := by
      simp [List.removeAll, seen, -List.mem_map]
    rw [itself, List.eraseDups_cons, List.filter_nil, List.eraseDups_nil]
    by_cases known : last.property ∈ own.map (·.property)
    · simp [known, -List.mem_map]
    · simp [known, seen, -List.mem_map]

theorem nodup_newProperties (own others : List Comparison) : (newProperties own others).Nodup := by
  induction others using List.reverseRecOn with
  | nil => exact List.nodup_nil
  | append_singleton others last ih =>
      rw [newProperties_append_singleton]
      split
      · exact ih
      · rename_i new
        refine List.nodup_append'.mpr ⟨ih, List.nodup_singleton _, ?_⟩
        rw [List.disjoint_singleton]
        exact fun member => new (.inr (mem_newProperties.mp member).1)

theorem lastWord?_of_mem_newProperties {own others : List Comparison} {property : String}
    (new : property ∈ newProperties own others) :
    ∃ word, lastWord? others property = some word ∧ word.property = property := by
  obtain ⟨word, found⟩ := Option.isSome_iff_exists.mp
    ((lastWord?_isSome_iff others property).mpr (mem_newProperties.mp new).1)
  exact ⟨word, found, property_of_lastWord? found⟩

theorem property_additions (own others : List Comparison) :
    (additions own others).map (·.property) = newProperties own others := by
  rw [additions, List.map_filterMap]
  calc
    (newProperties own others).filterMap (fun property =>
        (lastWord? others property).map (·.property)) =
      (newProperties own others).filterMap some := by
        refine List.filterMap_congr fun property new => ?_
        obtain ⟨word, found, named⟩ := lastWord?_of_mem_newProperties new
        rw [found, Option.map_some, named]
    _ = newProperties own others := List.filterMap_some

theorem property_mem_newProperties {own others : List Comparison} {comparison : Comparison}
    (member : comparison ∈ additions own others) :
    comparison.property ∈ newProperties own others := by
  rw [← property_additions]
  exact List.mem_map_of_mem member

theorem lastWord?_of_mem_additions {own others : List Comparison} {comparison : Comparison}
    (member : comparison ∈ additions own others) :
    lastWord? others comparison.property = some comparison := by
  obtain ⟨property, _, found⟩ := List.mem_filterMap.mp member
  rw [property_of_lastWord? found]
  exact found

theorem changeFirsts_append_additions (change : Comparison → Comparison)
    {own first : List Comparison} (sameProperties : first.map (·.property) = own.map (·.property))
    (others : List Comparison) :
    changeFirsts change (first ++ additions own others) =
      changeFirsts change first ++ (additions own others).map change := by
  have distinct : ((additions own others).map (·.property)).Nodup := by
    rw [property_additions]
    exact nodup_newProperties own others
  rw [changeFirsts_append, changeFirsts_of_nodup _ distinct, sameProperties]
  congr 1
  refine List.map_congr_left fun comparison member => if_neg ?_
  exact (mem_newProperties.mp (property_mem_newProperties member)).2

theorem overwriteFrom_additions (own others : List Comparison) :
    (additions own others).map (overwriteFrom others) = additions own others := by
  refine (List.map_congr_left fun comparison member => ?_).trans (List.map_id _)
  rw [overwriteFrom, lastWord?_of_mem_additions member]
  exact overwrite_self comparison

theorem additions_eq_nil {own others : List Comparison}
    (known : ∀ property ∈ others.map (·.property), property ∈ own.map (·.property)) :
    additions own others = [] := by
  rw [← List.map_eq_nil_iff, property_additions, List.eq_nil_iff_forall_not_mem]
  intro property new
  obtain ⟨said, unknown⟩ := mem_newProperties.mp new
  exact unknown (known property said)

theorem changeOn_additions {own others : List Comparison} {property : String}
    (change : Comparison → Comparison) (unsaid : property ∉ others.map (·.property)) :
    (additions own others).map (changeOn property change) = additions own others := by
  refine (List.map_congr_left fun comparison member => if_neg ?_).trans (List.map_id _)
  rintro rfl
  exact unsaid (mem_newProperties.mp (property_mem_newProperties member)).1

theorem filterMap_lastWord?_append_singleton (own others : List Comparison) (last : Comparison) :
    (newProperties own others).filterMap (lastWord? (others ++ [last])) =
      (additions own others).map (changeOn last.property (·.overwrite last)) := by
  rw [additions, List.map_filterMap]
  refine List.filterMap_congr fun property new => ?_
  obtain ⟨word, found, rfl⟩ := lastWord?_of_mem_newProperties new
  rw [lastWord?_append_singleton, found]
  by_cases same : last.property = word.property
  · simp [changeOn, same]
  · simp [changeOn, same, Ne.symm same]

theorem additions_append_singleton (own others : List Comparison) (last : Comparison) :
    additions own (others ++ [last]) =
      if last.property ∈ own.map (·.property) ∨ last.property ∈ others.map (·.property) then
        (additions own others).map (changeOn last.property (·.overwrite last))
      else additions own others ++ [last] := by
  rw [additions, newProperties_append_singleton]
  split
  · exact filterMap_lastWord?_append_singleton own others last
  · rename_i new
    have unsaid : last.property ∉ others.map (·.property) := fun said => new (.inr said)
    have none : lastWord? others last.property = none := by
      rwa [← Option.not_isSome_iff_eq_none, lastWord?_isSome_iff]
    rw [List.filterMap_append, filterMap_lastWord?_append_singleton, changeOn_additions _ unsaid,
      List.filterMap_cons, lastWord?_append_singleton, none]
    simp

end Comparison

end QueryOptions
