import Mathlib.Data.List.Basic
import QueryOptions.Filter.Basic

/-! Induction over filters, and the functions on their children as functions on lists. -/

namespace QueryOptions

def Comparison.unbound (comparison : Comparison) : Comparison :=
  { comparison with definition := none }

namespace Filter

@[induction_eliminator]
theorem treeInduction {motive : Filter → Prop} (leaf : ∀ comparison, motive (leaf comparison))
    (join : ∀ connective children, (∀ child ∈ children, motive child) →
      motive (join connective children)) (filter : Filter) : motive filter := by
  apply @Filter.rec motive (fun children => ∀ child ∈ children, motive child) leaf join
  · simp
  · intro child children first rest
    exact List.forall_mem_cons.mpr ⟨first, rest⟩

mutual

def every (onLeaf : Comparison → Bool) (onJoin : List Filter → Bool) : Filter → Bool
  | leaf comparison => onLeaf comparison
  | join _ children => onJoin children && everyOf onLeaf onJoin children

def everyOf (onLeaf : Comparison → Bool) (onJoin : List Filter → Bool) : List Filter → Bool
  | [] => true
  | child :: children => child.every onLeaf onJoin && everyOf onLeaf onJoin children

end

theorem every_leaf (onLeaf : Comparison → Bool) (onJoin : List Filter → Bool)
    (comparison : Comparison) : (leaf comparison).every onLeaf onJoin = onLeaf comparison := by
  rw [every]

theorem everyOf_eq (onLeaf : Comparison → Bool) (onJoin : List Filter → Bool)
    (children : List Filter) :
    everyOf onLeaf onJoin children = children.all (every onLeaf onJoin) := by
  induction children with
  | nil => simp [everyOf]
  | cons child children ih => simp [everyOf, ih]

theorem every_join (onLeaf : Comparison → Bool) (onJoin : List Filter → Bool)
    (connective : Connective) (children : List Filter) :
    (join connective children).every onLeaf onJoin =
      (onJoin children && children.all (every onLeaf onJoin)) := by
  rw [every, everyOf_eq]

theorem leavesOf_eq (children : List Filter) : leavesOf children = children.flatMap leaves := by
  induction children with
  | nil => simp [leavesOf]
  | cons child children ih => simp [leavesOf, ih]

theorem leaves_join (connective : Connective) (children : List Filter) :
    (join connective children).leaves = children.flatMap leaves := by
  rw [leaves, leavesOf_eq]

theorem mem_leaves_join {connective : Connective} {children : List Filter} {child : Filter}
    {comparison : Comparison} (member : child ∈ children) (within : comparison ∈ child.leaves) :
    comparison ∈ (join connective children).leaves := by
  rw [leaves_join]
  exact List.mem_flatMap.mpr ⟨child, member, within⟩

theorem mapLeavesOf_eq (change : Comparison → Comparison) (children : List Filter) :
    mapLeavesOf change children = children.map (mapLeaves change) := by
  induction children with
  | nil => simp [mapLeavesOf]
  | cons child children ih => simp [mapLeavesOf, ih]

theorem leaves_mapLeaves (change : Comparison → Comparison) (filter : Filter) :
    (filter.mapLeaves change).leaves = filter.leaves.map change := by
  induction filter with
  | leaf comparison => simp [mapLeaves, leaves]
  | join connective children ih =>
      simp only [mapLeaves, mapLeavesOf_eq, leaves, leavesOf_eq, List.flatMap_map, List.map_flatMap]
      exact List.flatMap_congr ih

theorem allAdmit_eq (property : String) (candidate : Value) (children : List Filter) :
    allAdmit property candidate children = children.all (admits property candidate) := by
  induction children with
  | nil => simp [allAdmit]
  | cons child children ih => simp [allAdmit, ih]

theorem anyAdmits_eq (property : String) (candidate : Value) (children : List Filter) :
    anyAdmits property candidate children = children.any (admits property candidate) := by
  induction children with
  | nil => simp [anyAdmits]
  | cons child children ih => simp [anyAdmits, ih]

theorem sameAll_eq (as bs : List Filter) :
    sameAll as bs = (as.length == bs.length && (as.zip bs).all fun (a, b) => a.same b) := by
  induction as generalizing bs with
  | nil => cases bs <;> simp [sameAll]
  | cons a as ih => cases bs <;> simp [sameAll, ih, Bool.and_left_comm]

def unbound (filter : Filter) : Filter :=
  filter.mapLeaves Comparison.unbound

theorem unbound_leaf (comparison : Comparison) :
    (leaf comparison).unbound = leaf comparison.unbound := by
  simp [unbound, mapLeaves]

theorem unbound_join (connective : Connective) (children : List Filter) :
    (join connective children).unbound = join connective (children.map unbound) := by
  simp only [unbound, mapLeaves, mapLeavesOf_eq]
  rfl

end Filter

end QueryOptions
