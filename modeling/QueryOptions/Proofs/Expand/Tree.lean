import QueryOptions.Expand.Basic
import QueryOptions.Proofs.Filter.Tree

/-! Induction over expanded relations, and the definitions in their filters left out. -/

namespace QueryOptions.Expand

@[induction_eliminator]
theorem treeInduction {motive : Expand → Prop}
    (node : ∀ property filters orderBy select top skip skiptoken children,
      (∀ child ∈ children, motive child) →
        motive ⟨property, filters, orderBy, select, top, skip, skiptoken, children⟩)
    (expand : Expand) : motive expand := by
  apply @Expand.rec motive (fun children => ∀ child ∈ children, motive child) node
  · simp
  · intro child children first rest
    exact List.forall_mem_cons.mpr ⟨first, rest⟩

mutual

def unbound : Expand → Expand
  | ⟨property, filters, orderBy, select, top, skip, skiptoken, children⟩ =>
      ⟨property, filters.map Filter.unbound, orderBy, select, top, skip, skiptoken,
        unboundAll children⟩

def unboundAll : List Expand → List Expand
  | [] => []
  | child :: children => child.unbound :: unboundAll children

end

theorem unboundAll_eq (children : List Expand) : unboundAll children = children.map unbound := by
  induction children with
  | nil => simp [unboundAll]
  | cons child children ih => simp [unboundAll, ih]

theorem sameAll_eq (as bs : List Expand) :
    sameAll as bs = (as.length == bs.length && (as.zip bs).all fun (a, b) => a.same b) := by
  induction as generalizing bs with
  | nil => cases bs <;> simp [sameAll]
  | cons a as ih => cases bs <;> simp [sameAll, ih, Bool.and_left_comm]

end QueryOptions.Expand
