import QueryOptions.Options.Check
import QueryOptions.Proofs.Expand.Tree
import QueryOptions.Proofs.Schema.Catalog

/-!
What options that pass their checks keep to. The checks of one entity are stated as conditions, and
the checks of expansions as those that the schema's own catalogs give, with no registry between.
-/

namespace QueryOptions

namespace Validation

/-- The comparison is on a property of the catalog; the relation that the property depends on, if
any, is expanded; and where the property has a set of allowed values, each value equals a member of
it, integers and floats taken for one kind of number. -/
def Permits (catalog : PropertyCatalog) (expands : List Expand) (comparison : Comparison) : Prop :=
  ∃ definition, catalog.get? comparison.property = some definition ∧
    (∀ relation ∈ definition.dependency, relation.name ∈ expands.map (·.property)) ∧
    ∀ allowed ∈ definition.allowed, ∀ value ∈ comparison.operand.values,
      ∃ member ∈ allowed, member.looseEq value = true

theorem missingRelation?_eq_none_iff (definition : PropertyDefinition) (expands : List Expand) :
    missingRelation? definition expands = none ↔
      ∀ relation ∈ definition.dependency, relation.name ∈ expands.map (·.property) := by
  cases dependency : definition.dependency with
  | none => simp [missingRelation?, dependency]
  | some relation => simp [missingRelation?, dependency, Expand.find?]

theorem refusedValue?_eq_none_iff (definition : PropertyDefinition) (operand : Operand) :
    refusedValue? definition operand = none ↔
      ∀ allowed ∈ definition.allowed, ∀ value ∈ operand.values,
        ∃ member ∈ allowed, member.looseEq value = true := by
  cases given : definition.allowed with
  | none => simp [refusedValue?, PropertyDefinition.permits, given]
  | some allowed => simp [refusedValue?, PropertyDefinition.permits, given]

theorem checkComparison_eq_ok_iff (catalog : PropertyCatalog) (expands : List Expand)
    (comparison : Comparison) :
    checkComparison catalog expands comparison = .ok ⟨⟩ ↔ Permits catalog expands comparison := by
  rw [checkComparison, Permits]
  cases found : catalog.get? comparison.property with
  | none => simp
  | some definition =>
      simp only [Option.some.injEq, exists_eq_left']
      rw [← missingRelation?_eq_none_iff, ← refusedValue?_eq_none_iff]
      cases missing : missingRelation? definition expands with
      | some relation => simp
      | none =>
          cases refused : refusedValue? definition comparison.operand with
          | some value => simp
          | none => simp

theorem checkFilters_eq_ok_iff (catalog : PropertyCatalog) (expands : List Expand)
    (filters : Option Filter) :
    checkFilters catalog expands filters = .ok ⟨⟩ ↔
      ∀ filter ∈ filters, ∀ comparison ∈ filter.leaves, Permits catalog expands comparison := by
  cases filters with
  | none => simp [checkFilters]
  | some filter =>
      simp only [checkFilters, checkFilter, Outcome.forM_eq_ok, checkComparison_eq_ok_iff,
        Option.mem_some_iff, forall_eq']

theorem checkName_eq_ok_iff (allowed : List String) (name : String) :
    checkName allowed name = .ok ⟨⟩ ↔ name ∈ allowed := by
  rw [checkName]
  split <;> simp_all

theorem checkOrderBy_eq_ok_iff (allowed : List String) (orders : List OrderBy) :
    checkOrderBy allowed orders = .ok ⟨⟩ ↔ ∀ order ∈ orders, order.property ∈ allowed := by
  simp only [checkOrderBy, Outcome.forM_eq_ok, checkName_eq_ok_iff]

theorem checkSelect_eq_ok_iff (allowed names : List String) :
    checkSelect allowed names = .ok ⟨⟩ ↔ ∀ name ∈ names, name ∈ allowed := by
  simp only [checkSelect, Outcome.forM_eq_ok, checkName_eq_ok_iff]

end Validation

theorem Options.checkLocal_eq_ok_iff (options : Options) :
    options.checkLocal = .ok ⟨⟩ ↔
      (∀ filter ∈ options.filters, ∀ comparison ∈ filter.leaves,
        Validation.Permits options.catalog.properties options.expandNodes comparison) ∧
      (∀ order ∈ options.orderBy.getD [], order.property ∈ options.catalog.orderable) ∧
      ∀ name ∈ options.select.getD [], name ∈ options.catalog.selectable := by
  rw [← Validation.checkFilters_eq_ok_iff, ← Validation.checkOrderBy_eq_ok_iff,
    ← Validation.checkSelect_eq_ok_iff, checkLocal]
  simp only [Outcome.bind_eq_ok]
  constructor
  · rintro ⟨_, filters, _, orders, names⟩
    exact ⟨filters, orders, names⟩
  · rintro ⟨filters, orders, names⟩
    exact ⟨⟨⟩, filters, ⟨⟩, orders, names⟩

namespace Schema

mutual

def checkNode (schema : Schema) (catalog : EntityCatalog) : Expand → Except Error Unit
  | ⟨property, filters, orderBy, select, top, skip, skiptoken, children⟩ =>
      match catalog.expand? property with
      | none => .error (.notExpandable property catalog.entity catalog.expandNames)
      | some definition => do
          let target ← schema.catalog definition.target
          Validation.checkLocal definition target
            ⟨property, filters, orderBy, select, top, skip, skiptoken, children⟩
          checkNodes schema target children

def checkNodes (schema : Schema) (catalog : EntityCatalog) : List Expand → Except Error Unit
  | [] => .ok ()
  | node :: nodes => do
      checkNode schema catalog node
      checkNodes schema catalog nodes

end

def check (schema : Schema) (options : Options) : Except Error Unit := do
  options.checkLocal
  if !options.expandNodes.isEmpty then
    schema.catalog options.entity >>= fun catalog => schema.checkNodes catalog options.expandNodes

end Schema

namespace Validation

theorem answers_checkNodes {schema : Schema} {nodes : List Expand}
    (answers : ∀ node ∈ nodes, ∀ catalog,
      (Registry.memory schema).Answers (checkNode catalog node) (schema.checkNode catalog node))
    (catalog : EntityCatalog) :
    (Registry.memory schema).Answers (checkNodes catalog nodes)
      (schema.checkNodes catalog nodes) := by
  induction nodes with
  | nil =>
      rw [checkNodes, Schema.checkNodes]
      exact Memory.answers_pure ()
  | cons node nodes ih =>
      rw [checkNodes, Schema.checkNodes]
      refine (answers node (by simp) catalog).bind fun _ _ => ?_
      exact ih fun node member => answers node (by simp [member])

theorem answers_checkNode (schema : Schema) (node : Expand) (catalog : EntityCatalog) :
    (Registry.memory schema).Answers (checkNode catalog node) (schema.checkNode catalog node) := by
  induction node generalizing catalog with
  | node property filters orderBy select top skip skiptoken children ih =>
      rw [checkNode, Schema.checkNode]
      cases catalog.expand? property with
      | none => exact Memory.answers_throw _
      | some definition =>
          refine (Registry.answers_catalog schema definition.target).bind fun target _ => ?_
          refine (Memory.answers_ofExcept _).bind fun _ _ => ?_
          exact answers_checkNodes ih target

theorem answers_checkExpand (schema : Schema) (nodes : List Expand) (entity : Entity) :
    (Registry.memory schema).Answers (checkExpand nodes entity)
      (schema.catalog entity >>= fun catalog => schema.checkNodes catalog nodes) :=
  (Registry.answers_catalog schema entity).bind fun catalog _ =>
    answers_checkNodes (fun node _ => answers_checkNode schema node) catalog

end Validation

theorem Options.answers_check (schema : Schema) (options : Options) :
    (Registry.memory schema).Answers options.check (schema.check options) := by
  refine (Memory.answers_ofExcept _).bind fun _ _ => ?_
  split
  · exact Validation.answers_checkExpand schema options.expandNodes options.entity
  · exact Memory.answers_pure ()

theorem Schema.mem_expandNames_of_checkNodes {schema : Schema} {catalog : EntityCatalog}
    {nodes : List Expand} (passed : schema.checkNodes catalog nodes = .ok ⟨⟩) :
    ∀ node ∈ nodes, node.property ∈ catalog.expandNames := by
  induction nodes with
  | nil => simp
  | cons node nodes ih =>
      rw [checkNodes] at passed
      obtain ⟨_, first, rest⟩ := Outcome.bind_eq_ok.mp passed
      refine List.forall_mem_cons.mpr ⟨?_, ih rest⟩
      obtain ⟨property, filters, orderBy, select, top, skip, skiptoken, children⟩ := node
      rw [checkNode] at first
      split at first
      · contradiction
      · rename_i definition found
        have named := List.find?_some found
        have member := List.mem_of_find?_eq_some found
        simp only [beq_iff_eq] at named
        exact List.mem_map.mpr ⟨definition, member, named⟩

end QueryOptions
