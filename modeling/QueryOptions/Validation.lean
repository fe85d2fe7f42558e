import QueryOptions.Expand.Basic
import QueryOptions.Schema.Registry

/-! Checking options against the catalogs. The first violation is reported. -/

namespace QueryOptions.Validation

def missingRelation? (definition : PropertyDefinition) (expands : List Expand) : Option String :=
  (definition.dependency.map (·.name)).filter fun relation =>
    (Expand.find? expands relation).isNone

def refusedValue? (definition : PropertyDefinition) (operand : Operand) : Option Value :=
  operand.values.find? fun value => !definition.permits value

def checkComparison (catalog : PropertyCatalog) (expands : List Expand) (comparison : Comparison) :
    Except Error Unit :=
  match catalog.get? comparison.property with
  | none => .error (.unknownProperty comparison.property catalog.names)
  | some definition =>
      match missingRelation? definition expands with
      | some relation => .error (.expandRequired comparison.property relation)
      | none =>
          match refusedValue? definition comparison.operand with
          | some value =>
              .error (.valueNotAllowed comparison.property value (definition.allowed.getD []))
          | none => .ok ()

def checkFilter (catalog : PropertyCatalog) (expands : List Expand) (filter : Filter) :
    Except Error Unit :=
  filter.leaves.forM (checkComparison catalog expands)

def checkName (allowed : List String) (name : String) : Except Error Unit :=
  if allowed.contains name then .ok () else .error (.unknownProperty name allowed)

def checkOrderBy (allowed : List String) (orders : List OrderBy) : Except Error Unit :=
  orders.forM fun order => checkName allowed order.property

def checkSelect (allowed : List String) (names : List String) : Except Error Unit :=
  names.forM (checkName allowed)

def checkFilters (catalog : PropertyCatalog) (expands : List Expand) :
    Option Filter → Except Error Unit
  | some filter => checkFilter catalog expands filter
  | none => .ok ()

/-- The checks of one expansion that need no other catalog than its target's. Inside a relation
its own catalog and orderable names, if it has them, stand in for the target's. -/
def checkLocal (definition : ExpandDefinition) (target : EntityCatalog) (node : Expand) :
    Except Error Unit := do
  checkFilters (definition.catalog.getD target.properties) node.children node.filters
  checkOrderBy (definition.orderable.getD target.orderable) node.orderBy
  checkSelect target.selectable node.select

mutual

def checkNode (catalog : EntityCatalog) : Expand → Lookup Unit
  | ⟨property, filters, orderBy, select, top, skip, skiptoken, children⟩ =>
      match catalog.expand? property with
      | none => throw (.notExpandable property catalog.entity catalog.expandNames)
      | some definition => do
          let target ← Registry.catalog definition.target
          Lookup.ofExcept (checkLocal definition target
            ⟨property, filters, orderBy, select, top, skip, skiptoken, children⟩)
          checkNodes target children

def checkNodes (catalog : EntityCatalog) : List Expand → Lookup Unit
  | [] => pure ()
  | node :: nodes => do
      checkNode catalog node
      checkNodes catalog nodes

end

def checkExpand (nodes : List Expand) (entity : Entity) : Lookup Unit := do
  let catalog ← Registry.catalog entity
  checkNodes catalog nodes

end QueryOptions.Validation
