import QueryOptions.Value

/-! What a host declares about its entities: properties that filters may name, and relations that
requests may expand. -/

namespace QueryOptions

abbrev Entity := String

mutual

/-- A property that filters may compare. `allowed` restricts its values; `dependency` is the
relation through which it is reached, which has to be expanded first. -/
structure PropertyDefinition where
  name : String
  allowed : Option (List Value)
  dependency : Option ExpandDefinition

/-- A relation from one entity to another. A catalog or a list of orderable names given here
replaces the target's own inside this relation. -/
structure ExpandDefinition where
  name : String
  target : Entity
  catalog : Option PropertyCatalog
  orderable : Option (List String)

structure PropertyCatalog where
  definitions : List PropertyDefinition

end

def PropertyDefinition.permits (definition : PropertyDefinition) (value : Value) : Bool :=
  match definition.allowed with
  | none => true
  | some allowed => allowed.any fun member => member.looseEq value

end QueryOptions
