import QueryOptions.Schema.Catalog

/-! Schema providers: where a catalog's contents come from. -/

namespace QueryOptions

/-- Answers questions about entities. A provider without its own lists of orderable and selectable
names leaves both to the filterable properties. -/
structure Provider where
  supports : Entity → Bool
  filterable : Entity → Except Error (List PropertyDefinition)
  expandable : Entity → Except Error (List ExpandDefinition)
  orderable : Entity → Except Error (Option (List String)) := fun _ => .ok none
  selectable : Entity → Except Error (Option (List String)) := fun _ => .ok none

structure EntityDescription where
  properties : List PropertyDefinition := []
  expands : List ExpandDefinition := []
  orderable : Option (List String) := none
  selectable : Option (List String) := none

structure Schema where
  descriptions : List (Entity × EntityDescription) := []

namespace Schema

def register (schema : Schema) (entity : Entity) (description : EntityDescription) : Schema :=
  ⟨(entity, description) :: schema.descriptions.filter (·.1 != entity)⟩

def find? (schema : Schema) (entity : Entity) : Option EntityDescription :=
  (schema.descriptions.find? (·.1 == entity)).map (·.2)

def describe (schema : Schema) (entity : Entity) : Except Error EntityDescription :=
  match schema.find? entity with
  | some description => .ok description
  | none => .error (.inconsistent ("No schema registered for entity " ++ entity))

def provider (schema : Schema) : Provider where
  supports entity := (schema.find? entity).isSome
  filterable entity := (schema.describe entity).map (·.properties)
  expandable entity := (schema.describe entity).map (·.expands)
  orderable entity := (schema.describe entity).map (·.orderable)
  selectable entity := (schema.describe entity).map (·.selectable)

def openProvider (schema : Schema) : Provider where
  supports _ := true
  filterable entity := (schema.describe entity).map (·.properties)
  expandable entity := (schema.describe entity).map (·.expands)

end Schema

end QueryOptions
