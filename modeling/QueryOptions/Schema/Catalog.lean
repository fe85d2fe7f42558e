import QueryOptions.Schema.Definition
import QueryOptions.Schema.Name

/-! Catalogs: for each entity the properties, orderings, columns and relations that a request may
use. -/

namespace QueryOptions

namespace PropertyCatalog

def empty : PropertyCatalog := ⟨[]⟩

def names (catalog : PropertyCatalog) : List String :=
  catalog.definitions.map (·.name)

def get? (catalog : PropertyCatalog) (name : String) : Option PropertyDefinition :=
  catalog.definitions.find? (·.name == name)

def contains (catalog : PropertyCatalog) (name : String) : Bool :=
  (catalog.get? name).isSome

def size (catalog : PropertyCatalog) : Nat :=
  catalog.definitions.length

def isEmpty (catalog : PropertyCatalog) : Bool :=
  catalog.definitions.isEmpty

def insert (catalog : PropertyCatalog) (definition : PropertyDefinition) :
    Except Error PropertyCatalog := do
  Schema.checkName definition.name
  if catalog.contains definition.name then
    .error (.inconsistent ("Property defined twice: " ++ definition.name))
  else
    .ok ⟨catalog.definitions ++ [definition]⟩

def ofDefinitions (definitions : List PropertyDefinition) : Except Error PropertyCatalog :=
  definitions.foldlM insert empty

end PropertyCatalog

structure EntityCatalog where
  entity : Entity
  properties : PropertyCatalog
  orderable : List String
  selectable : List String
  expands : List ExpandDefinition

namespace EntityCatalog

def expand? (catalog : EntityCatalog) (name : String) : Option ExpandDefinition :=
  catalog.expands.find? (·.name == name)

def expandNames (catalog : EntityCatalog) : List String :=
  catalog.expands.map (·.name)

/-- A catalog in the making. Lists of names that are never given default to all properties. -/
structure Draft where
  entity : Entity
  properties : PropertyCatalog := .empty
  orderable : Option (List String) := none
  selectable : Option (List String) := none
  expands : List ExpandDefinition := []

namespace Draft

def addProperty (draft : Draft) (definition : PropertyDefinition) : Except Error Draft := do
  let properties ← draft.properties.insert definition
  .ok { draft with properties }

def addExpand (draft : Draft) (definition : ExpandDefinition) : Except Error Draft := do
  Schema.checkName definition.name
  if draft.expands.any (·.name == definition.name) then
    .error (.inconsistent ("Expand defined twice on " ++ draft.entity ++ ": " ++ definition.name))
  else
    .ok { draft with expands := draft.expands ++ [definition] }

def addProperties (draft : Draft) (definitions : List PropertyDefinition) : Except Error Draft :=
  definitions.foldlM addProperty draft

def addExpands (draft : Draft) (definitions : List ExpandDefinition) : Except Error Draft :=
  definitions.foldlM addExpand draft

def checkNames (names : Option (List String)) : Except Error Unit :=
  (names.getD []).forM Schema.checkName

def setOrderable (draft : Draft) (names : Option (List String)) : Except Error Draft := do
  checkNames names
  .ok { draft with orderable := names.or draft.orderable }

def setSelectable (draft : Draft) (names : Option (List String)) : Except Error Draft := do
  checkNames names
  .ok { draft with selectable := names.or draft.selectable }

def build (draft : Draft) : EntityCatalog where
  entity := draft.entity
  properties := draft.properties
  orderable := draft.orderable.getD draft.properties.names
  selectable := draft.selectable.getD draft.properties.names
  expands := draft.expands

end Draft

end EntityCatalog

end QueryOptions
