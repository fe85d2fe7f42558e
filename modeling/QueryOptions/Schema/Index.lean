import QueryOptions.Schema.Catalog

/-! Property catalogs held for look-up: the definitions in a row, and beside them a map from each
name to its position in the row. -/

namespace QueryOptions

structure IndexedCatalog where
  definitions : List PropertyDefinition := []
  positions : List (String × Nat) := []

structure OutOfRange where
  position : Nat

namespace IndexedCatalog

/-- Computations that change a catalog in place. What was changed before a failure stays changed. -/
abbrev Change := ExceptT Error (StateM IndexedCatalog)

def Change.ofExcept (result : Except Error α) : Change α :=
  ExceptT.mk (pure result)

def plain (catalog : IndexedCatalog) : PropertyCatalog :=
  ⟨catalog.definitions⟩

def names (catalog : IndexedCatalog) : List String :=
  catalog.definitions.map (·.name)

def size (catalog : IndexedCatalog) : Nat :=
  catalog.definitions.length

def position? (catalog : IndexedCatalog) (name : String) : Option Nat :=
  (catalog.positions.find? (·.1 == name)).map (·.2)

def contains (catalog : IndexedCatalog) (name : String) : Bool :=
  (catalog.position? name).isSome

def lookUp (catalog : IndexedCatalog) (name : String) :
    Except OutOfRange (Option PropertyDefinition) :=
  match catalog.position? name with
  | none => .ok none
  | some position =>
      match catalog.definitions[position]? with
      | some definition => .ok (some definition)
      | none => .error ⟨position⟩

def insert (definition : PropertyDefinition) : Change Unit := do
  Change.ofExcept (Schema.checkName definition.name)
  if (← get).contains definition.name then
    throw (.inconsistent ("Property defined twice: " ++ definition.name))
  modify fun catalog =>
    { catalog with positions := (definition.name, catalog.size) :: catalog.positions }
  modify fun catalog => { catalog with definitions := catalog.definitions ++ [definition] }

def ofDefinitions (definitions : List PropertyDefinition) : Except Error IndexedCatalog :=
  match (definitions.forM insert).run.run {} with
  | (.ok _, catalog) => .ok catalog
  | (.error error, _) => .error error

end IndexedCatalog

end QueryOptions
