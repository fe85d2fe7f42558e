import QueryOptions.Schema.Provider

/-! The registry of catalogs: each entity's catalog is built when it is first asked for, and kept
until it is invalidated. A failed build is not kept. -/

namespace QueryOptions

inductive Question
  | supports
  | filterable
  | expandable
  | orderable
  | selectable
deriving DecidableEq

/-- The provider, the catalogs built so far, and every question asked so far, the latest first. -/
structure Registry where
  provider : Provider
  catalogs : List (Entity × EntityCatalog) := []
  asked : List (Question × Entity) := []

/-- Computations that may look up catalogs. What the registry has learnt survives a failure. -/
abbrev Lookup := ExceptT Error (StateM Registry)

def Lookup.ofExcept (result : Except Error α) : Lookup α :=
  ExceptT.mk (pure result)

namespace Registry

def cached? (registry : Registry) (entity : Entity) : Option EntityCatalog :=
  (registry.catalogs.find? (·.1 == entity)).map (·.2)

def isCached (registry : Registry) (entity : Entity) : Bool :=
  (registry.cached? entity).isSome

def size (registry : Registry) : Nat :=
  registry.catalogs.length

def isEmpty (registry : Registry) : Bool :=
  registry.size == 0

def invalidate (registry : Registry) (entity : Entity) : Registry :=
  { registry with catalogs := registry.catalogs.filter (·.1 != entity) }

def timesAsked (registry : Registry) (question : Question) : Nat :=
  registry.asked.countP (·.1 == question)

def ask (question : Question) (entity : Entity) (answer : Provider → Entity → Except Error α) :
    Lookup α := do
  modify fun registry => { registry with asked := (question, entity) :: registry.asked }
  Lookup.ofExcept (answer (← get).provider entity)

def supports (entity : Entity) : Lookup Bool :=
  ask .supports entity fun provider entity => .ok (provider.supports entity)

def filterable (entity : Entity) : Lookup (List PropertyDefinition) :=
  ask .filterable entity Provider.filterable

def expandable (entity : Entity) : Lookup (List ExpandDefinition) :=
  ask .expandable entity Provider.expandable

def orderable (entity : Entity) : Lookup (Option (List String)) :=
  ask .orderable entity Provider.orderable

def selectable (entity : Entity) : Lookup (Option (List String)) :=
  ask .selectable entity Provider.selectable

def build (entity : Entity) : Lookup EntityCatalog := do
  if !(← supports entity) then
    throw (.notQueryable entity)
  let properties ← filterable entity
  let draft ← Lookup.ofExcept (EntityCatalog.Draft.addProperties { entity } properties)
  let expands ← expandable entity
  let draft ← Lookup.ofExcept (draft.addExpands expands)
  let orderable ← orderable entity
  let draft ← Lookup.ofExcept (draft.setOrderable orderable)
  let selectable ← selectable entity
  let draft ← Lookup.ofExcept (draft.setSelectable selectable)
  return draft.build

def catalog (entity : Entity) : Lookup EntityCatalog := do
  match (← get).cached? entity with
  | some catalog => return catalog
  | none =>
      let catalog ← build entity
      modify fun registry => { registry with catalogs := (entity, catalog) :: registry.catalogs }
      return catalog

end Registry

end QueryOptions
