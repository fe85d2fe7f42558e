import QueryOptions.Proofs.Memory
import QueryOptions.Proofs.Outcome
import QueryOptions.Schema.Registry

/-!
The catalogs of a schema. A registry builds them on demand and may forget them, but what it answers
depends on the schema alone.
-/

namespace QueryOptions

namespace Schema

def catalog (schema : Schema) (entity : Entity) : Except Error EntityCatalog :=
  match schema.find? entity with
  | none => .error (.notQueryable entity)
  | some description => do
      let draft ← EntityCatalog.Draft.addProperties { entity } description.properties
      let draft ← draft.addExpands description.expands
      let draft ← draft.setOrderable description.orderable
      let draft ← draft.setSelectable description.selectable
      .ok draft.build

end Schema

theorem find?_filter_ne (entries : List (Entity × α)) (forgotten entity : Entity) :
    (entries.filter (·.1 != forgotten)).find? (·.1 == entity) =
      if entity = forgotten then none else entries.find? (·.1 == entity) := by
  rw [List.find?_filter]
  by_cases same : entity = forgotten
  · rw [if_pos same, List.find?_eq_none]
    intro entry _
    simp [same]
  · rw [if_neg same]
    congr 1
    funext entry
    by_cases hit : entry.1 = entity <;> simp [hit, same]

namespace Registry

/-- The registry asks the schema, and the catalogs it keeps are those of the schema. -/
structure Faithful (schema : Schema) (registry : Registry) : Prop where
  provider_eq : registry.provider = schema.provider
  kept : ∀ entity catalog, registry.cached? entity = some catalog →
    schema.catalog entity = .ok catalog

def memory (schema : Schema) : Memory Registry where
  start := { provider := schema.provider }
  Right := Faithful schema
  start_right := ⟨rfl, by simp [cached?]⟩

theorem answers_ask (schema : Schema) (question : Question) (entity : Entity)
    (answer : Provider → Entity → Except Error α) :
    (memory schema).Answers (ask question entity answer) (answer schema.provider entity) := by
  intro registry faithful
  refine ⟨?_, faithful.provider_eq, faithful.kept⟩
  rw [← faithful.provider_eq]
  rfl

theorem answers_build (schema : Schema) (entity : Entity) :
    (memory schema).Answers (build entity) (schema.catalog entity) := by
  have supported : (memory schema).Answers (supports entity) (.ok (schema.find? entity).isSome) :=
    answers_ask schema .supports entity _
  have properties := answers_ask schema .filterable entity Provider.filterable
  have expands := answers_ask schema .expandable entity Provider.expandable
  have orderable := answers_ask schema .orderable entity Provider.orderable
  have selectable := answers_ask schema .selectable entity Provider.selectable
  rw [Schema.catalog]
  cases found : schema.find? entity with
  | none =>
      rw [found] at supported
      exact supported.bind_ok (Memory.answers_throw (.notQueryable entity))
  | some description =>
      rw [found] at supported
      simp only [Schema.provider, Schema.describe, found, Except.map]
        at properties expands orderable selectable
      refine supported.bind_ok ?_
      refine properties.bind_ok ?_
      refine (Memory.answers_ofExcept _).bind fun draft _ => ?_
      refine expands.bind_ok ?_
      refine (Memory.answers_ofExcept _).bind fun draft _ => ?_
      refine orderable.bind_ok ?_
      refine (Memory.answers_ofExcept _).bind fun draft _ => ?_
      refine selectable.bind_ok ?_
      refine (Memory.answers_ofExcept _).bind fun draft _ => ?_
      exact Memory.answers_pure draft.build

theorem cached?_invalidate (registry : Registry) (forgotten entity : Entity) :
    (registry.invalidate forgotten).cached? entity =
      if entity = forgotten then none else registry.cached? entity := by
  rw [cached?, invalidate, find?_filter_ne]
  split <;> rfl

theorem faithful_invalidate {schema : Schema} {registry : Registry}
    (faithful : Faithful schema registry) (forgotten : Entity) :
    Faithful schema (registry.invalidate forgotten) := by
  refine ⟨faithful.provider_eq, fun entity catalog cached => ?_⟩
  rw [cached?_invalidate] at cached
  split at cached
  · contradiction
  · exact faithful.kept entity catalog cached

theorem faithful_keep {schema : Schema} {registry : Registry} (faithful : Faithful schema registry)
    {entity : Entity} {catalog : EntityCatalog} (built : schema.catalog entity = .ok catalog) :
    Faithful schema { registry with catalogs := (entity, catalog) :: registry.catalogs } := by
  refine ⟨faithful.provider_eq, fun other found cached => ?_⟩
  by_cases same : entity = other
  · subst other
    simp only [cached?, List.find?_cons, beq_self_eq_true, Option.map_some,
      Option.some.injEq] at cached
    rw [built, cached]
  · have later : registry.cached? other = some found := by
      simpa [cached?, List.find?_cons, same] using cached
    exact faithful.kept other found later

theorem answers_catalog (schema : Schema) (entity : Entity) :
    (memory schema).Answers (catalog entity) (schema.catalog entity) := by
  apply Memory.answers_get_bind
  intro registry faithful
  cases cached : registry.cached? entity with
  | some kept =>
      rw [faithful.kept entity kept cached]
      exact Memory.answers_pure kept
  | none =>
      rw [← bind_pure (schema.catalog entity)]
      refine (answers_build schema entity).bind fun catalog built => ?_
      refine (Memory.answers_modify ?_).bind_ok (Memory.answers_pure catalog)
      intro registry faithful
      exact faithful_keep faithful built

end Registry

namespace EntityCatalog.Draft

theorem foldlM_entity {add : Draft → α → Except Error Draft}
    (keeps : ∀ draft item next, add draft item = .ok next → next.entity = draft.entity)
    {items : List α} {draft last : Draft} (added : items.foldlM add draft = .ok last) :
    last.entity = draft.entity := by
  have same : ∀ state, ∀ item ∈ items, ∀ next, state.entity = draft.entity →
      add state item = .ok next → next.entity = draft.entity :=
    fun state item _ next stateEq added => (keeps state item next added).trans stateEq
  exact Outcome.foldlM_keeps same rfl added

theorem addProperty_eq_ok {draft next : Draft} {definition : PropertyDefinition}
    (added : draft.addProperty definition = .ok next) :
    ∃ properties, next = { draft with properties } := by
  obtain ⟨properties, _, nextEq⟩ := Outcome.bind_eq_ok.mp added
  simp only [Except.ok.injEq] at nextEq
  exact ⟨properties, nextEq.symm⟩

theorem addExpand_eq_ok {draft next : Draft} {definition : ExpandDefinition}
    (added : draft.addExpand definition = .ok next) :
    next = { draft with expands := draft.expands ++ [definition] } := by
  obtain ⟨_, _, rest⟩ := Outcome.bind_eq_ok.mp added
  split at rest
  · contradiction
  · simp only [Except.ok.injEq] at rest
    exact rest.symm

theorem setOrderable_eq_ok {draft next : Draft} {names : Option (List String)}
    (set : draft.setOrderable names = .ok next) :
    next = { draft with orderable := names.or draft.orderable } := by
  obtain ⟨_, _, nextEq⟩ := Outcome.bind_eq_ok.mp set
  simp only [Except.ok.injEq] at nextEq
  exact nextEq.symm

theorem setSelectable_eq_ok {draft next : Draft} {names : Option (List String)}
    (set : draft.setSelectable names = .ok next) :
    next = { draft with selectable := names.or draft.selectable } := by
  obtain ⟨_, _, nextEq⟩ := Outcome.bind_eq_ok.mp set
  simp only [Except.ok.injEq] at nextEq
  exact nextEq.symm

theorem addProperties_entity {draft next : Draft} {definitions : List PropertyDefinition}
    (added : draft.addProperties definitions = .ok next) : next.entity = draft.entity := by
  refine foldlM_entity ?_ added
  intro draft definition next added
  obtain ⟨_, rfl⟩ := addProperty_eq_ok added
  rfl

theorem addExpands_entity {draft next : Draft} {definitions : List ExpandDefinition}
    (added : draft.addExpands definitions = .ok next) : next.entity = draft.entity := by
  refine foldlM_entity ?_ added
  intro draft definition next added
  rw [addExpand_eq_ok added]

end EntityCatalog.Draft

theorem Schema.catalog_entity {schema : Schema} {entity : Entity} {catalog : EntityCatalog}
    (found : schema.catalog entity = .ok catalog) : catalog.entity = entity := by
  rw [Schema.catalog] at found
  split at found
  · contradiction
  · obtain ⟨withProperties, properties, found⟩ := Outcome.bind_eq_ok.mp found
    obtain ⟨withExpands, expands, found⟩ := Outcome.bind_eq_ok.mp found
    obtain ⟨withOrderable, orderable, found⟩ := Outcome.bind_eq_ok.mp found
    obtain ⟨withSelectable, selectable, found⟩ := Outcome.bind_eq_ok.mp found
    simp only [Except.ok.injEq] at found
    calc
      catalog.entity = withSelectable.entity := by rw [← found, EntityCatalog.Draft.build]
      _ = withOrderable.entity := by rw [EntityCatalog.Draft.setSelectable_eq_ok selectable]
      _ = withExpands.entity := by rw [EntityCatalog.Draft.setOrderable_eq_ok orderable]
      _ = withProperties.entity := EntityCatalog.Draft.addExpands_entity expands
      _ = entity := EntityCatalog.Draft.addProperties_entity properties

end QueryOptions
