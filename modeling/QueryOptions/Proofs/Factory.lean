import QueryOptions.Proofs.Expansion
import QueryOptions.Proofs.Validation

/-!
What a factory answers. Defaults, requests and descents depend on the schema and the configuration
alone, whatever the factory was asked before and whatever it was told to forget.
-/

namespace QueryOptions

namespace Schema

def defaults (schema : Schema) (config : Config) (entity : Entity) : Except Error Options := do
  let catalog ← schema.catalog entity
  Factory.preset config catalog

def request (schema : Schema) (config : Config) (entity : Entity) (params : Params) :
    Except Error Options := do
  let options ← schema.defaults config entity
  let options ← Factory.override config params options
  schema.check options
  .ok options

def descend (schema : Schema) (config : Config) (options : Options) (property : String) :
    Except Error Expansion := do
  let (node, definition) ← options.relation property
  match (options.expansion? property).filter (·.applied == node.key) with
  | some expansion => .ok expansion
  | none => do
      let nested ← schema.defaults config definition.target >>= Options.overlay definition node
      .ok { property, options := nested, applied := node.key, resolved := none }

end Schema

namespace Factory

/-- The factory looks up the catalogs of the schema, keeps to the configuration, and remembers no
other defaults than those they give. -/
structure Faithful (schema : Schema) (config : Config) (factory : Factory) : Prop where
  registry_faithful : Registry.Faithful schema factory.registry
  config_eq : factory.config = config
  right : ∀ entity options, factory.remembered? entity = some options →
    schema.defaults config entity = .ok options

def memory (schema : Schema) (config : Config) : Memory Factory where
  start := { registry := (Registry.memory schema).start, config }
  Right := Faithful schema config
  start_right := ⟨(Registry.memory schema).start_right, rfl, by simp [remembered?]⟩

theorem answers_lookup {schema : Schema} (config : Config) {action : Lookup α}
    {result : Except Error α} (answers : (Registry.memory schema).Answers action result) :
    (memory schema config).Answers (Making.lookup action) result := by
  intro factory faithful
  obtain ⟨same, later⟩ := answers factory.registry faithful.registry_faithful
  exact ⟨same, later, faithful.config_eq, faithful.right⟩

theorem remembered?_remember (factory : Factory) (entity other : Entity) (slot : Option Options) :
    (factory.remember entity slot).remembered? other =
      if other = entity then slot else factory.remembered? other := by
  rw [remembered?, remember]
  by_cases same : other = entity
  · simp [same]
  · have different : ¬entity = other := fun equal => same equal.symm
    rw [if_neg same, List.find?_cons_of_neg (by simpa using different), find?_filter_ne,
      if_neg same]
    rfl

theorem faithful_remember {schema : Schema} {config : Config} {factory : Factory}
    (faithful : Faithful schema config factory) (entity : Entity) (slot : Option Options)
    (right : ∀ options ∈ slot, schema.defaults config entity = .ok options) :
    Faithful schema config (factory.remember entity slot) := by
  refine ⟨faithful.registry_faithful, faithful.config_eq, fun other options remembered => ?_⟩
  rw [remembered?_remember] at remembered
  split at remembered
  · rename_i same
    rw [same]
    exact right options remembered
  · exact faithful.right other options remembered

theorem answers_buildDefaults (schema : Schema) (config : Config) (entity : Entity) :
    (memory schema config).Answers (buildDefaults entity) (schema.defaults config entity) := by
  have lookedUp := answers_lookup config (Registry.answers_catalog schema entity)
  refine lookedUp.bind fun catalog _ => ?_
  apply Memory.answers_get_bind
  intro factory faithful
  rw [faithful.config_eq]
  exact Memory.answers_ofExcept _

theorem answers_defaultsFor (schema : Schema) (config : Config) (entity : Entity) :
    (memory schema config).Answers (defaultsFor entity) (schema.defaults config entity) := by
  apply Memory.answers_get_bind
  intro factory faithful
  cases remembered : factory.remembered? entity with
  | some options =>
      rw [faithful.right entity options remembered]
      exact Memory.answers_pure options
  | none =>
      -- The slot is emptied before anything is looked up, so a failure leaves it empty.
      have emptied : (memory schema config).Answers
          (modify fun factory => factory.remember entity none) (.ok ⟨⟩) :=
        Memory.answers_modify fun _ faithful => faithful_remember faithful entity none (by simp)
      refine emptied.bind_ok ?_
      rw [← bind_pure (schema.defaults config entity)]
      refine (answers_buildDefaults schema config entity).bind fun options made => ?_
      have filled : (memory schema config).Answers
          (modify fun factory => factory.remember entity (some options)) (.ok ⟨⟩) :=
        Memory.answers_modify fun _ faithful =>
          faithful_remember faithful entity (some options) (by simpa using made)
      exact filled.bind_ok (Memory.answers_pure options)

theorem answers_fromParams (schema : Schema) (config : Config) (entity : Entity)
    (params : Params) :
    (memory schema config).Answers (fromParams entity params)
      (schema.request config entity params) := by
  refine (answers_defaultsFor schema config entity).bind fun defaults _ => ?_
  apply Memory.answers_get_bind
  intro factory faithful
  rw [faithful.config_eq]
  refine (Memory.answers_ofExcept _).bind fun options _ => ?_
  have checked := answers_lookup config (Options.answers_check schema options)
  refine checked.bind fun _ _ => ?_
  exact Memory.answers_pure options

theorem answers_descend (schema : Schema) (config : Config) (options : Options)
    (property : String) :
    (memory schema config).Answers (options.handOut property)
      (schema.descend config options property) := by
  rw [Options.handOut_eq]
  refine (Memory.answers_ofExcept _).bind fun (node, definition) _ => ?_
  dsimp only
  cases (options.expansion? property).filter (·.applied == node.key) with
  | some expansion => exact Memory.answers_pure expansion
  | none =>
      have nested : (memory schema config).Answers (Options.nestedOptions definition node)
          (schema.defaults config definition.target >>= Options.overlay definition node) :=
        (answers_defaultsFor schema config definition.target).bind fun _ _ =>
          Memory.answers_ofExcept _
      exact nested.bind fun _ _ => Memory.answers_pure _

theorem faithful_invalidate {schema : Schema} {config : Config} {factory : Factory}
    (faithful : Faithful schema config factory) (forgotten : Entity) :
    Faithful schema config (factory.invalidate forgotten) := by
  refine ⟨Registry.faithful_invalidate faithful.registry_faithful forgotten, faithful.config_eq,
    fun entity options remembered => ?_⟩
  rw [remembered?, invalidate, find?_filter_ne] at remembered
  split at remembered
  · contradiction
  · exact faithful.right entity options remembered

inductive Step
  | lookUp (entity : Entity)
  | forgetCatalog (entity : Entity)
  | create (entity : Entity)
  | fromParams (entity : Entity) (params : Params)
  | invalidate (entity : Entity)
  | check (options : Options)
  | descend (options : Options) (property : String)

def Step.apply (factory : Factory) : Step → Factory
  | lookUp entity => ((Making.lookup (Registry.catalog entity)).run.run factory).2
  | forgetCatalog entity => { factory with registry := factory.registry.invalidate entity }
  | create entity => ((Factory.create entity).run.run factory).2
  | fromParams entity params => ((Factory.fromParams entity params).run.run factory).2
  | invalidate entity => factory.invalidate entity
  | check options => ((Making.lookup options.check).run.run factory).2
  | descend options property => (((Options.descend property).run.run options).run factory).2

def after (schema : Schema) (config : Config) (steps : List Step) : Factory :=
  steps.foldl Step.apply (memory schema config).start

theorem faithful_apply {schema : Schema} {config : Config} {factory : Factory}
    (faithful : Faithful schema config factory) (step : Step) :
    Faithful schema config (step.apply factory) := by
  cases step with
  | lookUp entity =>
      exact (answers_lookup config (Registry.answers_catalog schema entity) factory faithful).2
  | forgetCatalog entity =>
      exact ⟨Registry.faithful_invalidate faithful.registry_faithful entity, faithful.config_eq,
        faithful.right⟩
  | create entity => exact (answers_defaultsFor schema config entity factory faithful).2
  | fromParams entity params =>
      exact (answers_fromParams schema config entity params factory faithful).2
  | invalidate entity => exact faithful_invalidate faithful entity
  | check options =>
      exact (answers_lookup config (Options.answers_check schema options) factory faithful).2
  | descend options property =>
      exact (answers_descend schema config options property factory faithful).2

theorem faithful_after (schema : Schema) (config : Config) (steps : List Step) :
    Faithful schema config (after schema config steps) := by
  have keeps : ∀ factory, Faithful schema config factory →
      Faithful schema config (steps.foldl Step.apply factory) := by
    induction steps with
    | nil => exact fun _ faithful => faithful
    | cons step steps ih => exact fun _ faithful => ih _ (faithful_apply faithful step)
  exact keeps _ (memory schema config).start_right

end Factory

end QueryOptions
