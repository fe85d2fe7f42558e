import QueryOptions.Proofs.Factory
import QueryOptions.Proofs.Schema.Requests

/-!
What a factory keeps shows in the number of questions to the provider, and in nothing else. Whatever
a host does with a factory and its registry is a plan of requests for catalogs. The log of these
requests says which catalogs are kept and how often the provider was asked, and every operation
answers as it would with nothing kept at all.
-/

namespace QueryOptions

open Registry (Program Event Accounts)

abbrev Plan := ExceptT Error Program

namespace Plan

def ofExcept (result : Except Error α) : Plan α :=
  ExceptT.mk (pure result)

def catalog (entity : Entity) : Plan EntityCatalog :=
  ExceptT.mk (.request entity .done)

def forget (entity : Entity) : Plan Unit :=
  ExceptT.mk (.forget entity (.done (.ok ())))

theorem run_bind (plan : Plan α) (next : α → Plan β) (registry : Registry) :
    (plan >>= next).run.run registry =
      match plan.run.run registry with
      | (.ok value, later) => (next value).run.run later
      | (.error error, later) => (.error error, later) := by
  simp only [ExceptT.run_bind, Program.run_bind]
  cases outcome : plan.run.run registry with
  | mk result later => cases result <;> rfl

mutual

def checkNode (catalog : EntityCatalog) : Expand → Plan Unit
  | ⟨property, filters, orderBy, select, top, skip, skiptoken, children⟩ =>
      match catalog.expand? property with
      | none => ofExcept (.error (.notExpandable property catalog.entity catalog.expandNames))
      | some definition => do
          let target ← Plan.catalog definition.target
          ofExcept (Validation.checkLocal definition target
            ⟨property, filters, orderBy, select, top, skip, skiptoken, children⟩)
          checkNodes target children

def checkNodes (catalog : EntityCatalog) : List Expand → Plan Unit
  | [] => ofExcept (.ok ())
  | node :: nodes => do
      checkNode catalog node
      checkNodes catalog nodes

end

def checkExpand (nodes : List Expand) (entity : Entity) : Plan Unit := do
  let catalog ← Plan.catalog entity
  checkNodes catalog nodes

def check (options : Options) : Plan Unit := do
  ofExcept options.checkLocal
  if !options.expandNodes.isEmpty then
    checkExpand options.expandNodes options.entity

def Describes (plan : Plan α) (action : Lookup α) : Prop :=
  ∀ registry, plan.run.run registry = action.run.run registry

theorem describes_ofExcept (result : Except Error α) :
    (ofExcept result).Describes (Lookup.ofExcept result) :=
  fun _ => rfl

theorem describes_catalog (entity : Entity) :
    (catalog entity).Describes (Registry.catalog entity) :=
  fun _ => rfl

theorem Describes.bind {plan : Plan α} {action : Lookup α} {planNext : α → Plan β}
    {next : α → Lookup β} (describes : plan.Describes action)
    (describesNext : ∀ value, (planNext value).Describes (next value)) :
    (plan >>= planNext).Describes (action >>= next) := by
  intro registry
  rw [run_bind, Memory.run_bind, describes registry]
  cases action.run.run registry with
  | mk result later =>
      cases result with
      | error error => rfl
      | ok value => exact describesNext value later

theorem describes_checkNodes {nodes : List Expand}
    (describes : ∀ node ∈ nodes, ∀ catalog,
      (checkNode catalog node).Describes (Validation.checkNode catalog node))
    (catalog : EntityCatalog) :
    (checkNodes catalog nodes).Describes (Validation.checkNodes catalog nodes) := by
  induction nodes with
  | nil =>
      rw [checkNodes, Validation.checkNodes]
      exact describes_ofExcept (.ok ())
  | cons node nodes ih =>
      rw [checkNodes, Validation.checkNodes]
      refine (describes node (by simp) catalog).bind fun _ => ?_
      exact ih fun node member => describes node (by simp [member])

theorem describes_checkNode (node : Expand) (catalog : EntityCatalog) :
    (checkNode catalog node).Describes (Validation.checkNode catalog node) := by
  induction node generalizing catalog with
  | node property filters orderBy select top skip skiptoken children ih =>
      rw [checkNode, Validation.checkNode]
      cases catalog.expand? property with
      | none => exact describes_ofExcept (.error _)
      | some definition =>
          refine (describes_catalog definition.target).bind fun target => ?_
          refine (describes_ofExcept _).bind fun _ => ?_
          exact describes_checkNodes ih target

theorem describes_checkExpand (nodes : List Expand) (entity : Entity) :
    (checkExpand nodes entity).Describes (Validation.checkExpand nodes entity) :=
  (describes_catalog entity).bind (describes_checkNodes fun node _ => describes_checkNode node)

theorem describes_check (options : Options) : (check options).Describes options.check := by
  refine (describes_ofExcept options.checkLocal).bind fun _ => ?_
  split
  · exact describes_checkExpand options.expandNodes options.entity
  · exact describes_ofExcept (.ok ())

end Plan

namespace Factory

/-- Defaults that are remembered need no catalog, even when the catalog was forgotten. -/
def defaultsPlan (factory : Factory) (entity : Entity) : Plan Options :=
  match factory.remembered? entity with
  | some options => Plan.ofExcept (.ok options)
  | none => do
      let catalog ← Plan.catalog entity
      Plan.ofExcept (preset factory.config catalog)

def requestPlan (factory : Factory) (entity : Entity) (params : Params) : Plan Options := do
  let options ← factory.defaultsPlan entity
  let options ← Plan.ofExcept (override factory.config params options)
  Plan.check options
  return options

def descentPlan (factory : Factory) (options : Options) (property : String) :
    Plan Expansion := do
  let (node, definition) ← Plan.ofExcept (options.relation property)
  match (options.expansion? property).filter (·.applied == node.key) with
  | some expansion => return expansion
  | none =>
      let nested ← factory.defaultsPlan definition.target >>= fun defaults =>
        Plan.ofExcept (defaults.overlay definition node)
      return { property, options := nested, applied := node.key, resolved := none }

/-- From this factory on, the computation does to the registry what the plan does, and keeps to the
configuration. -/
structure Follows (factory : Factory) (action : Making α) (plan : Plan α) : Prop where
  run_eq : plan.run.run factory.registry =
    ((action.run.run factory).1, (action.run.run factory).2.registry)
  config_eq : (action.run.run factory).2.config = factory.config

section

variable {factory : Factory}

theorem follows_ofExcept (result : Except Error α) :
    factory.Follows (Making.ofExcept result) (Plan.ofExcept result) :=
  ⟨rfl, rfl⟩

theorem follows_ofExcept_bind {result : Except Error α} {next : α → Making β}
    {planNext : α → Plan β} (follows : ∀ value, factory.Follows (next value) (planNext value)) :
    factory.Follows (Making.ofExcept result >>= next) (Plan.ofExcept result >>= planNext) := by
  cases result with
  | error error => exact ⟨rfl, rfl⟩
  | ok value => exact ⟨(follows value).run_eq, (follows value).config_eq⟩

theorem follows_lookup {action : Lookup α} {plan : Plan α} (describes : plan.Describes action) :
    factory.Follows (Making.lookup action) plan :=
  ⟨describes factory.registry, rfl⟩

theorem Follows.bind {action : Making α} {plan : Plan α} {next : α → Making β}
    {planNext : α → Plan β} (follows : factory.Follows action plan)
    (followsNext : ∀ value (later : Factory), later.config = factory.config →
      later.Follows (next value) (planNext value)) :
    factory.Follows (action >>= next) (plan >>= planNext) := by
  obtain ⟨run_eq, config_eq⟩ := follows
  cases outcome : action.run.run factory with
  | mk result later =>
      rw [outcome] at run_eq config_eq
      cases result with
      | error error =>
          constructor
          · rw [Plan.run_bind, run_eq, Memory.run_bind, outcome]
          · rw [Memory.run_bind, outcome]
            exact config_eq
      | ok value =>
          obtain ⟨run_next, config_next⟩ := followsNext value later config_eq
          constructor
          · rw [Plan.run_bind, run_eq, Memory.run_bind, outcome]
            exact run_next
          · rw [Memory.run_bind, outcome]
            exact config_next.trans config_eq

theorem follows_get_bind {next : Factory → Making α} {plan : Plan α}
    (follows : factory.Follows (next factory) plan) : factory.Follows (get >>= next) plan :=
  ⟨follows.run_eq, follows.config_eq⟩

theorem Follows.remember {action : Making Options} {plan : Plan Options}
    (follows : factory.Follows action plan) (entity : Entity) :
    factory.Follows
      (do let options ← action
          modify fun factory => factory.remember entity (some options)
          return options)
      plan := by
  obtain ⟨run_eq, config_eq⟩ := follows
  cases outcome : action.run.run factory with
  | mk result later =>
      rw [outcome] at run_eq config_eq
      constructor
      · rw [run_eq, Memory.run_bind, outcome]
        cases result <;> rfl
      · rw [Memory.run_bind, outcome]
        cases result <;> exact config_eq

end

theorem follows_defaultsFor (factory : Factory) (entity : Entity) :
    factory.Follows (defaultsFor entity) (factory.defaultsPlan entity) := by
  apply follows_get_bind
  rw [defaultsPlan]
  cases factory.remembered? entity with
  | some options => exact follows_ofExcept (.ok options)
  | none =>
      have built : (factory.remember entity none).Follows (buildDefaults entity)
          (Plan.catalog entity >>= fun catalog =>
            Plan.ofExcept (preset factory.config catalog)) := by
        refine (follows_lookup (Plan.describes_catalog entity)).bind fun catalog later same => ?_
        apply follows_get_bind
        rw [same]
        exact follows_ofExcept _
      obtain ⟨run_eq, config_eq⟩ := built.remember entity
      exact ⟨run_eq, config_eq⟩

theorem follows_fromParams (factory : Factory) (entity : Entity) (params : Params) :
    factory.Follows (fromParams entity params) (factory.requestPlan entity params) := by
  refine (follows_defaultsFor factory entity).bind fun defaults later same => ?_
  apply follows_get_bind
  rw [same]
  refine follows_ofExcept_bind fun options => ?_
  refine (follows_lookup (Plan.describes_check options)).bind fun _ later _ => ?_
  exact follows_ofExcept (.ok options)

theorem follows_descend (factory : Factory) (options : Options) (property : String) :
    factory.Follows (options.handOut property) (factory.descentPlan options property) := by
  rw [Options.handOut_eq]
  refine follows_ofExcept_bind fun (node, definition) => ?_
  dsimp only
  cases (options.expansion? property).filter (·.applied == node.key) with
  | some expansion => exact follows_ofExcept (.ok expansion)
  | none =>
      have nested : factory.Follows (Options.nestedOptions definition node)
          (factory.defaultsPlan definition.target >>= fun defaults =>
            Plan.ofExcept (defaults.overlay definition node)) :=
        (follows_defaultsFor factory definition.target).bind fun _ _ _ => follows_ofExcept _
      exact nested.bind fun _ _ _ => follows_ofExcept (.ok _)

end Factory

inductive Operation
  | catalog (entity : Entity)
  | forgetCatalog (entity : Entity)
  | defaults (entity : Entity)
  | create (entity : Entity)
  | request (entity : Entity) (params : Params)
  | invalidate (entity : Entity)
  | check (options : Options)
  | checkExpand (nodes : List Expand) (entity : Entity)
  | descend (options : Options) (property : String)

namespace Operation

def Result : Operation → Type
  | catalog _ => EntityCatalog
  | defaults _ | create _ | request _ _ => Options
  | forgetCatalog _ | invalidate _ | check _ | checkExpand _ _ => Unit
  | descend _ _ => Expansion

def action : (operation : Operation) → Making operation.Result
  | catalog entity => Making.lookup (Registry.catalog entity)
  | forgetCatalog entity =>
      modify fun factory => { factory with registry := factory.registry.invalidate entity }
  | defaults entity => Factory.defaultsFor entity
  | create entity => Factory.create entity
  | request entity params => Factory.fromParams entity params
  | invalidate entity => modify fun factory => factory.invalidate entity
  | check options => Making.lookup options.check
  | checkExpand nodes entity => Making.lookup (Validation.checkExpand nodes entity)
  | descend options property => options.handOut property

def plan (factory : Factory) : (operation : Operation) → Plan operation.Result
  | catalog entity => Plan.catalog entity
  | forgetCatalog entity | invalidate entity => Plan.forget entity
  | defaults entity | create entity => factory.defaultsPlan entity
  | request entity params => factory.requestPlan entity params
  | check options => Plan.check options
  | checkExpand nodes entity => Plan.checkExpand nodes entity
  | descend options property => factory.descentPlan options property

theorem follows_plan (factory : Factory) (operation : Operation) :
    factory.Follows operation.action (operation.plan factory) := by
  cases operation with
  | catalog entity => exact Factory.follows_lookup (Plan.describes_catalog entity)
  | forgetCatalog entity => exact ⟨rfl, rfl⟩
  | defaults entity => exact Factory.follows_defaultsFor factory entity
  | create entity => exact Factory.follows_defaultsFor factory entity
  | request entity params => exact Factory.follows_fromParams factory entity params
  | invalidate entity => exact ⟨rfl, rfl⟩
  | check options => exact Factory.follows_lookup (Plan.describes_check options)
  | checkExpand nodes entity =>
      exact Factory.follows_lookup (Plan.describes_checkExpand nodes entity)
  | descend options property => exact Factory.follows_descend factory options property

theorem answered (schema : Schema) (config : Config) (operation : Operation) :
    ∃ result, (Factory.memory schema config).Answers operation.action result := by
  cases operation with
  | catalog entity =>
      exact ⟨_, Factory.answers_lookup config (Registry.answers_catalog schema entity)⟩
  | forgetCatalog entity =>
      refine ⟨_, Memory.answers_modify fun factory faithful => ?_⟩
      exact ⟨Registry.faithful_invalidate faithful.registry_faithful entity, faithful.config_eq,
        faithful.right⟩
  | defaults entity => exact ⟨_, Factory.answers_defaultsFor schema config entity⟩
  | create entity => exact ⟨_, Factory.answers_defaultsFor schema config entity⟩
  | request entity params => exact ⟨_, Factory.answers_fromParams schema config entity params⟩
  | invalidate entity =>
      refine ⟨_, Memory.answers_modify fun factory faithful => ?_⟩
      exact Factory.faithful_invalidate faithful entity
  | check options =>
      exact ⟨_, Factory.answers_lookup config (Options.answers_check schema options)⟩
  | checkExpand nodes entity =>
      exact ⟨_, Factory.answers_lookup config
        (Validation.answers_checkExpand schema nodes entity)⟩
  | descend options property => exact ⟨_, Factory.answers_descend schema config options property⟩

end Operation

/-- A factory, and the log of all requests and invalidations since it was made. -/
structure Usage where
  factory : Factory
  log : List Event

namespace Usage

def start (schema : Schema) (config : Config) : Usage where
  factory := { registry := { provider := schema.provider }, config }
  log := []

def perform (usage : Usage) (operation : Operation) : Usage where
  factory := (operation.action.run.run usage.factory).2
  log := (operation.plan usage.factory).run.trace usage.factory.registry usage.log

def after (schema : Schema) (config : Config) (operations : List Operation) : Usage :=
  operations.foldl perform (start schema config)

structure Sound (schema : Schema) (config : Config) (usage : Usage) : Prop where
  faithful : usage.factory.Faithful schema config
  accounts : Accounts schema usage.log usage.factory.registry

theorem sound_start (schema : Schema) (config : Config) : Sound schema config (start schema config) :=
  ⟨(Factory.memory schema config).start_right, Registry.accounts_start schema⟩

theorem Sound.perform {schema : Schema} {config : Config} {usage : Usage}
    (sound : Sound schema config usage) (operation : Operation) :
    Sound schema config (usage.perform operation) := by
  obtain ⟨result, answers⟩ := operation.answered schema config
  refine ⟨(answers usage.factory sound.faithful).2, ?_⟩
  have ran := (operation.follows_plan usage.factory).run_eq
  have accounts := sound.accounts.run (operation.plan usage.factory).run
  rw [ran] at accounts
  exact accounts

theorem sound_after (schema : Schema) (config : Config) (operations : List Operation) :
    Sound schema config (after schema config operations) :=
  List.foldlRecOn operations perform (sound_start schema config)
    fun _ sound operation _ => sound.perform operation

/-- Whatever was done with a factory and its registry, every operation answers as it does on fresh
ones. A catalog is kept exactly when a request for it succeeded since it was last forgotten. Each
request that finds no catalog kept asks a provider that supports the entity for its filterable
properties once, and no other request asks for them. -/
theorem memoization_invisible (schema : Schema) (config : Config) (operations : List Operation) :
    let usage := after schema config operations
    (∀ operation : Operation, (operation.action.run.run usage.factory).1 =
      (operation.action.run.run (start schema config).factory).1) ∧
    (∀ operation : Operation, (operation.plan usage.factory).run.run usage.factory.registry =
      ((operation.action.run.run usage.factory).1,
        (operation.action.run.run usage.factory).2.registry)) ∧
    (∀ entity, usage.factory.registry.isCached entity = Event.succeededSince entity usage.log) ∧
    (∃ entities : List Entity, entities.Nodup ∧
      (∀ entity, entity ∈ entities ↔ Event.succeededSince entity usage.log = true) ∧
      usage.factory.registry.size = entities.length) ∧
    (∀ entity, usage.factory.registry.asked.count (.filterable, entity) =
      if schema.provider.supports entity = true then Event.misses entity usage.log else 0) ∧
    ∀ (registry : Registry) (entity other : Entity),
      ((Registry.catalog entity).run.run registry).2.asked.count (.filterable, other) =
        registry.asked.count (.filterable, other) +
          if entity = other ∧ registry.isCached entity = false ∧
            registry.provider.supports entity = true then 1 else 0 := by
  intro usage
  have sound : Sound schema config usage := sound_after schema config operations
  refine ⟨?_, ?_, sound.accounts.cached_eq, ?_, sound.accounts.asked_eq, ?_⟩
  · intro operation
    obtain ⟨result, answers⟩ := operation.answered schema config
    have onFresh := (answers _ (sound_start schema config).faithful).1
    exact (answers _ sound.faithful).1.trans onFresh.symm
  · exact fun operation => (operation.follows_plan usage.factory).run_eq
  · refine ⟨usage.factory.registry.catalogs.map (·.1), sound.accounts.distinct, ?_,
      (List.length_map _).symm⟩
    intro entity
    rw [← Registry.isCached_eq_true_iff, sound.accounts.cached_eq]
  · exact fun registry entity other => Registry.count_catalog entity other registry

example :
    (after ⟨[("shelf", { expands := [⟨"books", "book", none, none⟩] })]⟩ {}
      [.request "shelf" { expand := some "books" }, .invalidate "shelf"]).log =
      [.forgotten "shelf", .requested "book" false, .requested "shelf" true,
        .requested "shelf" true] := by
  decide +kernel

end Usage

end QueryOptions
