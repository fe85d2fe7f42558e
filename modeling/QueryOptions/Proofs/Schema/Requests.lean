import Mathlib.Data.List.Basic
import QueryOptions.Proofs.Schema.Catalog

/-!
What is done with a registry, request by request. All that computations do with a registry is to ask
for catalogs and to forget them, so that each is a program of such steps and leaves a log of them.
What the registry keeps, and how often it has asked its provider, can be read off the log.
-/

namespace QueryOptions.Registry

inductive Event
  | requested (entity : Entity) (succeeded : Bool)
  | forgotten (entity : Entity)
deriving DecidableEq

namespace Event

/-- Whether a request for the catalog of an entity succeeded since the catalog was last forgotten;
the log has the latest event first. -/
def succeededSince (entity : Entity) : List Event → Bool
  | [] => false
  | requested other succeeded :: earlier =>
      (other == entity && succeeded) || succeededSince entity earlier
  | forgotten other :: earlier => other != entity && succeededSince entity earlier

/-- The number of requests for the catalog of an entity at times when none had succeeded since it was
last forgotten. -/
def misses (entity : Entity) : List Event → Nat
  | [] => 0
  | requested other _ :: earlier =>
      misses entity earlier +
        if other = entity ∧ succeededSince entity earlier = false then 1 else 0
  | forgotten _ :: earlier => misses entity earlier

end Event

inductive Program (α : Type)
  | done (value : α)
  | request (entity : Entity) (next : Except Error EntityCatalog → Program α)
  | forget (entity : Entity) (next : Program α)

namespace Program

def bind (next : α → Program β) : Program α → Program β
  | done value => next value
  | request entity rest => .request entity fun result => bind next (rest result)
  | forget entity rest => .forget entity (bind next rest)

instance : Monad Program where
  pure := done
  bind program next := program.bind next

def run : Program α → Registry → α × Registry
  | done value, registry => (value, registry)
  | request entity next, registry =>
      let (result, later) := (Registry.catalog entity).run.run registry
      (next result).run later
  | forget entity next, registry => next.run (registry.invalidate entity)

def trace : Program α → Registry → List Event → List Event
  | done _, _, log => log
  | request entity next, registry, log =>
      let (result, later) := (Registry.catalog entity).run.run registry
      (next result).trace later (.requested entity result.isOk :: log)
  | forget entity next, registry, log =>
      next.trace (registry.invalidate entity) (.forgotten entity :: log)

theorem run_bind (program : Program α) (next : α → Program β) (registry : Registry) :
    (program >>= next).run registry =
      (next (program.run registry).1).run (program.run registry).2 := by
  induction program generalizing registry with
  | done value => rfl
  | request entity rest ih => exact ih _ _
  | forget entity rest ih => exact ih _

end Program

def Quiet (action : Lookup α) : Prop :=
  ∀ registry, ∃ questions,
    (action.run.run registry).2 = { registry with asked := questions ++ registry.asked } ∧
      ∀ entity, (Question.filterable, entity) ∉ questions

theorem quiet_ofExcept (result : Except Error α) : Quiet (Lookup.ofExcept result) :=
  fun _ => ⟨[], rfl, by simp⟩

theorem quiet_ask {question : Question} (other : question ≠ .filterable) (entity : Entity)
    (answer : Provider → Entity → Except Error α) : Quiet (ask question entity answer) := by
  intro registry
  refine ⟨[(question, entity)], rfl, ?_⟩
  intro asked
  simp [Ne.symm other]

theorem Quiet.bind {first : Lookup α} {next : α → Lookup β} (quiet : Quiet first)
    (quietNext : ∀ value, Quiet (next value)) : Quiet (first >>= next) := by
  intro registry
  obtain ⟨questions, later, unasked⟩ := quiet registry
  rw [Memory.run_bind]
  cases outcome : first.run.run registry with
  | mk result middle =>
      rw [outcome] at later
      subst later
      cases result with
      | error error => exact ⟨questions, rfl, unasked⟩
      | ok value =>
          obtain ⟨others, last, unaskedNext⟩ :=
            quietNext value { registry with asked := questions ++ registry.asked }
          refine ⟨others ++ questions, ?_, ?_⟩
          · simpa using last
          · intro entity
            simp [unasked entity, unaskedNext entity]

def describe (entity : Entity) (properties : List PropertyDefinition) : Lookup EntityCatalog := do
  let draft ← Lookup.ofExcept (EntityCatalog.Draft.addProperties { entity } properties)
  let expands ← expandable entity
  let draft ← Lookup.ofExcept (draft.addExpands expands)
  let orderable ← orderable entity
  let draft ← Lookup.ofExcept (draft.setOrderable orderable)
  let selectable ← selectable entity
  let draft ← Lookup.ofExcept (draft.setSelectable selectable)
  return draft.build

theorem quiet_describe (entity : Entity) (properties : List PropertyDefinition) :
    Quiet (describe entity properties) := by
  refine (quiet_ofExcept _).bind fun draft => ?_
  refine (quiet_ask (by decide) entity _).bind fun expands => ?_
  refine (quiet_ofExcept _).bind fun draft => ?_
  refine (quiet_ask (by decide) entity _).bind fun orderable => ?_
  refine (quiet_ofExcept _).bind fun draft => ?_
  refine (quiet_ask (by decide) entity _).bind fun selectable => ?_
  refine (quiet_ofExcept _).bind fun draft => ?_
  exact quiet_ofExcept (.ok draft.build)

theorem run_build (entity : Entity) (registry : Registry) :
    ∃ questions, ((build entity).run.run registry).2 =
        { registry with asked := questions ++ registry.asked } ∧
      ∀ other, questions.count (.filterable, other) =
        if registry.provider.supports entity = true ∧ entity = other then 1 else 0 := by
  have supported : (supports entity).run.run registry =
      (.ok (registry.provider.supports entity),
        { registry with asked := (.supports, entity) :: registry.asked }) :=
    rfl
  rw [build, Memory.run_bind, supported]
  cases registry.provider.supports entity with
  | false => exact ⟨[(.supports, entity)], rfl, by simp⟩
  | true =>
      change ∃ questions, ((filterable entity >>= describe entity).run.run
          { registry with asked := (.supports, entity) :: registry.asked }).2 = _ ∧ _
      have listed : (filterable entity).run.run
          { registry with asked := (.supports, entity) :: registry.asked } =
          (registry.provider.filterable entity,
            { registry with
              asked := (.filterable, entity) :: (.supports, entity) :: registry.asked }) :=
        rfl
      rw [Memory.run_bind, listed]
      cases registry.provider.filterable entity with
      | error error =>
          refine ⟨[(.filterable, entity), (.supports, entity)], rfl, fun other => ?_⟩
          simp [List.count_cons]
      | ok properties =>
          obtain ⟨questions, later, unasked⟩ := quiet_describe entity properties
            { registry with
              asked := (.filterable, entity) :: (.supports, entity) :: registry.asked }
          refine ⟨questions ++ [(.filterable, entity), (.supports, entity)], ?_, fun other => ?_⟩
          · simpa using later
          · have none := List.count_eq_zero.mpr (unasked other)
            simp [List.count_cons, none]

/-- A kept catalog is given out and nothing happens. Otherwise the catalog is built, and kept if it
could be built. -/
theorem catalog_cases (entity : Entity) (registry : Registry) :
    (∃ kept, registry.cached? entity = some kept ∧
      (catalog entity).run.run registry = (.ok kept, registry)) ∨
    registry.cached? entity = none ∧ ∃ result questions,
      (catalog entity).run.run registry =
        (result, { registry with
          catalogs := (result.toOption.map (entity, ·)).toList ++ registry.catalogs
          asked := questions ++ registry.asked }) ∧
      ∀ other, questions.count (.filterable, other) =
        if registry.provider.supports entity = true ∧ entity = other then 1 else 0 := by
  have found : (get : Lookup Registry).run.run registry = (.ok registry, registry) := rfl
  rw [catalog, Memory.run_bind, found]
  cases cached : registry.cached? entity with
  | some kept => exact .inl ⟨kept, rfl, by simp only [cached]; rfl⟩
  | none =>
      obtain ⟨questions, later, counts⟩ := run_build entity registry
      refine .inr ⟨rfl, ((build entity).run.run registry).1, questions, ?_, counts⟩
      simp only [cached, Memory.run_bind]
      cases outcome : (build entity).run.run registry with
      | mk result middle =>
          rw [outcome] at later
          subst later
          cases result with
          | error error => rfl
          | ok built => rfl

theorem isCached_eq_true_iff (registry : Registry) (entity : Entity) :
    registry.isCached entity = true ↔ entity ∈ registry.catalogs.map (·.1) := by
  simp [isCached, cached?]

theorem isCached_catalog (entity other : Entity) (registry : Registry) :
    ((catalog entity).run.run registry).2.isCached other =
      (entity == other && ((catalog entity).run.run registry).1.isOk ||
        registry.isCached other) := by
  rw [Bool.eq_iff_iff]
  obtain ⟨kept, cached, ran⟩ | ⟨_, result, questions, ran, _⟩ := catalog_cases entity registry
  · have known : registry.isCached entity = true := by rw [isCached, cached, Option.isSome_some]
    rw [ran]
    by_cases same : entity = other
    · subst other
      simp [known]
    · simp [same]
  · rw [ran]
    cases result with
    | error error => simp [isCached_eq_true_iff, Except.toOption, Except.isOk, Except.toBool]
    | ok built =>
        simp [isCached_eq_true_iff, Except.toOption, Except.isOk, Except.toBool,
          @eq_comm _ other entity]

theorem nodup_catalog (entity : Entity) {registry : Registry}
    (distinct : (registry.catalogs.map (·.1)).Nodup) :
    (((catalog entity).run.run registry).2.catalogs.map (·.1)).Nodup := by
  obtain ⟨_, _, ran⟩ | ⟨missing, result, questions, ran, _⟩ := catalog_cases entity registry
  · rw [ran]
    exact distinct
  · rw [ran]
    cases result with
    | error error => exact distinct
    | ok built =>
        have absent : entity ∉ registry.catalogs.map (·.1) := by
          rw [← isCached_eq_true_iff, isCached, missing]
          exact Bool.false_ne_true
        exact List.nodup_cons.mpr ⟨absent, distinct⟩

theorem count_catalog (entity other : Entity) (registry : Registry) :
    ((catalog entity).run.run registry).2.asked.count (.filterable, other) =
      registry.asked.count (.filterable, other) +
        if entity = other ∧ registry.isCached entity = false ∧
          registry.provider.supports entity = true then 1 else 0 := by
  obtain ⟨kept, cached, ran⟩ | ⟨missing, result, questions, ran, counts⟩ :=
    catalog_cases entity registry
  · have known : registry.isCached entity = true := by rw [isCached, cached, Option.isSome_some]
    simp [ran, known]
  · have unknown : registry.isCached entity = false := by rw [isCached, missing, Option.isSome_none]
    simp only [ran, List.count_append, counts, unknown, true_and, and_comm]
    exact Nat.add_comm _ _

/-- The log accounts for what the registry keeps and for how often it asked. -/
structure Accounts (schema : Schema) (log : List Event) (registry : Registry) : Prop where
  faithful : Faithful schema registry
  distinct : (registry.catalogs.map (·.1)).Nodup
  cached_eq : ∀ entity, registry.isCached entity = Event.succeededSince entity log
  asked_eq : ∀ entity, registry.asked.count (.filterable, entity) =
    if schema.provider.supports entity = true then Event.misses entity log else 0

theorem accounts_start (schema : Schema) : Accounts schema [] (memory schema).start where
  faithful := (memory schema).start_right
  distinct := by simp [memory]
  cached_eq := fun _ => rfl
  asked_eq := by simp [memory, Event.misses]

theorem Accounts.request {schema : Schema} {log : List Event} {registry : Registry}
    (accounts : Accounts schema log registry) (entity : Entity) :
    Accounts schema
      (.requested entity ((catalog entity).run.run registry).1.isOk :: log)
      ((catalog entity).run.run registry).2 where
  faithful := (answers_catalog schema entity registry accounts.faithful).2
  distinct := nodup_catalog entity accounts.distinct
  cached_eq := by
    intro other
    rw [isCached_catalog, accounts.cached_eq, Event.succeededSince]
  asked_eq := by
    intro other
    rw [count_catalog, accounts.asked_eq, accounts.cached_eq, accounts.faithful.provider_eq,
      Event.misses]
    by_cases same : entity = other
    · subst other
      by_cases supported : schema.provider.supports entity = true <;> simp [supported]
    · simp [same]

theorem Accounts.forget {schema : Schema} {log : List Event} {registry : Registry}
    (accounts : Accounts schema log registry) (entity : Entity) :
    Accounts schema (.forgotten entity :: log) (registry.invalidate entity) where
  faithful := faithful_invalidate accounts.faithful entity
  distinct := accounts.distinct.sublist (List.filter_sublist.map _)
  cached_eq := by
    intro other
    rw [Event.succeededSince, ← accounts.cached_eq, isCached, cached?_invalidate]
    by_cases same : other = entity
    · simp [same]
    · have different : ¬entity = other := fun equal => same equal.symm
      simp [same, different, isCached]
  asked_eq := accounts.asked_eq

theorem Accounts.run {schema : Schema} {log : List Event} {registry : Registry}
    (accounts : Accounts schema log registry) (program : Program α) :
    Accounts schema (program.trace registry log) (program.run registry).2 := by
  induction program generalizing log registry with
  | done value => exact accounts
  | request entity next ih => exact ih _ (accounts.request entity)
  | forget entity next ih => exact ih (accounts.forget entity)

end QueryOptions.Registry
