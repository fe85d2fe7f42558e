import QueryOptions.Proofs.Descent
import QueryOptions.Proofs.Memoization

/-!
No options exceed the maximum of `top` that their factory is configured with. Defaults keep to it,
setters refuse to go beyond it, and nested options take it over from the defaults of their target.
-/

namespace QueryOptions

namespace Options

inductive WithinPage (maximum : UInt64) : Options → Prop
  | mk {options : Options} (limited : options.maxTop = some maximum)
      (top : ∀ value ∈ options.top, value ≤ maximum)
      (nested : ∀ expansion ∈ options.nested, WithinPage maximum expansion.options) :
      WithinPage maximum options

section

variable {maximum : UInt64} {options : Options}

theorem WithinPage.top (within : options.WithinPage maximum) :
    ∀ value ∈ options.top, value ≤ maximum := by
  obtain ⟨_, top, _⟩ := within
  exact top

theorem WithinPage.limited (within : options.WithinPage maximum) :
    options.maxTop = some maximum := by
  obtain ⟨limited, _, _⟩ := within
  exact limited

theorem WithinPage.nested (within : options.WithinPage maximum) :
    ∀ expansion ∈ options.nested, expansion.options.WithinPage maximum := by
  obtain ⟨_, _, nested⟩ := within
  exact nested

theorem WithinPage.expansion {property : String} {expansion : Expansion}
    (within : options.WithinPage maximum) (found : options.expansion? property = some expansion) :
    expansion.options.WithinPage maximum :=
  within.nested expansion (List.mem_of_find?_eq_some found)

theorem WithinPage.nestedAt {path : List String} {nested : Options}
    (within : options.WithinPage maximum) (found : options.nestedAt? path = some nested) :
    nested.WithinPage maximum := by
  induction path generalizing options with
  | nil =>
      cases found
      exact within
  | cons property path ih =>
      obtain ⟨inner, isNested, rest⟩ := Option.bind_eq_some_iff.mp found
      obtain ⟨expansion, present, rfl⟩ := Option.map_eq_some_iff.mp isNested
      exact ih (within.expansion present) rest

theorem withinPage_setter (setter : Setter) (options next : Options)
    (within : options.WithinPage maximum) (set : setter.apply options = .ok next) :
    next.WithinPage maximum := by
  have nested : ∀ expansion ∈ next.nested, expansion.options.WithinPage maximum := by
    rw [nested_setter set]
    exact within.nested
  cases setter with
  | top value =>
      obtain ⟨below, rfl⟩ := setTop_eq_ok_iff.mp set
      refine .mk within.limited ?_ nested
      rintro other ⟨⟩
      exact below maximum within.limited
  | mergeFilters connective filter =>
      cases set
      rw [mergeFilters] at nested ⊢
      split at nested <;> exact .mk within.limited within.top nested
  | skip _ | skiptoken _ | filters _ | orderBy _ | select _ | expand _ | total _ =>
      cases set
      exact .mk within.limited within.top nested

theorem withinPage_preset {config : Config} (limited : config.maxTop = some maximum)
    (catalog : EntityCatalog) (options : Options)
    (preset : Factory.preset config catalog = .ok options) : options.WithinPage maximum := by
  obtain ⟨allowed, rfl⟩ := Factory.preset_eq_ok_iff.mp preset
  exact .mk limited (fun value given => allowed value given maximum limited) (by simp)

theorem withinPage_overlay {definition : ExpandDefinition} {node : Expand} {next : Options}
    (within : options.WithinPage maximum) (overlay : options.overlay definition node = .ok next) :
    next.WithinPage maximum := by
  obtain ⟨allowed, rfl⟩ := overlay_eq_ok_iff.mp overlay
  refine .mk within.limited ?_ within.nested
  intro value given
  rcases Option.or_eq_some_iff.mp given with asked | ⟨_, default⟩
  · exact allowed value asked maximum within.limited
  · exact within.top value default

theorem withinPage_setExpansion {expansion : Expansion} (within : options.WithinPage maximum)
    (inside : expansion.options.WithinPage maximum) :
    (options.setExpansion expansion).WithinPage maximum := by
  refine .mk within.limited within.top ?_
  intro other member
  rcases mem_putExpansion member with rfl | present
  · exact inside
  · exact within.nested other present

theorem withinPage_markResolved (within : options.WithinPage maximum) (property : String) :
    (options.markResolved property).WithinPage maximum := by
  rw [markResolved]
  split
  · exact within
  · rename_i expansion found
    have inside := within.expansion found
    exact withinPage_setExpansion within inside

end

/-- A change that fails without having changed anything leaves what the descents to it leave. -/
theorem changeAt_failed {change : Change α}
    (unchanged : ∀ options error, (change.run.run options).1 = .error error →
      (change.run.run options).2 = options)
    {look : Change β} (looks : ∀ options, (look.run.run options).2 = options)
    {path : List String} {options : Options} {factory : Factory} {error : Error}
    (failed : ((changeAt change path options).run factory).1.1 = .error error) :
    ((changeAt change path options).run factory).1.2 =
        ((changeAt look path options).run factory).1.2 ∧
      ((changeAt change path options).run factory).2 =
        ((changeAt look path options).run factory).2 := by
  induction path generalizing options factory with
  | nil => exact ⟨(unchanged options error failed).trans (looks options).symm, rfl⟩
  | cons property path ih =>
      rw [run_changeAt_cons] at failed
      rw [run_changeAt_cons, run_changeAt_cons]
      cases handed : (options.descended property factory).1 with
      | error cause => exact ⟨rfl, rfl⟩
      | ok expansion =>
          rw [handed] at failed
          obtain ⟨sameOptions, sameFactory⟩ := ih failed
          refine ⟨?_, sameFactory⟩
          dsimp only
          rw [sameOptions]

end Options

namespace Factory

open Options (WithinPage changeAt)

variable {provider : Provider} {config : Config} {maximum : UInt64}

abbrev pageMemory (provider : Provider) (config : Config) (maximum : UInt64) : Memory Factory :=
  propertyMemory provider config (WithinPage maximum)

section

variable (limited : config.maxTop = some maximum)

include limited

theorem yields_withinPage_descend {options : Options} (within : options.WithinPage maximum)
    (property : String) :
    (pageMemory provider config maximum).Yields (options.handOut property)
      fun expansion => expansion.options.WithinPage maximum :=
  yields_descend (Options.withinPage_preset limited)
    (fun _ _ _ _ within overlay => Options.withinPage_overlay within overlay)
    fun _ found => within.expansion found

theorem withinPage_changeAt {change : Options.Change α}
    (keeps : ∀ options, options.WithinPage maximum →
      (change.run.run options).2.WithinPage maximum)
    {path : List String} {options : Options} (within : options.WithinPage maximum)
    {factory : Factory} (right : (pageMemory provider config maximum).Right factory) :
    ((changeAt change path options).run factory).1.2.WithinPage maximum ∧
      (pageMemory provider config maximum).Right
        ((changeAt change path options).run factory).2 := by
  induction path generalizing options factory with
  | nil => exact ⟨keeps options within, right⟩
  | cons property path ih =>
      obtain ⟨later, inside⟩ := yields_withinPage_descend limited within property factory right
      rw [Options.run_handOut] at inside
      rw [Options.run_changeAt_cons]
      cases handed : (options.descended property factory).1 with
      | error error => exact ⟨within, later⟩
      | ok expansion =>
          obtain ⟨below, last⟩ := ih (inside expansion handed) later
          exact ⟨Options.withinPage_setExpansion within below, last⟩

theorem yields_withinPage_request (entity : Entity) (params : Params) :
    (pageMemory provider config maximum).Yields (fromParams entity params)
      (WithinPage maximum) :=
  yields_request (Options.withinPage_preset limited) fun _ _ within overridden =>
    override_keeps Options.withinPage_setter within overridden

end

end Factory

inductive Edit
  | look
  | set (setter : Options.Setter)
  | markResolved (property : String)

def Edit.attempt : Edit → Options.Change Unit
  | look => pure ()
  | set setter => setter.attempt
  | markResolved property => modify (·.markResolved property)

theorem Edit.withinPage_attempt {maximum : UInt64} (edit : Edit) (options : Options)
    (within : options.WithinPage maximum) :
    (edit.attempt.run.run options).2.WithinPage maximum := by
  cases edit with
  | look => exact within
  | set setter =>
      exact Options.attempt_keeps within fun next set =>
        Options.withinPage_setter setter options next within set
  | markResolved property => exact Options.withinPage_markResolved within property

/-- A factory, and the options of its making that a host holds. -/
structure Holdings where
  factory : Factory
  held : List Options := []

inductive Move
  | use (step : Factory.Step)
  | create (entity : Entity)
  | request (entity : Entity) (params : Params)
  | edit (index : Nat) (path : List String) (edit : Edit)
  | copy (index : Nat) (path : List String)

namespace Holdings

def take (holdings : Holdings) (making : Making Options) : Holdings :=
  let (result, factory) := making.run.run holdings.factory
  { factory, held := holdings.held ++ result.toOption.toList }

def edit (holdings : Holdings) (index : Nat) (path : List String) (edit : Edit) :
    Except Error Unit × Holdings :=
  match holdings.held[index]? with
  | none => (.ok (), holdings)
  | some options =>
      let run := (Options.changeAt edit.attempt path options).run holdings.factory
      (run.1.1, { factory := run.2, held := holdings.held.set index run.1.2 })

def perform (holdings : Holdings) : Move → Holdings
  | .use step => { holdings with factory := step.apply holdings.factory }
  | .create entity => holdings.take (Factory.create entity)
  | .request entity params => holdings.take (Factory.fromParams entity params)
  | .edit index path edit => (holdings.edit index path edit).2
  | .copy index path =>
      { holdings with
        held := holdings.held ++
          (holdings.held[index]?.bind (Options.nestedAt? path)).toList }

def after (provider : Provider) (config : Config) (moves : List Move) : Holdings :=
  moves.foldl perform { factory := { registry := { provider }, config } }

structure WithinPage (config : Config) (maximum : UInt64) (holdings : Holdings) : Prop where
  remembers : Factory.Remembers config (Options.WithinPage maximum) holdings.factory
  held : ∀ options ∈ holdings.held, options.WithinPage maximum

section

variable {provider : Provider} {config : Config} {maximum : UInt64} {holdings : Holdings}

theorem withinPage_take {making : Making Options}
    (yields : (Factory.pageMemory provider config maximum).Yields making
      (Options.WithinPage maximum))
    (within : holdings.WithinPage config maximum) :
    (holdings.take making).WithinPage config maximum := by
  obtain ⟨later, made⟩ := yields holdings.factory within.remembers
  refine ⟨later, ?_⟩
  intro options member
  rcases List.mem_append.mp member with present | new
  · exact within.held options present
  · refine made options ?_
    have new : (making.run.run holdings.factory).1.toOption = some options :=
      Option.mem_toList.mp new
    cases result : (making.run.run holdings.factory).1 with
    | error error =>
        rw [result] at new
        contradiction
    | ok found =>
        rw [result] at new
        cases new
        rfl

theorem withinPage_edit (limited : config.maxTop = some maximum)
    (within : holdings.WithinPage config maximum) (index : Nat) (path : List String)
    (edit : Edit) : (holdings.edit index path edit).2.WithinPage config maximum := by
  rw [Holdings.edit]
  split
  · exact within
  · rename_i options found
    have before := within.held options (List.mem_of_getElem? found)
    have right : (Factory.pageMemory holdings.factory.registry.provider config maximum).Right
        holdings.factory := within.remembers
    obtain ⟨edited, remembers⟩ :=
      Factory.withinPage_changeAt limited edit.withinPage_attempt before right
    refine ⟨remembers, ?_⟩
    intro other member
    rcases List.mem_or_eq_of_mem_set member with present | rfl
    · exact within.held other present
    · exact edited

theorem withinPage_perform (limited : config.maxTop = some maximum)
    (within : holdings.WithinPage config maximum) (move : Move) :
    (holdings.perform move).WithinPage config maximum := by
  have presets := Options.withinPage_preset limited
  let memory := Factory.pageMemory holdings.factory.registry.provider config maximum
  have right : memory.Right holdings.factory := within.remembers
  cases move with
  | use step => exact ⟨Factory.remembers_apply presets right step, within.held⟩
  | create entity =>
      have yields : memory.Yields (Factory.create entity) (Options.WithinPage maximum) :=
        Factory.yields_defaultsFor presets entity
      have taken := withinPage_take yields within
      exact taken
  | request entity params =>
      have yields : memory.Yields (Factory.fromParams entity params) (Options.WithinPage maximum) :=
        Factory.yields_withinPage_request limited entity params
      have taken := withinPage_take yields within
      exact taken
  | edit index path edit => exact withinPage_edit limited within index path edit
  | copy index path =>
      refine ⟨within.remembers, ?_⟩
      intro options member
      rcases List.mem_append.mp member with present | copied
      · exact within.held options present
      · obtain ⟨source, found, nested⟩ := Option.bind_eq_some_iff.mp (Option.mem_toList.mp copied)
        exact (within.held source (List.mem_of_getElem? found)).nestedAt nested

theorem withinPage_after (provider : Provider) (limited : config.maxTop = some maximum)
    (moves : List Move) : (after provider config moves).WithinPage config maximum := by
  have all : ∀ holdings : Holdings, holdings.WithinPage config maximum →
      (moves.foldl perform holdings).WithinPage config maximum := by
    induction moves with
    | nil => exact fun _ within => within
    | cons move moves ih => exact fun _ within => ih _ (withinPage_perform limited within move)
  exact all _ ⟨(Factory.pageMemory provider config maximum).start_right, by simp⟩

theorem edit_failed {setter : Options.Setter} {index : Nat} {path : List String} {error : Error}
    (failed : (holdings.edit index path (.set setter)).1 = .error error) :
    (holdings.edit index path (.set setter)).2 = (holdings.edit index path .look).2 := by
  cases found : holdings.held[index]? with
  | none => simp only [Holdings.edit, found]
  | some options =>
      simp only [Holdings.edit, found] at failed ⊢
      have unchanged : ∀ options error,
          (((Edit.set setter).attempt).run.run options).1 = .error error →
            (((Edit.set setter).attempt).run.run options).2 = options :=
        fun _ _ => Options.attempt_failed
      have looks : ∀ options, (Edit.look.attempt.run.run options).2 = options := fun _ => rfl
      obtain ⟨sameOptions, sameFactory⟩ := Options.changeAt_failed unchanged looks failed
      rw [sameOptions, sameFactory]

theorem edit_look_nil (holdings : Holdings) (index : Nat) :
    (holdings.edit index [] .look).2 = holdings := by
  cases found : holdings.held[index]? with
  | none => simp only [Holdings.edit, found]
  | some options =>
      have same : holdings.held.set index options = holdings.held := by
        obtain ⟨bound, valueEq⟩ := List.getElem?_eq_some_iff.mp found
        rw [← valueEq, List.set_getElem_self]
      simp only [Holdings.edit, found]
      exact congrArg (Holdings.mk holdings.factory) same

end

end Holdings

theorem Config.allows_of_ofJson {text : String} {config : Config}
    (loaded : ofJson text = .ok config) : config.Allows config.defaultTop := by
  rw [ofJson] at loaded
  split at loaded
  · contradiction
  · rename_i found _
    split at loaded
    · contradiction
    · rename_i sound
      cases loaded
      intro default given maximum limit
      rw [Option.mem_def] at given limit
      rw [fault?, given, limit] at sound
      by_contra above
      have beyond : maximum < default := UInt64.not_le.mp above
      simp [beyond] at sound

theorem Factory.catalog_of_defaultsFor {factory : Factory} {entity : Entity} {error : Error}
    (presets : factory.config.Allows factory.config.defaultTop)
    (failed : ((defaultsFor entity).run.run factory).1 = .error error) :
    ((Registry.catalog entity).run.run factory.registry).1 = .error error := by
  have followed := (follows_defaultsFor factory entity).run_eq
  have planned : ((factory.defaultsPlan entity).run.run factory.registry).1 = .error error := by
    rw [followed]
    exact failed
  rw [defaultsPlan] at planned
  split at planned
  · contradiction
  · rw [Plan.run_bind, Plan.describes_catalog entity factory.registry] at planned
    cases answer : (Registry.catalog entity).run.run factory.registry with
    | mk result later =>
        rw [answer] at planned
        cases result with
        | error cause =>
            cases planned
            rfl
        | ok catalog =>
            have made : preset factory.config catalog = .ok _ :=
              preset_eq_ok_iff.mpr ⟨presets, rfl⟩
            have contrary : preset factory.config catalog = .error error := planned
            rw [made] at contrary
            contradiction

/-- Over any provider, with a maximum of `top` configured, no options that a host comes to hold
exceed it, at any depth and whatever was done to them. A `top` that is refused changes no more than
going down to the options does, which is nothing for options that are held. And a factory with a
configuration that loads fails to make defaults only with the error of the catalog. -/
theorem Holdings.page_limit_kept (provider : Provider) (config : Config) :
    (∀ maximum, config.maxTop = some maximum → ∀ moves,
      ∀ options ∈ (after provider config moves).held, ∀ path nested,
        options.nestedAt? path = some nested → ∀ top ∈ nested.top, top ≤ maximum) ∧
    (∀ moves index path top error,
      ((after provider config moves).edit index path (.set (.top top))).1 = .error error →
        ((after provider config moves).edit index path (.set (.top top))).2 =
          ((after provider config moves).edit index path .look).2) ∧
    (∀ moves index, ((after provider config moves).edit index [] .look).2 =
      after provider config moves) ∧
    (∀ text, Config.ofJson text = .ok config → ∀ (factory : Factory), factory.config = config →
      ∀ entity error, ((Factory.defaultsFor entity).run.run factory).1 = .error error →
        ((Registry.catalog entity).run.run factory.registry).1 = .error error) := by
  refine ⟨?_, ?_, ?_, ?_⟩
  · intro maximum limited moves options member path nested found
    exact (((withinPage_after provider limited moves).held options member).nestedAt found).top
  · exact fun moves index path top error failed => edit_failed failed
  · exact fun moves index => edit_look_nil _ index
  · rintro text loaded factory rfl entity error failed
    exact Factory.catalog_of_defaultsFor (Config.allows_of_ofJson loaded) failed

def Holdings.paging : List Move :=
  [.create "magazine", .edit 0 [] (.set (.expand [{ property := "issues", top := some 4 }])),
    .edit 0 ["issues"] (.set (.top 6)), .edit 0 ["issues"] (.set (.top 5)), .copy 0 ["issues"]]

theorem Holdings.page_limit_kept_paging :
    let config : Config := { defaultTop := some 3, maxTop := some 5 }
    let holdings := after Schema.magazines.provider config paging
    (∃ issues ∈ holdings.held, issues.top = some 5 ∧ ∀ top ∈ issues.top, top ≤ 5) ∧
      (holdings.edit 0 ["issues"] (.set (.top 6))).1 =
        .error (.invalidOption "top" "6 exceeds the maximum of 5") ∧
      (holdings.edit 0 ["issues"] (.set (.top 6))).2 = (holdings.edit 0 ["issues"] .look).2 ∧
      ((Factory.defaultsFor "author").run.run holdings.factory).1 =
        .error (.notQueryable "author") ∧
      ((Registry.catalog "author").run.run holdings.factory.registry).1 =
        .error (.notQueryable "author") := by
  intro config holdings
  obtain ⟨limited, unchanged, _, defaults⟩ := page_limit_kept Schema.magazines.provider config
  have tested : holdings.held[1]?.any (fun issues => issues.top == some 5) = true := by
    decide +kernel
  obtain ⟨issues, found, topEq⟩ := (Option.any_eq_true _ _).mp tested
  have isHeld : issues ∈ holdings.held := List.mem_of_getElem? found
  have refused : (holdings.edit 0 ["issues"] (.set (.top 6))).1 =
      .error (.invalidOption "top" "6 exceeds the maximum of 5") := by
    decide +kernel
  have loaded : Config.ofJson "\x7b\"default_top\": 3, \"max_top\": 5\x7d" = .ok config := by
    decide +kernel
  have unknown : ((Factory.defaultsFor "author").run.run holdings.factory).1 =
      .error (.notQueryable "author") := by
    decide +kernel
  have configured : holdings.factory.config = config := by decide +kernel
  exact ⟨⟨issues, isHeld, beq_iff_eq.mp topEq, limited 5 rfl paging issues isHeld [] issues rfl⟩,
    refused, unchanged paging 0 ["issues"] 6 _ refused, unknown,
    defaults _ loaded holdings.factory configured "author" _ unknown⟩

end QueryOptions
