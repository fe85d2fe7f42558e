import QueryOptions.Proofs.Factory

/-!
Options as a factory makes them. What the configuration presets give and every setter keeps holds of
the options that any factory creates, over whatever provider and after whatever use.
-/

namespace QueryOptions

namespace Options

inductive Setter
  | top (value : UInt64)
  | skip (value : UInt64)
  | skiptoken (token : String)
  | filters (filter : Filter)
  | mergeFilters (connective : Connective) (filter : Filter)
  | orderBy (orders : List OrderBy)
  | select (names : List String)
  | expand (nodes : List Expand)
  | total (value : UInt64)

def Setter.apply (options : Options) : Setter → Except Error Options
  | top value => options.setTop value
  | skip value => .ok (options.setSkip value)
  | skiptoken token => .ok (options.setSkiptoken token)
  | filters filter => .ok (options.setFilters filter)
  | mergeFilters connective filter => .ok (options.mergeFilters connective filter)
  | orderBy orders => .ok (options.setOrderBy orders)
  | select names => .ok (options.setSelect names)
  | expand nodes => .ok (options.setExpand nodes)
  | total value => .ok (options.setTotal value)

def Setter.attempt : Setter → Change Unit
  | top value => Change.top value
  | skip value => modify (·.setSkip value)
  | skiptoken token => modify (·.setSkiptoken token)
  | filters filter => modify (·.setFilters filter)
  | mergeFilters connective filter => modify (·.mergeFilters connective filter)
  | orderBy orders => modify (·.setOrderBy orders)
  | select names => modify (·.setSelect names)
  | expand nodes => modify (·.setExpand nodes)
  | total value => modify (·.setTotal value)

theorem Change.run_top (top : UInt64) (options : Options) :
    (Change.top top).run.run options =
      match options.maxTop with
      | none => (.ok (), { options with top := some top })
      | some maximum =>
          if maximum < top then
            (.error (.invalidOption "top"
              (toString top ++ " exceeds the maximum of " ++ toString maximum)), options)
          else (.ok (), { options with top := some top }) := by
  have read : ((get : Change Options).run.run options) = (.ok options, options) := rfl
  simp only [Change.top, Memory.run_bind, read]
  obtain ⟨catalog, present, skip, token, filters, orders, columns, expand, total, limit, nested⟩ :=
    options
  cases limit with
  | none => rfl
  | some maximum =>
      dsimp only
      split <;> rfl

theorem setTop_eq (options : Options) (top : UInt64) :
    options.setTop top =
      match options.maxTop with
      | none => .ok { options with top := some top }
      | some maximum =>
          if maximum < top then
            .error (.invalidOption "top"
              (toString top ++ " exceeds the maximum of " ++ toString maximum))
          else .ok { options with top := some top } := by
  rw [setTop, Change.result, Change.run_top]
  cases options.maxTop with
  | none => rfl
  | some maximum =>
      dsimp only
      split <;> rfl

theorem setTop_eq_ok {options next : Options} {top : UInt64} (set : options.setTop top = .ok next) :
    next = { options with top := some top } := by
  rw [setTop_eq] at set
  split at set
  · exact (Except.ok.inj set).symm
  · split at set
    · contradiction
    · exact (Except.ok.inj set).symm

/-- A setter that fails changes nothing. -/
theorem run_attempt (setter : Setter) (options : Options) :
    setter.attempt.run.run options =
      match setter.apply options with
      | .ok next => (.ok (), next)
      | .error error => (.error error, options) := by
  cases setter with
  | top value =>
      rw [Setter.attempt, Setter.apply, Change.run_top, setTop_eq]
      cases options.maxTop with
      | none => rfl
      | some maximum =>
          dsimp only
          split <;> rfl
  | skip _ | skiptoken _ | filters _ | mergeFilters _ _ | orderBy _ | select _ | expand _ | total _ =>
      rfl

theorem attempt_failed {setter : Setter} {options : Options} {error : Error}
    (failed : (setter.attempt.run.run options).1 = .error error) :
    (setter.attempt.run.run options).2 = options := by
  rw [run_attempt] at failed ⊢
  cases set : setter.apply options with
  | ok next =>
      rw [set] at failed
      contradiction
  | error refusal => rfl

theorem attempt_keeps {invariant : Options → Prop} {setter : Setter} {options : Options}
    (holds : invariant options) (keeps : ∀ next, setter.apply options = .ok next → invariant next) :
    invariant (setter.attempt.run.run options).2 := by
  rw [run_attempt]
  split
  · rename_i next set
    exact keeps next set
  · exact holds

theorem whenGiven_keeps {invariant : Options → Prop} {options result : Options} {given : Option α}
    {change : Options → α → Except Error Options} (holds : invariant options)
    (changed : options.whenGiven given change = .ok result)
    (keeps : ∀ value, change options value = .ok result → invariant result) : invariant result := by
  cases given with
  | none =>
      simp only [whenGiven, Except.ok.injEq] at changed
      exact changed ▸ holds
  | some value => exact keeps value changed

end Options

namespace Factory

open Options (Setter whenGiven_keeps)

inductive Requested (config : Config) : Setter → Prop
  | top (value : UInt64) : Requested config (.top value)
  | skip (value : UInt64) : Requested config (.skip value)
  | skiptoken (token : String) : Requested config (.skiptoken token)
  | expand {text : String} {nodes : List Expand}
      (parsed : Expand.parse config.expandLimits text = .ok nodes) : Requested config (.expand nodes)
  | filters {text : String} {filter : Filter}
      (parsed : Filter.parse config.filterLimits text = .ok filter) :
      Requested config (.filters filter)
  | orderBy {text : String} {orders : List OrderBy} (parsed : OrderBy.parse text = .ok orders) :
      Requested config (.orderBy orders)
  | select {text : String} {names : List String} (parsed : Select.parse text = .ok names) :
      Requested config (.select names)

theorem override_keeps_requested {invariant : Options → Prop} {config : Config}
    (keeps : ∀ setter, Requested config setter → ∀ options next, invariant options →
      setter.apply options = .ok next → invariant next)
    {params : Params} {options result : Options} (holds : invariant options)
    (overridden : override config params options = .ok result) : invariant result := by
  obtain ⟨_, _, overridden⟩ := Outcome.bind_eq_ok.mp overridden
  obtain ⟨withTop, top, overridden⟩ := Outcome.bind_eq_ok.mp overridden
  obtain ⟨_, _, overridden⟩ := Outcome.bind_eq_ok.mp overridden
  obtain ⟨withSkip, skip, overridden⟩ := Outcome.bind_eq_ok.mp overridden
  obtain ⟨withToken, token, overridden⟩ := Outcome.bind_eq_ok.mp overridden
  obtain ⟨withExpand, expand, overridden⟩ := Outcome.bind_eq_ok.mp overridden
  obtain ⟨withFilters, filters, overridden⟩ := Outcome.bind_eq_ok.mp overridden
  obtain ⟨withOrders, orders, select⟩ := Outcome.bind_eq_ok.mp overridden
  have keptTop : invariant withTop :=
    whenGiven_keeps holds top fun value set => keeps _ (.top value) _ _ holds set
  have keptSkip : invariant withSkip :=
    whenGiven_keeps keptTop skip fun value set => keeps _ (.skip value) _ _ keptTop set
  have keptToken : invariant withToken :=
    whenGiven_keeps keptSkip token fun value set => keeps _ (.skiptoken value) _ _ keptSkip set
  have keptExpand : invariant withExpand := by
    refine whenGiven_keeps keptToken expand fun text set => ?_
    obtain ⟨nodes, parsed, setEq⟩ := Outcome.map_eq_ok.mp set
    exact keeps _ (.expand parsed) _ _ keptToken (congrArg Except.ok setEq)
  have keptFilters : invariant withFilters := by
    refine whenGiven_keeps keptExpand filters fun text set => ?_
    obtain ⟨filter, parsed, setEq⟩ := Outcome.map_eq_ok.mp set
    exact keeps _ (.filters parsed) _ _ keptExpand (congrArg Except.ok setEq)
  have keptOrders : invariant withOrders := by
    refine whenGiven_keeps keptFilters orders fun text set => ?_
    obtain ⟨orders, parsed, setEq⟩ := Outcome.map_eq_ok.mp set
    exact keeps _ (.orderBy parsed) _ _ keptFilters (congrArg Except.ok setEq)
  refine whenGiven_keeps keptOrders select fun text set => ?_
  obtain ⟨names, parsed, setEq⟩ := Outcome.map_eq_ok.mp set
  exact keeps _ (.select parsed) _ _ keptOrders (congrArg Except.ok setEq)

theorem override_keeps {invariant : Options → Prop}
    (keeps : ∀ (setter : Setter) options next, invariant options →
      setter.apply options = .ok next → invariant next)
    {config : Config} {params : Params} {options result : Options} (holds : invariant options)
    (overridden : override config params options = .ok result) : invariant result :=
  override_keeps_requested (fun setter _ => keeps setter) holds overridden

/-- A factory over any provider after any use. -/
def reached (provider : Provider) (config : Config) (steps : List Step) : Factory :=
  steps.foldl Step.apply { registry := { provider }, config }

/-- The factory makes these options: as defaults to be changed, or for a request. -/
inductive Creates (factory : Factory) (options : Options) : Prop
  | defaults {entity : Entity} (made : ((create entity).run.run factory).1 = .ok options)
  | request {entity : Entity} {params : Params}
      (made : ((fromParams entity params).run.run factory).1 = .ok options)

structure Remembers (config : Config) (property : Options → Prop) (factory : Factory) : Prop where
  config_eq : factory.config = config
  remembered : ∀ entity options, factory.remembered? entity = some options → property options

def propertyMemory (provider : Provider) (config : Config) (property : Options → Prop) :
    Memory Factory where
  start := { registry := { provider }, config }
  Right := Remembers config property
  start_right := ⟨rfl, by simp [remembered?]⟩

section

variable {provider : Provider} {config : Config} {property : Options → Prop}

theorem yields_lookup (action : Lookup α) :
    (propertyMemory provider config property).Yields (Making.lookup action) fun _ => True :=
  fun _ right => ⟨⟨right.config_eq, right.remembered⟩, fun _ _ => trivial⟩

theorem remembers_remember {factory : Factory} (remembers : Remembers config property factory)
    (entity : Entity) (slot : Option Options) (holds : ∀ options ∈ slot, property options) :
    Remembers config property (factory.remember entity slot) := by
  refine ⟨remembers.config_eq, fun other options found => ?_⟩
  rw [remembered?_remember] at found
  split at found
  · exact holds options found
  · exact remembers.remembered other options found

theorem remembers_invalidate {factory : Factory} (remembers : Remembers config property factory)
    (forgotten : Entity) : Remembers config property (factory.invalidate forgotten) := by
  refine ⟨remembers.config_eq, fun entity options found => ?_⟩
  rw [remembered?, invalidate, find?_filter_ne] at found
  split at found
  · contradiction
  · exact remembers.remembered entity options found

variable (presets : ∀ catalog options, preset config catalog = .ok options → property options)

include presets

theorem yields_defaultsFor (entity : Entity) :
    (propertyMemory provider config property).Yields (defaultsFor entity) property := by
  apply Memory.yields_get_bind
  intro factory remembers
  cases found : factory.remembered? entity with
  | some options => exact Memory.yields_pure (remembers.remembered entity options found)
  | none =>
      have emptied : (propertyMemory provider config property).Yields
          (modify fun factory => factory.remember entity none) fun _ => True :=
        Memory.yields_modify fun _ remembers =>
          remembers_remember remembers entity none (by simp)
      refine emptied.bind fun _ _ => ?_
      have built : (propertyMemory provider config property).Yields (buildDefaults entity)
          property := by
        refine (yields_lookup _).bind fun catalog _ => ?_
        apply Memory.yields_get_bind
        intro factory remembers
        exact Memory.yields_ofExcept fun options made =>
          presets catalog options (remembers.config_eq ▸ made)
      refine built.bind fun options holds => ?_
      have filled : (propertyMemory provider config property).Yields
          (modify fun factory => factory.remember entity (some options)) fun _ => True :=
        Memory.yields_modify fun _ remembers =>
          remembers_remember remembers entity (some options) (by simpa using holds)
      exact filled.bind fun _ _ => Memory.yields_pure holds

theorem yields_descend {wanted : Options → Prop}
    (overlays : ∀ defaults definition node nested, property defaults →
      Options.overlay definition node defaults = .ok nested → wanted nested)
    {options : Options} {relation : String}
    (kept : ∀ expansion, options.expansion? relation = some expansion →
      wanted expansion.options) :
    (propertyMemory provider config property).Yields (options.handOut relation)
      fun expansion => wanted expansion.options := by
  rw [Options.handOut_eq]
  have found : (propertyMemory provider config property).Yields
      (Making.ofExcept (options.relation relation)) fun _ => True :=
    Memory.yields_ofExcept fun _ _ => trivial
  refine found.bind fun (node, definition) _ => ?_
  dsimp only
  split
  · rename_i expansion present
    exact Memory.yields_pure (kept expansion (Option.filter_eq_some_iff.mp present).1)
  · have nested : (propertyMemory provider config property).Yields
        (Options.nestedOptions definition node) wanted :=
      (yields_defaultsFor presets definition.target).bind fun defaults holds =>
        Memory.yields_ofExcept fun nested => overlays defaults definition node nested holds
    exact nested.bind fun options holds => Memory.yields_pure holds

theorem yields_request {wanted : Options → Prop} {entity : Entity} {params : Params}
    (overrides : ∀ defaults options, property defaults →
      override config params defaults = .ok options → wanted options) :
    (propertyMemory provider config property).Yields (fromParams entity params) wanted := by
  refine (yields_defaultsFor presets entity).bind fun defaults holds => ?_
  apply Memory.yields_get_bind
  intro factory remembers
  have overridden : (propertyMemory provider config property).Yields
      (Making.ofExcept (override factory.config params defaults)) wanted :=
    Memory.yields_ofExcept fun options made =>
      overrides defaults options holds (remembers.config_eq ▸ made)
  refine overridden.bind fun options holds => ?_
  exact (yields_lookup _).bind fun _ _ => Memory.yields_pure holds

theorem remembers_apply {factory : Factory}
    (remembers : (propertyMemory provider config property).Right factory) (step : Step) :
    (propertyMemory provider config property).Right (step.apply factory) := by
  cases step with
  | lookUp entity => exact (yields_lookup _ factory remembers).1
  | forgetCatalog entity => exact ⟨remembers.config_eq, remembers.remembered⟩
  | create entity => exact (yields_defaultsFor presets entity factory remembers).1
  | fromParams entity params =>
      have kept : (propertyMemory provider config property).Yields (fromParams entity params)
          fun _ => True :=
        yields_request presets fun _ _ _ _ => trivial
      exact (kept factory remembers).1
  | invalidate entity => exact remembers_invalidate remembers entity
  | check options => exact (yields_lookup _ factory remembers).1
  | descend options relation =>
      have kept : (propertyMemory provider config property).Yields (options.handOut relation)
          fun _ => True :=
        yields_descend presets (fun _ _ _ _ _ _ => trivial) fun _ _ => trivial
      exact (kept factory remembers).1

theorem remembers_reached (steps : List Step) :
    (propertyMemory provider config property).Right (reached provider config steps) := by
  have all : ∀ factory, (propertyMemory provider config property).Right factory →
      (propertyMemory provider config property).Right (steps.foldl Step.apply factory) := by
    induction steps with
    | nil => exact fun _ remembers => remembers
    | cons step steps ih => exact fun _ remembers => ih _ (remembers_apply presets remembers step)
  exact all _ (propertyMemory provider config property).start_right

theorem Creates.holds
    (keeps : ∀ (setter : Setter) options next, property options →
      setter.apply options = .ok next → property next)
    {steps : List Step} {options : Options}
    (created : Creates (reached provider config steps) options) : property options := by
  have remembers := @remembers_reached provider config property presets steps
  cases created with
  | @defaults entity made => exact (yields_defaultsFor presets entity _ remembers).2 options made
  | @request entity params made =>
      have kept : (propertyMemory provider config property).Yields (fromParams entity params)
          property :=
        yields_request presets fun _ _ holds overridden => override_keeps keeps holds overridden
      exact (kept _ remembers).2 options made

end

end Factory

end QueryOptions
