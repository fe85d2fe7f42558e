import QueryOptions.Proofs.Resolution
import QueryOptions.Proofs.Violations
import QueryOptions.Proofs.Whitelist

/-!
Going down into the expansions of an accepted request. The checks of the request look up all that a
descent looks up, and leave out one limit that a descent keeps to: the maximum of `top`.
-/

namespace QueryOptions

namespace Config

def Allows (config : Config) (top : Option UInt64) : Prop :=
  ∀ value ∈ top, ∀ maximum ∈ config.maxTop, value ≤ maximum

instance (config : Config) (top : Option UInt64) : Decidable (config.Allows top) :=
  decidable_of_iff
    (top.all fun value => config.maxTop.all fun maximum => decide (value ≤ maximum))
    (by simp [Allows, Option.all_eq_true])

end Config

namespace Options

theorem setTop_eq_ok_iff {options next : Options} {top : UInt64} :
    options.setTop top = .ok next ↔
      (∀ maximum ∈ options.maxTop, top ≤ maximum) ∧ next = { options with top := some top } := by
  rw [setTop_eq]
  cases options.maxTop with
  | none => simp [eq_comm]
  | some maximum =>
      by_cases above : maximum < top
      · have beyond : ¬top ≤ maximum := UInt64.not_le.mpr above
        simp [above, beyond]
      · have within : top ≤ maximum := UInt64.not_lt.mp above
        simp [above, within, eq_comm]

theorem whenGiven_setTop_iff {options next : Options} {top : Option UInt64} :
    options.whenGiven top setTop = .ok next ↔
      (∀ value ∈ top, ∀ maximum ∈ options.maxTop, value ≤ maximum) ∧
        next = { options with top := top.or options.top } := by
  cases top with
  | none =>
      cases options
      simp [whenGiven, eq_comm]
  | some value => simp [whenGiven, setTop_eq_ok_iff]

/-- Defaults with what an expand node asks for in their place. -/
def overlaid (definition : ExpandDefinition) (node : Expand) (options : Options) : Options :=
  { options with
    top := node.top.or options.top
    skip := if node.skip = 0 then options.skip else node.skip
    skiptoken := node.skiptoken.or options.skiptoken
    filters := (node.filters.map (·.bindTo
      (definition.catalog.getD options.catalog.properties))).or options.filters
    orderBy := if node.orderBy.isEmpty then options.orderBy else some node.orderBy
    select := if node.select.isEmpty then options.select else some node.select
    expand := if node.children.isEmpty then options.expand else some node.children }

theorem overlay_eq_ok_iff {definition : ExpandDefinition} {node : Expand}
    {options nested : Options} :
    options.overlay definition node = .ok nested ↔
      (∀ value ∈ node.top, ∀ maximum ∈ options.maxTop, value ≤ maximum) ∧
        nested = options.overlaid definition node := by
  have filters : ∀ options : Options,
      node.filters.elim options (options.setNodeFilters definition.catalog) =
        { options with filters := (node.filters.map (·.bindTo
          (definition.catalog.getD options.catalog.properties))).or options.filters } := by
    intro options
    cases options
    cases node.filters with
    | none => rfl
    | some filter => cases definition.catalog <;> rfl
  have orderBy : ∀ options : Options,
      (if node.orderBy.isEmpty then options else options.setOrderBy node.orderBy) =
        { options with
          orderBy := if node.orderBy.isEmpty then options.orderBy else some node.orderBy } := by
    intro options
    cases options
    split <;> rfl
  have select : ∀ options : Options,
      (if node.select.isEmpty then options else options.setSelect node.select) =
        { options with
          select := if node.select.isEmpty then options.select else some node.select } := by
    intro options
    cases options
    split <;> rfl
  have skip : ∀ options : Options,
      (if node.skip = 0 then options else options.setSkip node.skip) =
        { options with skip := if node.skip = 0 then options.skip else node.skip } := by
    intro options
    cases options
    split <;> rfl
  have token : ∀ options : Options, node.skiptoken.elim options options.setSkiptoken =
      { options with skiptoken := node.skiptoken.or options.skiptoken } := by
    intro options
    cases options
    cases node.skiptoken <;> rfl
  have expand : ∀ options : Options,
      (if node.children.isEmpty then options else options.setExpand node.children) =
        { options with
          expand := if node.children.isEmpty then options.expand else some node.children } := by
    intro options
    cases options
    split <;> rfl
  rw [overlay]
  simp only [filters, orderBy, select, skip, token, expand, Outcome.bind_eq_ok,
    whenGiven_setTop_iff, Except.ok.injEq]
  constructor
  · rintro ⟨_, ⟨within, rfl⟩, rfl⟩
    exact ⟨within, rfl⟩
  · rintro ⟨within, rfl⟩
    exact ⟨_, ⟨within, rfl⟩, rfl⟩

theorem relation_eq_ok_iff {options : Options} {property : String} {node : Expand}
    {definition : ExpandDefinition} :
    options.relation property = .ok (node, definition) ↔
      Expand.find? options.expandNodes property = some node ∧
        options.catalog.expand? property = some definition := by
  rw [relation]
  cases Expand.find? options.expandNodes property with
  | none => simp
  | some found =>
      cases options.catalog.expand? property with
      | none => simp
      | some declared => simp

def Stale (options : Options) (property : String) : Prop :=
  ∀ node, Expand.find? options.expandNodes property = some node →
    (options.expansion? property).filter (·.applied == node.key) = none

theorem stale_of_fresh {options : Options} (fresh : options.nested = []) (property : String) :
    options.Stale property := by
  intro node _
  rw [expansion?, fresh]
  rfl

/-- The options that descending along a path of relations hands out in the end. -/
def reach (options : Options) (path : List String) (factory : Factory) : Except Error Options :=
  ((changeAt get path options).run factory).1.1

theorem reach_cons (options : Options) (property : String) (path : List String)
    (factory : Factory) :
    options.reach (property :: path) factory =
      (options.descended property factory).1.bind fun expansion =>
        expansion.options.reach path ((options.handOut property).run.run factory).2 := by
  rw [reach, run_changeAt_cons]
  cases (options.descended property factory).1 <;> rfl

end Options

theorem Factory.preset_eq_ok_iff {config : Config} {catalog : EntityCatalog} {options : Options} :
    preset config catalog = .ok options ↔ config.Allows config.defaultTop ∧
      options = { catalog, top := config.defaultTop, maxTop := config.maxTop } := by
  rw [preset, Options.whenGiven_setTop_iff, Option.or_none]
  rfl

namespace Schema

def reach (schema : Schema) (config : Config) : Options → List String → Except Error Options
  | options, [] => .ok options
  | options, property :: path => do
      let expansion ← schema.descend config options property
      schema.reach config expansion.options path

theorem reach_eq {schema : Schema} {config : Config} {factory : Factory}
    (faithful : Factory.Faithful schema config factory) (options : Options) (path : List String) :
    options.reach path factory = schema.reach config options path := by
  induction path generalizing options factory with
  | nil => rfl
  | cons property path ih =>
      obtain ⟨same, later⟩ :=
        Factory.answers_descend schema config options property factory faithful
      rw [Options.run_handOut] at same
      rw [Options.reach_cons, reach, ← same]
      refine congrArg (Except.bind _) (funext fun expansion => ?_)
      exact ih later expansion.options

structure Makes (schema : Schema) (config : Config) (options : Options) (property : String)
    (node : Expand) (definition : ExpandDefinition) (target : EntityCatalog) (nested : Options) :
    Prop where
  found : Expand.find? options.expandNodes property = some node
  declared : options.catalog.expand? property = some definition
  built : schema.catalog definition.target = .ok target
  presets : config.Allows config.defaultTop
  allowed : config.Allows node.top
  nested_eq : nested =
    Options.overlaid definition node
      { catalog := target, top := config.defaultTop, maxTop := config.maxTop }

theorem makes_iff {schema : Schema} {config : Config} {options : Options} {property : String}
    {nested : Options} :
    (∃ node definition, options.relation property = .ok (node, definition) ∧
      (schema.defaults config definition.target >>= Options.overlay definition node) =
        .ok nested) ↔
      ∃ node definition target, schema.Makes config options property node definition target nested := by
  constructor
  · rintro ⟨node, definition, related, made⟩
    obtain ⟨found, declared⟩ := Options.relation_eq_ok_iff.mp related
    obtain ⟨defaults, madeDefaults, overlaid⟩ := Outcome.bind_eq_ok.mp made
    obtain ⟨target, built, preset⟩ := Outcome.bind_eq_ok.mp madeDefaults
    obtain ⟨presets, rfl⟩ := Factory.preset_eq_ok_iff.mp preset
    obtain ⟨allowed, nestedEq⟩ := Options.overlay_eq_ok_iff.mp overlaid
    exact ⟨node, definition, target, found, declared, built, presets, allowed, nestedEq⟩
  · rintro ⟨node, definition, target, makes⟩
    refine ⟨node, definition, Options.relation_eq_ok_iff.mpr ⟨makes.found, makes.declared⟩, ?_⟩
    have defaults : schema.defaults config definition.target =
        .ok { catalog := target, top := config.defaultTop, maxTop := config.maxTop } :=
      Outcome.bind_eq_ok.mpr
        ⟨target, makes.built, Factory.preset_eq_ok_iff.mpr ⟨makes.presets, rfl⟩⟩
    rw [defaults]
    exact Options.overlay_eq_ok_iff.mpr ⟨makes.allowed, makes.nested_eq⟩

theorem reach_cons_eq_ok_iff {schema : Schema} {config : Config} {options last : Options}
    {property : String} (stale : options.Stale property) (path : List String) :
    schema.reach config options (property :: path) = .ok last ↔
      ∃ node definition target nested,
        schema.Makes config options property node definition target nested ∧
          schema.reach config nested path = .ok last := by
  have descends : ∀ node definition, options.relation property = .ok (node, definition) →
      schema.descend config options property = (do
        let nested ← schema.defaults config definition.target >>= Options.overlay definition node
        .ok ⟨property, nested, node.key, none⟩) := by
    intro node definition related
    rw [descend, related]
    have none := stale node (Options.relation_eq_ok_iff.mp related).1
    simp only [none, bind, Except.bind]
  rw [reach, Outcome.bind_eq_ok]
  constructor
  · rintro ⟨expansion, descended, reached⟩
    obtain ⟨⟨node, definition⟩, related, _⟩ := Outcome.bind_eq_ok.mp descended
    rw [descends node definition related] at descended
    obtain ⟨nested, made, descended⟩ := Outcome.bind_eq_ok.mp descended
    cases descended
    obtain ⟨node, definition, target, makes⟩ := makes_iff.mp ⟨node, definition, related, made⟩
    exact ⟨node, definition, target, nested, makes, reached⟩
  · rintro ⟨node, definition, target, nested, makes, reached⟩
    obtain ⟨node, definition, related, made⟩ := makes_iff.mpr ⟨node, definition, target, makes⟩
    refine ⟨⟨property, nested, node.key, none⟩, ?_, reached⟩
    rw [descends node definition related]
    exact Outcome.bind_eq_ok.mpr ⟨nested, made, rfl⟩

namespace Makes

variable {schema : Schema} {config : Config} {options nested : Options} {property : String}
  {node : Expand} {definition : ExpandDefinition} {target : EntityCatalog}
  (makes : schema.Makes config options property node definition target nested)

include makes

theorem catalog_eq : nested.catalog = target := by
  rw [makes.nested_eq]
  rfl

theorem fresh : nested.nested = [] := by
  rw [makes.nested_eq]
  rfl

theorem own : schema.catalog nested.entity = .ok nested.catalog := by
  rw [Options.entity, makes.catalog_eq, catalog_entity makes.built]
  exact makes.built

theorem expandNodes_eq : nested.expandNodes = node.children := by
  rw [makes.nested_eq, Options.expandNodes, Options.overlaid]
  cases node.children <;> rfl

theorem mem : node ∈ options.expandNodes ∧ node.property = property :=
  ⟨List.mem_of_find?_eq_some makes.found, by simpa using List.find?_some makes.found⟩

end Makes

end Schema

namespace Expand

def follow : List Expand → List String → Option (List Expand)
  | _, [] => some []
  | nodes, property :: path => do
      let node ← find? nodes property
      let rest ← follow node.children path
      some (node :: rest)

theorem follow_cons_eq_some_iff {nodes found : List Expand} {property : String}
    {path : List String} :
    follow nodes (property :: path) = some found ↔
      ∃ node rest, find? nodes property = some node ∧ follow node.children path = some rest ∧
        found = node :: rest := by
  simp only [follow, Option.bind_eq_bind, Option.bind_eq_some_iff, Option.some.injEq]
  constructor
  · rintro ⟨node, isFirst, rest, below, rfl⟩
    exact ⟨node, rest, isFirst, below, rfl⟩
  · rintro ⟨node, rest, isFirst, below, rfl⟩
    exact ⟨node, isFirst, rest, below, rfl⟩

end Expand

namespace Schema

/-- Where the expansions of options are valid, nothing but `top` stands in the way of a descent. -/
theorem reaches_iff {schema : Schema} {config : Config} (presets : config.Allows config.defaultTop)
    {options : Options} (fresh : options.nested = [])
    (valid : ∀ node ∈ options.expandNodes,
      Validation.ValidNode schema.catalog options.catalog node)
    {path : List String} {nodes : List Expand}
    (followed : Expand.follow options.expandNodes path = some nodes) :
    (∃ last, schema.reach config options path = .ok last) ↔
      ∀ node ∈ nodes, config.Allows node.top := by
  induction path generalizing options nodes with
  | nil =>
      cases followed
      simp [reach]
  | cons property path ih =>
      obtain ⟨node, rest, found, below, rfl⟩ := Expand.follow_cons_eq_some_iff.mp followed
      have named : node.property = property := by simpa using List.find?_some found
      obtain @⟨_, target, _, definition, declared, built, _, _, _, children⟩ :=
        valid node (List.mem_of_find?_eq_some found)
      rw [named] at declared
      -- The nested options that are made start with none below them, so the induction goes on.
      have next : ∀ {nested}, schema.Makes config options property node definition target nested →
          ((∃ last, schema.reach config nested path = .ok last) ↔
            ∀ node ∈ rest, config.Allows node.top) := by
        intro nested makes
        refine ih makes.fresh ?_ ?_
        · rw [makes.expandNodes_eq, makes.catalog_eq]
          exact children
        · rw [makes.expandNodes_eq]
          exact below
      rw [List.forall_mem_cons]
      constructor
      · rintro ⟨last, reached⟩
        obtain ⟨_, _, _, nested, makes, reached⟩ :=
          (reach_cons_eq_ok_iff (Options.stale_of_fresh fresh property) path).mp reached
        cases Option.some.inj (found.symm.trans makes.found)
        cases Option.some.inj (declared.symm.trans makes.declared)
        cases Except.ok.inj (built.symm.trans makes.built)
        exact ⟨makes.allowed, (next makes).mp ⟨last, reached⟩⟩
      · rintro ⟨allowed, others⟩
        have makes : schema.Makes config options property node definition target _ :=
          ⟨found, declared, built, presets, allowed, rfl⟩
        obtain ⟨last, reached⟩ := (next makes).mpr others
        exact ⟨last, (reach_cons_eq_ok_iff (Options.stale_of_fresh fresh property) path).mpr
          ⟨node, definition, target, _, makes, reached⟩⟩

theorem check_eq_ok_iff {schema : Schema} {options : Options}
    (own : schema.catalog options.entity = .ok options.catalog) :
    schema.check options = .ok () ↔ options.Valid schema.catalog := by
  rw [check_eq_firstOf own, Outcome.firstOf_eq_ok_iff, Options.valid_iff]

theorem allows_of_request {schema : Schema} {config : Config} {entity : Entity} {params : Params}
    {options : Options} (accepted : schema.request config entity params = .ok options) :
    config.Allows config.defaultTop := by
  obtain ⟨defaults, made, _⟩ := Outcome.bind_eq_ok.mp accepted
  obtain ⟨catalog, _, preset⟩ := Outcome.bind_eq_ok.mp made
  exact (Factory.preset_eq_ok_iff.mp preset).1

theorem own_of_request {schema : Schema} {config : Config} {entity : Entity} {params : Params}
    {options : Options} (accepted : schema.request config entity params = .ok options) :
    schema.catalog options.entity = .ok options.catalog := by
  obtain ⟨catalog, built, bound, _⟩ := request_eq_ok accepted
  rw [Options.entity, bound.catalog_eq, catalog_entity built]
  exact built

end Schema

/-- Whatever a factory over a schema was used for before and after it accepted a request, a path
through the expansions of the request can be descended exactly when no node on it asks for a `top`
above the maximum. -/
theorem Factory.fromParams_descends_iff (schema : Schema) (config : Config)
    (before later : List Step) (entity : Entity) (params : Params) (options : Options)
    (accepted : ((fromParams entity params).run.run (after schema config before)).1 = .ok options)
    (path : List String) (nodes : List Expand)
    (followed : Expand.follow options.expandNodes path = some nodes) :
    (∃ nested, options.reach path (after schema config later) = .ok nested) ↔
      ∀ node ∈ nodes, config.Allows node.top := by
  have fresh : options.nested = [] := by
    have created : Creates (reached schema.provider config before) options := .request accepted
    exact Options.nested_created created
  rw [(answers_fromParams schema config entity params _ (faithful_after schema config before)).1]
    at accepted
  rw [Schema.reach_eq (faithful_after schema config later)]
  have own := Schema.own_of_request accepted
  obtain ⟨_, _, _, checked⟩ := Schema.request_eq_ok accepted
  have valid := (Schema.check_eq_ok_iff own).mp checked
  exact Schema.reaches_iff (Schema.allows_of_request accepted) fresh valid.expansions followed

def Schema.magazines : Schema :=
  ⟨[("magazine", { expands := [⟨"issues", "issue", none, none⟩] }),
    ("issue", { expands := [⟨"articles", "article", none, none⟩] }),
    ("article", { properties := [⟨"title", none, none⟩] })]⟩

def Params.issues (top : String) : Params where
  expand := some ("issues(top=" ++ top ++ ";expand=articles(filters=title eq 'a';top=2))")

theorem Factory.fromParams_descends_issues :
    ∃ options nested,
      ((fromParams "magazine" (.issues "5")).run.run
        (after .magazines { maxTop := some 5 } [.create "issue"])).1 = .ok options ∧
      options.reach ["issues", "articles"]
        (after .magazines { maxTop := some 5 } [.invalidate "article"]) = .ok nested := by
  have tested : ((fromParams "magazine" (.issues "5")).run.run
      (after .magazines { maxTop := some 5 } [.create "issue"])).1.toOption.any (fun options =>
        (Expand.follow options.expandNodes ["issues", "articles"]).any fun nodes =>
          nodes.all fun node => Config.Allows { maxTop := some 5 } node.top) = true := by
    decide +kernel
  obtain ⟨options, accepted, tested⟩ := Outcome.toOption_any tested
  obtain ⟨nodes, followed, tested⟩ := (Option.any_eq_true _ _).mp tested
  have allowed : ∀ node ∈ nodes, Config.Allows { maxTop := some 5 } node.top := by
    simpa using tested
  obtain ⟨nested, reached⟩ := (fromParams_descends_iff .magazines { maxTop := some 5 }
    [.create "issue"] [.invalidate "article"] "magazine" (.issues "5") options accepted
    ["issues", "articles"] nodes followed).mpr allowed
  exact ⟨options, nested, accepted, reached⟩

/-- The checks let a nested `top` above the maximum pass, and the descent refuses it. -/
theorem Factory.accepted_top_refused :
    ¬∀ (schema : Schema) (text : String) (config : Config) (before later : List Step)
      (entity : Entity) (params : Params) (options : Options), Config.ofJson text = .ok config →
      ((fromParams entity params).run.run (after schema config before)).1 = .ok options →
      ∀ path nodes, Expand.follow options.expandNodes path = some nodes →
        ∃ nested, options.reach path (after schema config later) = .ok nested := by
  intro all
  have loaded : Config.ofJson "\x7b\"max_top\": 5\x7d" = .ok { maxTop := some 5 } := by
    decide +kernel
  have tested : ((fromParams "magazine" (.issues "6")).run.run
      (after .magazines { maxTop := some 5 } [])).1.toOption.any (fun options =>
        (Expand.follow options.expandNodes ["issues"]).isSome &&
          (options.reach ["issues"] (after .magazines { maxTop := some 5 } [])).toOption.isNone) =
      true := by
    decide +kernel
  obtain ⟨options, accepted, tested⟩ := Outcome.toOption_any tested
  obtain ⟨followed, refused⟩ := Bool.and_eq_true_iff.mp tested
  obtain ⟨nodes, followed⟩ := Option.isSome_iff_exists.mp followed
  obtain ⟨nested, reached⟩ := all .magazines _ _ [] [] "magazine" (.issues "6") options loaded
    accepted ["issues"] nodes followed
  rw [reached] at refused
  cases refused

end QueryOptions
