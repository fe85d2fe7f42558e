import QueryOptions.Proofs.Descent

/-!
Valid options have valid nested options. The checks look at an expansion from above, with the node,
its relation and the catalog of the target; nested options are looked at from inside, by their own
catalog and their own expansions. As long as relations bring no catalogs or orderings of their own,
both views see the same.
-/

namespace QueryOptions

namespace Schema

/-- No relation has a catalog or orderable names of its own. -/
def Plain (schema : Schema) : Prop :=
  ∀ entry ∈ schema.descriptions, ∀ definition ∈ entry.2.expands,
    definition.catalog = none ∧ definition.orderable = none

theorem mem_of_find? {schema : Schema} {entity : Entity} {description : EntityDescription}
    (found : schema.find? entity = some description) :
    ∃ entry ∈ schema.descriptions, entry.2 = description := by
  obtain ⟨entry, isEntry, same⟩ := Option.map_eq_some_iff.mp found
  exact ⟨entry, List.mem_of_find?_eq_some isEntry, same⟩

theorem mem_expands_of_catalog {schema : Schema} {entity : Entity} {catalog : EntityCatalog}
    (built : schema.catalog entity = .ok catalog) :
    ∃ entry ∈ schema.descriptions, ∀ definition ∈ catalog.expands,
      definition ∈ entry.2.expands := by
  rw [Schema.catalog] at built
  split at built
  · contradiction
  · rename_i description found
    obtain ⟨entry, isEntry, rfl⟩ := mem_of_find? found
    obtain ⟨withProperties, properties, built⟩ := Outcome.bind_eq_ok.mp built
    obtain ⟨withExpands, expands, built⟩ := Outcome.bind_eq_ok.mp built
    obtain ⟨withOrderable, orderable, built⟩ := Outcome.bind_eq_ok.mp built
    obtain ⟨withSelectable, selectable, built⟩ := Outcome.bind_eq_ok.mp built
    simp only [Except.ok.injEq] at built
    have keepsNone : ∀ draft : EntityCatalog.Draft, ∀ definition ∈ entry.2.properties, ∀ next,
        draft.expands = [] → draft.addProperty definition = .ok next → next.expands = [] := by
      intro draft definition _ next empty added
      obtain ⟨_, rfl⟩ := EntityCatalog.Draft.addProperty_eq_ok added
      exact empty
    have none : withProperties.expands = [] := Outcome.foldlM_keeps keepsNone rfl properties
    have keepsDescribed : ∀ draft : EntityCatalog.Draft, ∀ definition ∈ entry.2.expands, ∀ next,
        (∀ other ∈ draft.expands, other ∈ entry.2.expands) →
          draft.addExpand definition = .ok next → ∀ other ∈ next.expands,
            other ∈ entry.2.expands := by
      intro draft definition member next described added other isOther
      rw [EntityCatalog.Draft.addExpand_eq_ok added, List.mem_append, List.mem_singleton] at isOther
      rcases isOther with earlier | rfl
      · exact described other earlier
      · exact member
    have described : ∀ definition ∈ withExpands.expands, definition ∈ entry.2.expands :=
      Outcome.foldlM_keeps keepsDescribed (by simp [none]) expands
    refine ⟨entry, isEntry, ?_⟩
    rw [← built, EntityCatalog.Draft.build, EntityCatalog.Draft.setSelectable_eq_ok selectable,
      EntityCatalog.Draft.setOrderable_eq_ok orderable]
    exact described

theorem Plain.expand? {schema : Schema} (plain : schema.Plain) {entity : Entity}
    {catalog : EntityCatalog} (built : schema.catalog entity = .ok catalog) {property : String}
    {definition : ExpandDefinition} (declared : catalog.expand? property = some definition) :
    definition.catalog = none ∧ definition.orderable = none := by
  obtain ⟨entry, isEntry, described⟩ := mem_expands_of_catalog built
  exact plain entry isEntry definition
    (described definition (List.mem_of_find?_eq_some declared))

end Schema

theorem Validation.Conforms.bindTo {catalog : PropertyCatalog} {expands : List Expand}
    {filters : Option Filter} (conforms : Conforms catalog expands filters)
    (bound : PropertyCatalog) : Conforms catalog expands (filters.map (·.bindTo bound)) := by
  intro filter given comparison member
  obtain ⟨original, isOriginal, rfl⟩ := Option.map_eq_some_iff.mp given
  rw [Filter.bindTo, Filter.leaves_mapLeaves] at member
  obtain ⟨unbound, isLeaf, rfl⟩ := List.mem_map.mp member
  exact conforms original isOriginal unbound isLeaf

namespace Schema

theorem Makes.valid {schema : Schema} (plain : schema.Plain) {config : Config}
    {options nested : Options} {property : String} {node : Expand} {definition : ExpandDefinition}
    {target : EntityCatalog}
    (makes : schema.Makes config options property node definition target nested)
    (own : schema.catalog options.entity = .ok options.catalog)
    (valid : options.Valid schema.catalog) : nested.Valid schema.catalog := by
  obtain ⟨isNode, named⟩ := makes.mem
  obtain @⟨_, _, _, _, declared, built, filters, orderings, columns, children⟩ :=
    valid.expansions node isNode
  rw [named] at declared
  cases Option.some.inj (declared.symm.trans makes.declared)
  cases Except.ok.inj (built.symm.trans makes.built)
  obtain ⟨noCatalog, noOrderable⟩ := plain.expand? own declared
  rw [noCatalog, Option.getD_none] at filters
  rw [noOrderable, Option.getD_none] at orderings
  have orderBy : nested.orderBy.getD [] = node.orderBy := by
    rw [makes.nested_eq, Options.overlaid]
    cases node.orderBy <;> rfl
  have select : nested.select.getD [] = node.select := by
    rw [makes.nested_eq, Options.overlaid]
    cases node.select <;> rfl
  refine ⟨?_, ?_, ?_, ?_⟩
  · rw [makes.catalog_eq, makes.expandNodes_eq, makes.nested_eq, Options.overlaid]
    simp only [Option.or_none]
    exact filters.bindTo _
  · rw [orderBy, makes.catalog_eq]
    exact orderings
  · rw [select, makes.catalog_eq]
    exact columns
  · rw [makes.expandNodes_eq, makes.catalog_eq]
    exact children

theorem valid_reach {schema : Schema} (plain : schema.Plain) {config : Config}
    {options last : Options} (fresh : options.nested = [])
    (own : schema.catalog options.entity = .ok options.catalog)
    (valid : options.Valid schema.catalog) {path : List String}
    (reached : schema.reach config options path = .ok last) :
    schema.catalog last.entity = .ok last.catalog ∧ last.Valid schema.catalog := by
  induction path generalizing options with
  | nil =>
      cases reached
      exact ⟨own, valid⟩
  | cons property path ih =>
      obtain ⟨node, definition, target, nested, makes, reached⟩ :=
        (reach_cons_eq_ok_iff (Options.stale_of_fresh fresh property) path).mp reached
      exact ih makes.fresh makes.own (makes.valid plain own valid) reached

end Schema

namespace Options

theorem catalog_setter {setter : Setter} {options next : Options}
    (set : setter.apply options = .ok next) : next.catalog = options.catalog := by
  cases setter with
  | top value => rw [setTop_eq_ok set]
  | mergeFilters connective filter =>
      cases set
      rw [mergeFilters]
      split <;> rfl
  | skip _ | skiptoken _ | filters _ | orderBy _ | select _ | expand _ | total _ =>
      cases set
      rfl

theorem catalog_attempt (setter : Setter) (options : Options) :
    (setter.attempt.run.run options).2.catalog = options.catalog := by
  have keeps : ∀ next, setter.apply options = .ok next → next.catalog = options.catalog :=
    fun _ => catalog_setter
  exact @attempt_keeps (fun next => next.catalog = options.catalog) setter options rfl keeps

theorem own_created {schema : Schema} {config : Config} {steps : List Factory.Step}
    {options : Options} (created : Factory.Creates (Factory.after schema config steps) options) :
    schema.catalog options.entity = .ok options.catalog := by
  have faithful := Factory.faithful_after schema config steps
  cases created with
  | @defaults entity made =>
      rw [Factory.create, (Factory.answers_defaultsFor schema config entity _ faithful).1] at made
      obtain ⟨catalog, built, preset⟩ := Outcome.bind_eq_ok.mp made
      obtain ⟨_, rfl⟩ := Factory.preset_eq_ok_iff.mp preset
      rw [Options.entity, Schema.catalog_entity built]
      exact built
  | @request entity params made =>
      rw [(Factory.answers_fromParams schema config entity params _ faithful).1] at made
      exact Schema.own_of_request made

end Options

namespace Session

theorem catalog_perform (session : Session) (action : Action) :
    (session.perform action).options.catalog = session.options.catalog := by
  cases action with
  | set setter => exact Options.catalog_attempt setter session.options
  | limitTop maxTop => rfl
  | markResolved property =>
      rw [perform, Options.markResolved]
      split <;> rfl
  | descend factory property change =>
      rw [perform_descend]
      split <;> rfl

theorem catalog_after (start : Options) (actions : List Action) :
    (after start actions).options.catalog = start.catalog := by
  have all : ∀ session : Session,
      (actions.foldl perform session).options.catalog = session.options.catalog := by
    induction actions with
    | nil => exact fun _ => rfl
    | cons action actions ih =>
        exact fun session => (ih _).trans (catalog_perform session action)
  exact all _

end Session

theorem Options.stale_of_madeFrom {options : Options} {factory : Factory} {property : String}
    {node : Expand} (made : options.madeFrom? factory property = some node) :
    options.Stale property := by
  intro present found
  rw [madeFrom?] at made
  split at made
  · rename_i expansion origin noted
    subst made
    cases related : options.relation property with
    | error error =>
        rw [run_descendNoting, related] at noted
        contradiction
    | ok pair =>
        obtain ⟨first, definition⟩ := pair
        have same := (relation_eq_ok_iff.mp related).1
        cases Option.some.inj (found.symm.trans same)
        rw [run_descendNoting, related] at noted
        dsimp only at noted
        cases kept : (options.expansion? property).filter (·.applied == present.key) with
        | none => rfl
        | some expansion =>
            rw [kept] at noted
            cases noted
  · contradiction

/-- Options that a factory over a plain schema made, after any session, and that pass their checks,
have nested options that pass theirs, as far down as a path goes that starts with a descent that
makes nested options. -/
theorem Options.check_inherited (schema : Schema) (plain : schema.Plain) (config : Config)
    (before later : List Factory.Step) (start : Options)
    (created : Factory.Creates (Factory.after schema config before) start) (actions : List Action) :
    let options := (Session.after start actions).options
    let factory := Factory.after schema config later
    (options.check.run.run factory.registry).1 = .ok () →
    ∀ property node, options.madeFrom? factory property = some node →
    ∀ path nested, options.reach (property :: path) factory = .ok nested →
      (nested.check.run.run factory.registry).1 = .ok () := by
  intro options factory passed property node made path nested reached
  have faithful := Factory.faithful_after schema config later
  have own : schema.catalog options.entity = .ok options.catalog := by
    rw [Options.entity, Session.catalog_after]
    exact own_created created
  have answers : ∀ options : Options, (options.check.run.run factory.registry).1 =
      schema.check options :=
    fun options => (answers_check schema options _ faithful.registry_faithful).1
  rw [answers, Schema.check_eq_ok_iff own] at passed
  rw [Schema.reach_eq faithful] at reached
  obtain ⟨_, _, _, first, makes, reached⟩ :=
    (Schema.reach_cons_eq_ok_iff (stale_of_madeFrom made) path).mp reached
  obtain ⟨nestedOwn, valid⟩ :=
    Schema.valid_reach plain makes.fresh makes.own (makes.valid plain own passed) reached
  rw [answers, Schema.check_eq_ok_iff nestedOwn]
  exact valid

def Options.magazine : Options where
  catalog :=
    { entity := "magazine", properties := ⟨[]⟩, orderable := [], selectable := [],
      expands := [⟨"issues", "issue", none, none⟩] }

def Session.browsing : List Action :=
  [.set (.expand [{ property := "issues" }]),
    .descend (Factory.after .magazines {} []) "issues" (·.setSelect ["isbn"]),
    .set (.expand [{ property := "issues", children :=
      [{ property := "articles", filters := some (.leaf ⟨"title", .eq, .single (.text "a"), none⟩),
         orderBy := [⟨"title", .descending⟩] }] }])]

/-- What was changed in the nested options of an earlier descent is gone with them. -/
theorem Options.check_inherited_articles :
    let options := (Session.after .magazine Session.browsing).options
    let factory := Factory.after .magazines {} [.create "article", .forgetCatalog "issue"]
    Schema.magazines.Plain ∧ Factory.Creates (Factory.after .magazines {} []) .magazine ∧
      (options.check.run.run factory.registry).1 = .ok () ∧
      (∃ node, options.madeFrom? factory "issues" = some node) ∧
      ∃ nested, options.reach ["issues", "articles"] factory = .ok nested ∧
        nested.filters.isSome = true ∧ (nested.check.run.run factory.registry).1 = .ok () := by
  intro options factory
  have plain : Schema.magazines.Plain := by simp [Schema.Plain, Schema.magazines]
  have created : Factory.Creates (Factory.after .magazines {} []) .magazine :=
    .defaults (rfl : ((Factory.create "magazine").run.run
      (Factory.after .magazines {} [])).1 = .ok .magazine)
  have tested : (options.check.run.run factory.registry).1.toOption.any (fun _ => true) = true := by
    decide +kernel
  obtain ⟨_, passed, _⟩ := Outcome.toOption_any tested
  have tested : (options.madeFrom? factory "issues").isSome = true := by
    decide +kernel
  obtain ⟨node, made⟩ := Option.isSome_iff_exists.mp tested
  have tested : (options.reach ["issues", "articles"] factory).toOption.any
      (fun nested => nested.filters.isSome) = true := by
    decide +kernel
  obtain ⟨nested, reached, filtered⟩ := Outcome.toOption_any tested
  exact ⟨plain, created, passed, ⟨node, made⟩, nested, reached, filtered,
    check_inherited .magazines plain {} [] [.create "article", .forgetCatalog "issue"] .magazine
      created Session.browsing passed "issues" node made ["articles"] nested reached⟩

end QueryOptions
