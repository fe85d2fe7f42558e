import QueryOptions.Compile
import QueryOptions.Proofs.Creation

/-!
Nothing but what the catalog of its entity declares reaches the query of an accepted request. The
calls are made from the definitions that filters were bound to, the checks by names; both look into
the same catalog.
-/

namespace QueryOptions

def Call.joined? : Call → Option (String × String)
  | join relation name => some (relation, name)
  | _ => none

/-- Calls that keep to a catalog: filters, orderings and columns name what it declares, and exactly
the expanded relations are joined, all of them declared and each under its own name. -/
structure Whitelisted (catalog : EntityCatalog) (expands : List Expand) (calls : List Call) :
    Prop where
  filters : ∀ filter, .filter filter ∈ calls → ∀ comparison ∈ filter.leaves,
    Validation.Permits catalog.properties expands comparison
  orderings : ∀ property direction, .orderBy property direction ∈ calls →
    property ∈ catalog.orderable
  columns : ∀ columns, .select columns ∈ calls → ∀ column ∈ columns, column ∈ catalog.selectable
  joins : calls.filterMap Call.joined? =
    (expands.map (·.property)).eraseDups.map fun relation => (relation, relation)
  declared : ∀ relation ∈ expands.map (·.property), relation ∈ catalog.expandNames

namespace Options

structure BoundTo (catalog : EntityCatalog) (options : Options) : Prop where
  catalog_eq : options.catalog = catalog
  definitions : ∀ filter ∈ options.filters, ∀ comparison ∈ filter.leaves,
    comparison.definition = catalog.properties.get? comparison.property

theorem boundTo_setFilters {catalog : EntityCatalog} {options : Options}
    (bound : options.BoundTo catalog) (filters : Filter) :
    (options.setFilters filters).BoundTo catalog := by
  refine ⟨bound.catalog_eq, ?_⟩
  intro filter given comparison member
  simp only [setFilters, Option.mem_some_iff] at given
  rw [← given, Filter.bindTo, Filter.leaves_mapLeaves] at member
  obtain ⟨original, _, rfl⟩ := List.mem_map.mp member
  rw [← bound.catalog_eq]

theorem boundTo_congr {catalog : EntityCatalog} {options next : Options}
    (bound : options.BoundTo catalog) (sameCatalog : next.catalog = options.catalog)
    (sameFilters : next.filters = options.filters) : next.BoundTo catalog :=
  ⟨sameCatalog.trans bound.catalog_eq, sameFilters ▸ bound.definitions⟩

theorem boundTo_setter {catalog : EntityCatalog} (setter : Setter) (options next : Options)
    (bound : options.BoundTo catalog) (set : setter.apply options = .ok next) :
    next.BoundTo catalog := by
  cases setter with
  | top value =>
      have nextEq := setTop_eq_ok set
      exact boundTo_congr bound (by rw [nextEq]) (by rw [nextEq])
  | filters filter =>
      cases set
      exact boundTo_setFilters bound filter
  | mergeFilters connective filter =>
      cases set
      rw [mergeFilters]
      split
      · exact boundTo_setFilters bound _
      · exact boundTo_setFilters bound filter
  | skip _ | skiptoken _ | orderBy _ | select _ | expand _ | total _ =>
      cases set
      exact boundTo_congr bound rfl rfl

theorem boundTo_preset {catalog : EntityCatalog} {config : Config} {options : Options}
    (preset : Factory.preset config catalog = .ok options) : options.BoundTo catalog := by
  have bare : BoundTo catalog { catalog, maxTop := config.maxTop } := ⟨rfl, by simp⟩
  exact whenGiven_keeps bare preset fun top set => boundTo_setter (.top top) _ _ bare set

theorem foldl_distinct (seen names : List String) :
    names.foldl (fun seen name => if seen.contains name then seen else seen ++ [name]) seen =
      seen ++ (names.removeAll seen).eraseDups := by
  induction names generalizing seen with
  | nil => simp
  | cons name names ih =>
      rw [List.foldl_cons, ih]
      by_cases known : name ∈ seen
      · simp [known, List.removeAll]
      · have fewer : names.removeAll (seen ++ [name]) =
            (names.removeAll seen).filter fun other => !other == name := by
          rw [List.removeAll, List.removeAll, List.filter_filter]
          congr 1
          funext other
          by_cases hit : other = name <;> simp [hit]
        have first : (name :: names).removeAll seen = name :: names.removeAll seen := by
          simp [List.removeAll, known]
        simp [known, fewer, first, List.eraseDups_cons]

theorem distinct_eq (names : List String) : distinct names = names.eraseDups := by
  have whole := foldl_distinct [] names
  rwa [List.removeAll_nil, List.nil_append] at whole

/-- Where the filters' dependencies are expanded they add nothing to the joins. -/
theorem joins_eq {options : Options} (covered : ∀ relation ∈ options.dependencies,
      relation ∈ options.expandNodes.map (·.property)) :
    options.joins = (options.expandNodes.map (·.property)).eraseDups := by
  have none : options.dependencies.removeAll (options.expandNodes.map (·.property)) = [] := by
    simpa [List.removeAll, List.filter_eq_nil_iff] using covered
  rw [joins, distinct_eq, List.eraseDups_append, none]
  simp

/-- The definitions that filters are bound to name no relations but those that the checks found
expanded. -/
theorem dependencies_expanded {catalog : EntityCatalog} {options : Options}
    (bound : options.BoundTo catalog)
    (permitted : ∀ filter ∈ options.filters, ∀ comparison ∈ filter.leaves,
      Validation.Permits catalog.properties options.expandNodes comparison) :
    ∀ relation ∈ options.dependencies, relation ∈ options.expandNodes.map (·.property) := by
  intro relation member
  rw [dependencies] at member
  split at member
  · simp at member
  · rename_i filter given
    obtain ⟨comparison, isLeaf, needed⟩ := List.mem_filterMap.mp member
    have inFilters : filter ∈ options.filters := given
    obtain ⟨definition, found, expanded, _⟩ := permitted filter inFilters comparison isLeaf
    -- The definition that the comparison carries is the one that the check looked up.
    rw [bound.definitions filter inFilters comparison isLeaf, found] at needed
    obtain ⟨dependency, depends, nameEq⟩ := Option.map_eq_some_iff.mp needed
    exact nameEq ▸ expanded dependency depends

theorem mem_compile_filter {options : Options} {filter : Filter}
    (called : .filter filter ∈ options.compile) : filter ∈ options.filters := by
  simpa [compile] using called

theorem mem_compile_orderBy {options : Options} {property : String} {direction : Direction}
    (called : .orderBy property direction ∈ options.compile) :
    ∃ order ∈ options.orderBy.getD [], order.property = property := by
  have found : ∃ order ∈ options.orderBy.getD [],
      order.property = property ∧ order.direction = direction := by
    simpa [compile] using called
  obtain ⟨order, member, same, _⟩ := found
  exact ⟨order, member, same⟩

theorem mem_compile_select {options : Options} {columns : List String}
    (called : .select columns ∈ options.compile) : columns = options.select.getD [] := by
  have given : ¬options.select.getD [] = [] ∧ columns = options.select.getD [] := by
    simpa [compile] using called
  exact given.2

theorem joined_compile (options : Options) :
    options.compile.filterMap Call.joined? =
      options.joins.map fun relation => (relation, relation) := by
  have joined : (options.joins.map fun relation => Call.join relation relation).filterMap
      Call.joined? = options.joins.map fun relation => (relation, relation) := by
    simp [List.filterMap_map, Function.comp_def, Call.joined?]
  simp only [compile, List.append_assoc]
  rw [List.filterMap_append, joined, List.filterMap_eq_nil_iff.mpr, List.append_nil]
  intro call member
  simp only [List.mem_append, List.mem_map, List.mem_ite_nil_left, List.mem_ite_nil_right,
    List.mem_singleton] at member
  rcases member with ⟨_, _, rfl⟩ | ⟨_, _, rfl⟩ | ⟨_, rfl⟩ | ⟨_, rfl⟩ | ⟨_, _, rfl⟩ <;> rfl

theorem whitelisted_compile {catalog : EntityCatalog} {options : Options}
    (bound : options.BoundTo catalog) (passed : options.checkLocal = .ok ⟨⟩)
    (declared : ∀ node ∈ options.expandNodes, node.property ∈ catalog.expandNames) :
    Whitelisted catalog options.expandNodes options.compile := by
  rw [checkLocal_eq_ok_iff, bound.catalog_eq] at passed
  obtain ⟨permitted, orderable, selectable⟩ := passed
  refine ⟨?_, ?_, ?_, ?_, ?_⟩
  · intro filter called
    exact permitted filter (mem_compile_filter called)
  · intro property direction called
    obtain ⟨order, member, same⟩ := mem_compile_orderBy called
    exact same ▸ orderable order member
  · intro columns called
    exact mem_compile_select called ▸ selectable
  · rw [joined_compile, joins_eq (dependencies_expanded bound permitted)]
  · intro relation member
    obtain ⟨node, isNode, rfl⟩ := List.mem_map.mp member
    exact declared node isNode

end Options

namespace Schema

theorem request_eq_ok {schema : Schema} {config : Config} {entity : Entity} {params : Params}
    {options : Options} (accepted : schema.request config entity params = .ok options) :
    ∃ catalog, schema.catalog entity = .ok catalog ∧ options.BoundTo catalog ∧
      schema.check options = .ok ⟨⟩ := by
  obtain ⟨defaults, made, accepted⟩ := Outcome.bind_eq_ok.mp accepted
  obtain ⟨overridden, override, accepted⟩ := Outcome.bind_eq_ok.mp accepted
  obtain ⟨_, checked, accepted⟩ := Outcome.bind_eq_ok.mp accepted
  obtain ⟨catalog, found, preset⟩ := Outcome.bind_eq_ok.mp made
  simp only [Except.ok.injEq] at accepted
  subst accepted
  have bound : overridden.BoundTo catalog :=
    Factory.override_keeps Options.boundTo_setter (Options.boundTo_preset preset) override
  exact ⟨catalog, found, bound, checked⟩

theorem declared_of_check {schema : Schema} {catalog : EntityCatalog} {options : Options}
    (found : schema.catalog options.entity = .ok catalog)
    (checked : schema.check options = .ok ⟨⟩) :
    ∀ node ∈ options.expandNodes, node.property ∈ catalog.expandNames := by
  obtain ⟨_, _, expands⟩ := Outcome.bind_eq_ok.mp checked
  split at expands
  · obtain ⟨same, lookedUp, passed⟩ := Outcome.bind_eq_ok.mp expands
    rw [found, Except.ok.injEq] at lookedUp
    subst lookedUp
    exact mem_expandNames_of_checkNodes passed
  · rename_i empty
    simp only [Bool.not_eq_true', Bool.not_eq_false, List.isEmpty_iff] at empty
    simp [empty]

end Schema

/-- Whatever a factory over a schema was used for before, a request that it accepts compiles to
calls that keep to the catalog of the entity, as the factory's own registry has it. -/
theorem Factory.fromParams_whitelisted (schema : Schema) (config : Config) (steps : List Step)
    (entity : Entity) (params : Params) (options : Options)
    (accepted : ((fromParams entity params).run.run (after schema config steps)).1 = .ok options) :
    ∃ catalog,
      ((Registry.catalog entity).run.run (after schema config steps).registry).1 = .ok catalog ∧
        catalog.entity = entity ∧ Whitelisted catalog options.expandNodes options.compile := by
  have faithful := faithful_after schema config steps
  rw [(answers_fromParams schema config entity params _ faithful).1] at accepted
  rw [(Registry.answers_catalog schema entity _ faithful.registry_faithful).1]
  obtain ⟨catalog, found, bound, checked⟩ := Schema.request_eq_ok accepted
  have named : catalog.entity = entity := Schema.catalog_entity found
  have own : schema.catalog options.entity = .ok catalog := by
    rw [Options.entity, bound.catalog_eq, named, found]
  obtain ⟨_, passed, _⟩ := Outcome.bind_eq_ok.mp checked
  exact ⟨catalog, found, named,
    Options.whitelisted_compile bound passed (Schema.declared_of_check own checked)⟩

def Schema.orders : Schema :=
  ⟨[("order",
      { properties := [⟨"total", none, none⟩, ⟨"state", some [.text "open"], none⟩,
          ⟨"customer.name", none, some ⟨"customer", "customer", none, none⟩⟩],
        expands := [⟨"customer", "customer", none, none⟩] }),
    ("customer", { properties := [⟨"name", none, none⟩] })]⟩

def Params.openOrders : Params where
  filters := some "customer.name eq 'Ann' and state eq 'open'"
  orderBy := some "total desc"
  expand := some "customer,customer(select=name)"

def Params.closedOrders : Params :=
  { Params.openOrders with filters := some "state eq 'open' and state eq 'closed'" }

/-- A relation that is expanded twice, and that a filter depends on, is joined once. A state that
is not allowed is neither accepted nor in a query. -/
theorem Factory.fromParams_whitelisted_orders :
    let factory := after .orders {} [.create "order", .invalidate "customer"]
    ((fromParams "order" .closedOrders).run.run factory).1 =
        .error (.valueNotAllowed "state" (.text "closed") [.text "open"]) ∧
      ∃ options catalog, ((fromParams "order" .openOrders).run.run factory).1 = .ok options ∧
        Whitelisted catalog options.expandNodes options.compile ∧
        (∀ filter, .filter filter ∈ options.compile → ∀ comparison ∈ filter.leaves,
          comparison.property = "state" → .text "closed" ∉ comparison.operand.values) ∧
        options.compile.filterMap Call.joined? = [("customer", "customer")] := by
  intro factory
  have refused : ((fromParams "order" .closedOrders).run.run factory).1 =
      .error (.valueNotAllowed "state" (.text "closed") [.text "open"]) := by
    decide +kernel
  have tested : ((fromParams "order" .openOrders).run.run factory).1.toOption.any (fun options =>
      options.compile.filterMap Call.joined? = [("customer", "customer")]) = true := by
    decide +kernel
  obtain ⟨options, accepted, joined⟩ := Outcome.toOption_any tested
  rw [decide_eq_true_eq] at joined
  obtain ⟨catalog, lookedUp, _, whitelisted⟩ := fromParams_whitelisted .orders {}
    [.create "order", .invalidate "customer"] "order" .openOrders options accepted
  have restricted : catalog.properties.get? "state" =
      some ⟨"state", some [.text "open"], none⟩ := by
    cases lookedUp
    rfl
  refine ⟨refused, options, catalog, accepted, whitelisted, ?_, joined⟩
  intro filter called comparison member onState closed
  obtain ⟨definition, found, _, values⟩ := whitelisted.filters filter called comparison member
  rw [onState, restricted] at found
  cases found
  obtain ⟨state, isOpen, same⟩ := values _ rfl (.text "closed") closed
  rw [List.mem_singleton.mp isOpen] at same
  exact absurd same (by decide)

end QueryOptions
