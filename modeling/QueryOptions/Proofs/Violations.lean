import QueryOptions.Proofs.Factory

/-!
All that is wrong with options, listed in the order in which it is looked for, and the conditions
that options with nothing wrong keep to. The checks report the head of the list.
-/

namespace QueryOptions

namespace Outcome

def firstOf : List ε → Except ε Unit
  | [] => .ok ()
  | fault :: _ => .error fault

theorem firstOf_eq_ok_iff (faults : List ε) : firstOf faults = .ok () ↔ faults = [] := by
  cases faults with
  | nil => simp [firstOf]
  | cons fault faults => simp [firstOf]

theorem firstOf_append (first second : List ε) :
    firstOf (first ++ second) = (do firstOf first; firstOf second) := by
  cases first with
  | nil => rfl
  | cons fault first => rfl

theorem forM_firstOf (faults : α → List ε) (items : List α) :
    items.forM (fun item => firstOf (faults item)) = firstOf (items.flatMap faults) := by
  induction items with
  | nil => rfl
  | cons item items ih =>
      rw [List.flatMap_cons, firstOf_append, ← ih]
      rfl

end Outcome

open Outcome (firstOf firstOf_append)

namespace Validation

def Conforms (catalog : PropertyCatalog) (expands : List Expand) (filters : Option Filter) : Prop :=
  ∀ filter ∈ filters, ∀ comparison ∈ filter.leaves, Permits catalog expands comparison

inductive ValidNode (catalogOf : Entity → Except Error EntityCatalog) :
    EntityCatalog → Expand → Prop
  | mk {catalog target : EntityCatalog} {node : Expand} {definition : ExpandDefinition}
      (declared : catalog.expand? node.property = some definition)
      (built : catalogOf definition.target = .ok target)
      (filters : Conforms (definition.catalog.getD target.properties) node.children node.filters)
      (orderings : ∀ order ∈ node.orderBy,
        order.property ∈ definition.orderable.getD target.orderable)
      (columns : ∀ name ∈ node.select, name ∈ target.selectable)
      (children : ∀ child ∈ node.children, ValidNode catalogOf target child) :
      ValidNode catalogOf catalog node

def comparisonFaults (catalog : PropertyCatalog) (expands : List Expand)
    (comparison : Comparison) : List Error :=
  match catalog.get? comparison.property with
  | none => [.unknownProperty comparison.property catalog.names]
  | some definition =>
      let missing := definition.dependency.toList.filter fun relation =>
        relation.name ∉ expands.map (·.property)
      let refused := comparison.operand.values.filter fun value => !definition.permits value
      missing.map (fun relation => .expandRequired comparison.property relation.name) ++
        refused.map fun value =>
          .valueNotAllowed comparison.property value (definition.allowed.getD [])

def filterFaults (catalog : PropertyCatalog) (expands : List Expand) (filters : Option Filter) :
    List Error :=
  filters.toList.flatMap fun filter => filter.leaves.flatMap (comparisonFaults catalog expands)

def nameFaults (allowed names : List String) : List Error :=
  (names.filter (· ∉ allowed)).map (.unknownProperty · allowed)

mutual

/-- What is wrong with an expansion of the entity whose catalog is given, and with those nested in
it. Where the relation or its target is unknown, nothing else can be looked for. -/
def nodeFaults (catalogOf : Entity → Except Error EntityCatalog) (catalog : EntityCatalog) :
    Expand → List Error
  | ⟨property, filters, orderBy, select, _, _, _, children⟩ =>
      match catalog.expand? property with
      | none => [.notExpandable property catalog.entity catalog.expandNames]
      | some definition =>
          match catalogOf definition.target with
          | .error error => [error]
          | .ok target =>
              filterFaults (definition.catalog.getD target.properties) children filters ++
                nameFaults (definition.orderable.getD target.orderable)
                  (orderBy.map (·.property)) ++
                nameFaults target.selectable select ++ nodesFaults catalogOf target children

def nodesFaults (catalogOf : Entity → Except Error EntityCatalog) (catalog : EntityCatalog) :
    List Expand → List Error
  | [] => []
  | node :: nodes => nodeFaults catalogOf catalog node ++ nodesFaults catalogOf catalog nodes

end

end Validation

namespace Options

structure Valid (catalogOf : Entity → Except Error EntityCatalog) (options : Options) : Prop where
  filters : Validation.Conforms options.catalog.properties options.expandNodes options.filters
  orderings : ∀ order ∈ options.orderBy.getD [], order.property ∈ options.catalog.orderable
  columns : ∀ name ∈ options.select.getD [], name ∈ options.catalog.selectable
  expansions : ∀ node ∈ options.expandNodes,
    Validation.ValidNode catalogOf options.catalog node

/-- What is wrong with options: filters from left to right, then orderings, then columns, and last
the expansions, each with all that is nested in it. -/
def faults (catalogOf : Entity → Except Error EntityCatalog) (options : Options) : List Error :=
  Validation.filterFaults options.catalog.properties options.expandNodes options.filters ++
    Validation.nameFaults options.catalog.orderable
      ((options.orderBy.getD []).map (·.property)) ++
    Validation.nameFaults options.catalog.selectable (options.select.getD []) ++
    Validation.nodesFaults catalogOf options.catalog options.expandNodes

end Options

namespace Validation

theorem missingRelation?_eq (definition : PropertyDefinition) (expands : List Expand) :
    missingRelation? definition expands =
      (definition.dependency.toList.filter fun relation =>
        relation.name ∉ expands.map (·.property)).head?.map (·.name) := by
  cases dependency : definition.dependency with
  | none => simp [missingRelation?, dependency]
  | some relation =>
      have found : (Expand.find? expands relation.name).isNone =
          decide (relation.name ∉ expands.map (·.property)) := by
        rw [Bool.eq_iff_iff]
        simp [Expand.find?]
      by_cases expanded : relation.name ∈ expands.map (·.property)
      · simp only [missingRelation?, dependency, Option.map_some, Option.filter_some, found,
          Option.toList_some, List.filter_singleton, expanded]
        rfl
      · simp only [missingRelation?, dependency, Option.map_some, Option.filter_some, found,
          Option.toList_some, List.filter_singleton, expanded]
        rfl

theorem checkComparison_eq (catalog : PropertyCatalog) (expands : List Expand)
    (comparison : Comparison) :
    checkComparison catalog expands comparison =
      firstOf (comparisonFaults catalog expands comparison) := by
  rw [checkComparison, comparisonFaults]
  cases catalog.get? comparison.property with
  | none => rfl
  | some definition =>
      dsimp only
      rw [missingRelation?_eq, refusedValue?, ← List.head?_filter]
      generalize definition.dependency.toList.filter _ = missing
      generalize comparison.operand.values.filter _ = refused
      cases missing with
      | cons relation missing => rfl
      | nil =>
          cases refused with
          | cons value refused => rfl
          | nil => rfl

theorem checkFilters_eq (catalog : PropertyCatalog) (expands : List Expand)
    (filters : Option Filter) :
    checkFilters catalog expands filters = firstOf (filterFaults catalog expands filters) := by
  cases filters with
  | none => rfl
  | some filter =>
      have each : checkComparison catalog expands =
          fun comparison => firstOf (comparisonFaults catalog expands comparison) :=
        funext (checkComparison_eq catalog expands)
      simp only [checkFilters, checkFilter, filterFaults, each, Outcome.forM_firstOf,
        Option.toList_some, List.flatMap_singleton]

theorem checkSelect_eq (allowed names : List String) :
    checkSelect allowed names = firstOf (nameFaults allowed names) := by
  have each : checkName allowed = fun name => firstOf (nameFaults allowed [name]) := by
    funext name
    by_cases member : name ∈ allowed <;> simp [checkName, nameFaults, member, firstOf]
  have together : nameFaults allowed names = names.flatMap fun name => nameFaults allowed [name] := by
    induction names with
    | nil => rfl
    | cons name names ih =>
        rw [List.flatMap_cons, ← ih, nameFaults, nameFaults, nameFaults, ← List.map_append,
          ← List.filter_append, List.singleton_append]
  rw [checkSelect, each, Outcome.forM_firstOf, together]

theorem checkOrderBy_eq (allowed : List String) (orders : List OrderBy) :
    checkOrderBy allowed orders = firstOf (nameFaults allowed (orders.map (·.property))) := by
  rw [← checkSelect_eq, checkOrderBy, checkSelect]
  induction orders with
  | nil => rfl
  | cons order orders ih =>
      rw [List.map_cons, List.forM, List.forM, ih]

theorem conforms_iff (catalog : PropertyCatalog) (expands : List Expand)
    (filters : Option Filter) :
    filterFaults catalog expands filters = [] ↔ Conforms catalog expands filters := by
  rw [← Outcome.firstOf_eq_ok_iff, ← checkFilters_eq, checkFilters_eq_ok_iff, Conforms]

theorem nameFaults_eq_nil_iff (allowed names : List String) :
    nameFaults allowed names = [] ↔ ∀ name ∈ names, name ∈ allowed := by
  rw [← Outcome.firstOf_eq_ok_iff, ← checkSelect_eq, checkSelect_eq_ok_iff]

theorem checkLocal_eq (definition : ExpandDefinition) (target : EntityCatalog) (node : Expand) :
    checkLocal definition target node =
      firstOf (filterFaults (definition.catalog.getD target.properties) node.children node.filters ++
        nameFaults (definition.orderable.getD target.orderable) (node.orderBy.map (·.property)) ++
        nameFaults target.selectable node.select) := by
  rw [checkLocal, checkFilters_eq, checkOrderBy_eq, checkSelect_eq, List.append_assoc,
    firstOf_append, firstOf_append]

theorem checkNodes_eq {schema : Schema} {nodes : List Expand}
    (each : ∀ node ∈ nodes, ∀ catalog,
      schema.checkNode catalog node = firstOf (nodeFaults schema.catalog catalog node))
    (catalog : EntityCatalog) :
    schema.checkNodes catalog nodes = firstOf (nodesFaults schema.catalog catalog nodes) := by
  induction nodes with
  | nil => rw [Schema.checkNodes, nodesFaults, firstOf]
  | cons node nodes ih =>
      rw [Schema.checkNodes, nodesFaults, firstOf_append, each node (by simp),
        ih fun node member => each node (by simp [member])]

theorem checkNode_eq (schema : Schema) (node : Expand) (catalog : EntityCatalog) :
    schema.checkNode catalog node = firstOf (nodeFaults schema.catalog catalog node) := by
  induction node generalizing catalog with
  | node property filters orderBy select top skip skiptoken children ih =>
      rw [Schema.checkNode, nodeFaults]
      cases catalog.expand? property with
      | none => rfl
      | some definition =>
          dsimp only
          cases schema.catalog definition.target with
          | error error => rfl
          | ok target =>
              dsimp only
              rw [firstOf_append, ← checkNodes_eq ih]
              have here := checkLocal_eq definition target
                ⟨property, filters, orderBy, select, top, skip, skiptoken, children⟩
              dsimp only at here
              rw [← here]
              rfl

theorem nodesFaults_eq_nil_iff (catalogOf : Entity → Except Error EntityCatalog)
    (catalog : EntityCatalog) (nodes : List Expand) :
    nodesFaults catalogOf catalog nodes = [] ↔
      ∀ node ∈ nodes, nodeFaults catalogOf catalog node = [] := by
  induction nodes with
  | nil => simp [nodesFaults]
  | cons node nodes ih => simp [nodesFaults, ih]

theorem validNode_iff (catalogOf : Entity → Except Error EntityCatalog) (node : Expand)
    (catalog : EntityCatalog) :
    nodeFaults catalogOf catalog node = [] ↔ ValidNode catalogOf catalog node := by
  induction node generalizing catalog with
  | node property filters orderBy select top skip skiptoken children ih =>
      have below : ∀ target, nodesFaults catalogOf target children = [] ↔
          ∀ child ∈ children, ValidNode catalogOf target child := by
        intro target
        rw [nodesFaults_eq_nil_iff]
        exact forall₂_congr fun child member => ih child member target
      rw [nodeFaults]
      constructor
      · intro none
        split at none
        · contradiction
        · rename_i definition declared
          split at none
          · contradiction
          · rename_i target built
            simp only [List.append_eq_nil_iff, conforms_iff, nameFaults_eq_nil_iff, below,
              List.forall_mem_map] at none
            obtain ⟨⟨⟨conforms, orderings⟩, columns⟩, valid⟩ := none
            exact .mk declared built conforms orderings columns valid
      · rintro (@⟨_, target, _, definition, declared, built, conforms, orderings, columns, valid⟩)
        simp only at declared conforms orderings columns valid
        simp only [declared, built, List.append_eq_nil_iff, conforms_iff, nameFaults_eq_nil_iff,
          below, List.forall_mem_map]
        exact ⟨⟨⟨conforms, orderings⟩, columns⟩, valid⟩

end Validation

namespace Schema

theorem check_eq_firstOf {schema : Schema} {options : Options}
    (own : schema.catalog options.entity = .ok options.catalog) :
    schema.check options = firstOf (options.faults schema.catalog) := by
  have local_eq : options.checkLocal = firstOf
      (Validation.filterFaults options.catalog.properties options.expandNodes options.filters ++
        Validation.nameFaults options.catalog.orderable
          ((options.orderBy.getD []).map (·.property)) ++
        Validation.nameFaults options.catalog.selectable (options.select.getD [])) := by
    rw [Options.checkLocal, Validation.checkFilters_eq, Validation.checkOrderBy_eq,
      Validation.checkSelect_eq, List.append_assoc, firstOf_append, firstOf_append]
  have nodes_eq := Validation.checkNodes_eq
    (fun node (_ : node ∈ options.expandNodes) => Validation.checkNode_eq schema node)
    options.catalog
  rw [check, Options.faults, firstOf_append, ← local_eq, ← nodes_eq, own]
  cases options.expandNodes with
  | nil =>
      rw [checkNodes]
      rfl
  | cons node nodes => rfl

end Schema

theorem Options.valid_iff (catalogOf : Entity → Except Error EntityCatalog) (options : Options) :
    options.faults catalogOf = [] ↔ options.Valid catalogOf := by
  simp only [faults, List.append_eq_nil_iff, Validation.conforms_iff,
    Validation.nameFaults_eq_nil_iff, Validation.nodesFaults_eq_nil_iff, Validation.validNode_iff,
    List.forall_mem_map]
  constructor
  · rintro ⟨⟨⟨filters, orderings⟩, columns⟩, expansions⟩
    exact ⟨filters, orderings, columns, expansions⟩
  · rintro ⟨filters, orderings, columns, expansions⟩
    exact ⟨⟨⟨filters, orderings⟩, columns⟩, expansions⟩

def Registry.catalogOf (registry : Registry) (entity : Entity) : Except Error EntityCatalog :=
  ((Registry.catalog entity).run.run registry).1

theorem Registry.catalogOf_eq {schema : Schema} {registry : Registry}
    (faithful : Faithful schema registry) : registry.catalogOf = schema.catalog :=
  funext fun entity => (answers_catalog schema entity registry faithful).1

/-- Whatever a registry over a schema was used for before, checking options of one of its catalogs
reports the first of their faults, and passes exactly the valid ones. -/
theorem Options.check_exact (schema : Schema) (config : Config) (steps : List Factory.Step)
    (options : Options)
    (own : (Factory.after schema config steps).registry.catalogOf options.entity =
      .ok options.catalog) :
    let registry := (Factory.after schema config steps).registry
    (options.check.run.run registry).1 = firstOf (options.faults registry.catalogOf) ∧
      ((options.check.run.run registry).1 = .ok () ↔ options.Valid registry.catalogOf) := by
  intro registry
  have faithful := (Factory.faithful_after schema config steps).registry_faithful
  have sameCatalogs : registry.catalogOf = schema.catalog := Registry.catalogOf_eq faithful
  have checked : (options.check.run.run registry).1 = firstOf (options.faults schema.catalog) := by
    rw [(answers_check schema options registry faithful).1]
    exact Schema.check_eq_firstOf (by rw [← sameCatalogs, own])
  rw [sameCatalogs, checked, Outcome.firstOf_eq_ok_iff, valid_iff]
  exact ⟨rfl, Iff.rfl⟩

def ExpandDefinition.author : ExpandDefinition :=
  ⟨"author", "person", some ⟨[⟨"born", some [.integer 1900], none⟩]⟩, some ["born"]⟩

def Schema.library : Schema :=
  ⟨[("book",
      { properties := [⟨"title", none, none⟩, ⟨"author.name", none, some .author⟩],
        expands := [.author] }),
    ("person",
      { properties := [⟨"name", none, none⟩], expands := [⟨"books", "book", none, none⟩] })]⟩

def Options.misordered : Options where
  catalog :=
    { entity := "book",
      properties := ⟨[⟨"title", none, none⟩, ⟨"author.name", none, some .author⟩]⟩,
      orderable := ["title", "author.name"], selectable := ["title", "author.name"],
      expands := [.author] }
  filters := some (.leaf ⟨"author.name", .eq, .single (.text "Ann"), none⟩)
  expand := some
    [{ property := "author",
       filters := some (.leaf ⟨"born", .eq, .single (.real (.ofInt 1900)), none⟩),
       orderBy := [⟨"name", .ascending⟩],
       children := [{ property := "books", select := ["isbn"] }] }]

/-- Of two faults the one nearer to the root is reported. -/
theorem Options.check_exact_misordered :
    let registry := (Factory.after .library {} [.lookUp "book", .forgetCatalog "person"]).registry
    registry.catalogOf misordered.entity = .ok misordered.catalog ∧
      (misordered.check.run.run registry).1 = .error (.unknownProperty "name" ["born"]) ∧
      ¬misordered.Valid registry.catalogOf ∧
      misordered.faults registry.catalogOf = [.unknownProperty "name" ["born"],
        .unknownProperty "isbn" ["title", "author.name"]] := by
  intro registry
  have own : registry.catalogOf misordered.entity = .ok misordered.catalog := rfl
  have faults : misordered.faults registry.catalogOf = [.unknownProperty "name" ["born"],
      .unknownProperty "isbn" ["title", "author.name"]] := by
    decide +kernel
  obtain ⟨reported, passes⟩ :=
    check_exact .library {} [.lookUp "book", .forgetCatalog "person"] misordered own
  have first : (misordered.check.run.run registry).1 = .error (.unknownProperty "name" ["born"]) :=
    reported.trans (congrArg firstOf faults)
  have refused : ¬misordered.Valid registry.catalogOf := fun valid =>
    nomatch first.symm.trans (passes.mpr valid)
  exact ⟨own, first, refused, faults⟩

end QueryOptions
