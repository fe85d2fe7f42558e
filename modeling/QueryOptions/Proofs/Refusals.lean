import QueryOptions.Proofs.Creation

/-!
What requests are refused for. Every reader, setter and check has its own reasons to fail, and none
of them is a fault of the host, as long as the catalogs of the schema can be built.
-/

namespace QueryOptions

namespace Error

inductive Reason
  | malformed
  | unknownProperty
  | invalidShape
  | valueNotAllowed
  | expandRequired
  | notExpandable
  | notQueryable
  | invalidExpand
  | invalidOption
  | inconsistent
deriving DecidableEq

def reason : Error → Reason
  | malformed .. => .malformed
  | unknownProperty .. => .unknownProperty
  | invalidShape .. => .invalidShape
  | valueNotAllowed .. => .valueNotAllowed
  | expandRequired .. => .expandRequired
  | notExpandable .. => .notExpandable
  | notQueryable .. => .notQueryable
  | invalidExpand .. => .invalidExpand
  | invalidOption .. => .invalidOption
  | inconsistent .. => .inconsistent

theorem reason_within (whole : String) (offset : Nat) (error : Error) :
    (error.within whole offset).reason = error.reason := by
  cases error <;> rfl

theorem isBadRequest_iff (error : Error) :
    error.isBadRequest = true ↔ error.reason ≠ .inconsistent := by
  cases error <;> simp [isBadRequest, kind, reason]

def filterReasons : List Reason :=
  [.malformed, .invalidShape]

def expandReasons : List Reason :=
  [.malformed, .invalidShape, .invalidExpand, .invalidOption]

def checkReasons : List Reason :=
  [.unknownProperty, .valueNotAllowed, .expandRequired, .notExpandable, .notQueryable]

def descentReasons : List Reason :=
  [.invalidExpand, .notExpandable, .notQueryable, .invalidOption]

end Error

def FailsFor (reasons : List Error.Reason) (outcome : Except Error α) : Prop :=
  ∀ error, outcome = .error error → error.reason ∈ reasons

section

variable {reasons : List Error.Reason}

theorem failsFor_ok (value : α) : FailsFor reasons (.ok value) :=
  fun _ failed => nomatch failed

theorem failsFor_error {error : Error} (member : error.reason ∈ reasons) :
    FailsFor reasons (.error error : Except Error α) := by
  rintro _ ⟨⟩
  exact member

theorem FailsFor.mono {more : List Error.Reason} {outcome : Except Error α}
    (fails : FailsFor reasons outcome) (subset : reasons ⊆ more) : FailsFor more outcome :=
  fun error failed => subset (fails error failed)

theorem FailsFor.bind {first : Except Error α} {next : α → Except Error β}
    (fails : FailsFor reasons first) (failsNext : ∀ value, FailsFor reasons (next value)) :
    FailsFor reasons (first >>= next) := by
  intro error failed
  rcases Outcome.bind_eq_error.mp failed with first | ⟨value, _, rest⟩
  · exact fails error first
  · exact failsNext value error rest

theorem FailsFor.map {outcome : Except Error α} (fails : FailsFor reasons outcome)
    (change : α → β) : FailsFor reasons (outcome.map change) :=
  fun error failed => fails error (Outcome.map_eq_error.mp failed)

theorem failsFor_mapError {outcome : Except ε α} {change : ε → Error}
    (named : ∀ cause, (change cause).reason ∈ reasons) :
    FailsFor reasons (outcome.mapError change) := by
  intro error failed
  obtain ⟨cause, _, rfl⟩ := Outcome.mapError_eq_error.mp failed
  exact named cause

theorem failsFor_mapM {convert : α → Except Error β} {items : List α}
    (each : ∀ item ∈ items, FailsFor reasons (convert item)) :
    FailsFor reasons (items.mapM convert) := by
  intro error failed
  obtain ⟨item, member, failed⟩ := Outcome.mapM_eq_error failed
  exact each item member error failed

theorem failsFor_foldlM {step : β → α → Except Error β} {items : List α} {start : β}
    (each : ∀ state, ∀ item ∈ items, FailsFor reasons (step state item)) :
    FailsFor reasons (items.foldlM step start) := by
  intro error failed
  obtain ⟨state, item, member, failed⟩ := Outcome.foldlM_eq_error failed
  exact each state item member error failed

theorem failsFor_forM {check : α → Except Error PUnit} {items : List α}
    (each : ∀ item ∈ items, FailsFor reasons (check item)) :
    FailsFor reasons (items.forM check) := by
  intro error failed
  obtain ⟨item, member, failed⟩ := Outcome.forM_eq_error failed
  exact each item member error failed

theorem failsFor_whenGiven {options : Options} {given : Option α}
    {change : Options → α → Except Error Options}
    (fails : ∀ value, FailsFor reasons (change options value)) :
    FailsFor reasons (options.whenGiven given change) := by
  cases given with
  | none => exact failsFor_ok options
  | some value => exact fails value

end

theorem OrderBy.failsFor_parse (text : String) : FailsFor [.malformed] (parse text) :=
  failsFor_mapError fun _ => List.mem_singleton.mpr rfl

theorem Select.failsFor_parse (text : String) : FailsFor [.malformed] (parse text) :=
  failsFor_mapError fun _ => List.mem_singleton.mpr rfl

theorem Filter.reason_toError (input : List Char) (failure : Filter.Failure) :
    (failure.toError input).reason ∈ Error.filterReasons := by
  cases failure with
  | text fault => exact List.mem_cons_self
  | shape property operator fault => exact List.mem_cons_of_mem _ List.mem_cons_self

theorem Filter.failsFor_parse (limits : Limits) (text : String) :
    FailsFor Error.filterReasons (parse limits text) :=
  failsFor_mapError (reason_toError text.toList)

theorem Count.failsFor_parse (option : String) (text : List Char) :
    FailsFor [.invalidOption] (parse option text) := by
  rw [parse]
  split
  · exact failsFor_ok _
  · exact failsFor_error (List.mem_singleton.mpr rfl)

namespace Expand

theorem failsFor_fail (fault : Fault) :
    FailsFor Error.expandReasons (fail fault : Except Error α) :=
  failsFor_error (by decide : Error.Reason.invalidExpand ∈ Error.expandReasons)

theorem failsFor_readPart {whole : List Char} {offset : Nat} {result : Except Error α}
    (fails : FailsFor Error.expandReasons result) :
    FailsFor Error.expandReasons (readPart whole offset result) := by
  intro error failed
  obtain ⟨cause, broken, rfl⟩ := Outcome.mapError_eq_error.mp failed
  rw [Error.reason_within]
  exact fails cause broken

theorem failsFor_named (name : List Char) : FailsFor Error.expandReasons (named name) := by
  rw [named]
  split
  · exact failsFor_fail _
  · exact failsFor_ok _

section

variable {limits : Limits} {readNested : List Char → Except Error (List Expand)}
  (nested : ∀ text, FailsFor Error.expandReasons (readNested text))

include nested

theorem failsFor_setOption (node : Expand) (value : List Char) (key : Key) :
    FailsFor Error.expandReasons (setOption limits readNested node value key) := by
  have malformed : Error.Reason.malformed ∈ Error.expandReasons := by decide
  have count : ∀ option, FailsFor Error.expandReasons (Count.parse option value) :=
    fun option => (Count.failsFor_parse option value).mono (by decide)
  cases key with
  | expand => exact (nested value).bind fun _ => failsFor_ok _
  | filters =>
      have filters : FailsFor Error.filterReasons
          ((Filter.read limits.filter value).mapError (Filter.Failure.toError value)) :=
        failsFor_mapError (Filter.reason_toError value)
      exact (filters.mono (by decide)).bind fun _ => failsFor_ok _
  | orderBy => exact (failsFor_mapError fun _ => malformed).bind fun _ => failsFor_ok _
  | select => exact (failsFor_mapError fun _ => malformed).bind fun _ => failsFor_ok _
  | top => exact (count "top").bind fun _ => failsFor_ok _
  | skip => exact (count "skip").bind fun _ => failsFor_ok _
  | skiptoken => exact failsFor_ok _

theorem failsFor_applyClause (node : Expand) (clause : List Char) :
    FailsFor Error.expandReasons (applyClause limits readNested node clause) := by
  rw [applyClause]
  split
  · exact failsFor_ok _
  · dsimp only
    split
    · exact failsFor_fail _
    · split
      · exact failsFor_fail _
      · exact failsFor_readPart (failsFor_setOption nested node _ _)

theorem failsFor_applyClauses (node : Expand) (body : List Char) :
    FailsFor Error.expandReasons (applyClauses limits readNested node body) := by
  rw [applyClauses]
  split
  · exact failsFor_fail _
  · exact failsFor_foldlM fun node _ _ =>
      failsFor_readPart (failsFor_applyClause nested node _)

theorem failsFor_readItem (item : List Char) :
    FailsFor Error.expandReasons (readItem limits readNested item) := by
  rw [readItem]
  split
  · exact failsFor_named item
  · split
    · exact failsFor_fail _
    · exact (failsFor_named _).bind fun node =>
        failsFor_readPart (failsFor_applyClauses nested node _)

end

theorem failsFor_readLevel (limits : Limits) (room : Nat) (text : List Char) :
    FailsFor Error.expandReasons (readLevel limits room text) := by
  induction room generalizing text with
  | zero => exact failsFor_fail _
  | succ room ih =>
      rw [readLevel]
      split
      · exact failsFor_fail _
      · split
        · exact failsFor_fail _
        · exact failsFor_mapM fun item _ => failsFor_readPart (failsFor_readItem ih _)

theorem failsFor_parse (limits : Limits) (text : String) :
    FailsFor Error.expandReasons (parse limits text) :=
  failsFor_readLevel limits limits.depth text.toList

end Expand

namespace Options

theorem failsFor_setTop (options : Options) (top : UInt64) :
    FailsFor [.invalidOption] (options.setTop top) := by
  rw [setTop_eq]
  split
  · exact failsFor_ok _
  · split
    · exact failsFor_error (List.mem_singleton.mpr rfl)
    · exact failsFor_ok _

theorem failsFor_overlay (definition : ExpandDefinition) (node : Expand) (options : Options) :
    FailsFor [.invalidOption] (options.overlay definition node) :=
  (failsFor_whenGiven fun top => failsFor_setTop _ top).bind fun _ => failsFor_ok _

theorem failsFor_relation (options : Options) (property : String) :
    FailsFor [.invalidExpand, .notExpandable] (options.relation property) := by
  rw [relation]
  split
  · exact failsFor_error List.mem_cons_self
  · split
    · exact failsFor_error (List.mem_cons_of_mem _ List.mem_cons_self)
    · exact failsFor_ok _

end Options

theorem Params.failsFor_count (params : Params) (field : Field) :
    FailsFor [.invalidOption] (params.count field) := by
  rw [count]
  split
  · exact failsFor_ok _
  · exact (Count.failsFor_parse _ _).map _

theorem Factory.failsFor_override (config : Config) (params : Params) (options : Options) :
    FailsFor Error.expandReasons (override config params options) := by
  have malformed : [Error.Reason.malformed] ⊆ Error.expandReasons := by decide
  have invalid : [Error.Reason.invalidOption] ⊆ Error.expandReasons := by decide
  refine ((params.failsFor_count .top).mono invalid).bind fun top => ?_
  refine (failsFor_whenGiven fun top => (options.failsFor_setTop top).mono invalid).bind fun _ => ?_
  refine ((params.failsFor_count .skip).mono invalid).bind fun skip => ?_
  refine (failsFor_whenGiven fun skip => failsFor_ok _).bind fun _ => ?_
  refine (failsFor_whenGiven fun token => failsFor_ok _).bind fun _ => ?_
  refine (failsFor_whenGiven fun text => (Expand.failsFor_parse _ text).map _).bind fun _ => ?_
  refine (failsFor_whenGiven fun text =>
    ((Filter.failsFor_parse _ text).mono (by decide)).map _).bind fun _ => ?_
  refine (failsFor_whenGiven fun text =>
    ((OrderBy.failsFor_parse text).mono malformed).map _).bind fun _ => ?_
  exact failsFor_whenGiven fun text => ((Select.failsFor_parse text).mono malformed).map _

namespace Validation

theorem failsFor_checkFilters (catalog : PropertyCatalog) (expands : List Expand)
    (filters : Option Filter) :
    FailsFor Error.checkReasons (checkFilters catalog expands filters) := by
  have comparison : ∀ comparison,
      FailsFor Error.checkReasons (checkComparison catalog expands comparison) := by
    intro comparison
    rw [checkComparison]
    split
    · exact failsFor_error (by decide : Error.Reason.unknownProperty ∈ Error.checkReasons)
    · split
      · exact failsFor_error (by decide : Error.Reason.expandRequired ∈ Error.checkReasons)
      · split
        · exact failsFor_error (by decide : Error.Reason.valueNotAllowed ∈ Error.checkReasons)
        · exact failsFor_ok _
  cases filters with
  | none => exact failsFor_ok _
  | some filter => exact failsFor_forM fun item _ => comparison item

theorem failsFor_checkName (allowed : List String) (name : String) :
    FailsFor Error.checkReasons (checkName allowed name) := by
  rw [checkName]
  split
  · exact failsFor_ok _
  · exact failsFor_error (by decide : Error.Reason.unknownProperty ∈ Error.checkReasons)

theorem failsFor_checkOrderBy (allowed : List String) (orders : List OrderBy) :
    FailsFor Error.checkReasons (checkOrderBy allowed orders) :=
  failsFor_forM fun order _ => failsFor_checkName allowed order.property

theorem failsFor_checkSelect (allowed names : List String) :
    FailsFor Error.checkReasons (checkSelect allowed names) :=
  failsFor_forM fun name _ => failsFor_checkName allowed name

theorem failsFor_checkLocal (definition : ExpandDefinition) (target : EntityCatalog)
    (node : Expand) : FailsFor Error.checkReasons (checkLocal definition target node) :=
  (failsFor_checkFilters _ _ _).bind fun _ =>
    (failsFor_checkOrderBy _ _).bind fun _ => failsFor_checkSelect _ _

end Validation

theorem Options.failsFor_checkLocal (options : Options) :
    FailsFor Error.checkReasons options.checkLocal :=
  (Validation.failsFor_checkFilters _ _ _).bind fun _ =>
    (Validation.failsFor_checkOrderBy _ _).bind fun _ => Validation.failsFor_checkSelect _ _

namespace Schema

/-- For every entity that is described, a registry can build the catalog. -/
def Builds (schema : Schema) : Prop :=
  ∀ entity, schema.provider.supports entity = true → ∃ catalog,
    ((Registry.catalog entity).run.run { provider := schema.provider }).1 = .ok catalog

theorem failsFor_checkNodes {schema : Schema} {nodes : List Expand}
    (each : ∀ node ∈ nodes, ∀ catalog, FailsFor Error.checkReasons (schema.checkNode catalog node))
    (catalog : EntityCatalog) : FailsFor Error.checkReasons (schema.checkNodes catalog nodes) := by
  induction nodes with
  | nil =>
      rw [checkNodes]
      exact failsFor_ok ()
  | cons node nodes ih =>
      rw [checkNodes]
      refine (each node (by simp) catalog).bind fun _ => ?_
      exact ih fun node member => each node (by simp [member])

section

variable {schema : Schema} (builds : schema.Builds)

include builds

theorem Builds.failsFor_catalog (entity : Entity) :
    FailsFor [.notQueryable] (schema.catalog entity) := by
  cases found : schema.find? entity with
  | none =>
      rw [catalog, found]
      exact failsFor_error (List.mem_singleton.mpr rfl)
  | some description =>
      have supported : schema.provider.supports entity = true := by simp [provider, found]
      obtain ⟨catalog, built⟩ := builds entity supported
      have answered := (Registry.answers_catalog schema entity _
        (Registry.memory schema).start_right).1
      rw [← answered]
      exact built ▸ failsFor_ok catalog

theorem Builds.failsFor_checkNode (node : Expand) (catalog : EntityCatalog) :
    FailsFor Error.checkReasons (schema.checkNode catalog node) := by
  induction node generalizing catalog with
  | node property filters orderBy select top skip skiptoken children ih =>
      rw [checkNode]
      split
      · exact failsFor_error (by decide : Error.Reason.notExpandable ∈ Error.checkReasons)
      · rename_i definition _
        refine ((builds.failsFor_catalog definition.target).mono (by decide)).bind fun target => ?_
        refine (Validation.failsFor_checkLocal definition target _).bind fun _ => ?_
        exact failsFor_checkNodes ih target

theorem Builds.failsFor_check (options : Options) :
    FailsFor Error.checkReasons (schema.check options) := by
  refine options.failsFor_checkLocal.bind fun _ => ?_
  split
  · refine ((builds.failsFor_catalog options.entity).mono (by decide)).bind fun catalog => ?_
    exact failsFor_checkNodes (fun node _ => builds.failsFor_checkNode node) catalog
  · exact failsFor_ok _

theorem Builds.failsFor_defaults (config : Config) (entity : Entity) :
    FailsFor [.notQueryable, .invalidOption] (schema.defaults config entity) := by
  refine ((builds.failsFor_catalog entity).mono (by decide)).bind fun catalog => ?_
  exact failsFor_whenGiven fun top => (Options.failsFor_setTop _ top).mono (by decide)

theorem Builds.failsFor_request (config : Config) (entity : Entity) (params : Params) :
    FailsFor (Error.expandReasons ++ Error.checkReasons) (schema.request config entity params) := by
  refine ((builds.failsFor_defaults config entity).mono (by decide)).bind fun options => ?_
  refine ((Factory.failsFor_override config params options).mono (by decide)).bind fun options => ?_
  refine ((builds.failsFor_check options).mono (by decide)).bind fun _ => ?_
  exact failsFor_ok options

theorem Builds.failsFor_descend (config : Config) (options : Options) (property : String) :
    FailsFor Error.descentReasons (schema.descend config options property) := by
  refine ((options.failsFor_relation property).mono (by decide)).bind fun (node, definition) => ?_
  dsimp only
  split
  · exact failsFor_ok _
  · have nested : FailsFor Error.descentReasons
        (schema.defaults config definition.target >>= Options.overlay definition node) :=
      ((builds.failsFor_defaults config definition.target).mono (by decide)).bind fun options =>
        (options.failsFor_overlay definition node).mono (by decide)
    exact nested.bind fun _ => failsFor_ok _

end

end Schema

/-- Over a schema whose catalogs can be built, no request is refused for a fault of the host, and
neither is a descent into any options, whatever the factory was used for before. The readers of
texts have no reasons to fail but those that a text can give. -/
theorem Factory.refusals_isBadRequest (schema : Schema) (builds : schema.Builds) (config : Config)
    (steps : List Step) :
    (∀ entity params error,
      ((fromParams entity params).run.run (after schema config steps)).1 = .error error →
        error.isBadRequest = true ∧ ∀ message, error ≠ .inconsistent message) ∧
    (∀ (options : Options) property error,
      (options.descended property (after schema config steps)).1 = .error error →
        error.isBadRequest = true ∧ ∀ message, error ≠ .inconsistent message) ∧
    (∀ limits text error, Filter.parse limits text = .error error →
      error.reason ∈ [.malformed, .invalidShape]) ∧
    (∀ text error, OrderBy.parse text = .error error → error.reason = .malformed) ∧
    (∀ text error, Select.parse text = .error error → error.reason = .malformed) ∧
    (∀ limits text error, Expand.parse limits text = .error error →
      error.reason ∈ [.malformed, .invalidShape, .invalidExpand, .invalidOption]) := by
  have faithful := faithful_after schema config steps
  have blameless : ∀ {reasons : List Error.Reason} {error : Error}, error.reason ∈ reasons →
      .inconsistent ∉ reasons →
        error.isBadRequest = true ∧ ∀ message, error ≠ .inconsistent message := by
    intro reasons error member missing
    have other : error.reason ≠ .inconsistent := ne_of_mem_of_not_mem member missing
    refine ⟨(Error.isBadRequest_iff error).mpr other, ?_⟩
    rintro message rfl
    exact other rfl
  refine ⟨?_, ?_, ?_, ?_, ?_, ?_⟩
  · intro entity params error failed
    rw [(answers_fromParams schema config entity params _ faithful).1] at failed
    exact blameless (builds.failsFor_request config entity params error failed) (by decide)
  · intro options property error failed
    have answered := (answers_descend schema config options property _ faithful).1
    rw [Options.run_handOut, failed] at answered
    exact blameless (builds.failsFor_descend config options property error answered.symm) (by decide)
  · exact fun limits text => Filter.failsFor_parse limits text
  · exact fun text error failed => List.mem_singleton.mp (OrderBy.failsFor_parse text error failed)
  · exact fun text error failed => List.mem_singleton.mp (Select.failsFor_parse text error failed)
  · exact fun limits text => Expand.failsFor_parse limits text

def Schema.gallery : Schema :=
  ⟨[("painting",
      { properties := [⟨"title", none, none⟩],
        expands := [⟨"sketches", "sketch", none, none⟩, ⟨"copies", "painting", none, none⟩] })]⟩

theorem Schema.builds_gallery : gallery.Builds := by
  intro entity supported
  have known : entity = "painting" := by
    simp only [provider, find?, Option.isSome_map, List.find?_isSome] at supported
    obtain ⟨entry, member, named⟩ := supported
    rw [gallery, List.mem_singleton] at member
    rw [member, beq_iff_eq] at named
    exact named.symm
  subst known
  exact ⟨_, rfl⟩

/-- Unknown entities, targets that are not described and a nested `top` above the maximum are all
refused as requests. -/
theorem Factory.refusals_isBadRequest_gallery :
    let factory := after .gallery { maxTop := some 5 } [.create "sketch"]
    (∃ error, ((fromParams "sketch" {}).run.run factory).1 = .error error ∧
      error.isBadRequest = true) ∧
    (∃ error, ((fromParams "painting" { expand := some "sketches" }).run.run factory).1 =
      .error error ∧ error.isBadRequest = true) ∧
    ∃ options error,
      ((fromParams "painting" { expand := some "copies(top=6)" }).run.run factory).1 = .ok options ∧
      (options.descended "copies" factory).1 = .error error ∧
      error.isBadRequest = true := by
  intro factory
  obtain ⟨requests, descents, _⟩ := refusals_isBadRequest .gallery Schema.builds_gallery
    { maxTop := some 5 } [.create "sketch"]
  have unknown : ((fromParams "sketch" {}).run.run factory).1 =
      .error (.notQueryable "sketch") := by
    decide +kernel
  have target : ((fromParams "painting" { expand := some "sketches" }).run.run factory).1 =
      .error (.notQueryable "sketch") := by
    decide +kernel
  have tested : ((fromParams "painting" { expand := some "copies(top=6)" }).run.run
      factory).1.toOption.any (fun options =>
        (options.descended "copies" factory).1 =
          .error (.invalidOption "top" "6 exceeds the maximum of 5")) = true := by
    decide +kernel
  obtain ⟨options, accepted, refused⟩ := Outcome.toOption_any tested
  rw [decide_eq_true_eq] at refused
  exact ⟨⟨_, unknown, (requests _ _ _ unknown).1⟩, ⟨_, target, (requests _ _ _ target).1⟩,
    options, _, accepted, refused, (descents _ _ _ refused).1⟩

end QueryOptions
