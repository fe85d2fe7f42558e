import Mathlib.Data.List.Induction
import Mathlib.Data.List.Nodup
import QueryOptions.Proofs.Whitelist

/-!
What calls options compile to. The calls are told by their kinds: the order in which the kinds come,
and for each kind what the options and the catalog ask for. No two lists of calls fit the same
options. Whatever definitions filters bring along, the catalog's own take their place.
-/

namespace QueryOptions

structure FirstOccurrences (all names : List String) : Prop where
  mem_iff : ∀ name, name ∈ names ↔ name ∈ all
  ordered : names.Pairwise fun earlier later => all.idxOf earlier < all.idxOf later

theorem FirstOccurrences.nodup {all names : List String} (first : FirstOccurrences all names) :
    names.Nodup :=
  first.ordered.imp fun before => by
    rintro rfl
    exact Nat.lt_irrefl _ before

theorem FirstOccurrences.unique {all names others : List String}
    (first : FirstOccurrences all names) (second : FirstOccurrences all others) :
    names = others := by
  have same : names.Perm others := by
    rw [List.perm_ext_iff_of_nodup first.nodup second.nodup]
    intro name
    rw [first.mem_iff, second.mem_iff]
  refine same.eq_of_pairwise ?_ first.ordered second.ordered
  intro earlier later _ _ before after
  exact absurd before (Nat.lt_asymm after)

theorem Options.firstOccurrences_distinct (all : List String) :
    FirstOccurrences all (distinct all) := by
  induction all using List.reverseRecOn with
  | nil => exact ⟨fun _ => Iff.rfl, List.Pairwise.nil⟩
  | append_singleton all last ih =>
      have step : distinct (all ++ [last]) =
          if (distinct all).contains last then distinct all else distinct all ++ [last] := by
        rw [distinct, List.foldl_append]
        rfl
      have places : (distinct all).Pairwise fun earlier later =>
          (all ++ [last]).idxOf earlier < (all ++ [last]).idxOf later := by
        refine ih.ordered.imp_of_mem fun {earlier later} isEarlier isLater before => ?_
        rw [List.idxOf_append_of_mem ((ih.mem_iff earlier).mp isEarlier),
          List.idxOf_append_of_mem ((ih.mem_iff later).mp isLater)]
        exact before
      rw [step]
      split
      · rename_i known
        have isKnown : last ∈ all := (ih.mem_iff last).mp (List.contains_iff_mem.mp known)
        refine ⟨fun name => ?_, places⟩
        rw [ih.mem_iff, List.mem_append, List.mem_singleton]
        exact ⟨.inl, fun found => found.elim id fun same => same ▸ isKnown⟩
      · rename_i unknown
        have isNew : last ∉ all := fun member =>
          unknown (List.contains_iff_mem.mpr ((ih.mem_iff last).mpr member))
        constructor
        · intro name
          rw [List.mem_append, List.mem_append, ih.mem_iff]
        · refine List.pairwise_append.mpr ⟨places, List.pairwise_singleton _ _, ?_⟩
          intro earlier isEarlier later isLater
          have present := (ih.mem_iff earlier).mp isEarlier
          rw [List.mem_singleton.mp isLater, List.idxOf_append_of_mem present,
            List.idxOf_append_of_notMem isNew]
          exact Nat.lt_of_lt_of_le (List.idxOf_lt_length_of_mem present) (Nat.le_add_right _ _)

inductive Call.Kind
  | join
  | filter
  | orderBy
  | select
  | range
  | skiptoken
deriving DecidableEq

def Call.Kind.all : List Call.Kind :=
  [.join, .filter, .orderBy, .select, .range, .skiptoken]

def Call.Kind.rank (kind : Call.Kind) : Nat :=
  Call.Kind.all.idxOf kind

def Call.kind : Call → Call.Kind
  | join .. => .join
  | filter _ => .filter
  | orderBy .. => .orderBy
  | select _ => .select
  | range .. => .range
  | skiptoken _ => .skiptoken

theorem Call.Kind.rank_inj {kind other : Kind} (same : kind.rank = other.rank) : kind = other := by
  cases kind <;> cases other <;> first | rfl | contradiction

def Call.Ordered (calls : List Call) : Prop :=
  calls.Pairwise fun earlier later => earlier.kind.rank ≤ later.kind.rank

theorem Call.eq_of_ordered {calls others : List Call} (ordered : Ordered calls)
    (otherOrdered : Ordered others)
    (same : ∀ kind, calls.filter (·.kind = kind) = others.filter (·.kind = kind)) :
    calls = others := by
  induction calls generalizing others with
  | nil =>
      cases others with
      | nil => rfl
      | cons other others =>
          have impossible := same other.kind
          simp at impossible
  | cons call calls ih =>
      cases others with
      | nil =>
          have impossible := same call.kind
          simp at impossible
      | cons other others =>
          obtain ⟨before, rest⟩ := List.pairwise_cons.mp ordered
          obtain ⟨otherBefore, otherRest⟩ := List.pairwise_cons.mp otherOrdered
          -- Each first call occurs in the other list, so that neither kind comes before the other.
          have below : other.kind.rank ≤ call.kind.rank := by
            have member : call ∈ (other :: others).filter (·.kind = call.kind) := by
              rw [← same]
              simp
            rcases List.mem_cons.mp (List.mem_filter.mp member).1 with rfl | later
            · exact Nat.le_refl _
            · exact otherBefore call later
          have above : call.kind.rank ≤ other.kind.rank := by
            have member : other ∈ (call :: calls).filter (·.kind = other.kind) := by
              rw [same]
              simp
            rcases List.mem_cons.mp (List.mem_filter.mp member).1 with rfl | later
            · exact Nat.le_refl _
            · exact before other later
          have sameKind := Kind.rank_inj (Nat.le_antisymm above below)
          have firsts := same call.kind
          simp only [List.filter_cons, sameKind, decide_true, if_true, List.cons.injEq] at firsts
          obtain ⟨rfl, sameRest⟩ := firsts
          congr 1
          refine ih rest otherRest fun kind => ?_
          have here := same kind
          by_cases isKind : call.kind = kind
          · subst isKind
            simpa using here
          · simpa [List.filter_cons, isKind] using here

namespace Options

/-- The relations that the filters' properties depend on by the catalog, whatever definitions the
filters carry. -/
def needed (options : Options) : List String :=
  (options.filters.toList.flatMap (·.leaves)).filterMap fun comparison =>
    ((options.catalog.properties.get? comparison.property).bind (·.dependency)).map (·.name)

/-- Calls that hold what the options and their catalog ask for, in order and nothing else. -/
structure Records (options : Options) (calls : List Call) : Prop where
  ordered : Call.Ordered calls
  joins : ∃ relations,
    FirstOccurrences (options.expandNodes.map (·.property) ++ options.needed) relations ∧
      calls.filter (·.kind = .join) = relations.map fun relation => .join relation relation
  filters : calls.filter (·.kind = .filter) = options.filters.toList.map .filter
  orderings : calls.filter (·.kind = .orderBy) =
    (options.orderBy.getD []).map fun order => .orderBy order.property order.direction
  columns : calls.filter (·.kind = .select) =
    if options.select.getD [] = [] then [] else [.select (options.select.getD [])]
  pages : calls.filter (·.kind = .range) =
    if options.top.isSome = true ∨ 0 < options.skip then [.range options.top options.skip] else []
  tokens : calls.filter (·.kind = .skiptoken) = options.skiptoken.toList.map .skiptoken

theorem Records.unique {options : Options} {calls others : List Call}
    (records : options.Records calls) (otherRecords : options.Records others) : calls = others := by
  refine Call.eq_of_ordered records.ordered otherRecords.ordered fun kind => ?_
  cases kind with
  | join =>
      obtain ⟨relations, first, joins⟩ := records.joins
      obtain ⟨otherRelations, otherFirst, otherJoins⟩ := otherRecords.joins
      rw [joins, otherJoins, first.unique otherFirst]
  | filter => rw [records.filters, otherRecords.filters]
  | orderBy => rw [records.orderings, otherRecords.orderings]
  | select => rw [records.columns, otherRecords.columns]
  | range => rw [records.pages, otherRecords.pages]
  | skiptoken => rw [records.tokens, otherRecords.tokens]

def callsOf (options : Options) : Call.Kind → List Call
  | .join => options.joins.map fun relation => .join relation relation
  | .filter => options.filters.toList.map .filter
  | .orderBy =>
      (options.orderBy.getD []).map fun order => .orderBy order.property order.direction
  | .select =>
      if options.select.getD [] = [] then [] else [.select (options.select.getD [])]
  | .range =>
      if options.top.isSome = true ∨ 0 < options.skip then [.range options.top options.skip] else []
  | .skiptoken => options.skiptoken.toList.map .skiptoken

theorem compile_eq (options : Options) :
    options.compile = Call.Kind.all.flatMap options.callsOf := by
  have columns : (if (options.select.getD []).isEmpty then []
      else [Call.select (options.select.getD [])]) = options.callsOf .select := by
    rw [callsOf]
    simp only [List.isEmpty_iff]
  have page : (if options.top.isSome || options.skip != 0 then [Call.range options.top options.skip]
      else []) = options.callsOf .range := by
    rw [callsOf]
    simp [UInt64.pos_iff_ne_zero]
  simp only [compile, columns, page, Call.Kind.all, List.flatMap_cons, List.flatMap_nil,
    List.append_nil, List.append_assoc]
  rfl

theorem kind_of_mem_callsOf {options : Options} {kind : Call.Kind} {call : Call}
    (member : call ∈ options.callsOf kind) : call.kind = kind := by
  cases kind with
  | join | filter | orderBy | skiptoken =>
      obtain ⟨_, _, rfl⟩ := List.mem_map.mp member
      rfl
  | select | range =>
      rw [callsOf] at member
      split at member
      all_goals simp_all [Call.kind]

theorem filter_compile (options : Options) (kind : Call.Kind) :
    options.compile.filter (·.kind = kind) = options.callsOf kind := by
  have each : ∀ other, (options.callsOf other).filter (·.kind = kind) =
      if other = kind then options.callsOf kind else [] := by
    intro other
    split
    · rename_i same
      subst same
      exact List.filter_eq_self.mpr fun call member => by simp [kind_of_mem_callsOf member]
    · rename_i different
      refine List.filter_eq_nil_iff.mpr fun call member => ?_
      simpa [kind_of_mem_callsOf member] using different
  rw [compile_eq, List.filter_flatMap]
  simp only [each]
  cases kind <;> simp [Call.Kind.all]

theorem ordered_compile (options : Options) : Call.Ordered options.compile := by
  rw [compile_eq, Call.Ordered, List.pairwise_flatMap]
  constructor
  · intro kind _
    refine List.pairwise_of_forall_mem_list fun earlier isEarlier later isLater => ?_
    exact Nat.le_of_eq (by rw [kind_of_mem_callsOf isEarlier, kind_of_mem_callsOf isLater])
  · have kinds : Call.Kind.all.Pairwise fun earlier later => earlier.rank ≤ later.rank := by decide
    refine kinds.imp fun before call member other otherMember => ?_
    rw [kind_of_mem_callsOf member, kind_of_mem_callsOf otherMember]
    exact before

theorem dependencies_eq_needed {options : Options} (bound : options.BoundTo options.catalog) :
    options.dependencies = options.needed := by
  rw [dependencies, needed]
  split
  · rename_i none
    rw [none]
    rfl
  · rename_i filter given
    rw [given, Option.toList_some, List.flatMap_singleton]
    refine List.filterMap_congr fun comparison member => ?_
    rw [bound.definitions filter given comparison member]

theorem records_compile {options : Options} (bound : options.BoundTo options.catalog) :
    options.Records options.compile where
  ordered := options.ordered_compile
  joins := by
    refine ⟨options.joins, ?_, options.filter_compile .join⟩
    rw [joins, dependencies_eq_needed bound]
    exact firstOccurrences_distinct _
  filters := options.filter_compile .filter
  orderings := options.filter_compile .orderBy
  columns := options.filter_compile .select
  pages := options.filter_compile .range
  tokens := options.filter_compile .skiptoken

def edited (options : Options) (setters : List Setter) : Options :=
  setters.foldl (fun options setter => (setter.attempt.run.run options).2) options

theorem boundTo_attempt {catalog : EntityCatalog} (setter : Setter) {options : Options}
    (bound : options.BoundTo catalog) : (setter.attempt.run.run options).2.BoundTo catalog :=
  attempt_keeps bound fun next set => boundTo_setter setter options next bound set

theorem boundTo_edited {catalog : EntityCatalog} {options : Options}
    (bound : options.BoundTo catalog) (setters : List Setter) :
    (options.edited setters).BoundTo catalog := by
  induction setters generalizing options with
  | nil => exact bound
  | cons setter setters ih => exact ih (boundTo_attempt setter bound)

theorem boundTo_created {provider : Provider} {config : Config} {steps : List Factory.Step}
    {options : Options}
    (created : Factory.Creates (Factory.reached provider config steps) options) :
    options.BoundTo options.catalog := by
  have presets : ∀ catalog options, Factory.preset config catalog = .ok options →
      options.BoundTo options.catalog := by
    intro catalog options preset
    have bound := boundTo_preset preset
    rwa [bound.catalog_eq]
  refine created.holds presets fun setter options next bound set => ?_
  have after := boundTo_setter setter options next bound set
  rwa [after.catalog_eq]

/-- Whatever is set on options of a factory's making, by calls that succeed or fail and with filters
that carry any definitions, the filters end up with the definitions of the options' own catalog, and
the options compile to the one list of calls that holds what they and the catalog ask for. -/
theorem compile_determined (provider : Provider) (config : Config) (steps : List Factory.Step)
    (options : Options) (created : Factory.Creates (Factory.reached provider config steps) options)
    (setters : List Setter) :
    (options.edited setters).catalog = options.catalog ∧
      (∀ filter ∈ (options.edited setters).filters, ∀ comparison ∈ filter.leaves,
        comparison.definition = options.catalog.properties.get? comparison.property) ∧
      ∀ calls, (options.edited setters).Records calls ↔
        calls = (options.edited setters).compile := by
  have bound := boundTo_edited (boundTo_created created) setters
  have records : (options.edited setters).Records (options.edited setters).compile :=
    records_compile (by rwa [bound.catalog_eq])
  refine ⟨bound.catalog_eq, bound.definitions, fun calls => ?_⟩
  constructor
  · exact fun recorded => recorded.unique records
  · rintro rfl
    exact records

def Setter.foreign : List Setter :=
  [.filters (.leaf ⟨"total", .gt, .single (.integer 5),
      some ⟨"total", none, some ⟨"invoice", "invoice", none, none⟩⟩⟩),
    .mergeFilters .and (.leaf ⟨"customer.name", .eq, .single (.text "Ann"), none⟩),
    .top 9, .skip 2, .orderBy [⟨"total", .descending⟩]]

/-- The relation that the catalog knows of is joined, and the one that the filter brought is not. -/
theorem compile_determined_foreign :
    ∃ options,
      Factory.Creates (Factory.reached Schema.orders.provider { maxTop := some 5 } []) options ∧
      (∀ filter ∈ (options.edited Setter.foreign).filters, ∀ comparison ∈ filter.leaves,
        comparison.definition = options.catalog.properties.get? comparison.property) ∧
      (options.edited Setter.foreign).Records (options.edited Setter.foreign).compile ∧
      (options.edited Setter.foreign).compile.map Call.kind = [.join, .filter, .orderBy, .range] ∧
      (options.edited Setter.foreign).compile.filterMap Call.joined? =
        [("customer", "customer")] := by
  have tested : ((Factory.create "order").run.run (Factory.reached Schema.orders.provider
      { maxTop := some 5 } [])).1.toOption.any (fun options =>
        (options.edited Setter.foreign).compile.map Call.kind = [.join, .filter, .orderBy, .range] ∧
          (options.edited Setter.foreign).compile.filterMap Call.joined? =
            [("customer", "customer")]) = true := by
    decide +kernel
  obtain ⟨options, made, tested⟩ := Outcome.toOption_any tested
  obtain ⟨kinds, joined⟩ := of_decide_eq_true tested
  have created : Factory.Creates (Factory.reached Schema.orders.provider { maxTop := some 5 } [])
      options := .defaults made
  obtain ⟨_, definitions, records⟩ :=
    compile_determined Schema.orders.provider { maxTop := some 5 } [] options created Setter.foreign
  exact ⟨options, created, definitions, (records _).mpr rfl, kinds, joined⟩

end Options

end QueryOptions
