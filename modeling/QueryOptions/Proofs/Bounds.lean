import QueryOptions.Proofs.Creation
import QueryOptions.Proofs.Expand.Item
import QueryOptions.Proofs.Filter.Rereading

/-!
How large a tree a text can make. The limits of the readers bound the comparisons of every filter
and the levels of every expand text, and comparisons that are joined two by two bound the height of
their tree. So the limits bound the recursion of all that walks over an accepted request.
-/

namespace QueryOptions

namespace Filter

mutual

def height : Filter → Nat
  | leaf _ => 1
  | join _ children => heightOf children + 1

def heightOf : List Filter → Nat
  | [] => 0
  | child :: children => max child.height (heightOf children)

end

/-- Joined two by two, of at most so many comparisons, and no higher than it has comparisons. -/
structure Bounded (terms : Nat) (filter : Filter) : Prop where
  binary : filter.isBinary = true
  few : filter.leaves.length ≤ terms
  low : filter.height ≤ filter.leaves.length

theorem height_mapLeaves (change : Comparison → Comparison) (filter : Filter) :
    (filter.mapLeaves change).height = filter.height := by
  induction filter with
  | leaf comparison => simp [mapLeaves, height]
  | join connective children ih =>
      rw [mapLeaves, height, height, mapLeavesOf_eq]
      congr 1
      induction children with
      | nil => rfl
      | cons child children rest =>
          rw [List.map_cons, heightOf, heightOf, ih child (by simp),
            rest fun child member => ih child (by simp [member])]

theorem Bounded.bindTo {terms : Nat} {filter : Filter} (bounded : filter.Bounded terms)
    (catalog : PropertyCatalog) : (filter.bindTo catalog).Bounded terms := by
  refine ⟨?_, ?_, ?_⟩
  · rw [Filter.bindTo, isBinary_mapLeaves]
    exact bounded.binary
  · rw [Filter.bindTo, leaves_mapLeaves, List.length_map]
    exact bounded.few
  · rw [Filter.bindTo, height_mapLeaves, leaves_mapLeaves, List.length_map]
    exact bounded.low

theorem height_le_of_isBinary {filter : Filter} (binary : filter.isBinary = true) :
    1 ≤ filter.leaves.length ∧ filter.height ≤ filter.leaves.length := by
  induction filter with
  | leaf comparison => simp [leaves, height]
  | join connective children ih =>
      simp only [isBinary, every_join, Bool.and_eq_true, beq_iff_eq, List.all_eq_true] at binary
      obtain ⟨two, each⟩ := binary
      obtain ⟨left, right, rfl⟩ := List.length_eq_two.mp two
      have first := ih left (by simp) (each left (by simp))
      have second := ih right (by simp) (each right (by simp))
      -- A join adds one to the height, and at least one to the comparisons of either side, since
      -- the other side has some.
      simp only [leaves, leavesOf, height, heightOf, List.append_nil, List.length_append]
      omega

theorem bounded_of_read {limits : Limits} {text : List Char} {filter : Filter}
    (read : Filter.read limits text = .ok filter) : filter.Bounded limits.terms := by
  obtain ⟨comparisons, depth, ⟨_, _, _, _, _, _, derives⟩, few, _⟩ := read_sound read
  have derived := derives.derived
  refine ⟨derived.binary, ?_, (height_le_of_isBinary derived.binary).2⟩
  rw [derived.leaves]
  exact few

end Filter

namespace Expand

mutual

def height : Expand → Nat
  | ⟨_, _, _, _, _, _, _, children⟩ => heightOf children + 1

def heightOf : List Expand → Nat
  | [] => 0
  | node :: nodes => max node.height (heightOf nodes)

end

inductive EveryFilter (property : Filter → Prop) : Expand → Prop
  | mk {node : Expand} (here : ∀ filter ∈ node.filters, property filter)
      (below : ∀ child ∈ node.children, EveryFilter property child) : EveryFilter property node

structure Bounded (levels terms : Nat) (nodes : List Expand) : Prop where
  low : heightOf nodes ≤ levels
  filters : ∀ node ∈ nodes, node.EveryFilter (Filter.Bounded terms)

theorem bounded_nil (levels terms : Nat) : Bounded levels terms [] :=
  ⟨Nat.zero_le levels, by simp⟩

theorem heightOf_le_iff {levels : Nat} {nodes : List Expand} :
    heightOf nodes ≤ levels ↔ ∀ node ∈ nodes, node.height ≤ levels := by
  induction nodes with
  | nil => simp [heightOf]
  | cons node nodes ih => rw [heightOf, max_le_iff, ih, List.forall_mem_cons]

section

variable {limits : Limits} {readNested : List Char → Except Error (List Expand)}
  {node next : Expand} {value : List Char} {key : Key}

theorem heightOf_setOption {levels : Nat}
    (nested : ∀ text nodes, readNested text = .ok nodes → heightOf nodes ≤ levels)
    (low : heightOf node.children ≤ levels)
    (set : setOption limits readNested node value key = .ok next) :
    heightOf next.children ≤ levels := by
  obtain ⟨children, read, rfl⟩ | ⟨filter, _, rfl⟩ | ⟨_, sameChildren⟩ :=
    setOption_cases limits readNested set
  · exact nested value children read
  · exact low
  · exact sameChildren ▸ low

theorem everyFilter_setOption {property : Filter → Prop}
    (ofText : ∀ text filter, Filter.read limits.filter text = .ok filter → property filter)
    (nested : ∀ text nodes, readNested text = .ok nodes → ∀ node ∈ nodes, node.EveryFilter property)
    (every : node.EveryFilter property)
    (set : setOption limits readNested node value key = .ok next) : next.EveryFilter property := by
  obtain ⟨here, below⟩ := every
  obtain ⟨children, read, rfl⟩ | ⟨filter, read, rfl⟩ | ⟨sameFilters, sameChildren⟩ :=
    setOption_cases limits readNested set
  · exact .mk here (nested value children read)
  · refine .mk ?_ below
    intro other given
    simp only [Option.mem_some_iff] at given
    subst given
    exact ofText value filter read
  · exact .mk (sameFilters ▸ here) (sameChildren ▸ below)

end

section

variable {limits : Limits} {room : Nat} {text : List Char} {nodes : List Expand}

theorem heightOf_readLevel (read : readLevel limits room text = .ok nodes) :
    heightOf nodes ≤ room := by
  induction room generalizing text nodes with
  | zero => simp [readLevel, fail] at read
  | succ room ih =>
      refine heightOf_le_iff.mpr fun node member => ?_
      obtain ⟨item, readNode⟩ := readItem_of_mem read member
      have low : heightOf node.children ≤ room :=
        readItem_keeps limits (readLevel limits room) (fun _ => Nat.zero_le room)
          (fun _ _ _ _ => heightOf_setOption fun _ _ => ih) readNode
      cases node
      rw [height]
      exact Nat.succ_le_succ low

theorem everyFilter_readLevel {property : Filter → Prop}
    (ofText : ∀ text filter, Filter.read limits.filter text = .ok filter → property filter)
    (read : readLevel limits room text = .ok nodes) :
    ∀ node ∈ nodes, node.EveryFilter property := by
  induction room generalizing text nodes with
  | zero => simp [readLevel, fail] at read
  | succ room ih =>
      intro node member
      obtain ⟨item, readNode⟩ := readItem_of_mem read member
      exact readItem_keeps limits (readLevel limits room) (fun _ => .mk (by simp) (by simp))
        (fun _ _ _ _ => everyFilter_setOption ofText fun _ _ => ih) readNode

theorem bounded_readLevel (read : readLevel limits room text = .ok nodes) :
    Bounded room limits.filter.terms nodes :=
  ⟨heightOf_readLevel read, everyFilter_readLevel (fun _ _ => Filter.bounded_of_read) read⟩

end

end Expand

namespace Options

structure Bounded (config : Config) (options : Options) : Prop where
  filters : ∀ filter ∈ options.filters, filter.Bounded config.maxFilterTerms
  expand : Expand.Bounded config.maxExpandDepth config.maxFilterTerms options.expandNodes

theorem Bounded.requested {config : Config} {setter : Setter}
    (requested : Factory.Requested config setter) (options next : Options)
    (bounded : options.Bounded config) (set : setter.apply options = .ok next) :
    next.Bounded config := by
  cases requested with
  | top value =>
      rw [setTop_eq_ok set]
      exact ⟨bounded.filters, bounded.expand⟩
  | skip value | skiptoken token | orderBy parsed | select parsed =>
      cases set
      exact ⟨bounded.filters, bounded.expand⟩
  | expand parsed =>
      cases set
      exact ⟨bounded.filters, Expand.bounded_readLevel parsed⟩
  | filters parsed =>
      cases set
      refine ⟨?_, bounded.expand⟩
      intro filter given
      simp only [setFilters, Option.mem_some_iff] at given
      subst given
      exact (Filter.bounded_of_read (Outcome.mapError_eq_ok.mp parsed)).bindTo _

theorem bounded_preset {config : Config} {catalog : EntityCatalog} {options : Options}
    (preset : Factory.preset config catalog = .ok options) : options.Bounded config := by
  have bare : Options.Bounded config { catalog, maxTop := config.maxTop } :=
    ⟨by simp, Expand.bounded_nil _ _⟩
  refine whenGiven_keeps bare preset fun top set => ?_
  rw [setTop_eq_ok set]
  exact ⟨bare.filters, bare.expand⟩

/-- The limits of the readers bound every filter and every expand text that they accept, and the
configuration those of every request that a factory accepts, whatever it was used for before. -/
theorem accepted_bounded :
    (∀ (limits : Filter.Limits) (text : String) (filter : Filter),
      Filter.parse limits text = .ok filter → filter.Bounded limits.terms) ∧
    (∀ (limits : Expand.Limits) (text : String) (nodes : List Expand),
      Expand.parse limits text = .ok nodes →
        Expand.Bounded limits.depth limits.filter.terms nodes) ∧
    ∀ (provider : Provider) (config : Config) (steps : List Factory.Step) (entity : Entity)
      (params : Params) (options : Options),
      ((Factory.fromParams entity params).run.run (Factory.reached provider config steps)).1 =
        .ok options → options.Bounded config := by
  refine ⟨?_, ?_, ?_⟩
  · intro limits text filter parsed
    exact Filter.bounded_of_read (Outcome.mapError_eq_ok.mp parsed)
  · intro limits text nodes parsed
    exact Expand.bounded_readLevel parsed
  · intro provider config steps entity params options accepted
    have presets : ∀ catalog options, Factory.preset config catalog = .ok options →
        options.Bounded config :=
      fun _ _ => Options.bounded_preset
    have remembers : (Factory.propertyMemory provider config (Bounded config)).Right
        (Factory.reached provider config steps) :=
      Factory.remembers_reached presets steps
    have made : (Factory.propertyMemory provider config (Bounded config)).Yields
        (Factory.fromParams entity params) (Bounded config) := by
      refine Factory.yields_request presets fun defaults options bounded overridden => ?_
      exact Factory.override_keeps_requested (fun _ => Bounded.requested) bounded overridden
    exact (made _ remembers).2 options accepted

end Options

def Schema.shelf : Schema :=
  ⟨[("book",
      { properties := [⟨"title", none, none⟩], expands := [⟨"parts", "book", none, none⟩] })]⟩

def Config.narrow : Config where
  maxExpandDepth := 2
  maxFilterTerms := 3

def Params.parts : Params where
  filters := some "title eq 'a' and (title eq 'b' or title eq 'c')"
  expand := some "parts(filters=title eq 'd' or title eq 'e';filters=title eq 'f';expand=parts)"

/-- The second of two filters stands. -/
theorem Options.accepted_bounded_parts :
    (∃ filter, Filter.parse Config.narrow.filterLimits
        "title eq 'a' and (title eq 'b' or title eq 'c')" = .ok filter ∧ filter.Bounded 3) ∧
    (∃ nodes, Expand.parse Config.narrow.expandLimits
        "parts(expand=parts(top=1);filters=title eq 'd';expand=parts)" = .ok nodes ∧
      Expand.Bounded 2 3 nodes) ∧
    ∃ options, ((Factory.fromParams "book" .parts).run.run
      (Factory.reached Schema.shelf.provider .narrow [.create "book"])).1 = .ok options ∧
        options.Bounded .narrow := by
  obtain ⟨ofFilter, ofExpand, ofRequest⟩ := accepted_bounded
  refine ⟨?_, ?_, ?_⟩
  · have tested : (Filter.parse Config.narrow.filterLimits
        "title eq 'a' and (title eq 'b' or title eq 'c')").toOption.any (fun _ => true) = true := by
      decide +kernel
    obtain ⟨filter, parsed, _⟩ := Outcome.toOption_any tested
    exact ⟨filter, parsed, ofFilter _ _ filter parsed⟩
  · have tested : (Expand.parse Config.narrow.expandLimits
        "parts(expand=parts(top=1);filters=title eq 'd';expand=parts)").toOption.any
          (fun _ => true) = true := by
      decide +kernel
    obtain ⟨nodes, parsed, _⟩ := Outcome.toOption_any tested
    exact ⟨nodes, parsed, ofExpand _ _ nodes parsed⟩
  · have tested : ((Factory.fromParams "book" .parts).run.run
        (Factory.reached Schema.shelf.provider .narrow [.create "book"])).1.toOption.any
          (fun _ => true) = true := by
      decide +kernel
    obtain ⟨options, accepted, _⟩ := Outcome.toOption_any tested
    exact ⟨options, accepted, ofRequest _ _ _ _ _ options accepted⟩

end QueryOptions
