import QueryOptions.Proofs.PageLimit

/-!
When nested options are made anew, of what, and what stays as it was. A descent keeps the nested
options of a relation as long as its expand node has the key of the one that they were made from.
Otherwise the defaults of the target, overridden by the node, take their place. Nothing else
changes, and a descent that fails changes nothing at all.
-/

namespace QueryOptions

namespace Options

def enter (options : Options) (property : String) (factory : Factory) :
    Except Error Options × Options :=
  let (result, left) := options.descended property factory
  (result.map (·.options), left)

theorem enter_eq (options : Options) (property : String) (factory : Factory) :
    options.enter property factory =
      match (options.descended property factory).1 with
      | .error error => (.error error, options)
      | .ok expansion => (.ok expansion.options, options.setExpansion expansion) := by
  rw [enter]
  cases handed : (options.descended property factory).1 with
  | error error =>
      rw [descended_failed handed]
      rfl
  | ok expansion =>
      rw [descended_ok handed]
      rfl

theorem nestedOptions_eq_ok_iff {definition : ExpandDefinition} {node : Expand}
    {factory : Factory} {nested : Options} :
    ((nestedOptions definition node).run.run factory).1 = .ok nested ↔
      ∃ defaults, ((Factory.create definition.target).run.run factory).1 = .ok defaults ∧
        (∀ top ∈ node.top, ∀ maximum ∈ defaults.maxTop, top ≤ maximum) ∧
        nested = defaults.overlaid definition node := by
  rw [nestedOptions, Memory.run_bind]
  cases (Factory.create definition.target).run.run factory with
  | mk result later =>
      cases result with
      | error error => simp
      | ok defaults =>
          have overlaid : ((Making.ofExcept (defaults.overlay definition node)).run.run later).1 =
              defaults.overlay definition node :=
            rfl
          simp only [overlaid, overlay_eq_ok_iff, Except.ok.injEq, exists_eq_left']

theorem descended_renewed {options : Options} {property : String} {node : Expand}
    {definition : ExpandDefinition} (factory : Factory)
    (related : options.relation property = .ok (node, definition))
    (stale : ∀ present ∈ options.expansion? property, present.applied ≠ node.key) :
    (options.descended property factory).1 =
      ((nestedOptions definition node).run.run factory).1.map fun nested =>
        ⟨property, nested, node.key, none⟩ := by
  have nothing : (options.expansion? property).filter (·.applied == node.key) = none := by
    rw [Option.filter_eq_none_iff]
    intro present found sameKey
    exact stale present found (beq_iff_eq.mp sameKey)
  rw [descended, run_descend, related]
  dsimp only
  rw [nothing]
  dsimp only
  cases (nestedOptions definition node).run.run factory with
  | mk result later => cases result <;> rfl

theorem descend_eq_ok_iff {options : Options} {property : String} {factory : Factory}
    {expansion : Expansion} :
    (options.descended property factory).1 = .ok expansion ↔
      ∃ node definition, options.relation property = .ok (node, definition) ∧
        ((options.expansion? property = some expansion ∧ expansion.applied = node.key) ∨
          (∀ present ∈ options.expansion? property, present.applied ≠ node.key) ∧
            ∃ nested, ((nestedOptions definition node).run.run factory).1 = .ok nested ∧
              expansion = ⟨property, nested, node.key, none⟩) := by
  cases related : options.relation property with
  | error error =>
      have failed : (options.descended property factory).1 = .error error := by
        rw [descended, run_descend, related]
      simp [failed]
  | ok pair =>
      obtain ⟨node, definition⟩ := pair
      simp only [Except.ok.injEq, Prod.mk.injEq, and_assoc, exists_and_left, exists_eq_left']
      by_cases stale : ∀ present ∈ options.expansion? property, present.applied ≠ node.key
      · have notKept : ¬(options.expansion? property = some expansion ∧
            expansion.applied = node.key) :=
          fun kept => stale expansion kept.1 kept.2
        rw [descended_renewed factory related stale, Outcome.map_eq_ok, or_iff_right notKept,
          and_iff_right stale]
        simp only [eq_comm]
      · obtain ⟨present, found, sameKey⟩ :
            ∃ present, options.expansion? property = some present ∧ present.applied = node.key := by
          simpa using stale
        have kept : (options.expansion? property).filter (·.applied == node.key) = some present :=
          Option.filter_eq_some_iff.mpr ⟨found, beq_iff_eq.mpr sameKey⟩
        have returned : (options.descended property factory).1 = .ok present := by
          rw [descended, run_descend, related]
          dsimp only
          rw [kept]
        rw [returned, or_iff_left fun renewed => stale renewed.1, found]
        constructor
        · rintro ⟨⟩
          exact ⟨rfl, sameKey⟩
        · rintro ⟨⟨⟩, _⟩
          rfl

theorem with_nested_setExpansion (options : Options) (expansion : Expansion) :
    { options.setExpansion expansion with nested := options.nested } = options := by
  cases options
  rfl

theorem key_setExpansion (options : Options) (expansion : Expansion) :
    (options.setExpansion expansion).key = options.key :=
  rfl

theorem enter_ok {options : Options} {property : String} {factory : Factory}
    {expansion : Expansion}
    (descended : (options.descended property factory).1 = .ok expansion) :
    options.enter property factory = (.ok expansion.options, options.setExpansion expansion) := by
  rw [enter_eq, descended]

theorem enter_eq_ok_iff_descend {options : Options} {property : String} {factory : Factory}
    {nested : Options} :
    (options.enter property factory).1 = .ok nested ↔
      ∃ expansion, (options.descended property factory).1 = .ok expansion ∧
        expansion.options = nested := by
  rw [enter_eq]
  cases (options.descended property factory).1 <;> simp

/-- What a descent hands out: the nested options that are there already, if they are made from a
node of the present one's key, or else new ones that take their place. -/
theorem enter_eq_ok_iff {options : Options} {property : String} {factory : Factory}
    {nested : Options} :
    (options.enter property factory).1 = .ok nested ↔
      ∃ node definition, Expand.find? options.expandNodes property = some node ∧
        options.catalog.expand? property = some definition ∧
        ((∃ present, options.expansion? property = some present ∧ present.applied = node.key ∧
            options.nested? property = some nested ∧
            (options.enter property factory).2 = options) ∨
          (∀ present ∈ options.expansion? property, present.applied ≠ node.key) ∧
            ∃ defaults, ((Factory.create definition.target).run.run factory).1 = .ok defaults ∧
              (∀ top ∈ node.top, ∀ maximum ∈ defaults.maxTop, top ≤ maximum) ∧
              nested = defaults.overlaid definition node ∧
              (options.enter property factory).2.expansion? property =
                some ⟨property, nested, node.key, none⟩) := by
  constructor
  · intro entered
    obtain ⟨expansion, descended, rfl⟩ := enter_eq_ok_iff_descend.mp entered
    obtain ⟨node, definition, related, renewed⟩ := descend_eq_ok_iff.mp descended
    obtain ⟨expanded, declared⟩ := relation_eq_ok_iff.mp related
    refine ⟨node, definition, expanded, declared, ?_⟩
    rw [enter_ok descended]
    rcases renewed with ⟨found, sameKey⟩ | ⟨stale, nested, made, rfl⟩
    · refine .inl ⟨expansion, found, sameKey, ?_, setExpansion_self found⟩
      rw [nested?, found, Option.map_some]
    · obtain ⟨defaults, created, allowed, nestedEq⟩ := nestedOptions_eq_ok_iff.mp made
      refine .inr ⟨stale, defaults, created, allowed, nestedEq, ?_⟩
      rw [expansion?_setExpansion, if_pos rfl]
  · rintro ⟨node, definition, expanded, declared, renewed⟩
    have related := relation_eq_ok_iff.mpr ⟨expanded, declared⟩
    rw [enter_eq_ok_iff_descend]
    rcases renewed with ⟨expansion, found, sameKey, isNested, _⟩ |
      ⟨stale, defaults, created, allowed, nestedEq, _⟩
    · rw [nested?, found, Option.map_some, Option.some.injEq] at isNested
      exact ⟨expansion,
        descend_eq_ok_iff.mpr ⟨node, definition, related, .inl ⟨found, sameKey⟩⟩, isNested⟩
    · have made := nestedOptions_eq_ok_iff.mpr ⟨defaults, created, allowed, nestedEq⟩
      exact ⟨⟨property, nested, node.key, none⟩,
        descend_eq_ok_iff.mpr ⟨node, definition, related, .inr ⟨stale, nested, made, rfl⟩⟩, rfl⟩

theorem enter_failed {options : Options} {property : String} {factory : Factory} {error : Error}
    (failed : (options.enter property factory).1 = .error error) :
    (options.enter property factory).2 = options := by
  rw [enter_eq] at failed ⊢
  cases outcome : (options.descended property factory).1 with
  | error cause => rfl
  | ok expansion =>
      rw [outcome] at failed
      contradiction

theorem enter_frame (options : Options) (property : String) (factory : Factory) :
    let next := (options.enter property factory).2
    (∀ other, other ≠ property → next.expansion? other = options.expansion? other) ∧
      { next with nested := options.nested } = options ∧ next.key = options.key := by
  rw [enter_eq]
  cases descended : (options.descended property factory).1 with
  | error error =>
      cases options
      exact ⟨fun _ _ => rfl, rfl, rfl⟩
  | ok expansion =>
      have named : expansion.property = property := by
        obtain ⟨_, _, _, ⟨present, _⟩ | ⟨_, _, _, rfl⟩⟩ := descend_eq_ok_iff.mp descended
        · exact expansion?_property present
        · rfl
      refine ⟨fun other different => ?_, with_nested_setExpansion options expansion,
        key_setExpansion options expansion⟩
      rw [expansion?_setExpansion, named, if_neg different]

/-- Options as they are when a host gets hold of them: made by a factory, bare for a catalog, or
made by a descent for an expand node. -/
inductive HandedOut : Options → Prop
  | created {provider : Provider} {config : Config} {steps : List Factory.Step} {options : Options}
      (created : Factory.Creates (Factory.reached provider config steps) options) :
      HandedOut options
  | bare (catalog : EntityCatalog) : HandedOut { catalog }
  | nested {provider : Provider} {config : Config} {steps : List Factory.Step}
      {definition : ExpandDefinition} {node : Expand} {options : Options}
      (made : ((nestedOptions definition node).run.run
        (Factory.reached provider config steps)).1 = .ok options) :
      HandedOut options

theorem HandedOut.fresh {options : Options} (first : options.HandedOut) : options.nested = [] := by
  cases first with
  | created created => exact nested_created created
  | bare catalog => rfl
  | nested made =>
      obtain ⟨defaults, created, _, rfl⟩ := nestedOptions_eq_ok_iff.mp made
      have fresh : defaults.nested = [] := nested_created (.defaults created)
      exact fresh

end Options

namespace Session

theorem Logged.applied_eq {session : Session} (logged : session.Logged) (property : String) :
    (session.options.expansion? property).map (·.applied) =
      (Event.lastMade property session.log).map (·.key) := by
  have keys := congrArg (Option.map Prod.fst) (logged property)
  rwa [Option.map_map, Option.map_map] at keys

theorem Logged.current_iff {session : Session} (logged : session.Logged) (property : String)
    (key : Key) :
    (∃ source, Event.lastMade property session.log = some source ∧ source.key = key) ↔
      ∃ present, session.options.expansion? property = some present ∧ present.applied = key := by
  rw [← Option.map_eq_some_iff, ← logged.applied_eq, Option.map_eq_some_iff]

theorem Logged.outdated_iff {session : Session} (logged : session.Logged) (property : String)
    (key : Key) :
    (∀ source, Event.lastMade property session.log = some source → source.key ≠ key) ↔
      ∀ present ∈ session.options.expansion? property, present.applied ≠ key := by
  have current := not_congr (logged.current_iff property key)
  simpa only [not_exists, not_and, Option.mem_def, ne_eq] using current

/-- Whatever was done before, a descent hands out the nested options of a relation as they are if
they were last made from a node of the present one's key. If not it makes new ones, which are not
resolved, of the defaults that the factory makes for the target and of the node. That takes a node
for a declared relation, and defaults with a maximum that the node keeps to. All else stays as it
was, and everything does when the descent fails. -/
theorem descend_exact (start : Options) (first : start.HandedOut) (actions : List Action)
    (factory : Factory) (property : String) :
    let session := after start actions
    let options := session.options
    let result := (options.enter property factory).1
    let next := (options.enter property factory).2
    (∀ nested, result = .ok nested ↔
      ∃ node definition, Expand.find? options.expandNodes property = some node ∧
        options.catalog.expand? property = some definition ∧
        ((∃ source, Event.lastMade property session.log = some source ∧ source.key = node.key ∧
            options.nested? property = some nested ∧ next = options) ∨
          (∀ source, Event.lastMade property session.log = some source →
              source.key ≠ node.key) ∧
            ∃ defaults, ((Factory.create definition.target).run.run factory).1 = .ok defaults ∧
              (∀ top ∈ node.top, ∀ maximum ∈ defaults.maxTop, top ≤ maximum) ∧
              nested = defaults.overlaid definition node ∧
              next.expansion? property = some ⟨property, nested, node.key, none⟩)) ∧
    (∀ error, result = .error error → next = options) ∧
    (∀ other, other ≠ property → next.expansion? other = options.expansion? other) ∧
    { next with nested := options.nested } = options ∧ next.key = options.key := by
  intro session options result next
  have logged : session.Logged := logged_after first.fresh actions
  refine ⟨fun nested => ?_, fun error failed => Options.enter_failed failed,
    Options.enter_frame options property factory⟩
  apply Options.enter_eq_ok_iff.trans
  refine exists_congr fun node => exists_congr fun definition =>
    and_congr_right' (and_congr_right' (or_congr ?_ (and_congr_left' ?_)))
  · have current := logged.current_iff property node.key
    simp only [← and_assoc, exists_and_right]
    exact and_congr_left' (and_congr_left' current.symm)
  · exact (logged.outdated_iff property node.key).symm

/-- Loaded tracks are handed out as they are, skipping one. For another expand node they are made
anew, and a factory that does not allow its `top` leaves everything as it is. -/
theorem descend_exact_album :
    let factory := Factory.reached Schema.albums.provider {} []
    let strict := Factory.reached Schema.albums.provider { maxTop := some 3 } []
    let loaded := (after .album loading).options
    let changed := (after .album
      (loading ++ [.set (.expand [{ property := "tracks", top := some 5 }])])).options
    Options.HandedOut .album ∧
      (∃ tracks, (loaded.enter "tracks" factory).1 = .ok tracks ∧ tracks.skip = 1 ∧
        (loaded.enter "tracks" factory).2 = loaded) ∧
      (∃ tracks key, (changed.enter "tracks" factory).1 = .ok tracks ∧ tracks.top = some 5 ∧
        tracks.skip = 0 ∧
        (changed.enter "tracks" factory).2.expansion? "tracks" =
          some ⟨"tracks", tracks, key, none⟩) ∧
      (changed.enter "tracks" strict).1 =
        .error (.invalidOption "top" "5 exceeds the maximum of 3") ∧
      (changed.enter "tracks" strict).2 = changed := by
  intro factory strict loaded changed
  have first : Options.HandedOut .album :=
    .created (.defaults (rfl : ((Factory.create "album").run.run factory).1 = .ok .album))
  have different : Expand.key { property := "tracks" } ≠
      Expand.key { property := "tracks", top := some 5 } := by
    decide +kernel
  refine ⟨first, ?_, ?_, ?_, ?_⟩
  · have tested : (loaded.enter "tracks" factory).1.toOption.any (·.skip == 1) = true := by
      decide +kernel
    obtain ⟨tracks, entered, skipped⟩ := Outcome.toOption_any tested
    obtain ⟨exactly, _⟩ := descend_exact .album first loading factory "tracks"
    obtain ⟨node, _, expanded, _, ⟨_, _, _, _, unchanged⟩ | ⟨outdated, _⟩⟩ :=
      (exactly tracks).mp entered
    · exact ⟨tracks, entered, beq_iff_eq.mp skipped, unchanged⟩
    · cases expanded
      exact absurd rfl (outdated { property := "tracks" } rfl)
  · have tested : (changed.enter "tracks" factory).1.toOption.any (fun tracks =>
        tracks.top == some 5 && tracks.skip == 0) = true := by
      decide +kernel
    obtain ⟨tracks, entered, asked⟩ := Outcome.toOption_any tested
    obtain ⟨exactly, _⟩ := descend_exact .album first
      (loading ++ [.set (.expand [{ property := "tracks", top := some 5 }])]) factory "tracks"
    obtain ⟨node, _, expanded, _, ⟨source, made, sourceKey, _⟩ | ⟨_, _, _, _, _, put⟩⟩ :=
      (exactly tracks).mp entered
    · cases expanded
      cases made
      exact absurd sourceKey different
    · rw [Bool.and_eq_true, beq_iff_eq, beq_iff_eq] at asked
      exact ⟨tracks, node.key, entered, asked.1, asked.2, put⟩
  · decide +kernel
  · obtain ⟨_, failing, _⟩ := descend_exact .album first
      (loading ++ [.set (.expand [{ property := "tracks", top := some 5 }])]) strict "tracks"
    exact failing (.invalidOption "top" "5 exceeds the maximum of 3") (by decide +kernel)

end Session

end QueryOptions
