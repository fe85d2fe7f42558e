import QueryOptions.Proofs.Creation

/-!
Nested options that are out of date are never taken for resolved. What a session of changes does to
the options is set beside a log of what happened: which expand nodes nested options were made from,
and which relations were marked. Whether a relation needs resolution can be read off the log.
-/

namespace QueryOptions

namespace Options

/-- A descent that also tells the expand node from which it made nested options anew. -/
def descendNoting (property : String) : Descent (Expansion × Option Expand) := do
  let options ← get
  let (node, definition) ← Descent.ofExcept (options.relation property)
  match (options.expansion? property).filter (·.applied == node.key) with
  | some expansion => return (expansion, none)
  | none =>
      let nested ← Descent.ofMaking (nestedOptions definition node)
      let expansion : Expansion :=
        { property, options := nested, applied := node.key, resolved := none }
      modify (·.setExpansion expansion)
      return (expansion, some node)

theorem descend_eq_descendNoting (property : String) :
    descend property = Prod.fst <$> descendNoting property := by
  rw [descend, descendNoting, map_bind]
  refine bind_congr fun options => ?_
  rw [map_bind]
  refine bind_congr ?_
  rintro ⟨node, definition⟩
  dsimp only
  cases (options.expansion? property).filter (·.applied == node.key) with
  | some expansion => rfl
  | none =>
      dsimp only
      rw [map_bind]
      refine bind_congr fun nested => ?_
      rw [map_bind]
      rfl

theorem run_descendNoting (options : Options) (property : String) (factory : Factory) :
    (((descendNoting property).run.run options).run factory).1.1 =
      match options.relation property with
      | .error error => .error error
      | .ok (node, definition) =>
          match (options.expansion? property).filter (·.applied == node.key) with
          | some expansion => .ok (expansion, none)
          | none => ((nestedOptions definition node).run.run factory).1.map fun nested =>
              (⟨property, nested, node.key, none⟩, some node) := by
  simp only [descendNoting, Descent.run_bind, Descent.run_get, Descent.run_ofExcept]
  cases options.relation property with
  | error error => rfl
  | ok pair =>
      obtain ⟨node, definition⟩ := pair
      dsimp only
      cases (options.expansion? property).filter (·.applied == node.key) with
      | some expansion => rfl
      | none =>
          dsimp only
          simp only [Descent.run_bind, Descent.run_ofMaking]
          cases (nestedOptions definition node).run.run factory with
          | mk result later => cases result <;> rfl

theorem descended_eq_noting (options : Options) (property : String) (factory : Factory) :
    (options.descended property factory).1 =
      (((descendNoting property).run.run options).run factory).1.1.map Prod.fst := by
  rw [descended, descend_eq_descendNoting, map_eq_pure_bind, Descent.run_bind]
  cases ((descendNoting property).run.run options).run factory with
  | mk pair later =>
      obtain ⟨result, left⟩ := pair
      cases result <;> rfl

def madeFrom? (options : Options) (factory : Factory) (property : String) : Option Expand :=
  match (((descendNoting property).run.run options).run factory).1.1 with
  | .ok (_, made) => made
  | .error _ => none

/-- A successful descent keeps nested options that were made from a node of the same key, or makes
new ones. -/
theorem descend_cases {options : Options} {property : String} {factory : Factory}
    {expansion : Expansion}
    (handed : (options.descended property factory).1 = .ok expansion) :
    (options.expansion? property = some expansion ∧ options.madeFrom? factory property = none) ∨
      ∃ node nested, options.madeFrom? factory property = some node ∧
        expansion = ⟨property, nested, node.key, none⟩ := by
  cases related : options.relation property with
  | error error =>
      rw [descended, run_descend, related] at handed
      contradiction
  | ok pair =>
      obtain ⟨node, definition⟩ := pair
      rw [descended_eq_noting, run_descendNoting, related] at handed
      rw [madeFrom?, run_descendNoting, related]
      dsimp only at handed ⊢
      cases kept : (options.expansion? property).filter (·.applied == node.key) with
      | some present =>
          rw [kept] at handed
          cases handed
          exact .inl ⟨(Option.filter_eq_some_iff.mp kept).1, rfl⟩
      | none =>
          rw [kept] at handed
          cases outcome : ((nestedOptions definition node).run.run factory).1 with
          | error error =>
              rw [outcome] at handed
              contradiction
          | ok nested =>
              rw [outcome] at handed
              cases handed
              exact .inr ⟨node, nested, rfl, rfl⟩

theorem expansion?_markResolved (options : Options) (marked property : String) :
    (options.markResolved marked).expansion? property =
      if property = marked then
        (options.expansion? property).map fun expansion =>
          { expansion with resolved := some expansion.applied }
      else options.expansion? property := by
  rw [markResolved]
  cases found : options.expansion? marked with
  | none =>
      by_cases same : property = marked
      · simp [same, found]
      · simp [same]
  | some expansion =>
      have named := expansion?_property found
      by_cases same : property = marked
      · simp [expansion?_setExpansion, named, same, found]
      · simp [expansion?_setExpansion, named, same]

theorem nested_setter {setter : Setter} {options next : Options}
    (set : setter.apply options = .ok next) : next.nested = options.nested := by
  cases setter with
  | top value => rw [setTop_eq_ok set]
  | mergeFilters connective filter =>
      cases set
      rw [mergeFilters]
      split <;> rfl
  | skip _ | skiptoken _ | filters _ | orderBy _ | select _ | expand _ | total _ =>
      cases set
      rfl

theorem nested_attempt (setter : Setter) (options : Options) :
    (setter.attempt.run.run options).2.nested = options.nested := by
  have keeps : ∀ next, setter.apply options = .ok next → next.nested = options.nested :=
    fun _ => nested_setter
  exact @attempt_keeps (fun next => next.nested = options.nested) setter options rfl keeps

theorem nested_created {provider : Provider} {config : Config} {steps : List Factory.Step}
    {options : Options} (created : Factory.Creates (Factory.reached provider config steps) options) :
    options.nested = [] := by
  have bare : ∀ catalog options, Factory.preset config catalog = .ok options →
      options.nested = [] := by
    intro catalog options preset
    rw [Factory.preset, whenGiven.eq_def] at preset
    split at preset
    · rw [setTop_eq_ok preset]
    · cases preset
      rfl
  exact created.holds bare fun _ _ _ fresh set => (nested_setter set).trans fresh

end Options

inductive Event
  | made (property : String) (node : Expand)
  | marked (property : String)

namespace Event

/-- The expand node that the nested options of a relation were last made from; the log has the
latest event first. -/
def lastMade (property : String) : List Event → Option Expand
  | [] => none
  | made other node :: earlier => if other = property then some node else lastMade property earlier
  | marked _ :: earlier => lastMade property earlier

def markedSince (property : String) : List Event → Bool
  | [] => false
  | made other _ :: earlier => if other = property then false else markedSince property earlier
  | marked other :: earlier => if other = property then true else markedSince property earlier

end Event

/-- What can be done with options. A descent uses whatever factory is at hand, and hands out nested
options for any change. -/
inductive Action
  | set (setter : Options.Setter)
  | limitTop (maxTop : Option UInt64)
  | markResolved (property : String)
  | descend (factory : Factory) (property : String) (change : Options → Options)

structure Session where
  options : Options
  log : List Event := []

namespace Session

def perform (session : Session) : Action → Session
  | .set setter => { session with options := (setter.attempt.run.run session.options).2 }
  | .limitTop maxTop => { session with options := session.options.withMaxTop maxTop }
  | .markResolved property =>
      { options := session.options.markResolved property, log := .marked property :: session.log }
  | .descend factory property change =>
      match session.options.descended property factory with
      | (.error _, options) => { session with options }
      | (.ok expansion, options) =>
          { options := options.setExpansion { expansion with options := change expansion.options }
            log := (session.options.madeFrom? factory property).toList.map (.made property) ++
              session.log }

def after (start : Options) (actions : List Action) : Session :=
  actions.foldl perform { options := start }

/-- The nested options of every relation are those that the log tells of. -/
def Logged (session : Session) : Prop :=
  ∀ property,
    (session.options.expansion? property).map (fun expansion =>
      (expansion.applied, expansion.resolved)) =
    (Event.lastMade property session.log).map fun node =>
      (node.key, if Event.markedSince property session.log then some node.key else none)

theorem logged_of_unchanged {session : Session} (logged : session.Logged) {options : Options}
    (same : options.nested = session.options.nested) :
    Logged { session with options } := by
  intro property
  have sameExpansion : options.expansion? property = session.options.expansion? property := by
    rw [Options.expansion?, Options.expansion?, same]
  rw [sameExpansion]
  exact logged property

theorem logged_markResolved {session : Session} (logged : session.Logged) (marked : String) :
    (session.perform (.markResolved marked)).Logged := by
  intro property
  have before := logged property
  rw [perform, Options.expansion?_markResolved, Event.lastMade, Event.markedSince]
  by_cases same : marked = property
  · subst same
    rw [if_pos rfl, if_pos rfl]
    cases made : Event.lastMade marked session.log with
    | none =>
        rw [made, Option.map_none, Option.map_eq_none_iff] at before
        rw [before]
        rfl
    | some node =>
        rw [made] at before
        obtain ⟨expansion, found, keys⟩ := Option.map_eq_some_iff.mp before
        have applied : expansion.applied = node.key := congrArg Prod.fst keys
        rw [found]
        simp [applied]
  · rw [if_neg (Ne.symm same), if_neg same]
    exact before

theorem perform_descend (session : Session) (factory : Factory) (property : String)
    (change : Options → Options) :
    session.perform (.descend factory property change) =
      match (session.options.descended property factory).1 with
      | .error _ => session
      | .ok expansion =>
          { options := session.options.setExpansion
              { expansion with options := change expansion.options }
            log := (session.options.madeFrom? factory property).toList.map (.made property) ++
              session.log } := by
  rw [perform]
  cases handed : (session.options.descended property factory).1 with
  | error error => rw [Options.descended_failed handed]
  | ok expansion =>
      rw [Options.descended_ok handed]
      dsimp only
      rw [Options.setExpansion_changed]

theorem logged_descend {session : Session} (logged : session.Logged) (factory : Factory)
    (property : String) (change : Options → Options) :
    (session.perform (.descend factory property change)).Logged := by
  rw [perform_descend]
  split
  · exact logged
  · rename_i expansion descended
    intro other
    have before := logged other
    rw [Options.expansion?_setExpansion]
    dsimp only
    obtain ⟨kept, none⟩ | ⟨node, nested, made, rfl⟩ := Options.descend_cases descended
    · have named := Options.expansion?_property kept
      rw [none, named]
      by_cases same : other = property
      · subst same
        rw [kept] at before
        rw [if_pos rfl]
        exact before
      · rw [if_neg same]
        exact before
    · rw [made]
      by_cases same : other = property
      · subst same
        simp [Event.lastMade, Event.markedSince]
      · simpa [same, Ne.symm same, Event.lastMade, Event.markedSince] using before

theorem logged_perform {session : Session} (logged : session.Logged) (action : Action) :
    (session.perform action).Logged := by
  cases action with
  | set setter =>
      exact logged_of_unchanged logged (Options.nested_attempt setter session.options)
  | limitTop maxTop => exact logged_of_unchanged logged rfl
  | markResolved property => exact logged_markResolved logged property
  | descend factory property change => exact logged_descend logged factory property change

theorem logged_after {start : Options} (fresh : start.nested = []) (actions : List Action) :
    (after start actions).Logged := by
  have all : ∀ session : Session, session.Logged → (actions.foldl perform session).Logged := by
    induction actions with
    | nil => exact fun _ logged => logged
    | cons action actions ih => exact fun _ logged => ih _ (logged_perform logged action)
  refine all _ fun property => ?_
  simp [Options.expansion?, fresh, Event.lastMade]

/-- Whether a relation needs resolution, told by the log and the present expand node. -/
theorem needsResolution_eq_false_iff {session : Session} (logged : session.Logged)
    {property : String} {node : Expand}
    (expanded : Expand.find? session.options.expandNodes property = some node) :
    session.options.needsResolution property = false ↔
      (session.options.nested? property).isSome = true ∧
        Event.markedSince property session.log = true ∧
        ∃ source, Event.lastMade property session.log = some source ∧ source.key = node.key := by
  have logged := logged property
  rw [Options.needsResolution, expanded, Options.nested?]
  cases made : Event.lastMade property session.log with
  | none =>
      rw [made, Option.map_none, Option.map_eq_none_iff] at logged
      simp [logged]
  | some source =>
      rw [made] at logged
      obtain ⟨expansion, found, keys⟩ := Option.map_eq_some_iff.mp logged
      have resolved : expansion.resolved =
          if Event.markedSince property session.log then some source.key else none :=
        congrArg Prod.snd keys
      rw [found]
      cases marked : Event.markedSince property session.log with
      | false => simp [resolved, marked]
      | true => simp [resolved, marked]

theorem markedSince_of_made {property : String} {later : List Event}
    (unmarked : Event.marked property ∉ later) (source : Expand) (earlier : List Event) :
    Event.markedSince property (later ++ .made property source :: earlier) = false := by
  induction later with
  | nil => simp [Event.markedSince]
  | cons event later ih =>
      simp only [List.mem_cons, not_or] at unmarked
      have rest := ih unmarked.2
      cases event with
      | made other node =>
          rw [List.cons_append, Event.markedSince, rest]
          split <;> rfl
      | marked other =>
          have different : ¬other = property := by
            rintro rfl
            exact unmarked.1 rfl
          rw [List.cons_append, Event.markedSince, if_neg different, rest]

/-- A relation of options that any factory made, after any session, counts as resolved exactly when
it has nested options, the expand node that these were last made from has the key of the present
one, and it was marked since. So it needs resolution from each making of nested options on until it
is marked, and at once when its expand node changes to one of another key. -/
theorem resolved_iff_marked_since_made (provider : Provider) (config : Config)
    (steps : List Factory.Step) (start : Options)
    (created : Factory.Creates (Factory.reached provider config steps) start)
    (actions : List Action) (property : String) :
    let session := after start actions
    (∀ node, Expand.find? session.options.expandNodes property = some node →
      (session.options.needsResolution property = false ↔
        (session.options.nested? property).isSome = true ∧
          Event.markedSince property session.log = true ∧
          ∃ source, Event.lastMade property session.log = some source ∧
            source.key = node.key)) ∧
    (∀ later source earlier, session.log = later ++ .made property source :: earlier →
      Event.marked property ∉ later → property ∈ session.options.expandNodes.map (·.property) →
      session.options.needsResolution property = true) ∧
    ∀ node nodes changed, Expand.find? session.options.expandNodes property = some node →
      session.options.needsResolution property = false →
      Expand.find? nodes property = some changed → changed.key ≠ node.key →
      (session.perform (.set (.expand nodes))).options.needsResolution property = true := by
  intro session
  have fresh : start.nested = [] := Options.nested_created created
  have logged : session.Logged := logged_after fresh actions
  refine ⟨fun node expanded => needsResolution_eq_false_iff logged expanded, ?_, ?_⟩
  · intro later source earlier logEq unmarked expanded
    obtain ⟨node, found⟩ : ∃ node, Expand.find? session.options.expandNodes property = some node := by
      simpa [Expand.find?, ← Option.isSome_iff_exists] using expanded
    rw [← Bool.not_eq_false, needsResolution_eq_false_iff logged found, logEq,
      markedSince_of_made unmarked]
    simp
  · intro node nodes changed expanded resolved found different
    obtain ⟨_, _, source, made, sameKey⟩ := (needsResolution_eq_false_iff logged expanded).mp resolved
    have loggedNext := logged_perform logged (.set (.expand nodes))
    rw [← Bool.not_eq_false, needsResolution_eq_false_iff loggedNext found]
    rintro ⟨_, _, other, otherMade, otherKey⟩
    have same : source = other := Option.some.inj (made.symm.trans otherMade)
    exact different (by rw [← otherKey, ← same, sameKey])

end Session

def Schema.albums : Schema :=
  ⟨[("album",
      { properties := [⟨"title", none, none⟩], expands := [⟨"tracks", "track", none, none⟩] }),
    ("track", { properties := [⟨"length", none, none⟩] })]⟩

def Options.album : Options where
  catalog :=
    { entity := "album", properties := ⟨[⟨"title", none, none⟩]⟩, orderable := ["title"],
      selectable := ["title"], expands := [⟨"tracks", "track", none, none⟩] }

def Session.loading : List Action :=
  [.set (.expand [{ property := "tracks" }]),
    .descend (Factory.reached Schema.albums.provider {} []) "tracks" (·.setSkip 1),
    .markResolved "tracks"]

/-- Another expand node makes loaded tracks stale, and the first one again makes them what they
were. -/
theorem Session.resolved_iff_marked_since_made_album :
    Factory.Creates (Factory.reached Schema.albums.provider {} []) .album ∧
      (after .album loading).options.needsResolution "tracks" = false ∧
      (after .album (loading ++ [.set (.expand [{ property := "tracks", top := some 5 }])])
        ).options.needsResolution "tracks" = true ∧
      (after .album (loading ++ [.set (.expand [{ property := "tracks", top := some 5 }]),
        .set (.expand [{ property := "tracks" }])])).options.needsResolution "tracks" = false := by
  have created : Factory.Creates (Factory.reached Schema.albums.provider {} []) .album :=
    .defaults (rfl : ((Factory.create "album").run.run
      (Factory.reached Schema.albums.provider {} [])).1 = .ok .album)
  have loaded : (after .album loading).options.needsResolution "tracks" = false := by
    decide +kernel
  have different : Expand.key { property := "tracks", top := some 5 } ≠
      Expand.key { property := "tracks" } := by
    decide +kernel
  obtain ⟨_, _, changed⟩ := resolved_iff_marked_since_made Schema.albums.provider {} [] .album
    created loading "tracks"
  obtain ⟨unchanged, _⟩ := resolved_iff_marked_since_made Schema.albums.provider {} [] .album created
    (loading ++ [.set (.expand [{ property := "tracks", top := some 5 }]),
      .set (.expand [{ property := "tracks" }])]) "tracks"
  refine ⟨created, loaded, ?_, ?_⟩
  · exact changed { property := "tracks" } _ _ (by rfl) loaded (by rfl) different
  · refine (unchanged { property := "tracks" } (by rfl)).mpr ⟨?_, ?_, { property := "tracks" }, ?_, rfl⟩
    · decide +kernel
    · decide +kernel
    · rfl

end QueryOptions
