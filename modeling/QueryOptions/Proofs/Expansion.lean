import QueryOptions.Options.Descent
import QueryOptions.Proofs.Memory

/-!
Expansions in place. A descent leaves what it hands out among the nested options of its relation,
and a descent that fails leaves them all as they were.
-/

namespace QueryOptions.Options

theorem expansion?_property {options : Options} {property : String} {expansion : Expansion}
    (found : options.expansion? property = some expansion) : expansion.property = property := by
  simpa using List.find?_some found

theorem find?_putExpansion (expansion : Expansion) (nested : List Expansion) (property : String) :
    (putExpansion expansion nested).find? (·.property == property) =
      if property = expansion.property then some expansion
      else nested.find? (·.property == property) := by
  induction nested with
  | nil =>
      by_cases same : property = expansion.property
      · simp [putExpansion, same]
      · simp [putExpansion, same, Ne.symm same]
  | cons other others ih =>
      rw [putExpansion]
      by_cases replaced : other.property = expansion.property
      · rw [if_pos replaced]
        by_cases same : property = expansion.property
        · subst same
          simp
        · simp [same, Ne.symm same, replaced]
      · rw [if_neg replaced, List.find?_cons, List.find?_cons, ih]
        by_cases first : other.property = property
        · have different : ¬property = expansion.property := first ▸ replaced
          simp [first, different]
        · simp [beq_eq_false_iff_ne.mpr first]

theorem expansion?_setExpansion (options : Options) (expansion : Expansion) (property : String) :
    (options.setExpansion expansion).expansion? property =
      if property = expansion.property then some expansion
      else options.expansion? property :=
  find?_putExpansion expansion options.nested property

theorem mem_putExpansion {expansion other : Expansion} {nested : List Expansion}
    (member : other ∈ putExpansion expansion nested) : other = expansion ∨ other ∈ nested := by
  induction nested with
  | nil => exact .inl (List.mem_singleton.mp member)
  | cons first nested ih =>
      rw [putExpansion] at member
      split at member
      · rcases List.mem_cons.mp member with put | later
        · exact .inl put
        · exact .inr (List.mem_cons_of_mem _ later)
      · rcases List.mem_cons.mp member with here | later
        · exact .inr (here ▸ List.mem_cons_self)
        · exact (ih later).imp_right (List.mem_cons_of_mem _)

theorem putExpansion_self {expansion : Expansion} {nested : List Expansion}
    (found : nested.find? (·.property == expansion.property) = some expansion) :
    putExpansion expansion nested = nested := by
  induction nested with
  | nil => contradiction
  | cons other nested ih =>
      rw [List.find?_cons] at found
      rw [putExpansion]
      by_cases same : other.property = expansion.property
      · simp only [same, beq_self_eq_true, Option.some.injEq] at found
        rw [if_pos same, found]
      · rw [beq_eq_false_iff_ne.mpr same] at found
        rw [if_neg same, ih found]

theorem setExpansion_self {options : Options} {property : String} {expansion : Expansion}
    (found : options.expansion? property = some expansion) :
    options.setExpansion expansion = options := by
  have named := expansion?_property found
  subst named
  cases options
  rw [setExpansion, putExpansion_self found]

theorem putExpansion_putExpansion {first second : Expansion}
    (same : first.property = second.property) (nested : List Expansion) :
    putExpansion second (putExpansion first nested) = putExpansion second nested := by
  induction nested with
  | nil => simp [putExpansion, same]
  | cons other nested ih =>
      by_cases replaced : other.property = second.property
      · simp [putExpansion, same, replaced]
      · simp [putExpansion, same, replaced, ih]

theorem setExpansion_changed (options : Options) (expansion : Expansion) (changed : Options) :
    (options.setExpansion expansion).setExpansion { expansion with options := changed } =
      options.setExpansion { expansion with options := changed } := by
  have same : expansion.property = { expansion with options := changed }.property := rfl
  rw [setExpansion, setExpansion, setExpansion, putExpansion_putExpansion same]

namespace Descent

theorem run_bind (first : Descent α) (next : α → Descent β) (options : Options)
    (factory : Factory) :
    ((first >>= next).run.run options).run factory =
      match (first.run.run options).run factory with
      | ((.ok value, left), later) => ((next value).run.run left).run later
      | ((.error error, left), later) => ((.error error, left), later) := by
  simp only [ExceptT.run_bind, StateT.run_bind]
  cases outcome : (first.run.run options).run factory with
  | mk pair later =>
      obtain ⟨result, left⟩ := pair
      cases result <;> rfl

theorem run_get (options : Options) (factory : Factory) :
    ((get : Descent Options).run.run options).run factory = ((.ok options, options), factory) :=
  rfl

theorem run_ofExcept (result : Except Error α) (options : Options) (factory : Factory) :
    ((ofExcept result).run.run options).run factory = ((result, options), factory) :=
  rfl

theorem run_ofMaking (making : Making α) (options : Options) (factory : Factory) :
    ((ofMaking making).run.run options).run factory =
      (((making.run.run factory).1, options), (making.run.run factory).2) :=
  rfl

end Descent

/-- Behind its relation, a descent keeps an expansion or puts a new one in place. -/
theorem run_descend (options : Options) (property : String) (factory : Factory) :
    ((descend property).run.run options).run factory =
      match options.relation property with
      | .error error => ((.error error, options), factory)
      | .ok (node, definition) =>
          match (options.expansion? property).filter (·.applied == node.key) with
          | some expansion => ((.ok expansion, options), factory)
          | none =>
              match (nestedOptions definition node).run.run factory with
              | (.error error, later) => ((.error error, options), later)
              | (.ok nested, later) =>
                  let expansion : Expansion := ⟨property, nested, node.key, none⟩
                  ((.ok expansion, options.setExpansion expansion), later) := by
  simp only [descend, Descent.run_bind, Descent.run_get, Descent.run_ofExcept]
  cases options.relation property with
  | error error => rfl
  | ok pair =>
      obtain ⟨node, definition⟩ := pair
      dsimp only
      cases (options.expansion? property).filter (·.applied == node.key) with
      | some expansion => rfl
      | none =>
          dsimp only
          simp only [Descent.run_bind, Descent.run_ofMaking]
          cases (nestedOptions definition node).run.run factory with
          | mk result later => cases result <;> rfl

def descended (options : Options) (property : String) (factory : Factory) :
    Except Error Expansion × Options :=
  (((descend property).run.run options).run factory).1

/-- A descent as the factory sees it, whatever becomes of the options. -/
def handOut (options : Options) (property : String) : Making Expansion :=
  ExceptT.mk (Prod.fst <$> (descend property).run.run options)

theorem run_handOut (options : Options) (property : String) (factory : Factory) :
    (options.handOut property).run.run factory =
      ((options.descended property factory).1,
        (((descend property).run.run options).run factory).2) :=
  rfl

theorem handOut_eq (options : Options) (property : String) :
    options.handOut property = (do
      let (node, definition) ← Making.ofExcept (options.relation property)
      match (options.expansion? property).filter (·.applied == node.key) with
      | some expansion => return expansion
      | none =>
          let nested ← nestedOptions definition node
          return ⟨property, nested, node.key, none⟩) := by
  funext factory
  refine (run_handOut options property factory).trans ?_
  rw [descended, run_descend]
  cases options.relation property with
  | error error => rfl
  | ok pair =>
      obtain ⟨node, definition⟩ := pair
      have skipped : ∀ next : Expand × ExpandDefinition → Making Expansion,
          Making.ofExcept (.ok (node, definition)) >>= next = next (node, definition) :=
        fun _ => rfl
      rw [skipped]
      dsimp only
      cases (options.expansion? property).filter (·.applied == node.key) with
      | some expansion => rfl
      | none =>
          refine Eq.trans ?_ (Memory.run_bind (nestedOptions definition node) _ factory).symm
          dsimp only
          cases (nestedOptions definition node).run.run factory with
          | mk result later => cases result <;> rfl

/-- What is handed out is in place, and nothing changes where nothing is handed out. -/
theorem descended_eq (options : Options) (property : String) (factory : Factory) :
    options.descended property factory =
      match (options.descended property factory).1 with
      | .error error => (.error error, options)
      | .ok expansion => (.ok expansion, options.setExpansion expansion) := by
  rw [descended, run_descend]
  cases options.relation property with
  | error error => rfl
  | ok pair =>
      obtain ⟨node, definition⟩ := pair
      dsimp only
      cases kept : (options.expansion? property).filter (·.applied == node.key) with
      | some expansion =>
          dsimp only
          rw [setExpansion_self (Option.filter_eq_some_iff.mp kept).1]
      | none =>
          dsimp only
          cases (nestedOptions definition node).run.run factory with
          | mk result later => cases result <;> rfl

theorem descended_failed {options : Options} {property : String} {factory : Factory}
    {error : Error} (failed : (options.descended property factory).1 = .error error) :
    options.descended property factory = (.error error, options) := by
  rw [descended_eq, failed]

theorem descended_ok {options : Options} {property : String} {factory : Factory}
    {expansion : Expansion} (handed : (options.descended property factory).1 = .ok expansion) :
    options.descended property factory = (.ok expansion, options.setExpansion expansion) := by
  rw [descended_eq, handed]

/-- A change below a relation is one of the nested options that the descent hands out, and is put
in their place. -/
theorem run_changeAt_cons (change : Change α) (property : String) (path : List String)
    (options : Options) (factory : Factory) :
    (changeAt change (property :: path) options).run factory =
      let later := ((options.handOut property).run.run factory).2
      match (options.descended property factory).1 with
      | .error error => ((.error error, options), later)
      | .ok expansion =>
          let below := (changeAt change path expansion.options).run later
          ((below.1.1, options.setExpansion { expansion with options := below.1.2 }), below.2) := by
  have run : ((descend property).run.run options).run factory =
      (options.descended property factory, ((options.handOut property).run.run factory).2) :=
    rfl
  rw [changeAt, StateT.run_bind, run]
  cases handed : (options.descended property factory).1 with
  | error error =>
      rw [descended_failed handed]
      rfl
  | ok expansion =>
      rw [descended_ok handed]
      dsimp only
      rw [← setExpansion_changed]
      rfl

end QueryOptions.Options
