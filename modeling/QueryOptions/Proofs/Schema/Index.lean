import Mathlib.Data.List.Nodup
import QueryOptions.Proofs.Memory
import QueryOptions.Proofs.Outcome
import QueryOptions.Proofs.Schema.Name
import QueryOptions.Schema.Index

/-!
Catalogs that are held for look-up do what plain ones do. The row of definitions and the positions
beside it stay in step, whatever is inserted and whether or not it is taken in, and so a position
that is noted for a name always leads to the definition of that name.
-/

namespace QueryOptions

namespace PropertyCatalog

variable {catalog next : PropertyCatalog} {definition : PropertyDefinition} {name : String}

theorem contains_iff : catalog.contains name = true ↔ name ∈ catalog.names := by
  simp [contains, get?, names, List.mem_map]

theorem get?_eq_some_iff (distinct : catalog.names.Nodup) :
    catalog.get? name = some definition ↔
      definition ∈ catalog.definitions ∧ definition.name = name := by
  rw [get?]
  constructor
  · intro found
    exact ⟨List.mem_of_find?_eq_some found, by simpa using List.find?_some found⟩
  · rintro ⟨member, named⟩
    cases found : catalog.definitions.find? (·.name == name) with
    | none => simpa [named] using List.find?_eq_none.mp found definition member
    | some other =>
        have otherNamed : other.name = name := by simpa using List.find?_some found
        have same := List.inj_on_of_nodup_map distinct (List.mem_of_find?_eq_some found) member
          (otherNamed.trans named.symm)
        rw [same]

theorem insert_eq_ok_iff :
    catalog.insert definition = .ok next ↔
      Schema.IsPath definition.name ∧ definition.name ∉ catalog.names ∧
        next = ⟨catalog.definitions ++ [definition]⟩ := by
  rw [insert, ← contains_iff, ← Schema.checkName_eq_ok_iff]
  cases Schema.checkName definition.name with
  | error error => simp [bind, Except.bind]
  | ok checked => cases catalog.contains definition.name <;> simp [bind, Except.bind, eq_comm]

theorem insert_fails_iff :
    (∃ error, catalog.insert definition = .error error) ↔
      ¬ Schema.IsPath definition.name ∨ definition.name ∈ catalog.names := by
  cases inserted : catalog.insert definition with
  | error error =>
      refine iff_of_true ⟨error, rfl⟩ ?_
      by_contra accepted
      rw [not_or, not_not] at accepted
      rw [insert_eq_ok_iff.mpr ⟨accepted.1, accepted.2, rfl⟩] at inserted
      contradiction
  | ok next =>
      obtain ⟨path, new, _⟩ := insert_eq_ok_iff.mp inserted
      simp [path, new]

theorem foldlM_insert_eq_ok_iff {definitions : List PropertyDefinition}
    (distinct : catalog.names.Nodup) :
    definitions.foldlM insert catalog = .ok next ↔
      (∀ definition ∈ definitions, Schema.IsPath definition.name) ∧
        (catalog.names ++ definitions.map (·.name)).Nodup ∧
        next = ⟨catalog.definitions ++ definitions⟩ := by
  induction definitions generalizing catalog with
  | nil =>
      obtain ⟨definitions⟩ := catalog
      simp [pure, Except.pure, distinct, eq_comm]
  | cons definition definitions ih =>
      have names_append :
          names ⟨catalog.definitions ++ [definition]⟩ = catalog.names ++ [definition.name] := by
        simp [names]
      have apart : (catalog.names ++ [definition.name]).Nodup ↔
          definition.name ∉ catalog.names := by
        rw [← List.concat_eq_append, List.nodup_concat]
        exact and_iff_left distinct
      rw [List.foldlM_cons, Outcome.bind_eq_ok, List.forall_mem_cons, List.map_cons,
        List.append_cons catalog.names, List.append_cons catalog.definitions]
      constructor
      · rintro ⟨middle, first, rest⟩
        obtain ⟨path, new, rfl⟩ := insert_eq_ok_iff.mp first
        rw [ih (by rwa [names_append, apart]), names_append] at rest
        exact ⟨⟨path, rest.1⟩, rest.2⟩
      · rintro ⟨⟨path, paths⟩, allDistinct, nextEq⟩
        have new := apart.mp (List.nodup_append.mp allDistinct).1
        refine ⟨_, insert_eq_ok_iff.mpr ⟨path, new, rfl⟩, ?_⟩
        rw [ih (by rwa [names_append, apart]), names_append]
        exact ⟨paths, allDistinct, nextEq⟩

theorem ofDefinitions_eq_ok_iff {definitions : List PropertyDefinition} :
    ofDefinitions definitions = .ok catalog ↔
      (∀ definition ∈ definitions, Schema.IsPath definition.name) ∧
        (definitions.map (·.name)).Nodup ∧ catalog = ⟨definitions⟩ :=
  foldlM_insert_eq_ok_iff List.nodup_nil

end PropertyCatalog

namespace IndexedCatalog

variable {catalog : IndexedCatalog} {definition : PropertyDefinition}

/-- Names are distinct, and each has the position at which it stands in the row. -/
structure Faithful (catalog : IndexedCatalog) : Prop where
  distinct : catalog.names.Nodup
  position?_iff : ∀ name position,
    catalog.position? name = some position ↔ catalog.names[position]? = some name

theorem faithful_empty : Faithful {} :=
  ⟨List.nodup_nil, by simp [position?, names]⟩

theorem Faithful.contains_eq (faithful : catalog.Faithful) (name : String) :
    catalog.contains name = catalog.plain.contains name := by
  have noted : catalog.contains name = true ↔ name ∈ catalog.names := by
    simp only [contains, Option.isSome_iff_exists, faithful.position?_iff, List.mem_iff_getElem?]
  rw [Bool.eq_iff_iff, noted, PropertyCatalog.contains_iff]
  rfl

theorem Faithful.lookUp_eq (faithful : catalog.Faithful) (name : String) :
    catalog.lookUp name = .ok (catalog.plain.get? name) := by
  rw [lookUp]
  cases noted : catalog.position? name with
  | none =>
      have absent : catalog.plain.contains name = false := by
        rw [← faithful.contains_eq, contains, noted]
        rfl
      have missing : catalog.plain.get? name = none := by
        simpa [PropertyCatalog.contains] using absent
      rw [missing]
  | some position =>
      have named := (faithful.position?_iff name position).mp noted
      rw [names, List.getElem?_map, Option.map_eq_some_iff] at named
      obtain ⟨definition, found, named⟩ := named
      have distinct : catalog.plain.names.Nodup := faithful.distinct
      have first := (PropertyCatalog.get?_eq_some_iff distinct).mpr
        ⟨List.mem_of_getElem? found, named⟩
      simp only [found, first]

def push (catalog : IndexedCatalog) (definition : PropertyDefinition) : IndexedCatalog where
  definitions := catalog.definitions ++ [definition]
  positions := (definition.name, catalog.size) :: catalog.positions

theorem names_push : (catalog.push definition).names = catalog.names ++ [definition.name] := by
  simp [push, names]

theorem position?_push (name : String) :
    (catalog.push definition).position? name =
      if definition.name = name then some catalog.names.length else catalog.position? name := by
  rw [position?, push]
  split
  · rename_i same
    rw [List.find?_cons_of_pos (by simpa using same)]
    simp [size, names]
  · rename_i other
    rw [List.find?_cons_of_neg (by simpa using other)]
    rfl

theorem Faithful.push (faithful : catalog.Faithful) (new : definition.name ∉ catalog.names) :
    (catalog.push definition).Faithful := by
  constructor
  · rw [names_push, ← List.concat_eq_append, List.nodup_concat]
    exact ⟨new, faithful.distinct⟩
  · intro name position
    rw [names_push, position?_push]
    have before := faithful.position?_iff name position
    have absent : ∀ place, catalog.names[place]? ≠ some definition.name :=
      fun place found => new (List.mem_of_getElem? found)
    split
    · rename_i same
      subst same
      grind
    · grind

theorem run_insert (catalog : IndexedCatalog) (definition : PropertyDefinition) :
    (insert definition).run.run catalog =
      match Schema.checkName definition.name with
      | .error error => (.error error, catalog)
      | .ok _ =>
          if catalog.contains definition.name then
            (.error (.inconsistent ("Property defined twice: " ++ definition.name)), catalog)
          else (.ok (), catalog.push definition) := by
  rw [insert, Memory.run_bind]
  cases Schema.checkName definition.name with
  | error error => rfl
  | ok checked =>
      change (if catalog.contains definition.name then _ else _ : Change Unit).run.run catalog = _
      split <;> rfl

/-- An insert fails where an insert into the plain catalog does, with the same error, and then it
changes nothing. -/
theorem Faithful.run_insert_eq (faithful : catalog.Faithful) (definition : PropertyDefinition) :
    (insert definition).run.run catalog =
      match catalog.plain.insert definition with
      | .error error => (.error error, catalog)
      | .ok _ => (.ok (), catalog.push definition) := by
  rw [run_insert, faithful.contains_eq, PropertyCatalog.insert]
  cases Schema.checkName definition.name with
  | error error => rfl
  | ok checked => cases catalog.plain.contains definition.name <;> rfl

theorem Faithful.insert_cases (faithful : catalog.Faithful) (definition : PropertyDefinition) :
    (catalog.plain.insert definition = .ok (catalog.push definition).plain ∧
      (insert definition).run.run catalog = (.ok (), catalog.push definition) ∧
      (catalog.push definition).Faithful) ∨
    ∃ error, catalog.plain.insert definition = .error error ∧
      (insert definition).run.run catalog = (.error error, catalog) := by
  rw [faithful.run_insert_eq]
  cases inserted : catalog.plain.insert definition with
  | error error => exact .inr ⟨error, rfl, rfl⟩
  | ok next =>
      obtain ⟨_, new, rfl⟩ := PropertyCatalog.insert_eq_ok_iff.mp inserted
      exact .inl ⟨rfl, rfl, faithful.push new⟩

structure History where
  taken : List PropertyDefinition := []
  catalog : IndexedCatalog := {}

def History.attempt (history : History) (definition : PropertyDefinition) : History :=
  match (insert definition).run.run history.catalog with
  | (.ok _, catalog) => ⟨history.taken ++ [definition], catalog⟩
  | (.error _, catalog) => ⟨history.taken, catalog⟩

def attemptAll (definitions : List PropertyDefinition) : History :=
  definitions.foldl History.attempt {}

structure History.Kept (history : History) : Prop where
  faithful : history.catalog.Faithful
  definitions_eq : history.catalog.definitions = history.taken

theorem History.Kept.attempt {history : History} (kept : history.Kept)
    (definition : PropertyDefinition) : (history.attempt definition).Kept := by
  rw [History.attempt]
  rcases kept.faithful.insert_cases definition with ⟨_, ran, faithful⟩ | ⟨error, _, ran⟩
  · rw [ran]
    exact ⟨faithful, congrArg (· ++ [definition]) kept.definitions_eq⟩
  · rw [ran]
    exact kept

theorem kept_attemptAll (definitions : List PropertyDefinition) :
    (attemptAll definitions).Kept := by
  have fromHere : ∀ history : History, history.Kept →
      (definitions.foldl History.attempt history).Kept := by
    induction definitions with
    | nil => exact fun _ kept => kept
    | cons definition definitions ih => exact fun history kept => ih _ (kept.attempt definition)
  exact fromHere {} ⟨faithful_empty, rfl⟩

theorem Faithful.run_forM_eq (faithful : catalog.Faithful) (definitions : List PropertyDefinition) :
    (match (definitions.forM insert).run.run catalog with
      | (.ok _, last) => .ok last.plain
      | (.error error, _) => .error error) =
      definitions.foldlM PropertyCatalog.insert catalog.plain := by
  induction definitions generalizing catalog with
  | nil => rfl
  | cons definition definitions ih =>
      rw [List.forM, Memory.run_bind, List.foldlM_cons]
      rcases faithful.insert_cases definition with ⟨inserted, ran, later⟩ | ⟨error, failed, ran⟩
      · rw [ran, inserted]
        exact ih later
      · rw [ran, failed]
        rfl

theorem ofDefinitions_plain (definitions : List PropertyDefinition) :
    (ofDefinitions definitions).map plain = PropertyCatalog.ofDefinitions definitions := by
  rw [PropertyCatalog.ofDefinitions, ofDefinitions]
  refine Eq.trans ?_ (faithful_empty.run_forM_eq definitions)
  generalize (definitions.forM insert).run.run {} = result
  obtain ⟨error | made, last⟩ := result <;> rfl

theorem Faithful.insert_exact (faithful : catalog.Faithful) (definition : PropertyDefinition) :
    ∃ outcome later, (insert definition).run.run catalog = (outcome, later) ∧
      ((∃ error, outcome = .error error) ↔
        ¬ Schema.IsPath definition.name ∨ definition.name ∈ catalog.names) ∧
      ((∃ error, outcome = .error error) → later = catalog) ∧
      catalog.plain.insert definition = outcome.map fun _ => later.plain := by
  have fails : (∃ error, catalog.plain.insert definition = .error error) ↔
      ¬ Schema.IsPath definition.name ∨ definition.name ∈ catalog.names :=
    PropertyCatalog.insert_fails_iff
  rcases faithful.insert_cases definition with ⟨inserted, ran, _⟩ | ⟨error, failed, ran⟩
  · refine ⟨_, _, ran, ?_, nofun, inserted⟩
    rw [← fails, inserted]
    simp
  · refine ⟨_, _, ran, ?_, fun _ => rfl, failed⟩
    rw [← fails, failed]
    exact iff_of_true ⟨error, rfl⟩ ⟨error, rfl⟩

theorem ofDefinitions_eq_ok_iff {definitions : List PropertyDefinition} (names : List String) :
    (∃ made, ofDefinitions definitions = .ok made ∧ made.names = names) ↔
      (∀ definition ∈ definitions, Schema.IsPath definition.name) ∧
        (definitions.map (·.name)).Nodup ∧ names = definitions.map (·.name) := by
  have plainly : (∃ made, ofDefinitions definitions = .ok made ∧ made.names = names) ↔
      ∃ made, PropertyCatalog.ofDefinitions definitions = .ok made ∧ made.names = names := by
    rw [← ofDefinitions_plain]
    simp only [Outcome.map_eq_ok]
    constructor
    · rintro ⟨made, succeeds, named⟩
      exact ⟨made.plain, ⟨made, succeeds, rfl⟩, named⟩
    · rintro ⟨_, ⟨made, succeeds, rfl⟩, named⟩
      exact ⟨made, succeeds, named⟩
  rw [plainly]
  constructor
  · rintro ⟨made, succeeds, named⟩
    obtain ⟨paths, distinct, rfl⟩ := PropertyCatalog.ofDefinitions_eq_ok_iff.mp succeeds
    exact ⟨paths, distinct, named.symm⟩
  · rintro ⟨paths, distinct, named⟩
    exact ⟨_, PropertyCatalog.ofDefinitions_eq_ok_iff.mpr ⟨paths, distinct, rfl⟩, named.symm⟩

/-- Whatever is inserted into a new catalog, its names are those of the definitions taken in, in
their order and none twice; a look-up of a name finds the definition taken in under it and nothing
else, and always at a position in the row. An insert fails exactly for a name that breaks the rules
or is known already, and then it changes nothing. A catalog is made of definitions exactly when all
their names follow the rules and are distinct. All of this is what a plain catalog does. -/
theorem index_exact (definitions : List PropertyDefinition) :
    let history := attemptAll definitions
    let catalog := history.catalog
    (catalog.names = history.taken.map (·.name) ∧ catalog.names.Nodup ∧
      catalog.size = history.taken.length) ∧
    (∀ name, ∃ answer, catalog.lookUp name = .ok answer ∧
      (∀ definition,
        answer = some definition ↔ definition ∈ history.taken ∧ definition.name = name) ∧
      (answer.isSome = true ↔ name ∈ catalog.names) ∧ catalog.contains name = answer.isSome ∧
      catalog.plain.get? name = answer) ∧
    (∀ definition, ∃ outcome later, (insert definition).run.run catalog = (outcome, later) ∧
      ((∃ error, outcome = .error error) ↔
        ¬ Schema.IsPath definition.name ∨ definition.name ∈ catalog.names) ∧
      ((∃ error, outcome = .error error) → later = catalog) ∧
      catalog.plain.insert definition = outcome.map fun _ => later.plain) ∧
    (∀ names, (∃ made, ofDefinitions definitions = .ok made ∧ made.names = names) ↔
      (∀ definition ∈ definitions, Schema.IsPath definition.name) ∧
        (definitions.map (·.name)).Nodup ∧ names = definitions.map (·.name)) ∧
    (ofDefinitions definitions).map plain = PropertyCatalog.ofDefinitions definitions := by
  intro history catalog
  obtain ⟨faithful, takenEq⟩ := kept_attemptAll definitions
  refine ⟨⟨?_, faithful.distinct, ?_⟩, ?_, ?_, ?_, ofDefinitions_plain definitions⟩
  · rw [← takenEq]
    rfl
  · rw [← takenEq]
    rfl
  · intro name
    refine ⟨_, faithful.lookUp_eq name, ?_, PropertyCatalog.contains_iff, faithful.contains_eq name,
      rfl⟩
    intro definition
    rw [← takenEq]
    exact PropertyCatalog.get?_eq_some_iff faithful.distinct
  · exact faithful.insert_exact
  · exact ofDefinitions_eq_ok_iff

/-- A name with an empty segment and a name that is known already are not taken in, and the next
one is found right behind those that were. -/
theorem index_exact_refusals :
    let named (name : String) : PropertyDefinition := ⟨name, none, none⟩
    let catalog := (attemptAll [named "b", named "a..c", named "b", named "a.c"]).catalog
    catalog.names = ["b", "a.c"] ∧ catalog.position? "a.c" = some 1 ∧
      (∃ answer, catalog.lookUp "a.c" = .ok answer ∧ answer.isSome = true) ∧
      ((insert (named "b")).run.run catalog).2 = catalog ∧
      ∃ made, ofDefinitions [named "b", named "a.c"] = .ok made ∧ made.names = ["b", "a.c"] := by
  intro named catalog
  have names : catalog.names = ["b", "a.c"] := by decide +kernel
  obtain ⟨_, found, inserts, _, _⟩ :=
    index_exact [named "b", named "a..c", named "b", named "a.c"]
  obtain ⟨_, _, _, makes, _⟩ := index_exact [named "b", named "a.c"]
  refine ⟨names, by decide +kernel, ?_, ?_, ?_⟩
  · obtain ⟨answer, answered, _, present, _⟩ := found "a.c"
    exact ⟨answer, answered, present.mpr (names ▸ by simp)⟩
  · obtain ⟨outcome, later, ran, fails, unchanged, _⟩ := inserts (named "b")
    rw [ran]
    exact unchanged (fails.mpr (.inr (names ▸ by simp [named])))
  · refine (makes ["b", "a.c"]).mpr ⟨?_, by decide, rfl⟩
    have paths : [named "b", named "a.c"].all (fun definition =>
        Schema.nameFault? definition.name == none) = true := by decide +kernel
    intro definition member
    exact Schema.nameFault?_eq_none_iff.mp (beq_iff_eq.mp (List.all_eq_true.mp paths _ member))

end IndexedCatalog

end QueryOptions
