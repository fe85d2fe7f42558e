import Mathlib.Data.List.Nodup
import QueryOptions.Proofs.Expand.Item

/-!
What the clauses of an item do. A clause sets one field of the node, whatever the others hold: clauses
with different keys may change places, and of those with the same key only the last one counts.
-/

namespace QueryOptions.Expand

open Text (isBlankText trim)

def clauseKey? (clause : List Char) : Option (List Char) :=
  if isBlankText clause then none
  else some ((trim ((trim clause).takeWhile (· != '='))).map Char.toLower)

/-- Leaves out the clauses that another one with the same key follows. -/
def lastOfEachKey : List (List Char) → List (List Char)
  | [] => []
  | clause :: later =>
      if (clauseKey? clause).isSome ∧ clauseKey? clause ∈ later.map clauseKey? then
        lastOfEachKey later
      else clause :: lastOfEachKey later

inductive Setting
  | expand (children : List Expand)
  | filters (filter : Filter)
  | orderBy (orders : List OrderBy)
  | select (names : List String)
  | top (count : UInt64)
  | skip (count : UInt64)
  | skiptoken (token : String)

namespace Setting

def key : Setting → Key
  | expand _ => .expand
  | filters _ => .filters
  | orderBy _ => .orderBy
  | select _ => .select
  | top _ => .top
  | skip _ => .skip
  | skiptoken _ => .skiptoken

def apply (node : Expand) : Setting → Expand
  | expand children => { node with children }
  | filters filter => { node with filters := some filter }
  | orderBy orders => { node with orderBy := orders }
  | select names => { node with select := names }
  | top count => { node with top := some count }
  | skip count => { node with skip := count }
  | skiptoken token => { node with skiptoken := some token }

theorem apply_comm {first second : Setting} (apart : first.key ≠ second.key) (node : Expand) :
    apply (apply node first) second = apply (apply node second) first := by
  cases first <;> cases second <;> simp [key, apply] at apart ⊢

theorem apply_apply {first second : Setting} (same : first.key = second.key) (node : Expand) :
    apply (apply node first) second = apply node second := by
  cases first <;> cases second <;> simp [key, apply] at same ⊢

theorem foldl_apply_later {first : Setting} {settings : List Setting}
    (follows : ∃ later ∈ settings, later.key = first.key) (node : Expand) :
    settings.foldl apply (apply node first) = settings.foldl apply node := by
  induction settings generalizing node with
  | nil => simp at follows
  | cons second settings ih =>
      rw [List.foldl_cons, List.foldl_cons]
      by_cases same : first.key = second.key
      · rw [apply_apply same]
      · rw [apply_comm same]
        refine ih ?_ _
        obtain ⟨later, member, sameKey⟩ := follows
        rcases List.mem_cons.mp member with rfl | member
        · exact absurd sameKey.symm same
        · exact ⟨later, member, sameKey⟩

theorem foldl_apply_perm {settings others : List Setting} (perm : settings.Perm others)
    (nodup : (settings.map key).Nodup) (node : Expand) :
    settings.foldl apply node = others.foldl apply node := by
  apply perm.foldl_eq'
  intro first firstMember second secondMember node
  by_cases same : first.key = second.key
  · rw [List.inj_on_of_nodup_map nodup firstMember secondMember same]
  · exact apply_comm same node

end Setting

theorem word_injective {first second : Key} (same : first.word = second.word) : first = second := by
  cases first <;> cases second <;> simp [Key.word] at same ⊢

theorem word_of_ofWord? {word : List Char} {key : Key} (known : Key.ofWord? word = some key) :
    word.map Char.toLower = key.word := by
  rw [Key.ofWord?] at known
  have same := List.find?_some known
  rw [Text.sameWord, beq_iff_eq] at same
  rw [← same]
  cases key <;> decide

theorem setting_of_read {read : Except Error α} (setting : α → Setting) {key : Key}
    (isKey : ∀ found, (setting found).key = key) {node next : Expand}
    (set : (do let found ← read; .ok ((setting found).apply node)) = Except.ok next) :
    ∃ made : Setting, made.key = key ∧
      ∀ node, (do let found ← read; .ok ((setting found).apply node)) =
        (Except.ok (made.apply node) : Except Error Expand) := by
  obtain ⟨found, isRead, _⟩ := Outcome.bind_eq_ok.mp set
  refine ⟨setting found, isKey found, fun node => ?_⟩
  rw [isRead]
  rfl

section
variable (limits : Limits) (readNested : List Char → Except Error (List Expand))

theorem setOption_eq_ok {node next : Expand} {value : List Char} {key : Key}
    (set : setOption limits readNested node value key = .ok next) :
    ∃ setting : Setting, setting.key = key ∧
      ∀ node, setOption limits readNested node value key = .ok (setting.apply node) := by
  cases key with
  | expand => exact setting_of_read .expand (fun _ => rfl) set
  | filters => exact setting_of_read .filters (fun _ => rfl) set
  | orderBy => exact setting_of_read .orderBy (fun _ => rfl) set
  | select => exact setting_of_read .select (fun _ => rfl) set
  | top => exact setting_of_read .top (fun _ => rfl) set
  | skip => exact setting_of_read .skip (fun _ => rfl) set
  | skiptoken => exact ⟨.skiptoken (String.ofList value), rfl, fun _ => rfl⟩

structure Makes (clause : List Char) (made : Option Setting) : Prop where
  key : clauseKey? clause = made.map fun setting => setting.key.word
  applied (node : Expand) :
    applyClause limits readNested node (trim clause) = .ok (made.elim node (Setting.apply node))

theorem makes_of_applyClause {node next : Expand} {clause : List Char}
    (applied : applyClause limits readNested node (trim clause) = .ok next) :
    ∃ made, Makes limits readNested clause made := by
  rw [applyClause] at applied
  split at applied
  · rename_i empty
    refine ⟨none, ?_, fun node => ?_⟩
    · rw [Text.trim_isEmpty] at empty
      rw [clauseKey?, if_pos empty, Option.map_none]
    · rw [applyClause, if_pos empty]
      rfl
  · rename_i filled
    dsimp only at applied
    split at applied
    · simp [fail] at applied
    · rename_i sign value valueEq
      split at applied
      · simp [fail] at applied
      · rename_i key known
        rw [readPart_eq_ok] at applied
        obtain ⟨setting, rfl, set⟩ := setOption_eq_ok limits readNested applied
        refine ⟨some setting, ?_, fun node => ?_⟩
        · rw [Text.trim_isEmpty] at filled
          rw [clauseKey?, if_neg filled, word_of_ofWord? known, Option.map_some]
        · rw [applyClause, if_neg filled]
          simp only [valueEq, known, readPart_eq_ok, set]
          rfl

theorem foldlM_makes {clauses : List (List Char)} {made : List Char → Option Setting}
    (makes : ∀ clause ∈ clauses, Makes limits readNested clause (made clause)) (start : Expand) :
    clauses.foldlM (fun node clause => applyClause limits readNested node (trim clause)) start =
      .ok ((clauses.filterMap made).foldl Setting.apply start) := by
  induction clauses generalizing start with
  | nil => rfl
  | cons clause clauses ih =>
      rw [List.forall_mem_cons] at makes
      rw [List.foldlM_cons, makes.1.applied start, List.filterMap_cons]
      refine (ih makes.2 _).trans ?_
      cases made clause <;> rfl

theorem makes_of_foldlM {clauses : List (List Char)} {start last : Expand}
    (run : clauses.foldlM (fun node clause => applyClause limits readNested node (trim clause))
      start = .ok last) :
    ∀ clause ∈ clauses, ∃ made, Makes limits readNested clause made := by
  induction clauses generalizing start with
  | nil => simp
  | cons clause clauses ih =>
      rw [List.foldlM_cons] at run
      obtain ⟨next, first, rest⟩ := Outcome.bind_eq_ok.mp run
      exact List.forall_mem_cons.mpr ⟨makes_of_applyClause limits readNested first, ih rest⟩

theorem foldl_lastOfEachKey {clauses : List (List Char)} {made : List Char → Option Setting}
    (makes : ∀ clause ∈ clauses, Makes limits readNested clause (made clause)) (start : Expand) :
    ((lastOfEachKey clauses).filterMap made).foldl Setting.apply start =
      (clauses.filterMap made).foldl Setting.apply start := by
  induction clauses generalizing start with
  | nil => rfl
  | cons clause clauses ih =>
      rw [List.forall_mem_cons] at makes
      have rest := ih makes.2
      rw [lastOfEachKey]
      split
      · rename_i follows
        obtain ⟨hasKey, later⟩ := follows
        obtain ⟨other, member, sameKey⟩ := List.mem_map.mp later
        rw [makes.1.key] at hasKey sameKey
        rw [(makes.2 other member).key] at sameKey
        cases first : made clause with
        | none => simp [first] at hasKey
        | some setting =>
            cases second : made other with
            | none => simp [first, second] at sameKey
            | some overriding =>
                simp only [first, second, Option.map_some, Option.some.injEq] at sameKey
                rw [rest, List.filterMap_cons, first, List.foldl_cons]
                refine (Setting.foldl_apply_later ⟨overriding, ?_, word_injective sameKey⟩ start).symm
                exact List.mem_filterMap.mpr ⟨other, member, second⟩
      · cases first : made clause with
        | none => simp only [List.filterMap_cons, first, rest]
        | some setting => simp only [List.filterMap_cons, first, List.foldl_cons, rest]

end

theorem lastOfEachKey_sublist (clauses : List (List Char)) :
    (lastOfEachKey clauses).Sublist clauses := by
  induction clauses with
  | nil => exact .slnil
  | cons clause clauses ih =>
      rw [lastOfEachKey]
      split
      · exact ih.cons clause
      · exact ih.cons_cons clause

theorem lastOfEachKey_ne_nil {clauses : List (List Char)} (nonempty : clauses ≠ []) :
    lastOfEachKey clauses ≠ [] := by
  induction clauses with
  | nil => contradiction
  | cons clause clauses ih =>
      rw [lastOfEachKey]
      split
      · rename_i follows
        refine ih ?_
        rintro rfl
        simp at follows
      · simp

theorem nodup_keys {limits : Limits} {readNested : List Char → Except Error (List Expand)}
    {clauses : List (List Char)} {made : List Char → Option Setting}
    (makes : ∀ clause ∈ clauses, Makes limits readNested clause (made clause))
    (nodup : (clauses.filterMap clauseKey?).Nodup) :
    ((clauses.filterMap made).map Setting.key).Nodup := by
  have keys : clauses.filterMap clauseKey? =
      ((clauses.filterMap made).map Setting.key).map Key.word := by
    rw [List.map_map, List.map_filterMap]
    exact List.filterMap_congr fun clause member => (makes clause member).key
  rw [keys] at nodup
  exact nodup.of_map

end QueryOptions.Expand
