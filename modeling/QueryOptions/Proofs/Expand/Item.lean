import Mathlib.Data.List.Forall2
import QueryOptions.Expand.Parser
import QueryOptions.Proofs.Outcome
import QueryOptions.Proofs.Text.Pieces
import QueryOptions.Proofs.Text.Trim

/-!
The levels, items and clauses of expand text, and when they are read. A level is read item by item,
and an item clause by clause; blanks around an item and around its name are no part of them.
-/

namespace QueryOptions.Expand

open Text (Blanks EndsSolid Stops dropTrailingBlanks isBlank isBlankText skipBlanks split? trim)
open Text.Nesting (cross?)

def item (front clauses : List Char) : List Char :=
  front ++ '(' :: (clauses ++ [')'])

theorem readPart_eq_ok {whole : List Char} {offset : Nat} {result : Except Error α} {value : α} :
    readPart whole offset result = .ok value ↔ result = .ok value :=
  Outcome.mapError_eq_ok

theorem eq_of_named {name : List Char} {node : Expand} (isNamed : named name = .ok node) :
    node = { property := String.ofList name } := by
  rw [named] at isNamed
  split at isNamed
  · simp [fail] at isNamed
  · exact (Except.ok.inj isNamed).symm

section
variable (limits : Limits) (readNested : List Char → Except Error (List Expand))

theorem foldlM_locate {clauses : List (List Char)} {body : List Char} {place : Nat}
    {start last : Expand} :
    (Text.locate ';' place clauses).foldlM
        (fun node (offset, clause) =>
          readPart body (offset + blanksBefore clause)
            (applyClause limits readNested node (trim clause))) start = .ok last ↔
      clauses.foldlM (fun node clause => applyClause limits readNested node (trim clause))
        start = .ok last := by
  induction clauses generalizing place start with
  | nil => rfl
  | cons clause clauses ih =>
      simp only [Text.locate, List.foldlM_cons, Outcome.bind_eq_ok, readPart_eq_ok, ih]

theorem applyClauses_eq_ok {start last : Expand} {body : List Char} :
    applyClauses limits readNested start body = .ok last ↔
      ∃ clauses, split? ';' body = some clauses ∧
        clauses.foldlM (fun node clause => applyClause limits readNested node (trim clause))
          start = .ok last := by
  rw [applyClauses]
  cases split : split? ';' body with
  | none => simp [fail]
  | some clauses =>
      simp only [Option.some.injEq, exists_eq_left']
      exact foldlM_locate limits readNested

theorem setOption_cases {node next : Expand} {value : List Char} {key : Key}
    (set : setOption limits readNested node value key = .ok next) :
    (∃ children, readNested value = .ok children ∧ next = { node with children }) ∨
    (∃ filter, Filter.read limits.filter value = .ok filter ∧
      next = { node with filters := some filter }) ∨
    next.filters = node.filters ∧ next.children = node.children := by
  cases key with
  | expand =>
      obtain ⟨children, read, set⟩ := Outcome.bind_eq_ok.mp set
      cases set
      exact .inl ⟨children, read, rfl⟩
  | filters =>
      obtain ⟨filter, read, set⟩ := Outcome.bind_eq_ok.mp set
      cases set
      exact .inr (.inl ⟨filter, Outcome.mapError_eq_ok.mp read, rfl⟩)
  | orderBy | select | top | skip =>
      obtain ⟨_, _, set⟩ := Outcome.bind_eq_ok.mp set
      cases set
      exact .inr (.inr ⟨rfl, rfl⟩)
  | skiptoken =>
      cases set
      exact .inr (.inr ⟨rfl, rfl⟩)

theorem applyClause_keeps {invariant : Expand → Prop}
    (keeps : ∀ node next value key, invariant node →
      setOption limits readNested node value key = .ok next → invariant next)
    {node next : Expand} {clause : List Char} (holds : invariant node)
    (applied : applyClause limits readNested node clause = .ok next) : invariant next := by
  rw [applyClause] at applied
  split at applied
  · cases applied
    exact holds
  · dsimp only at applied
    split at applied
    · simp [fail] at applied
    · split at applied
      · simp [fail] at applied
      · exact keeps _ _ _ _ holds (readPart_eq_ok.mp applied)

/-- What holds of a node with nothing but a name, and stays true whatever a clause sets, holds of
every node that is read. -/
theorem readItem_keeps {invariant : Expand → Prop}
    (start : ∀ property, invariant { property })
    (keeps : ∀ node next value key, invariant node →
      setOption limits readNested node value key = .ok next → invariant next)
    {item : List Char} {node : Expand} (read : readItem limits readNested item = .ok node) :
    invariant node := by
  rw [readItem] at read
  split at read
  · rw [eq_of_named read]
    exact start _
  · split at read
    · simp [fail] at read
    · obtain ⟨bare, isNamed, read⟩ := Outcome.bind_eq_ok.mp read
      obtain ⟨_, _, read⟩ := (applyClauses_eq_ok limits readNested).mp (readPart_eq_ok.mp read)
      exact Outcome.foldlM_keeps
        (fun _ _ _ _ holds => applyClause_keeps limits readNested keeps holds)
        (eq_of_named isNamed ▸ start _) read

theorem readItem_clauses {front : List Char} (opens : '(' ∉ front) (clauses : List Char)
    (result : Expand) :
    readItem limits readNested (item front clauses) = .ok result ↔
      ∃ start, named (dropTrailingBlanks front) = .ok start ∧
        applyClauses limits readNested start clauses = .ok result := by
  have noParenthesis : ∀ c ∈ front, (c != '(') = true := by
    intro c member
    rw [bne_iff_ne]
    rintro rfl
    exact opens member
  have opening : Stops (· != '(') ('(' :: (clauses ++ [')'])) := (Text.stops_cons _ _ _).mpr rfl
  have closing : (item front clauses).getLast? = some ')' := by
    rw [item, ← List.cons_append, ← List.append_assoc, List.getLast?_concat]
  rw [readItem, closing, item, Text.takeWhile_run _ _ _ noParenthesis opening,
    Text.dropWhile_run _ _ _ noParenthesis opening]
  simp only [bne_self_eq_false, Bool.false_eq_true, if_false, Outcome.bind_eq_ok, readPart_eq_ok,
    List.dropLast_concat]

end

theorem readLevel_eq_ok {limits : Limits} {room : Nat} {text : List Char} {nodes : List Expand} :
    readLevel limits (room + 1) text = .ok nodes ↔
      isBlankText text = false ∧ ∃ items, split? ',' text = some items ∧
        List.Forall₂ (fun item node => readItem limits (readLevel limits room) (trim item) = .ok node)
          items nodes := by
  rw [readLevel]
  cases isBlankText text with
  | true => simp [fail]
  | false =>
      cases split : split? ',' text with
      | none => simp [fail]
      | some items =>
          simp only [Bool.false_eq_true, if_false, Outcome.mapM_eq_ok, readPart_eq_ok, true_and,
            Option.some.injEq, exists_eq_left']
          conv_rhs => rw [← Text.map_snd_locate ',' 0 items, List.forall₂_map_left_iff]

theorem readItem_of_mem {limits : Limits} {room : Nat} {text : List Char} {nodes : List Expand}
    (read : readLevel limits (room + 1) text = .ok nodes) {node : Expand} (member : node ∈ nodes) :
    ∃ item, readItem limits (readLevel limits room) item = .ok node := by
  obtain ⟨_, items, _, readAll⟩ := readLevel_eq_ok.mp read
  have each : ∀ node ∈ nodes, ∃ item, readItem limits (readLevel limits room) item = .ok node := by
    refine Outcome.mapM_all ?_ (Outcome.mapM_eq_ok.mpr readAll)
    exact fun item _ node read => ⟨trim item, read⟩
  exact each node member

theorem readLevel_append {limits : Limits} {room : Nat} {left right : List Char}
    {nodes others : List Expand} (first : readLevel limits room left = .ok nodes)
    (second : readLevel limits room right = .ok others) :
    readLevel limits room (left ++ ',' :: right) = .ok (nodes ++ others) := by
  cases room with
  | zero => simp [readLevel, fail] at first
  | succ room =>
      obtain ⟨solid, items, splitLeft, read⟩ := readLevel_eq_ok.mp first
      obtain ⟨_, otherItems, splitRight, readOthers⟩ := readLevel_eq_ok.mp second
      refine readLevel_eq_ok.mpr ⟨?_, _, Text.split?_append rfl splitLeft splitRight, ?_⟩
      · rw [isBlankText] at solid ⊢
        rw [List.all_append, solid, Bool.false_and]
      · exact List.rel_append read readOthers

theorem readLevel_single {limits : Limits} {room : Nat} {text : List Char} {node : Expand} :
    readLevel limits (room + 1) text = .ok [node] ↔
      isBlankText text = false ∧ split? ',' text = some [text] ∧
        readItem limits (readLevel limits room) (trim text) = .ok node := by
  rw [readLevel_eq_ok]
  constructor
  · rintro ⟨solid, items, split, read⟩
    obtain _ | ⟨readFirst, _ | _⟩ := read
    obtain ⟨_, joined⟩ := Text.join_split? split
    rw [List.intercalate_singleton] at joined
    subst joined
    exact ⟨solid, split, readFirst⟩
  · rintro ⟨solid, split, read⟩
    exact ⟨solid, [text], split, .cons read .nil⟩

theorem readItem_blank {limits : Limits} {readNested : List Char → Except Error (List Expand)}
    {text : List Char} (blank : isBlankText text = true) {node : Expand} :
    readItem limits readNested (trim text) ≠ .ok node := by
  rw [← Text.trim_isEmpty, List.isEmpty_iff] at blank
  rw [blank]
  exact nofun

theorem readLevel_items {limits : Limits} {room : Nat} {text : List Char} {nodes : List Expand}
    (parsed : readLevel limits room text = .ok nodes) :
    ∃ items, split? ',' text = some items ∧
      List.Forall₂ (fun item node => readLevel limits room item = .ok [node]) items nodes := by
  cases room with
  | zero => simp [readLevel, fail] at parsed
  | succ room =>
      obtain ⟨_, items, split, read⟩ := readLevel_eq_ok.mp parsed
      have whole := Text.whole_of_split? rfl split
      refine ⟨items, split, ((List.forall₂_and_left _ _).mpr ⟨whole, read⟩).imp ?_⟩
      rintro item node ⟨whole, read⟩
      refine readLevel_single.mpr ⟨?_, whole, read⟩
      by_contra blank
      exact readItem_blank (by simpa using blank) read

section
variable {front after : List Char} (opens : '(' ∉ front) (blanks : Blanks after)

include blanks in
theorem trim_item_blanks (clauses : List Char) :
    trim (item front clauses ++ after) = item (skipBlanks front) clauses := by
  have solid : EndsSolid (item (skipBlanks front) clauses) :=
    ⟨skipBlanks front ++ '(' :: clauses, ')', by simp [item], by decide⟩
  have start : skipBlanks (item front clauses ++ after) =
      item (skipBlanks front) clauses ++ after := by
    simp only [item, List.append_assoc, List.cons_append]
    exact Text.skipBlanks_append front ((Text.stops_cons _ _ _).mpr (by decide))
  rw [trim, start, Text.dropTrailingBlanks_append solid, Text.dropTrailingBlanks_blanks blanks,
    List.append_nil]

include opens blanks in
theorem readItem_blanks {limits : Limits} {readNested : List Char → Except Error (List Expand)}
    {clauses : List Char} {node : Expand} :
    readItem limits readNested (trim (item front clauses ++ after)) = .ok node ↔
      ∃ start, named (trim front) = .ok start ∧
        applyClauses limits readNested start clauses = .ok node := by
  have stillOpens : '(' ∉ skipBlanks front := fun member =>
    opens (List.dropWhile_sublist isBlank |>.subset member)
  rw [trim_item_blanks blanks, readItem_clauses limits readNested stillOpens, trim]

theorem inert_of_named {name : List Char} {start : Expand} (isNamed : named (trim name) = .ok start) :
    ∀ c ∈ name, Text.isInert c = true := by
  obtain ⟨before, after, blanksBefore, blanksAfter, _, nameEq⟩ := Text.trim_split name
  rw [named] at isNamed
  split at isNamed
  · simp [fail] at isNamed
  · rename_i valid
    simp only [Bool.or_eq_true, not_or, Bool.not_eq_true', Bool.not_eq_false, List.all_eq_true]
      at valid
    intro c member
    rw [nameEq, List.mem_append, List.mem_append] at member
    rcases member with blank | character | blank
    · exact Text.isInert_of_isBlank (blanksBefore c blank)
    · exact Text.isInert_of_isNameChar (valid.2 c character)
    · exact Text.isInert_of_isBlank (blanksAfter c blank)

include blanks in
theorem cross?_item_blanks (inert : ∀ c ∈ front, Text.isInert c = true) {clauses : List Char}
    (crossed : cross? ',' ⟨.outside, [.round]⟩ clauses = some ⟨.outside, [.round]⟩) :
    cross? ',' {} (item front clauses ++ after) = some {} := by
  have crossedFront : cross? ',' {} front = some {} := Text.cross?_inert rfl inert []
  have crossedAfter : cross? ',' {} after = some {} :=
    Text.cross?_inert rfl (fun c member => Text.isInert_of_isBlank (blanks c member)) []
  have opened : cross? ',' {} ('(' :: (clauses ++ ')' :: after)) =
      cross? ',' ⟨.outside, [.round]⟩ (clauses ++ ')' :: after) := rfl
  have closed : cross? ',' ⟨.outside, [.round]⟩ (')' :: after) = cross? ',' {} after := rfl
  simp only [item, List.append_assoc, List.cons_append, List.nil_append]
  rw [Text.cross?_append, crossedFront, Option.bind_some, opened, Text.cross?_append, crossed,
    Option.bind_some, closed, crossedAfter]

end

end QueryOptions.Expand
