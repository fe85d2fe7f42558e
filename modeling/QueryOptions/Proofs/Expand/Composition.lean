import QueryOptions.Proofs.Expand.Setting

/-!
Expand text is composed of its items, and an item of its clauses. The items of two texts follow each
other, and the clauses of an item may change places as far as their keys differ.
-/

namespace QueryOptions.Expand

open Text (Blanks isBlank isBlankText split? trim)
open Text.Nesting (cross?)

section
variable {front after : List Char} (opens : '(' ∉ front) (blanks : Blanks after)

theorem cross?_clauses {clauses : List (List Char)}
    (whole : ∀ clause ∈ clauses, split? ';' clause = some [clause]) :
    cross? ',' ⟨.outside, [.round]⟩ ([';'].intercalate clauses) = some ⟨.outside, [.round]⟩ := by
  have crossed {clause : List Char} (whole : split? ';' clause = some [clause]) :
      cross? ',' ⟨.outside, [.round]⟩ clause = some ⟨.outside, [.round]⟩ :=
    Text.cross?_within ((Text.split?_eq_whole_iff ';' clause).mp whole) ','
      (List.cons_ne_nil Text.Bracket.round [])
  induction clauses with
  | nil => rfl
  | cons clause clauses ih =>
      rw [List.forall_mem_cons] at whole
      cases clauses with
      | nil => simpa using crossed whole.1
      | cons next clauses =>
          rw [List.intercalate_cons_cons, List.append_assoc, Text.cross?_append, crossed whole.1]
          exact ih whole.2

include opens blanks in
theorem readLevel_clauses {limits : Limits} {room : Nat} {clauses : List (List Char)}
    (nonempty : clauses ≠ []) (whole : ∀ clause ∈ clauses, split? ';' clause = some [clause])
    {node : Expand} :
    readLevel limits (room + 1) (item front ([';'].intercalate clauses) ++ after) = .ok [node] ↔
      ∃ start, named (trim front) = .ok start ∧
        clauses.foldlM (fun node clause =>
          applyClause limits (readLevel limits room) node (trim clause)) start = .ok node := by
  have split := Text.split?_join rfl nonempty whole
  rw [readLevel_single, readItem_blanks opens blanks]
  simp only [applyClauses_eq_ok, split, Option.some.injEq, exists_eq_left']
  constructor
  · rintro ⟨_, _, read⟩
    exact read
  · rintro ⟨start, isNamed, applied⟩
    refine ⟨?_, ?_, start, isNamed, applied⟩
    · have solid : isBlank '(' = false := by decide
      simp [isBlankText, item, solid]
    · exact (Text.split?_eq_whole_iff ',' _).mpr
        (cross?_item_blanks blanks (inert_of_named isNamed) (cross?_clauses whole))

include opens blanks in
theorem readLevel_other_clauses {limits : Limits} {room : Nat} {clauses others : List (List Char)}
    {node : Expand} (split : split? ';' ([';'].intercalate clauses) = some clauses)
    (parsed : readLevel limits (room + 1) (item front ([';'].intercalate clauses) ++ after) =
      .ok [node]) (nonempty : others ≠ []) (subset : ∀ clause ∈ others, clause ∈ clauses)
    (same : ∀ made, (∀ clause ∈ clauses, Makes limits (readLevel limits room) clause (made clause)) →
      ∀ start, (others.filterMap made).foldl Setting.apply start =
        (clauses.filterMap made).foldl Setting.apply start) :
    readLevel limits (room + 1) (item front ([';'].intercalate others) ++ after) = .ok [node] := by
  have whole := Text.whole_of_split? rfl split
  obtain ⟨start, isNamed, run⟩ :=
    (readLevel_clauses opens blanks (Text.join_split? split).1 whole).mp parsed
  choose! made makes using makes_of_foldlM limits (readLevel limits room) run
  rw [foldlM_makes limits (readLevel limits room) makes start] at run
  refine (readLevel_clauses opens blanks nonempty fun clause member =>
    whole clause (subset clause member)).mpr ⟨start, isNamed, ?_⟩
  rw [foldlM_makes limits (readLevel limits room) (fun clause member =>
    makes clause (subset clause member)) start, same made makes start]
  exact run

end

def itemText (front after : String) (clauses : List (List Char)) : String :=
  front ++ "(" ++ String.ofList ([';'].intercalate clauses) ++ ")" ++ after

theorem itemText_toList (front after : String) (clauses : List (List Char)) :
    (itemText front after clauses).toList =
      item front.toList ([';'].intercalate clauses) ++ after.toList := by
  simp [itemText, item]

theorem parse_other_clauses {limits : Limits} {front after : String}
    {clauses others : List (List Char)} {node : Expand} (opens : '(' ∉ front.toList)
    (blanks : Blanks after.toList)
    (split : split? ';' ([';'].intercalate clauses) = some clauses)
    (parsed : parse limits (itemText front after clauses) = .ok [node]) (nonempty : others ≠ [])
    (subset : ∀ clause ∈ others, clause ∈ clauses)
    (same : ∀ readNested made,
      (∀ clause ∈ clauses, Makes limits readNested clause (made clause)) →
        ∀ start, (others.filterMap made).foldl Setting.apply start =
          (clauses.filterMap made).foldl Setting.apply start) :
    parse limits (itemText front after others) = .ok [node] := by
  rw [parse, itemText_toList] at parsed ⊢
  cases room : limits.depth with
  | zero => simp [room, readLevel, fail] at parsed
  | succ room' =>
      rw [room] at parsed
      exact readLevel_other_clauses opens blanks split parsed nonempty subset (same _)

/-- The nodes of two texts with a comma between them follow each other, and the items of a text are
read like texts of their own. In an item clauses with different keys may change places, and of
clauses with the same key only the last one counts. -/
theorem parse_composes (limits : Limits) :
    (∀ (left right : String) (nodes others : List Expand), parse limits left = .ok nodes →
      parse limits right = .ok others → parse limits (left ++ "," ++ right) = .ok (nodes ++ others)) ∧
    (∀ (text : String) (nodes : List Expand), parse limits text = .ok nodes →
      ∃ items, split? ',' text.toList = some items ∧
        List.Forall₂ (fun item node => parse limits (String.ofList item) = .ok [node])
          items nodes) ∧
    ∀ (front body after : String) (clauses : List (List Char)) (node : Expand),
      '(' ∉ front.toList → Blanks after.toList → split? ';' body.toList = some clauses →
      parse limits (front ++ "(" ++ body ++ ")" ++ after) = .ok [node] →
        ((clauses.filterMap clauseKey?).Nodup → ∀ others, others.Perm clauses →
          parse limits (itemText front after others) = .ok [node]) ∧
        parse limits (itemText front after (lastOfEachKey clauses)) = .ok [node] := by
  refine ⟨?_, ?_, ?_⟩
  · intro left right nodes others first second
    have joined : (left ++ "," ++ right).toList = left.toList ++ ',' :: right.toList := by simp
    rw [parse, joined]
    exact readLevel_append first second
  · intro text nodes parsed
    obtain ⟨items, split, read⟩ := readLevel_items parsed
    refine ⟨items, split, read.imp fun item node found => ?_⟩
    rwa [parse, String.toList_ofList]
  · intro front body after clauses node opens blanks split parsed
    obtain ⟨nonempty, joined⟩ := Text.join_split? split
    have text : front ++ "(" ++ body ++ ")" ++ after = itemText front after clauses := by
      rw [itemText, joined, String.ofList_toList]
    rw [← joined] at split
    rw [text] at parsed
    constructor
    · intro nodup others perm
      refine parse_other_clauses opens blanks split parsed ?_ (fun _ member => perm.subset member) ?_
      · rintro rfl
        exact nonempty perm.nil_eq.symm
      · intro readNested made makes start
        exact (Setting.foldl_apply_perm (perm.symm.filterMap made) (nodup_keys makes nodup)
          start).symm
    · exact parse_other_clauses opens blanks split parsed (lastOfEachKey_ne_nil nonempty)
        (fun _ member => (lastOfEachKey_sublist clauses).subset member)
        fun readNested made makes => foldl_lastOfEachKey limits readNested makes

/-- Separators in strings and in nested items do not count, and neither do blank clauses. -/
theorem parse_composes_nested :
    (∃ node other,
      parse {} "a(top=1; Filters =b in ['x;y,']) " = .ok [node] ∧ node.top = some 1 ∧
      parse {} "c(Expand=d(skip=1;top=2),e)" = .ok [other] ∧
      parse {} ("a(top=1; Filters =b in ['x;y,']) " ++ "," ++ "c(Expand=d(skip=1;top=2),e)") =
        .ok [node, other] ∧
      parse {} (itemText "a" " " [" Filters =b in ['x;y,']".toList, "top=1".toList]) = .ok [node]) ∧
    ∃ node, parse {} "p(TOP =1; skip=2;;Top=3)" = .ok [node] ∧ node.top = some 3 ∧
      parse {} (itemText "p" "" [" skip=2".toList, [], "Top=3".toList]) = .ok [node] := by
  have single {text : String} (test : Expand → Bool)
      (passed : (parse {} text).toOption.any (fun nodes => nodes.length == 1 && nodes.all test) =
        true) : ∃ node, parse {} text = .ok [node] ∧ test node = true := by
    obtain ⟨nodes, parsed, tested⟩ := Outcome.toOption_any passed
    rw [Bool.and_eq_true, beq_iff_eq, List.length_eq_one_iff] at tested
    obtain ⟨⟨node, rfl⟩, tested⟩ := tested
    exact ⟨node, parsed, by simpa using tested⟩
  obtain ⟨joins, _, ofClauses⟩ := parse_composes {}
  obtain ⟨node, parsed, top⟩ : ∃ node, parse {} "a(top=1; Filters =b in ['x;y,']) " = .ok [node] ∧
      (node.top == some 1) = true := single _ (by decide +kernel)
  obtain ⟨other, parsedOther, _⟩ : ∃ node, parse {} "c(Expand=d(skip=1;top=2),e)" = .ok [node] ∧
      true = true := single _ (by decide +kernel)
  obtain ⟨last, parsedLast, lastTop⟩ : ∃ node, parse {} "p(TOP =1; skip=2;;Top=3)" = .ok [node] ∧
      (node.top == some 3) = true := single _ (by decide +kernel)
  have swapped := (ofClauses "a" "top=1; Filters =b in ['x;y,']" " "
    ["top=1".toList, " Filters =b in ['x;y,']".toList] node (by decide)
    (List.all_eq_true.mp (by decide)) (by decide +kernel) parsed).1 (by decide +kernel)
    [" Filters =b in ['x;y,']".toList, "top=1".toList] (.swap _ _ [])
  have shortened := (ofClauses "p" "TOP =1; skip=2;;Top=3" ""
    ["TOP =1".toList, " skip=2".toList, [], "Top=3".toList] last (by decide)
    (List.all_eq_true.mp (by decide)) (by decide +kernel) parsedLast).2
  exact ⟨⟨node, other, parsed, by simpa using top, parsedOther,
    joins _ _ _ _ parsed parsedOther, swapped⟩, last, parsedLast, by simpa using lastTop, shortened⟩

end QueryOptions.Expand
