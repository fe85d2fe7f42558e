import QueryOptions.Proofs.Expand.Item
import QueryOptions.Proofs.Filter.Enclosure

/-!
Filters in the clauses of expand text. The text `name(filters=…)` is read as one node with the
filter that its clause denotes on its own, provided that the clause is not broken up on the way; if
it is, the first part of it is no filter.
-/

namespace QueryOptions.Expand

open Text (Blanks EndsSolid Stops dropTrailingBlanks isBlank isInert isNameChar split? trim)
open Text.Nesting (cross?)

def filtersKey : List Char :=
  Key.filters.word ++ ['=']

theorem endsSolid_filtersKey : EndsSolid filtersKey :=
  ⟨Key.filters.word, '=', rfl, by decide⟩

theorem inert_filtersKey : ∀ c ∈ filtersKey, isInert c = true :=
  List.all_eq_true.mp (by decide)

section
variable (limits : Limits) (readNested : List Char → Except Error (List Expand))

theorem applyClause_filters {node result : Expand} {value : List Char} :
    applyClause limits readNested node (trim (filtersKey ++ value)) = .ok result ↔
      ∃ filter, Filter.read limits.filter value = .ok filter ∧
        result = { node with filters := some filter } := by
  have word : ∀ c ∈ Key.filters.word, (c != '=') = true := List.all_eq_true.mp (by decide)
  have key (rest : List Char) :
      (filtersKey ++ rest).takeWhile (· != '=') = Key.filters.word ∧
        (filtersKey ++ rest).dropWhile (· != '=') = '=' :: rest := by
    have sign : Stops (· != '=') ('=' :: rest) := (Text.stops_cons _ _ _).mpr rfl
    rw [filtersKey, List.append_assoc, List.singleton_append]
    exact ⟨Text.takeWhile_run _ _ _ word sign, Text.dropWhile_run _ _ _ word sign⟩
  have option : Key.ofWord? (trim Key.filters.word) = some .filters := by decide
  have trimmed : trim (filtersKey ++ value) = filtersKey ++ dropTrailingBlanks value :=
    Text.trim_append ((Text.stops_cons _ _ _).mpr (by decide)) endsSolid_filtersKey
  rw [trimmed, applyClause, if_neg (by simp [filtersKey])]
  simp only [key, option, readPart_eq_ok, setOption]
  rw [Outcome.bind_eq_ok]
  constructor
  · rintro ⟨filter, found, resultEq⟩
    rw [Outcome.mapError_eq_ok, Filter.read_trim_iff] at found
    cases resultEq
    exact ⟨filter, found, rfl⟩
  · rintro ⟨filter, found, rfl⟩
    exact ⟨filter, Outcome.mapError_eq_ok.mpr (Filter.read_trim_iff.mpr found), rfl⟩

theorem readItem_item {name : List Char} (nonempty : name ≠ [])
    (isName : ∀ c ∈ name, isNameChar c = true) (clauses : List Char) (result : Expand) :
    readItem limits readNested (item name clauses) = .ok result ↔
      applyClauses limits readNested { property := String.ofList name } clauses = .ok result := by
  have opens : '(' ∉ name := fun member => absurd (isName _ member) (by decide +kernel)
  have node : named (dropTrailingBlanks name) = .ok { property := String.ofList name } := by
    rw [Text.dropTrailingBlanks_solid (Text.endsSolid_name nonempty isName), named, if_neg]
    simpa [nonempty] using isName
  simp only [readItem_clauses limits readNested opens, node, Except.ok.injEq, exists_eq_left']

theorem applyClauses_first {node result : Expand} {body : List Char}
    (applied : applyClauses limits readNested node body = .ok result) :
    ∃ clause next, cross? ';' {} clause = some {} ∧
      (body = clause ∨ ∃ tail, body = clause ++ ';' :: tail) ∧
      applyClause limits readNested node (trim clause) = .ok next := by
  obtain ⟨clauses, split, applied⟩ := (applyClauses_eq_ok limits readNested).mp applied
  obtain ⟨clause, others, rfl, crossed, ends⟩ := Text.splitFrom_first split
  rw [List.foldlM_cons, Outcome.bind_eq_ok] at applied
  obtain ⟨next, first, _⟩ := applied
  exact ⟨clause, next, crossed, ends.imp And.left id, first⟩

theorem applyClauses_whole {node result : Expand} {body : List Char}
    (whole : split? ';' body = some [body])
    (applied : applyClause limits readNested node (trim body) = .ok result) :
    applyClauses limits readNested node body = .ok result := by
  refine (applyClauses_eq_ok limits readNested).mpr ⟨[body], whole, ?_⟩
  rw [List.foldlM_cons, applied]
  rfl

end

theorem readLevel_first {limits : Limits} {room : Nat} {text : List Char} {nodes : List Expand}
    (found : readLevel limits (room + 1) text = .ok nodes) :
    ∃ first node, cross? ',' {} first = some {} ∧
      (text = first ∨ ∃ tail, text = first ++ ',' :: tail) ∧
      readItem limits (readLevel limits room) (trim first) = .ok node := by
  obtain ⟨_, items, split, read⟩ := readLevel_eq_ok.mp found
  obtain ⟨first, others, rfl, crossed, ends⟩ := Text.splitFrom_first split
  obtain ⟨node, _, readFirst, _⟩ := List.forall₂_cons_left_iff.mp read
  exact ⟨first, node, crossed, ends.imp And.left id, readFirst⟩

theorem append_piece {front text piece : List Char} {mark : Char} (noMark : mark ∉ front)
    (ends : front ++ text = piece ∨ ∃ tail, front ++ text = piece ++ mark :: tail) :
    ∃ value, piece = front ++ value ∧ (text = value ∨ ∃ tail, text = value ++ mark :: tail) := by
  rcases ends with rfl | ⟨tail, textEq⟩
  · exact ⟨text, rfl, .inl rfl⟩
  · rcases List.append_eq_append_iff.mp textEq with
      ⟨value, pieceEq, rest⟩ | ⟨value, frontEq, rest⟩
    · exact ⟨value, pieceEq, .inr ⟨tail, rest⟩⟩
    · cases value with
      | nil => exact ⟨[], by simpa using frontEq.symm, .inr ⟨tail, by simpa using rest.symm⟩⟩
      | cons c value =>
          cases rest
          simp [frontEq] at noMark

/-- The clauses of an item are the whole text, or end before a parenthesis and a comma in it. -/
theorem clauses_cases {text value clauses : List Char}
    (closed : dropTrailingBlanks value = clauses ++ [')'])
    (ends : text ++ [')'] = value ∨ ∃ tail, text ++ [')'] = value ++ ',' :: tail) :
    text = clauses ∨
      ∃ blanks rest, Blanks blanks ∧ text = clauses ++ ((')' :: blanks) ++ ',' :: rest) := by
  rcases ends with rfl | ⟨tail, textEq⟩
  · have solid : EndsSolid (text ++ [')']) := ⟨text, ')', rfl, by decide⟩
    rw [Text.dropTrailingBlanks_solid solid] at closed
    exact .inl (List.append_cancel_right closed)
  · obtain ⟨blanks, allBlank, valueEq⟩ := Text.dropTrailingBlanks_split value
    rw [closed] at valueEq
    rcases List.eq_nil_or_concat tail with rfl | ⟨rest, c, rfl⟩
    · simpa using (List.append_inj' textEq rfl).2
    · rw [List.concat_eq_append, ← List.cons_append, ← List.append_assoc] at textEq
      refine .inr ⟨blanks, rest, allBlank, ?_⟩
      rw [(List.append_inj' textEq rfl).1, valueEq]
      simp

theorem readItem_closed {limits : Limits} {readNested : List Char → Except Error (List Expand)}
    {front : List Char} {c : Char} {node : Expand} (opened : '(' ∈ front)
    (read : readItem limits readNested (front ++ [c]) = .ok node) : c = ')' := by
  rw [readItem] at read
  split at read
  · rename_i noParenthesis
    have other := List.dropWhile_eq_nil_iff.mp noParenthesis '(' (List.mem_append_left _ opened)
    contradiction
  · split at read
    · simp [fail] at read
    · rename_i closed
      simpa using closed

section
variable {name : List Char} (nonempty : name ≠ []) (isName : ∀ c ∈ name, isNameChar c = true)
include nonempty isName

theorem trim_item (clauses : List Char) : trim (item name clauses) = item name clauses := by
  have start : Text.skipBlanks name = name := Text.skipBlanks_name nonempty isName
  have trimmed : trim (item name clauses ++ []) = item (Text.skipBlanks name) clauses :=
    trim_item_blanks Text.blanks_nil clauses
  rwa [List.append_nil, start] at trimmed

omit nonempty in
theorem cross?_item {text : List Char} (whole : cross? ';' {} text = some {}) :
    cross? ',' {} (item name (filtersKey ++ text)) = some {} := by
  have inert : ∀ c ∈ name, isInert c = true := fun c member =>
    Text.isInert_of_isNameChar (isName c member)
  have crossedKey : cross? ',' ⟨.outside, [.round]⟩ filtersKey = some ⟨.outside, [.round]⟩ :=
    Text.cross?_inert rfl inert_filtersKey [.round]
  have crossedText : cross? ',' ⟨.outside, [.round]⟩ text = some ⟨.outside, [.round]⟩ :=
    Text.cross?_within whole ',' (List.cons_ne_nil Text.Bracket.round [])
  have crossed : cross? ',' ⟨.outside, [.round]⟩ (filtersKey ++ text) =
      some ⟨.outside, [.round]⟩ := by
    rw [Text.cross?_append, crossedKey]
    exact crossedText
  simpa using cross?_item_blanks Text.blanks_nil inert crossed

theorem readItem_value {limits : Limits} {readNested : List Char → Except Error (List Expand)}
    {value : List Char} {node : Expand}
    (read : readItem limits readNested (trim (name ++ '(' :: (filtersKey ++ value))) = .ok node) :
    ∃ clauses, dropTrailingBlanks value = clauses ++ [')'] ∧
      applyClauses limits readNested { property := String.ofList name } (filtersKey ++ clauses) =
        .ok node := by
  have trimmed : trim (name ++ '(' :: (filtersKey ++ value)) =
      name ++ '(' :: (filtersKey ++ dropTrailingBlanks value) := by
    have solid : EndsSolid (name ++ '(' :: filtersKey) := by
      simpa using endsSolid_filtersKey.append (name ++ ['('])
    have stops := Text.stops_blank_name nonempty isName ('(' :: (filtersKey ++ value))
    rw [← List.cons_append, ← List.append_assoc] at stops ⊢
    rw [Text.trim_append stops solid, List.append_assoc, List.cons_append]
  rw [trimmed] at read
  rcases List.eq_nil_or_concat (dropTrailingBlanks value) with empty | ⟨clauses, c, valueEq⟩
  · have bare : name ++ '(' :: (filtersKey ++ dropTrailingBlanks value) =
        (name ++ '(' :: Key.filters.word) ++ ['='] := by simp [empty, filtersKey]
    rw [bare] at read
    exact absurd (readItem_closed (by simp) read) (by decide)
  · rw [List.concat_eq_append] at valueEq
    have ended : name ++ '(' :: (filtersKey ++ dropTrailingBlanks value) =
        (name ++ '(' :: (filtersKey ++ clauses)) ++ [c] := by simp [valueEq]
    rw [ended] at read
    obtain rfl := readItem_closed (by simp) read
    rw [List.append_assoc, List.cons_append] at read
    exact ⟨clauses, valueEq, (readItem_item limits readNested nonempty isName _ _).mp read⟩

theorem readLevel_of_whole {limits : Limits} {room : Nat} {text : List Char} {filter : Filter}
    (found : Filter.read limits.filter text = .ok filter) (whole : split? ';' text = some [text]) :
    readLevel limits (room + 1) (item name (filtersKey ++ text)) =
      .ok [{ property := String.ofList name, filters := some filter }] := by
  have crossed := (Text.split?_eq_whole_iff ';' text).mp whole
  have clause : split? ';' (filtersKey ++ text) = some [filtersKey ++ text] := by
    rw [Text.split?_eq_whole_iff, Text.cross?_append, Text.cross?_inert rfl inert_filtersKey []]
    exact crossed
  have applied : applyClause limits (readLevel limits room) { property := String.ofList name }
      (trim (filtersKey ++ text)) =
        .ok { property := String.ofList name, filters := some filter } :=
    (applyClause_filters limits _).mpr ⟨filter, found, rfl⟩
  refine readLevel_single.mpr
    ⟨?_, (Text.split?_eq_whole_iff ',' _).mpr (cross?_item isName crossed), ?_⟩
  · cases name with
    | nil => contradiction
    | cons c name =>
        simp [item, Text.isBlankText, Text.isBlank_of_isNameChar (isName c (by simp))]
  · rw [trim_item nonempty isName, readItem_item limits _ nonempty isName]
    exact applyClauses_whole limits _ clause applied

theorem whole_of_readLevel {limits : Limits} {room : Nat} {text : List Char} {filter : Filter}
    (found : Filter.read limits.filter text = .ok filter) {nodes : List Expand}
    (parsed : readLevel limits (room + 1) (item name (filtersKey ++ text)) = .ok nodes) :
    split? ';' text = some [text] := by
  have itemEq : item name (filtersKey ++ text) = (name ++ '(' :: filtersKey) ++ (text ++ [')']) := by
    simp [item]
  have noComma : ',' ∉ name ++ '(' :: filtersKey := by
    rw [List.mem_append, not_or]
    refine ⟨fun member => ?_, by decide⟩
    exact absurd (isName _ member) (by decide +kernel)
  obtain ⟨first, node, _, firstEnds, readFirst⟩ := readLevel_first parsed
  rw [itemEq] at firstEnds
  obtain ⟨value, rfl, valueEnds⟩ := append_piece noComma firstEnds
  rw [List.append_assoc, List.cons_append] at readFirst
  obtain ⟨clauses, closed, applied⟩ := readItem_value nonempty isName readFirst
  obtain ⟨clause, next, crossed, clauseEnds, appliedFirst⟩ := applyClauses_first _ _ applied
  obtain ⟨part, rfl, partEnds⟩ := append_piece (by decide) clauseEnds
  obtain ⟨early, readEarly, _⟩ := (applyClause_filters _ _).mp appliedFirst
  -- A part that ends early is no filter, since it is broken off in a literal.
  rcases partEnds with rfl | ⟨tail, rfl⟩
  · rcases clauses_cases closed valueEnds with rfl | ⟨blanks, rest, allBlank, rfl⟩
    · rw [Text.cross?_append, Text.cross?_inert rfl inert_filtersKey []] at crossed
      exact (Text.split?_eq_whole_iff ';' text).mpr crossed
    · refine absurd found (Filter.broken_off readEarly (.inl rfl) (')' :: blanks) ?_)
      simpa using fun c member => .inl (allBlank c member)
  · have broken : ∀ rest, Filter.read limits.filter (part ++ ';' :: tail ++ rest) ≠ .ok filter := by
      intro rest
      rw [List.append_assoc, List.cons_append]
      exact Filter.broken_off readEarly (.inr rfl) [] (by simp)
    rcases clauses_cases closed valueEnds with rfl | ⟨blanks, rest, _, rfl⟩
    · exact absurd found (by simpa using broken [])
    · exact absurd found (broken _)

end

/-- What a filter denotes on its own, it denotes in a clause: whenever no string of it has a quote
behind an odd number of backslashes, and exactly when its text is one piece between semicolons. If
it is not, nothing is read. -/
theorem parse_filter_clause (limits : Limits) (enough : 1 ≤ limits.depth) (name text : String)
    (nonempty : name ≠ "") (isName : name.toList.all isNameChar = true) (filter : Filter)
    (found : Filter.parse limits.filter text = .ok filter) :
    (filter.isEnclosable = true → parse limits (name ++ "(filters=" ++ text ++ ")") =
      .ok [{ property := name, filters := some filter }]) ∧
    (parse limits (name ++ "(filters=" ++ text ++ ")") =
      .ok [{ property := name, filters := some filter }] ↔
        split? ';' text.toList = some [text.toList]) ∧
    ∀ nodes, parse limits (name ++ "(filters=" ++ text ++ ")") = .ok nodes →
      nodes = [{ property := name, filters := some filter }] := by
  have characters : (name ++ "(filters=" ++ text ++ ")").toList =
      item name.toList (filtersKey ++ text.toList) := by
    simp [item, filtersKey, Key.word]
  have named : name.toList ≠ [] := by simpa using nonempty
  rw [List.all_eq_true] at isName
  rw [Filter.parse, Outcome.mapError_eq_ok] at found
  obtain ⟨room, depthEq⟩ := Nat.exists_eq_add_of_le' enough
  have whole : split? ';' text.toList = some [text.toList] →
      parse limits (name ++ "(filters=" ++ text ++ ")") =
        .ok [{ property := name, filters := some filter }] := by
    intro whole
    rw [parse, characters, depthEq]
    simpa using readLevel_of_whole named isName found whole
  have back : ∀ {nodes}, parse limits (name ++ "(filters=" ++ text ++ ")") = .ok nodes →
      split? ';' text.toList = some [text.toList] := by
    intro nodes parsed
    rw [parse, characters, depthEq] at parsed
    exact whole_of_readLevel named isName found parsed
  refine ⟨fun enclosable => whole (Filter.split?_of_isEnclosable found enclosable),
    ⟨back, whole⟩, fun nodes parsed => ?_⟩
  have again := whole (back parsed)
  rw [parsed] at again
  exact Except.ok.inj again

/-- Separators, parentheses and quotes in strings do not matter. -/
theorem parse_filter_clause_quoted : ∃ filter,
    Filter.parse {} " (tag eq 'a;b,c)' or body eq 'it\\\\\\'s') and note in [\"(;\", ']'] " = .ok filter ∧
      parse {} ("comments" ++ "(filters=" ++
        " (tag eq 'a;b,c)' or body eq 'it\\\\\\'s') and note in [\"(;\", ']'] " ++ ")") =
          .ok [{ property := "comments", filters := some filter }] := by
  obtain ⟨text, textEq⟩ : ∃ text, text =
      " (tag eq 'a;b,c)' or body eq 'it\\\\\\'s') and note in [\"(;\", ']'] " := ⟨_, rfl⟩
  have tested : (Filter.parse {} text).toOption.any (fun filter => filter.isEnclosable) = true := by
    rw [textEq]
    decide +kernel
  obtain ⟨filter, found, enclosable⟩ := Outcome.toOption_any tested
  rw [← textEq]
  exact ⟨filter, found,
    (parse_filter_clause {} (by decide) "comments" text (by decide) (by decide +kernel) filter
      found).1 enclosable⟩

/-- The value `\'` is written with two backslashes before its quote. In a clause the second of them
counts as escaped, and the quote as the end of the string. -/
theorem filter_clause_broken :
    ¬∀ (limits : Limits) (name text : String) (filter : Filter), 1 ≤ limits.depth → name ≠ "" →
      name.toList.all isNameChar = true → Filter.parse limits.filter text = .ok filter →
        parse limits (name ++ "(filters=" ++ text ++ ")") =
          .ok [{ property := name, filters := some filter }] := by
  intro all
  obtain ⟨text, readable, broken⟩ : ∃ text,
      (Filter.parse {} text).toOption.any (fun _ => true) = true ∧
        (parse {} ("p" ++ "(filters=" ++ text ++ ")")).toOption.isNone = true :=
    ⟨"a eq '\\\\''", by decide +kernel, by decide +kernel⟩
  obtain ⟨filter, found, _⟩ := Outcome.toOption_any readable
  rw [all {} "p" text filter (by decide) (by decide) (by decide +kernel) found] at broken
  cases broken

end QueryOptions.Expand
