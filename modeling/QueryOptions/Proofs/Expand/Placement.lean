import QueryOptions.Expand.Parser
import QueryOptions.Proofs.Filter.Placement
import QueryOptions.Proofs.Text.Pieces
import QueryOptions.Proofs.Text.Trim

/-!
Where the faults of expand text lie. A fault of a clause's value is moved outwards level by level,
from the value to its clause, its item and the text around, and the places add up to the place of
the value in the whole text.
-/

namespace QueryOptions

namespace Expand

open Text (Blanks IsPiece byteLength trim)

/-- A clause between the parentheses of an item. Around its value stand `before`, which ends in the
word for the key, the equals sign and blanks, and `after`. -/
inductive BodyClause : (body before : List Char) → Key → (value after : List Char) → Prop
  | mk {body clausesBefore clausesAfter clauseStart word valueStart value valueEnd : List Char}
      {key : Key}
      (clause : IsPiece ';' body clausesBefore
        (clauseStart ++ (word ++ '=' :: (valueStart ++ (value ++ valueEnd)))) clausesAfter)
      (clauseBlanks : Blanks clauseStart) (sign : '=' ∉ word)
      (known : Key.ofWord? (trim word) = some key)
      (valueBlanks : Blanks valueStart ∧ Blanks valueEnd) (trimmed : trim value = value) :
      BodyClause body (clausesBefore ++ (clauseStart ++ (word ++ '=' :: valueStart))) key value
        (valueEnd ++ clausesAfter)

inductive TopClause : (text before : List Char) → Key → (value after : List Char) → Prop
  | mk {text itemsBefore itemsAfter itemStart name body itemEnd before value after : List Char}
      {key : Key}
      (item : IsPiece ',' text itemsBefore
        (itemStart ++ (name ++ '(' :: (body ++ ')' :: itemEnd))) itemsAfter)
      (itemBlanks : Blanks itemStart ∧ Blanks itemEnd) (opens : '(' ∉ name)
      (inside : BodyClause body before key value after) :
      TopClause text (itemsBefore ++ (itemStart ++ (name ++ '(' :: before))) key value
        (after ++ ')' :: (itemEnd ++ itemsAfter))

/-- A clause at any depth: on the top level of the text, or in the value of an expand clause. -/
inductive ClauseIn : (text before : List Char) → Key → (value after : List Char) → Prop
  | top {text before value after : List Char} {key : Key}
      (clause : TopClause text before key value after) : ClauseIn text before key value after
  | nested {text before inner after before' value after' : List Char} {key : Key}
      (clause : TopClause text before .expand inner after)
      (below : ClauseIn inner before' key value after') :
      ClauseIn text (before ++ before') key value (after' ++ after)

inductive ClauseFails (limits : Limits) (message : String) (place : Nat) : Key → String → Prop
  | filters {value : String}
      (failed : Filter.parse limits.filter value = .error (.malformed message place value)) :
      ClauseFails limits message place .filters value
  | orderBy {value : String}
      (failed : OrderBy.parse value = .error (.malformed message place value)) :
      ClauseFails limits message place .orderBy value
  | select {value : String}
      (failed : Select.parse value = .error (.malformed message place value)) :
      ClauseFails limits message place .select value

theorem ClauseFails.pointsInto {limits : Limits} {message value : String} {place : Nat} {key : Key}
    (fails : ClauseFails limits message place key value) : Error.PointsInto value place value := by
  cases fails with
  | filters failed => exact Filter.pointsInto_of_parse failed
  | orderBy failed => exact Text.pointsInto_of_readCommaList OrderBy.trails_readItem failed
  | select failed => exact Text.pointsInto_of_readCommaList Select.trails_readItem failed

theorem BodyClause.text_eq {body before value after : List Char} {key : Key}
    (clause : BodyClause body before key value after) : body = before ++ (value ++ after) := by
  obtain ⟨clause, _⟩ := clause
  rw [clause.text_eq]
  simp

theorem TopClause.text_eq {text before value after : List Char} {key : Key}
    (clause : TopClause text before key value after) : text = before ++ (value ++ after) := by
  obtain ⟨item, _, _, inside⟩ := clause
  rw [item.text_eq, inside.text_eq]
  simp

theorem ClauseIn.text_eq {text before value after : List Char} {key : Key}
    (clause : ClauseIn text before key value after) : text = before ++ (value ++ after) := by
  induction clause with
  | top clause => exact clause.text_eq
  | nested clause below ih =>
      rw [clause.text_eq, ih]
      simp

theorem trim_place (text : List Char) :
    ∃ before after, Blanks before ∧ Blanks after ∧ text = before ++ (trim text ++ after) ∧
      blanksBefore text = byteLength before := by
  obtain ⟨before, after, blanksFirst, blanksLast, startEq, textEq⟩ := Text.trim_split text
  refine ⟨before, after, blanksFirst, blanksLast, textEq, ?_⟩
  have length := congrArg byteLength textEq
  rw [← startEq, Text.byteLength_append] at length
  rw [blanksBefore]
  omega

theorem fail_ne_malformed {fault : Fault} {message input : String} {position : Nat} :
    (fail fault : Except Error α) ≠ .error (.malformed message position input) :=
  nofun

theorem count_ne_malformed {option : String} {text : List Char} {message input : String}
    {position : Nat} : Count.parse option text ≠ .error (.malformed message position input) := by
  rw [Count.parse]
  split
  · exact nofun
  · exact nofun

theorem readPart_eq_malformed {whole : List Char} {offset : Nat} {result : Except Error α}
    {message input : String} {position : Nat}
    (failed : readPart whole offset result = .error (.malformed message position input)) :
    input = String.ofList whole ∧ ∃ place inner,
      result = .error (.malformed message place inner) ∧ position = offset + place := by
  obtain ⟨error, resultEq, moved⟩ := Outcome.mapError_eq_error.mp failed
  cases error with
  | malformed message place inner =>
      cases moved
      exact ⟨rfl, place, inner, resultEq, rfl⟩
  | _ => contradiction

section

variable {limits : Limits} {readNested : List Char → Except Error (List Expand)}
  {message input : String} {position : Nat}

theorem applyClause_malformed {node : Expand} {clause : List Char}
    (failed : applyClause limits readNested node clause =
      .error (.malformed message position input)) :
    ∃ word raw key place inner, clause = word ++ '=' :: raw ∧ '=' ∉ word ∧
      Key.ofWord? (trim word) = some key ∧
      setOption limits readNested node (trim raw) key = .error (.malformed message place inner) ∧
      position = byteLength word + 1 + blanksBefore raw + place := by
  have apart := List.takeWhile_append_dropWhile (p := (· != '=')) (l := clause)
  have sign : '=' ∉ clause.takeWhile (· != '=') := fun member => by
    simpa using Text.all_of_takeWhile _ _ _ member
  rw [applyClause] at failed
  split at failed
  · contradiction
  · dsimp only at failed
    split at failed
    · exact absurd failed fail_ne_malformed
    · rename_i mark raw valueEq
      have isSign : mark = '=' := by
        have first := List.head?_dropWhile_not (· != '=') clause
        rw [valueEq] at first
        simpa using first
      split at failed
      · exact absurd failed fail_ne_malformed
      · rename_i key known
        obtain ⟨_, place, inner, set, positionEq⟩ := readPart_eq_malformed failed
        rw [valueEq, isSign] at apart
        exact ⟨_, raw, key, place, inner, apart.symm, sign, known, set, positionEq⟩

theorem applyClauses_malformed {start : Expand} {body : List Char}
    (failed : applyClauses limits readNested start body =
      .error (.malformed message position input)) :
    ∃ before key value after node place inner, BodyClause body before key value after ∧
      setOption limits readNested node value key = .error (.malformed message place inner) ∧
      position = byteLength before + place := by
  rw [applyClauses] at failed
  split at failed
  · exact absurd failed fail_ne_malformed
  · rename_i clauses split
    obtain ⟨node, ⟨offset, clause⟩, member, failed⟩ := Outcome.foldlM_eq_error failed
    obtain ⟨clausesBefore, clausesAfter, piece, rfl⟩ := Text.isPiece_of_mem_locate split member
    obtain ⟨_, clausePlace, _, failed, positionEq⟩ := readPart_eq_malformed failed
    obtain ⟨word, raw, key, place, inner, clauseEq, sign, known, failed, clausePlaceEq⟩ :=
      applyClause_malformed failed
    obtain ⟨clauseStart, clauseEnd, blanksStart, blanksEnd, clauseText, clauseBlanks⟩ :=
      trim_place clause
    obtain ⟨valueStart, valueEnd, blanksValue, blanksValueEnd, valueText, valueBlanks⟩ :=
      trim_place raw
    have whole : clause =
        clauseStart ++ (word ++ '=' :: (valueStart ++ (trim raw ++ (valueEnd ++ clauseEnd)))) :=
      calc clause
        _ = clauseStart ++ ((word ++ '=' :: raw) ++ clauseEnd) := clauseEq ▸ clauseText
        _ = clauseStart ++
            ((word ++ '=' :: (valueStart ++ (trim raw ++ valueEnd))) ++ clauseEnd) := by
          rw [← valueText]
        _ = _ := by simp
    have found := BodyClause.mk (whole ▸ piece) blanksStart sign known
      ⟨blanksValue, Text.blanks_append blanksValueEnd blanksEnd⟩ (Text.trim_trim raw)
    refine ⟨_, key, trim raw, _, node, place, inner, found, failed, ?_⟩
    have equals : Char.utf8Size '=' = 1 := rfl
    simp only [Text.byteLength_append, byteLength]
    omega

theorem named_ne_malformed {name : List Char} :
    named name ≠ .error (.malformed message position input) := by
  rw [named]
  split
  · exact fail_ne_malformed
  · exact nofun

theorem readItem_malformed {item : List Char}
    (failed : readItem limits readNested item = .error (.malformed message position input)) :
    ∃ name body before key value after node place inner,
      item = name ++ '(' :: (body ++ [')']) ∧ '(' ∉ name ∧
      BodyClause body before key value after ∧
      setOption limits readNested node value key = .error (.malformed message place inner) ∧
      position = byteLength name + 1 + byteLength before + place := by
  have apart := List.takeWhile_append_dropWhile (p := (· != '(')) (l := item)
  have opens : '(' ∉ item.takeWhile (· != '(') := fun member => by
    simpa using Text.all_of_takeWhile _ _ _ member
  rw [readItem] at failed
  split at failed
  · exact absurd failed named_ne_malformed
  · rename_i mark rest bodyEq
    have isOpening : mark = '(' := by
      have first := List.head?_dropWhile_not (· != '(') item
      rw [bodyEq] at first
      simpa using first
    split at failed
    · exact absurd failed fail_ne_malformed
    · rename_i closed
      rw [bne_iff_ne, not_not] at closed
      rcases Outcome.bind_eq_error.mp failed with unnamed | ⟨node, _, failed⟩
      · exact absurd unnamed named_ne_malformed
      · obtain ⟨_, bodyPlace, _, applied, positionEq⟩ := readPart_eq_malformed failed
        rw [bodyEq, isOpening] at apart
        have ended : rest.getLast? = some ')' := by
          rw [← apart] at closed
          cases rest with
          | nil => simp at closed
          | cons c rest => simpa using closed
        obtain ⟨body, rfl⟩ := List.getLast?_eq_some_iff.mp ended
        rw [List.dropLast_concat] at applied
        obtain ⟨before, key, value, after, node, place, inner, clause, failed, bodyPlaceEq⟩ :=
          applyClauses_malformed applied
        refine ⟨_, body, before, key, value, after, node, place, inner, apart.symm, opens, clause,
          failed, ?_⟩
        omega

theorem setOption_malformed {node : Expand} {value : List Char} {key : Key}
    (failed : setOption limits readNested node value key =
      .error (.malformed message position input)) :
    (key = .expand ∧ readNested value = .error (.malformed message position input)) ∨
      ClauseFails limits message position key (String.ofList value) := by
  cases key with
  | expand =>
      rcases Outcome.bind_eq_error.mp failed with nested | ⟨_, _, impossible⟩
      · exact .inl ⟨rfl, nested⟩
      · contradiction
  | filters =>
      rcases Outcome.bind_eq_error.mp failed with filters | ⟨_, _, impossible⟩
      · have read : Filter.parse limits.filter (String.ofList value) =
            .error (.malformed message position input) := by
          rw [Filter.parse, String.toList_ofList, filters]
        rw [(Filter.pointsInto_of_parse read).whole] at read
        exact .inr (.filters read)
      · contradiction
  | orderBy =>
      rcases Outcome.bind_eq_error.mp failed with orderBy | ⟨_, _, impossible⟩
      · have read : OrderBy.parse (String.ofList value) =
            .error (.malformed message position input) := by
          rw [OrderBy.parse, String.toList_ofList, orderBy]
        rw [(Text.pointsInto_of_readCommaList OrderBy.trails_readItem read).whole] at read
        exact .inr (.orderBy read)
      · contradiction
  | select =>
      rcases Outcome.bind_eq_error.mp failed with select | ⟨_, _, impossible⟩
      · have read : Select.parse (String.ofList value) =
            .error (.malformed message position input) := by
          rw [Select.parse, String.toList_ofList, select]
        rw [(Text.pointsInto_of_readCommaList Select.trails_readItem read).whole] at read
        exact .inr (.select read)
      · contradiction
  | top =>
      rcases Outcome.bind_eq_error.mp failed with top | ⟨_, _, impossible⟩
      · exact absurd top count_ne_malformed
      · contradiction
  | skip =>
      rcases Outcome.bind_eq_error.mp failed with skip | ⟨_, _, impossible⟩
      · exact absurd skip count_ne_malformed
      · contradiction
  | skiptoken => contradiction

end

theorem readLevel_topClause {limits : Limits} {room : Nat} {text : List Char}
    {message input : String} {position : Nat}
    (failed : readLevel limits (room + 1) text = .error (.malformed message position input)) :
    input = String.ofList text ∧ ∃ before key value after node place inner,
      TopClause text before key value after ∧
      setOption limits (readLevel limits room) node value key =
        .error (.malformed message place inner) ∧
      position = byteLength before + place := by
  rw [readLevel] at failed
  split at failed
  · exact absurd failed fail_ne_malformed
  · split at failed
    · exact absurd failed fail_ne_malformed
    · rename_i items split
      obtain ⟨⟨offset, item⟩, member, failed⟩ := Outcome.mapM_eq_error failed
      obtain ⟨itemsBefore, itemsAfter, itemPiece, rfl⟩ := Text.isPiece_of_mem_locate split member
      obtain ⟨inputEq, itemPlace, _, failed, positionEq⟩ := readPart_eq_malformed failed
      obtain ⟨name, body, before, key, value, after, node, place, inner, itemEq, opens, inside,
        failed, itemPlaceEq⟩ := readItem_malformed failed
      obtain ⟨itemStart, itemEnd, blanksStart, blanksEnd, itemText, itemBlanks⟩ := trim_place item
      have whole : item = itemStart ++ (name ++ '(' :: (body ++ ')' :: itemEnd)) := by
        rw [itemText, itemEq]
        simp
      have found := TopClause.mk (whole ▸ itemPiece) ⟨blanksStart, blanksEnd⟩ opens inside
      refine ⟨inputEq, _, key, value, _, node, place, inner, found, failed, ?_⟩
      have parenthesis : Char.utf8Size '(' = 1 := rfl
      simp only [Text.byteLength_append, byteLength]
      omega

/-- The faults of a text's clauses lie where the faults of their values, read alone, do. -/
theorem readLevel_clauseIn {limits : Limits} {room : Nat} {text : List Char}
    {message input : String} {position : Nat}
    (failed : readLevel limits room text = .error (.malformed message position input)) :
    input = String.ofList text ∧ ∃ before key value after place,
      ClauseIn text before key value after ∧
      ClauseFails limits message place key (String.ofList value) ∧
      position = byteLength before + place := by
  induction room generalizing text input position with
  | zero => exact absurd failed fail_ne_malformed
  | succ room ih =>
      obtain ⟨inputEq, before, key, value, after, node, place, inner, clause, failed, positionEq⟩ :=
        readLevel_topClause failed
      refine ⟨inputEq, ?_⟩
      rcases setOption_malformed failed with ⟨rfl, nested⟩ | fails
      · obtain ⟨_, before', key, value, after', place', below, fails, placeEq⟩ := ih nested
        refine ⟨_, key, value, _, place', .nested clause below, fails, ?_⟩
        rw [Text.byteLength_append]
        omega
      · exact ⟨before, key, value, after, place, .top clause, fails, positionEq⟩

theorem clause_of_parse {limits : Limits} {text message input : String} {position : Nat}
    (failed : parse limits text = .error (.malformed message position input)) :
    input = text ∧ ∃ (before value after : String) (key : Key) (place : Nat),
      ClauseIn text.toList before.toList key value.toList after.toList ∧
      text = before ++ value ++ after ∧ ClauseFails limits message place key value ∧
      position = before.utf8ByteSize + place := by
  obtain ⟨inputEq, before, key, value, after, place, clause, fails, positionEq⟩ :=
    readLevel_clauseIn failed
  rw [String.ofList_toList] at inputEq
  have textEq : text = String.ofList before ++ String.ofList value ++ String.ofList after := by
    rw [← String.ofList_append, ← String.ofList_append, List.append_assoc, ← clause.text_eq,
      String.ofList_toList]
  refine ⟨inputEq, String.ofList before, String.ofList value, String.ofList after, key, place, ?_,
    textEq, fails, ?_⟩
  · simpa only [String.toList_ofList] using clause
  · rw [positionEq, Text.byteLength_eq]

theorem pointsInto_of_parse {limits : Limits} {text message input : String} {position : Nat}
    (failed : parse limits text = .error (.malformed message position input)) :
    Error.PointsInto text position input := by
  obtain ⟨rfl, before, value, after, key, place, _, textEq, fails, rfl⟩ := clause_of_parse failed
  rw [textEq]
  exact fails.pointsInto.inside before after

end Expand

/-- A syntax error shows the text it was found in, and points between two characters of it. In an
expand text it lies in the value of a filters, order or select clause, at any depth, where the
clause's own reader finds it when it reads the value alone. -/
theorem Error.malformed_pointsInto (text message input : String) (position : Nat) :
    (∀ limits, Filter.parse limits text = .error (.malformed message position input) →
      PointsInto text position input) ∧
    (OrderBy.parse text = .error (.malformed message position input) →
      PointsInto text position input) ∧
    (Select.parse text = .error (.malformed message position input) →
      PointsInto text position input) ∧
    (∀ limits, Expand.parse limits text = .error (.malformed message position input) →
      PointsInto text position input ∧
      ∃ (before value after : String) (key : Expand.Key) (place : Nat),
        Expand.ClauseIn text.toList before.toList key value.toList after.toList ∧
        text = before ++ value ++ after ∧ Expand.ClauseFails limits message place key value ∧
        position = before.utf8ByteSize + place) := by
  refine ⟨?_, ?_, ?_, ?_⟩
  · intro limits failed
    exact Filter.pointsInto_of_parse failed
  · intro failed
    exact Text.pointsInto_of_readCommaList OrderBy.trails_readItem failed
  · intro failed
    exact Text.pointsInto_of_readCommaList Select.trails_readItem failed
  · intro limits failed
    exact ⟨Expand.pointsInto_of_parse failed, (Expand.clause_of_parse failed).2⟩

/-- The inner clause is cut short by its closing parenthesis, behind a space of three bytes. -/
theorem Error.malformed_pointsInto_nested :
    let text := "größe(top=1; expand =\u2003a(filters=\u2003é eq) ;select=b)"
    (Filter.parse {} "é eq" = .error (.malformed "Expected literal, found end of input" 5 "é eq") ∧
      PointsInto "é eq" 5 "é eq") ∧
    (OrderBy.parse "é up" = .error (.malformed "Unknown sort direction 'up'" 3 "é up") ∧
      PointsInto "é up" 3 "é up") ∧
    (Select.parse "é;" =
        .error (.malformed "Expected ',' or end of input, found ';'" 2 "é;") ∧
      PointsInto "é;" 2 "é;") ∧
    (Expand.parse {} text =
        .error (.malformed "Expected literal, found end of input" 44 text) ∧
      PointsInto text 44 text ∧
      ∃ (before value after : String) (key : Expand.Key) (place : Nat),
        text = before ++ value ++ after ∧
        Expand.ClauseFails {} "Expected literal, found end of input" place key value ∧
        44 = before.utf8ByteSize + place) := by
  intro text
  have filter : Filter.parse {} "é eq" =
      .error (.malformed "Expected literal, found end of input" 5 "é eq") := by decide +kernel
  have order : OrderBy.parse "é up" =
      .error (.malformed "Unknown sort direction 'up'" 3 "é up") := by decide +kernel
  have select : Select.parse "é;" =
      .error (.malformed "Expected ',' or end of input, found ';'" 2 "é;") := by decide +kernel
  have expand : Expand.parse {} text =
      .error (.malformed "Expected literal, found end of input" 44 text) := by decide +kernel
  obtain ⟨points, before, value, after, key, place, _, textEq, fails, placeEq⟩ :=
    (malformed_pointsInto _ _ _ _).2.2.2 _ expand
  exact ⟨⟨filter, (malformed_pointsInto _ _ _ _).1 _ filter⟩,
    ⟨order, (malformed_pointsInto _ _ _ _).2.1 order⟩,
    ⟨select, (malformed_pointsInto _ _ _ _).2.2.1 select⟩,
    ⟨expand, points, before, value, after, key, place, textEq, fails, placeEq⟩⟩

end QueryOptions
