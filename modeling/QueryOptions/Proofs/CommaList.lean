import Mathlib.Data.List.Forall2
import QueryOptions.OrderBy
import QueryOptions.Proofs.Outcome
import QueryOptions.Proofs.Text.Word
import QueryOptions.Select

/-!
Orderings and columns as text. A list that is written with blanks around its items is read back as
it was, whatever is read consists of property names, and a list of columns is a list of orderings
as well, all of them ascending.
-/

namespace QueryOptions

namespace Text

def IsPropertyName (name : String) : Prop :=
  name ≠ "" ∧ ∀ c ∈ name.toList, isNameChar c = true

def Padded (render : α → String) (item : α) (text : String) : Prop :=
  ∃ before after, Blanks before ∧ Blanks after ∧
    text.toList = before ++ ((render item).toList ++ after)

def AtComma (text : List Char) : Prop :=
  ∀ c ∈ text.head?, c = ','

theorem atComma_nil : AtComma [] := by
  simp [AtComma]

theorem atComma_cons (text : List Char) : AtComma (',' :: text) := by
  simp [AtComma]

theorem AtComma.stops {text : List Char} (atComma : AtComma text) {inClass : Char → Bool}
    (other : inClass ',' = false) : Stops inClass text := by
  intro c head
  rw [atComma c head]
  exact other

theorem AtComma.stops_blanks {after text : List Char} (atComma : AtComma text)
    (blanks : Blanks after) : Stops isNameChar (after ++ text) := by
  cases after with
  | nil => exact atComma.stops (by decide +kernel)
  | cons c after => exact (stops_cons _ _ _).mpr (isNameChar_of_isBlank (blanks c (by simp)))

theorem readProperty_name {name : List Char} (nonempty : name ≠ [])
    (names : ∀ c ∈ name, isNameChar c = true) {rest : List Char} (stops : Stops isNameChar rest) :
    readProperty (name ++ rest) = .ok (name, rest) := by
  rw [readProperty, takeName?_run name rest nonempty names stops]

theorem readProperty_eq_ok {text name rest : List Char}
    (read : readProperty text = .ok (name, rest)) :
    name ≠ [] ∧ ∀ c ∈ name, isNameChar c = true := by
  rw [readProperty] at read
  split at read
  · rename_i found taken
    cases read
    obtain ⟨_, nonempty, names, _⟩ := takeName?_eq_some taken
    exact ⟨nonempty, names⟩
  · simp [fail] at read

theorem isPropertyName_ofList {name : List Char} (nonempty : name ≠ [])
    (names : ∀ c ∈ name, isNameChar c = true) : IsPropertyName (String.ofList name) := by
  refine ⟨fun empty => nonempty ?_, by simpa using names⟩
  simpa using congrArg String.toList empty

theorem IsPropertyName.toList_ne_nil {name : String} (isName : IsPropertyName name) :
    name.toList ≠ [] := by
  simpa using isName.1

section
variable {α : Type} {readItem : List Char → Except Fault (α × List Char)}

structure Takes (readItem : List Char → Except Fault (α × List Char)) (item : α) (text : String) :
    Prop where
  reads : ∀ rest, AtComma rest → readItem (text.toList ++ rest) = .ok (item, rest)
  solid : isBlankText text.toList = false

theorem readItems_of_takes {items : List α} {texts : List String}
    (takes : List.Forall₂ (Takes readItem) items texts) (nonempty : items ≠ []) {fuel : Nat}
    (enough : items.length ≤ fuel) :
    readItems readItem fuel ([','].intercalate (texts.map String.toList)) = .ok items := by
  induction takes generalizing fuel with
  | nil => contradiction
  | @cons item text items texts first rest ih =>
      obtain ⟨fuel, rfl⟩ : ∃ less, fuel = less + 1 := ⟨fuel - 1, by simp at enough; omega⟩
      cases rest with
      | nil =>
          have taken := first.reads [] atComma_nil
          rw [List.append_nil] at taken
          simp [readItems, taken, bind, Except.bind]
      | @cons next nextText items texts second rest =>
          have tail := ih (by simp) (by simpa using enough)
          have taken := first.reads _ (atComma_cons
            ([','].intercalate ((nextText :: texts).map String.toList)))
          rw [List.map_cons, List.map_cons, List.intercalate_cons_cons, List.append_assoc,
            List.singleton_append, ← List.map_cons, readItems, taken]
          simp only [bind, Except.bind, tail, Except.map]

theorem length_le_intercalate (separator : Char) (texts : List (List Char)) :
    texts.length ≤ ([separator].intercalate texts).length + 1 := by
  induction texts with
  | nil => simp
  | cons text texts ih =>
      cases texts with
      | nil => simp
      | cons next texts =>
          rw [List.intercalate_cons_cons]
          simp only [List.length_cons, List.length_append, List.length_nil] at ih ⊢
          omega

theorem readCommaList_of_takes {items : List α} {texts : List String}
    (takes : List.Forall₂ (Takes readItem) items texts) :
    readCommaList readItem (",".intercalate texts).toList = .ok items := by
  rw [readCommaList, String.toList_intercalate]
  cases takes with
  | nil => rfl
  | @cons item text items texts first rest =>
      have few := length_le_intercalate ',' ((text :: texts).map String.toList)
      rw [List.length_map, ← (List.Forall₂.cons first rest).length_eq] at few
      have start : isBlankText ([','].intercalate ((text :: texts).map String.toList)) = false := by
        have head := first.solid
        cases texts with
        | nil => simpa using head
        | cons next texts =>
            rw [List.map_cons, List.map_cons, List.intercalate_cons_cons]
            simp only [isBlankText, List.all_append] at head ⊢
            simp [head]
      have comma : ",".toList = [','] := rfl
      rw [comma, start, if_neg Bool.false_ne_true]
      exact readItems_of_takes (.cons first rest) (by simp) few

theorem readItems_all {property : α → Prop}
    (each : ∀ text item rest, readItem text = .ok (item, rest) → property item) {fuel : Nat}
    {text : List Char} {items : List α} (read : readItems readItem fuel text = .ok items) :
    ∀ item ∈ items, property item := by
  induction fuel generalizing text items with
  | zero => simp [readItems, fail] at read
  | succ fuel ih =>
      rw [readItems] at read
      obtain ⟨⟨item, rest⟩, readFirst, read⟩ := Outcome.bind_eq_ok.mp read
      have first := each text item rest readFirst
      dsimp only at read
      split at read
      · cases read
        simpa using first
      · obtain ⟨others, readOthers, rfl⟩ := Outcome.map_eq_ok.mp read
        exact List.forall_mem_cons.mpr ⟨first, ih readOthers⟩
      · simp [fail] at read

theorem readCommaList_all {property : α → Prop}
    (each : ∀ text item rest, readItem text = .ok (item, rest) → property item)
    {text : List Char} {items : List α} (read : readCommaList readItem text = .ok items) :
    ∀ item ∈ items, property item := by
  rw [readCommaList] at read
  split at read
  · cases read
    simp
  · exact readItems_all each read

theorem readCommaList_map {β : Type} {readOther : List Char → Except Fault (β × List Char)}
    {convert : α → β}
    (each : ∀ text item rest, readItem text = .ok (item, rest) → AtComma rest →
      readOther text = .ok (convert item, rest))
    {text : List Char} {items : List α} (read : readCommaList readItem text = .ok items) :
    readCommaList readOther text = .ok (items.map convert) := by
  have step : ∀ fuel text items, readItems readItem fuel text = .ok items →
      readItems readOther fuel text = .ok (items.map convert) := by
    intro fuel
    induction fuel with
    | zero =>
        intro text items read
        simp [readItems, fail] at read
    | succ fuel ih =>
        intro text items read
        rw [readItems] at read ⊢
        obtain ⟨⟨item, rest⟩, readFirst, read⟩ := Outcome.bind_eq_ok.mp read
        dsimp only at read
        split at read
        · cases read
          rw [each _ _ _ readFirst atComma_nil]
          rfl
        · rename_i tail
          obtain ⟨others, readOthers, rfl⟩ := Outcome.map_eq_ok.mp read
          rw [each _ _ _ readFirst (atComma_cons tail)]
          simp only [bind, Except.bind, ih _ _ readOthers, Except.map, List.map_cons]
        · simp [fail] at read
  rw [readCommaList] at read ⊢
  split at read
  · rename_i blank
    cases read
    rw [if_pos blank]
    rfl
  · rename_i solid
    rw [if_neg solid]
    exact step _ _ _ read

end

theorem Padded.solid {render : α → String} {item : α} {text : String}
    (padded : Padded render item text) {c : Char} (member : c ∈ (render item).toList)
    (noBlank : isBlank c = false) : isBlankText text.toList = false := by
  obtain ⟨before, after, _, _, textEq⟩ := padded
  rw [textEq, isBlankText, List.all_eq_false]
  exact ⟨c, by simp [member], by simp [noBlank]⟩

theorem IsPropertyName.solid {name : String} (isName : IsPropertyName name) :
    ∃ c ∈ name.toList, isBlank c = false := by
  obtain ⟨c, member⟩ := List.exists_mem_of_ne_nil _ isName.toList_ne_nil
  exact ⟨c, member, isBlank_of_isNameChar (isName.2 c member)⟩

end Text

open Text (AtComma Blanks IsPropertyName Padded Stops Takes isBlank isNameChar)

theorem Direction.isNameChar_word (direction : Direction) :
    direction.word ≠ [] ∧ ∀ c ∈ direction.word, isNameChar c = true := by
  cases direction with
  | ascending => exact ⟨by decide, List.all_eq_true.mp (by decide)⟩
  | descending => exact ⟨by decide, List.all_eq_true.mp (by decide)⟩

namespace OrderBy

theorem readDirection_word (direction : Direction) {after rest : List Char} (blanks : Blanks after)
    (atComma : AtComma rest) :
    readDirection (direction.word ++ (after ++ rest)) = .ok (direction, rest) := by
  obtain ⟨nonempty, names⟩ := direction.isNameChar_word
  have taken := Text.takeName?_run direction.word (after ++ rest) nonempty names
    (atComma.stops_blanks blanks)
  have skipped : Text.skipBlanks (after ++ rest) = rest :=
    Text.skipBlanks_blanks blanks (atComma.stops (by decide))
  have given : (direction.word ++ (after ++ rest)).head?.all (· == ',') = false := by
    cases direction <;> rfl
  rw [readDirection, given, if_neg Bool.false_ne_true, taken]
  cases direction with
  | ascending => simp only [Text.sameWord_refl, if_true, skipped]
  | descending =>
      have other : Text.sameWord Direction.descending.word Direction.ascending.word = false := by
        decide
      simp only [other, Bool.false_eq_true, if_false, Text.sameWord_refl, if_true, skipped]

theorem takes_padded {order : OrderBy} {text : String}
    (written : IsPropertyName order.property ∧ Padded OrderBy.text order text) :
    Takes readItem order text := by
  obtain ⟨isName, padded⟩ := written
  refine ⟨fun rest atComma => ?_, ?_⟩
  · obtain ⟨before, after, blanksBefore, blanksAfter, textEq⟩ := padded
    have nonempty := isName.toList_ne_nil
    have start : Text.skipBlanks (text.toList ++ rest) = order.property.toList ++
        ' ' :: (order.direction.word ++ (after ++ rest)) := by
      rw [textEq, OrderBy.text, String.toList_ofList, render, List.append_assoc]
      rw [Text.skipBlanks_blanks blanksBefore]
      · simp
      · simpa using Text.stops_blank_name nonempty isName.2 _
    obtain ⟨word, names⟩ := order.direction.isNameChar_word
    have toWord : Text.skipBlanks (' ' :: (order.direction.word ++ (after ++ rest))) =
        order.direction.word ++ (after ++ rest) :=
      Text.skipBlanks_blanks Text.blanks_space (Text.stops_blank_name word names _)
    rw [readItem, start, Text.readProperty_name nonempty isName.2
      ((Text.stops_cons _ _ _).mpr (by decide +kernel))]
    simp only [bind, Except.bind, toWord, readDirection_word order.direction blanksAfter atComma,
      String.ofList_toList]
  · obtain ⟨c, member, noBlank⟩ := isName.solid
    exact padded.solid (by simp [OrderBy.text, render, member]) noBlank

theorem parse_padded {orders : List OrderBy} {texts : List String}
    (names : ∀ order ∈ orders, IsPropertyName order.property)
    (padded : List.Forall₂ (Padded OrderBy.text) orders texts) :
    parse (",".intercalate texts) = .ok orders := by
  have takes := (List.forall₂_and_left _ _ |>.mpr ⟨names, padded⟩).imp fun _ _ => takes_padded
  rw [parse, Outcome.mapError_eq_ok]
  exact Text.readCommaList_of_takes takes

theorem isPropertyName_of_readItem {text rest : List Char} {order : OrderBy}
    (read : readItem text = .ok (order, rest)) : IsPropertyName order.property := by
  obtain ⟨⟨name, afterName⟩, readName, read⟩ := Outcome.bind_eq_ok.mp read
  obtain ⟨⟨direction, afterDirection⟩, _, read⟩ := Outcome.bind_eq_ok.mp read
  cases read
  obtain ⟨nonempty, names⟩ := Text.readProperty_eq_ok readName
  exact Text.isPropertyName_ofList nonempty names

theorem isPropertyName_of_parse {text : String} {orders : List OrderBy}
    (parsed : parse text = .ok orders) : ∀ order ∈ orders, IsPropertyName order.property := by
  rw [parse, Outcome.mapError_eq_ok] at parsed
  exact Text.readCommaList_all (fun _ _ _ => isPropertyName_of_readItem) parsed

end OrderBy

namespace Select

theorem takes_padded {name text : String} (written : IsPropertyName name ∧ Padded id name text) :
    Takes readItem name text := by
  obtain ⟨isName, padded⟩ := written
  refine ⟨fun rest atComma => ?_, ?_⟩
  · obtain ⟨before, after, blanksBefore, blanksAfter, textEq⟩ := padded
    have start : Text.skipBlanks (text.toList ++ rest) = name.toList ++ (after ++ rest) := by
      rw [textEq, id_eq, List.append_assoc, List.append_assoc]
      exact Text.skipBlanks_blanks blanksBefore
        (Text.stops_blank_name isName.toList_ne_nil isName.2 _)
    have skipped : Text.skipBlanks (after ++ rest) = rest :=
      Text.skipBlanks_blanks blanksAfter (atComma.stops (by decide))
    rw [readItem, start, Text.readProperty_name isName.toList_ne_nil isName.2
      (atComma.stops_blanks blanksAfter)]
    simp only [bind, Except.bind, skipped, String.ofList_toList]
  · obtain ⟨c, member, noBlank⟩ := isName.solid
    exact padded.solid member noBlank

theorem parse_padded {names texts : List String} (isName : ∀ name ∈ names, IsPropertyName name)
    (padded : List.Forall₂ (Padded id) names texts) :
    parse (",".intercalate texts) = .ok names := by
  have takes := (List.forall₂_and_left _ _ |>.mpr ⟨isName, padded⟩).imp fun _ _ => takes_padded
  rw [parse, Outcome.mapError_eq_ok]
  exact Text.readCommaList_of_takes takes

theorem isPropertyName_of_readItem {text rest : List Char} {name : String}
    (read : readItem text = .ok (name, rest)) : IsPropertyName name := by
  obtain ⟨⟨characters, afterName⟩, readName, read⟩ := Outcome.bind_eq_ok.mp read
  cases read
  obtain ⟨nonempty, names⟩ := Text.readProperty_eq_ok readName
  exact Text.isPropertyName_ofList nonempty names

theorem isPropertyName_of_parse {text : String} {names : List String}
    (parsed : parse text = .ok names) : ∀ name ∈ names, IsPropertyName name := by
  rw [parse, Outcome.mapError_eq_ok] at parsed
  exact Text.readCommaList_all (fun _ _ _ => isPropertyName_of_readItem) parsed

theorem orderBy_readItem {text rest : List Char} {name : String}
    (read : readItem text = .ok (name, rest)) (atComma : AtComma rest) :
    OrderBy.readItem text = .ok (⟨name, .ascending⟩, rest) := by
  obtain ⟨⟨characters, afterName⟩, readName, read⟩ := Outcome.bind_eq_ok.mp read
  cases read
  have bare : (Text.skipBlanks afterName).head?.all (· == ',') = true := by
    rw [Option.all_eq_true]
    exact fun c head => by simpa using atComma c head
  rw [OrderBy.readItem, readName]
  simp only [bind, Except.bind, OrderBy.readDirection, bare, if_true]

theorem orderBy_parse {text : String} {names : List String} (parsed : parse text = .ok names) :
    OrderBy.parse text = .ok (names.map fun name => ⟨name, .ascending⟩) := by
  rw [parse, Outcome.mapError_eq_ok] at parsed
  rw [OrderBy.parse, Outcome.mapError_eq_ok]
  exact Text.readCommaList_map (fun _ _ _ => orderBy_readItem) parsed

end Select

/-- Orderings and columns are read back from their texts, however they are padded with blanks; what
is read can be written and read again; and columns are read as orderings, all ascending. -/
theorem comma_lists_round_trip :
    (∀ (orders : List OrderBy) (texts : List String),
      (∀ order ∈ orders, IsPropertyName order.property) →
      List.Forall₂ (Padded OrderBy.text) orders texts →
        OrderBy.parse (",".intercalate texts) = .ok orders) ∧
    (∀ names texts : List String, (∀ name ∈ names, IsPropertyName name) →
      List.Forall₂ (Padded id) names texts → Select.parse (",".intercalate texts) = .ok names) ∧
    (∀ (text : String) (orders : List OrderBy), OrderBy.parse text = .ok orders →
      (∀ order ∈ orders, IsPropertyName order.property) ∧
      ∀ texts, List.Forall₂ (Padded OrderBy.text) orders texts →
        OrderBy.parse (",".intercalate texts) = .ok orders) ∧
    (∀ (text : String) (names : List String), Select.parse text = .ok names →
      (∀ name ∈ names, IsPropertyName name) ∧
      (∀ texts, List.Forall₂ (Padded id) names texts →
        Select.parse (",".intercalate texts) = .ok names) ∧
      OrderBy.parse text = .ok (names.map fun name => ⟨name, .ascending⟩)) := by
  refine ⟨fun orders texts => OrderBy.parse_padded, fun names texts => Select.parse_padded, ?_, ?_⟩
  · intro text orders parsed
    have isName := OrderBy.isPropertyName_of_parse parsed
    exact ⟨isName, fun texts => OrderBy.parse_padded isName⟩
  · intro text names parsed
    have isName := Select.isPropertyName_of_parse parsed
    exact ⟨isName, fun texts => Select.parse_padded isName, Select.orderBy_parse parsed⟩

/-- Names may read like directions. -/
theorem comma_lists_round_trip_directions :
    OrderBy.parse (",".intercalate ["desc desc\u2003", " asc asc"]) =
      .ok [⟨"desc", .descending⟩, ⟨"asc", .ascending⟩] ∧
    Select.parse (",".intercalate [" größe", "asc\u2003"]) = .ok ["größe", "asc"] ∧
    (OrderBy.parse "asc ,Desc\u2003dESC" = .ok [⟨"asc", .ascending⟩, ⟨"Desc", .descending⟩] ∧
      OrderBy.parse (",".intercalate [" asc asc", "Desc desc\u2003"]) =
        .ok [⟨"asc", .ascending⟩, ⟨"Desc", .descending⟩]) ∧
    Select.parse " desc ,id" = .ok ["desc", "id"] ∧
    OrderBy.parse " desc ,id" = .ok [⟨"desc", .ascending⟩, ⟨"id", .ascending⟩] := by
  obtain ⟨orders, columns, ofOrders, ofColumns⟩ := comma_lists_round_trip
  have wide : Blanks ['\u2003'] := List.all_eq_true.mp (by decide)
  have ordered : OrderBy.parse "asc ,Desc\u2003dESC" =
      .ok [⟨"asc", .ascending⟩, ⟨"Desc", .descending⟩] := by decide +kernel
  have selected : Select.parse " desc ,id" = .ok ["desc", "id"] := by decide +kernel
  refine ⟨orders _ _ ?_ ?_, columns _ _ ?_ ?_, ⟨ordered, (ofOrders _ _ ordered).2 _ ?_⟩, selected,
    (ofColumns _ _ selected).2.2⟩
  · simp only [List.forall_mem_cons, List.not_mem_nil, false_implies, implies_true, and_true]
    exact ⟨⟨by decide, List.all_eq_true.mp (by decide +kernel)⟩,
      ⟨by decide, List.all_eq_true.mp (by decide +kernel)⟩⟩
  · exact .cons ⟨[], _, Text.blanks_nil, wide, rfl⟩
      (.cons ⟨_, [], Text.blanks_space, Text.blanks_nil, rfl⟩ .nil)
  · simp only [List.forall_mem_cons, List.not_mem_nil, false_implies, implies_true, and_true]
    exact ⟨⟨by decide, List.all_eq_true.mp (by decide +kernel)⟩,
      ⟨by decide, List.all_eq_true.mp (by decide +kernel)⟩⟩
  · exact .cons ⟨_, [], Text.blanks_space, Text.blanks_nil, rfl⟩
      (.cons ⟨[], _, Text.blanks_nil, wide, rfl⟩ .nil)
  · exact .cons ⟨_, [], Text.blanks_space, Text.blanks_nil, rfl⟩
      (.cons ⟨[], _, Text.blanks_nil, wide, rfl⟩ .nil)

end QueryOptions
