import QueryOptions.Proofs.Filter.Spelling
import QueryOptions.Proofs.Json.Grammar

/-!
Arrays and the quotes of their strings. The strings of a JSON array may stand in single quotes as
well: the array ends at the same bracket, it is turned back into the same JSON text, and so it has
the same values.
-/

namespace QueryOptions.Filter

open Json (Doc Piece IsUnit IsNumber Spaces EndsNumber)
open Text (Quoting isQuote)

inductive Body (quote : Char) : List Char → List Piece → List Char → Prop
  | empty : Body quote [] [] []
  | unit {unit json text : List Char} {piece : Piece} {pieces : List Piece}
      (isUnit : IsUnit unit piece) (kept : quote = '"' ∨ unit ≠ ['\''])
      (rest : Body quote json pieces text) :
      Body quote (unit ++ json) (piece :: pieces) (unit ++ text)
  | apostrophe {json text : List Char} {pieces : List Piece} (single : quote = '\'')
      (rest : Body quote json pieces text) :
      Body quote (['\''] ++ json) (.char '\'' :: pieces) (['\\', '\''] ++ text)
  | doubleQuote {json text : List Char} {pieces : List Piece} (single : quote = '\'')
      (rest : Body quote json pieces text) :
      Body quote (['\\', '"'] ++ json) (.char '"' :: pieces) (['"'] ++ text)

inductive Element : List Char → Doc → List Char → Prop
  | boolean (value : Bool) :
      Element (Value.boolean value).literal (.boolean value) (Value.boolean value).literal
  | number {lexeme : List Char} {numeral : Json.Numeral} (isNumber : IsNumber lexeme numeral) :
      Element lexeme (.number numeral) lexeme
  | string {quote : Char} {json text : List Char} {pieces : List Piece}
      (quoting : isQuote quote = true) (body : Body quote json pieces text) :
      Element ('"' :: (json ++ ['"'])) (.string pieces) (quote :: (text ++ [quote]))

inductive Items : List Char → List Doc → List Char → Prop
  | one {before after json text : List Char} {doc : Doc} (spacesBefore : Spaces before)
      (element : Element json doc text) (spacesAfter : Spaces after) :
      Items (before ++ (json ++ after)) [doc] (before ++ (text ++ after))
  | more {before after json text jsonRest textRest : List Char} {doc : Doc} {docs : List Doc}
      (spacesBefore : Spaces before) (element : Element json doc text)
      (spacesAfter : Spaces after) (rest : Items jsonRest docs textRest) :
      Items (before ++ (json ++ (after ++ ([','] ++ jsonRest)))) (doc :: docs)
        (before ++ (text ++ (after ++ ([','] ++ textRest))))

/-- An array of scalars in JSON text, what it spells, and the array with strings in quotes of
either kind. -/
inductive Requoted : List Char → List Doc → List Char → Prop
  | empty {spaces : List Char} (all : Spaces spaces) :
      Requoted ('[' :: (spaces ++ [']'])) [] ('[' :: (spaces ++ [']']))
  | filled {json text : List Char} {docs : List Doc} (items : Items json docs text) :
      Requoted ('[' :: (json ++ [']'])) docs ('[' :: (text ++ [']']))

namespace Crosses

theorem escape (quote : Char) {c : Char} (noApostrophe : c ≠ '\'') :
    Crosses (some quote) ['\\', c] ['\\', c] := by
  constructor
  · intro depth rest
    simp [cutArray?, standing, Quoting.step, Function.comp_def]
  · intro rest
    have other : ¬(c = quote ∧ quote = '\'') := by
      rintro ⟨rfl, apostrophe⟩
      exact noApostrophe apostrophe
    simp [doubleQuoted, other]

theorem unit {quote : Char} {unit : List Char} {piece : Piece} (isUnit : IsUnit unit piece)
    (quoting : isQuote quote = true) (kept : quote = '"' ∨ unit ≠ ['\'']) :
    Crosses (some quote) unit unit := by
  cases isUnit with
  | @character c noDouble noBackslash _ =>
      refine character ?_ noDouble noBackslash
      rintro rfl
      simp only [isQuote, Bool.or_eq_true, beq_iff_eq, noDouble, or_false] at quoting
      simp [quoting] at kept
  | letter known =>
      refine escape quote ?_
      rintro rfl
      cases known
  | @code a b c d _ hexadecimal =>
      have digit : ∀ digit ∈ [a, b, c, d], Crosses (some quote) [digit] [digit] := by
        intro digit member
        have found := Json.hexCode?_isSome hexadecimal digit member
        refine character ?_ ?_ ?_
        · rintro rfl
          simp only [isQuote, Bool.or_eq_true, beq_iff_eq] at quoting
          rcases quoting with rfl | rfl <;> exact absurd found (by decide)
        · rintro rfl
          exact absurd found (by decide)
        · rintro rfl
          exact absurd found (by decide)
      exact (escape quote (by decide)).append ((digit a (by simp)).append
        ((digit b (by simp)).append ((digit c (by simp)).append (digit d (by simp)))))

theorem body {quote : Char} {json text : List Char} {pieces : List Piece}
    (quoting : isQuote quote = true) (body : Body quote json pieces text) :
    Crosses (some quote) json text := by
  induction body with
  | empty => exact nil _
  | unit isUnit kept _ ih => exact (unit isUnit quoting kept).append ih
  | apostrophe single _ ih =>
      subst single
      exact apostrophe.append ih
  | doubleQuote single _ ih =>
      subst single
      exact doubleQuote.append ih

theorem number {lexeme : List Char} {numeral : Json.Numeral} (isNumber : IsNumber lexeme numeral) :
    Crosses none lexeme lexeme := by
  refine bare (List.all_eq_true.mpr ?_)
  intro c member
  rcases isNumber.mem member with digit | sign
  · exact isBare_of_isDigit digit
  · simp only [List.mem_cons, List.not_mem_nil, or_false] at sign
    rcases sign with rfl | rfl | rfl | rfl | rfl <;> decide

theorem spaces {spaces : List Char} (all : Spaces spaces) : Crosses none spaces spaces := by
  refine bare (List.all_eq_true.mpr ?_)
  intro c member
  have space := all c member
  simp only [Json.isSpace, Bool.or_eq_true, beq_iff_eq] at space
  rcases space with ((rfl | rfl) | rfl) | rfl <;> decide

theorem element {json text : List Char} {doc : Doc} (element : Element json doc text) :
    Crosses none json text := by
  cases element with
  | boolean value => exact bare (by cases value <;> decide)
  | number isNumber => exact number isNumber
  | string quoting isBody => exact quoted quoting (body quoting isBody)

theorem items {json text : List Char} {docs : List Doc} (items : Items json docs text) :
    Crosses none json text := by
  induction items with
  | one before item after => exact (spaces before).append ((element item).append (spaces after))
  | more before item after _ ih =>
      exact (spaces before).append ((element item).append
        ((spaces after).append ((bare (by decide)).append ih)))

end Crosses

section
open Json

theorem readString_body {quote : Char} {json text : List Char} {pieces : List Piece}
    (body : Body quote json pieces text) (rest : List Char) :
    readString (json ++ '"' :: rest) = some (pieces, rest) := by
  have apostrophe : IsUnit ['\''] (.char '\'') := .character (by decide) (by decide) (by decide)
  have doubleQuote : IsUnit ['\\', '"'] (.char '"') := .letter rfl
  induction body with
  | empty => rfl
  | unit isUnit _ _ ih => rw [List.append_assoc, readString_unit isUnit, ih, Option.map_some]
  | apostrophe _ _ ih => rw [List.append_assoc, readString_unit apostrophe, ih, Option.map_some]
  | doubleQuote _ _ ih => rw [List.append_assoc, readString_unit doubleQuote, ih, Option.map_some]

theorem readDoc_element {json text : List Char} {doc : Doc} (element : Element json doc text)
    (fuel : Nat) {rest : List Char} (ends : EndsNumber rest) :
    readDoc (fuel + 1) (json ++ rest) = some (doc, rest) := by
  cases element with
  | boolean value => cases value <;> simp [Value.literal, readDoc, skipSpace, isSpace]
  | number isNumber => exact readDoc_isNumber fuel isNumber ends
  | string _ body =>
      have read := readString_body body rest
      simp [readDoc, skipSpace, isSpace, read]

theorem readItems_items {json text : List Char} {docs : List Doc} (items : Items json docs text)
    (rest : List Char) {fuel : Nat} (enough : docs.length < fuel) :
    readItems fuel (json ++ ']' :: rest) = some (docs, rest) := by
  induction items generalizing fuel with
  | one before element after =>
      obtain ⟨fuel, rfl⟩ : ∃ less, fuel = less + 2 := ⟨fuel - 2, by simp at enough; omega⟩
      have ends := endsNumber_spaces after (EndsItem.endsNumber ⟨rest, .inr rfl⟩)
      simp only [List.append_assoc]
      rw [readItems_spaces _ before, readItems, readDoc_element element fuel ends]
      simp only [Option.bind_eq_bind, Option.bind_some, skipSpace_spaces after]
      rfl
  | @more _ after _ _ jsonRest _ _ _ before element spacesAfter _ ih =>
      obtain ⟨fuel, rfl⟩ : ∃ less, fuel = less + 2 := ⟨fuel - 2, by simp at enough; omega⟩
      have tail : readItems (fuel + 1) (jsonRest ++ ']' :: rest) = _ :=
        ih (by simp at enough; omega)
      have ends : EndsNumber (after ++ ([','] ++ (jsonRest ++ ']' :: rest))) :=
        endsNumber_spaces spacesAfter (EndsItem.endsNumber ⟨_, .inl rfl⟩)
      simp only [List.append_assoc]
      rw [readItems_spaces _ before, readItems, readDoc_element element fuel ends]
      simp only [Option.bind_eq_bind, Option.bind_some, skipSpace_spaces spacesAfter]
      simp [skipSpace, isSpace, tail]

theorem length_docs_le {json text : List Char} {docs : List Doc} (items : Items json docs text) :
    docs.length ≤ json.length + 1 := by
  induction items with
  | one _ _ _ => simp
  | more _ _ _ _ ih =>
      simp only [List.length_append, List.length_cons, List.length_nil]
      omega

theorem read?_requoted {json text : List Char} {docs : List Doc}
    (requoted : Requoted json docs text) : read? json = some (.array docs) := by
  cases requoted with
  | empty all =>
      rw [read?, readDoc_bracket, skipSpace_spaces all]
      rfl
  | filled items => exact read?_array (length_docs_le items) (readItems_items items [])

theorem Items.ne_null {json text : List Char} {docs : List Doc} (items : Items json docs text) :
    ∀ doc ∈ docs, doc ≠ .null := by
  have known {json text : List Char} {doc : Doc} (element : Element json doc text) :
      doc ≠ .null := by
    cases element <;> nofun
  induction items with
  | one _ element _ => simpa using known element
  | more _ element _ _ ih => exact List.forall_mem_cons.mpr ⟨known element, ih⟩

end

theorem Body.plain {quote : Char} {json text : List Char} {pieces : List Piece}
    (body : Body quote json pieces text) : Body '"' json pieces json := by
  induction body with
  | empty => exact .empty
  | unit isUnit _ _ ih => exact .unit isUnit (.inl rfl) ih
  | apostrophe _ _ ih =>
      exact .unit (.character (by decide) (by decide) (by decide)) (.inl rfl) ih
  | doubleQuote _ _ ih => exact .unit (.letter rfl) (.inl rfl) ih

theorem Element.plain {json text : List Char} {doc : Doc} (element : Element json doc text) :
    Element json doc json := by
  cases element with
  | boolean value => exact .boolean value
  | number isNumber => exact .number isNumber
  | string _ body => exact .string (by decide) body.plain

theorem Items.plain {json text : List Char} {docs : List Doc} (items : Items json docs text) :
    Items json docs json := by
  induction items with
  | one before element after => exact .one before element.plain after
  | more before element after _ ih => exact .more before element.plain after ih

theorem Requoted.plain {json text : List Char} {docs : List Doc}
    (requoted : Requoted json docs text) : Requoted json docs json := by
  cases requoted with
  | empty all => exact .empty all
  | filled items => exact .filled items.plain

theorem Requoted.crosses {json text : List Char} {docs : List Doc}
    (requoted : Requoted json docs text) :
    ∃ jsonBody body, json = '[' :: (jsonBody ++ [']']) ∧ text = '[' :: (body ++ [']']) ∧
      Crosses none jsonBody body := by
  cases requoted with
  | empty all => exact ⟨_, _, rfl, rfl, .spaces all⟩
  | filled items => exact ⟨_, _, rfl, rfl, .items items⟩

theorem cutArray?_requoted {json text : List Char} {docs : List Doc}
    (requoted : Requoted json docs text) (rest : List Char) :
    cutArray? .outside 0 (text ++ rest) = some (text, rest) := by
  obtain ⟨_, _, _, rfl, crosses⟩ := requoted.crosses
  exact crosses.cut_closed rest

theorem doubleQuoted_requoted {json text : List Char} {docs : List Doc}
    (requoted : Requoted json docs text) : doubleQuoted none text = json := by
  obtain ⟨_, _, rfl, rfl, crosses⟩ := requoted.crosses
  exact crosses.turned_closed

theorem readArray_eq {text json array plain rest : List Char}
    (cut : cutArray? .outside 0 text = some (array, rest))
    (cutPlain : cutArray? .outside 0 json = some (plain, []))
    (same : doubleQuoted none array = doubleQuoted none plain) :
    readArray text = (readArray json).map fun (values, _) => (values, rest) := by
  simp only [readArray, cut, cutPlain, same]
  split
  · rename_i items _
    cases elements items <;> rfl
  · rfl

theorem elements_requoted {json text : List Char} {docs : List Doc} {values : List Value}
    (requoted : Requoted json docs text) (scalars : Json.AreScalars docs values) :
    elements docs = .ok values := by
  refine elements_of_areScalars ?_ scalars
  cases requoted with
  | empty _ => simp
  | filled items => exact items.ne_null

/-- An array with some strings in single quotes ends where it should, it is turned into the JSON
text it was made from, and it has the values of that text. -/
theorem quote_style_irrelevant {json text : List Char} {docs : List Doc}
    (requoted : Requoted json docs text) (rest : List Char) :
    cutArray? .outside 0 (text ++ rest) = some (text, rest) ∧ doubleQuoted none text = json ∧
    readArray (text ++ rest) = (readArray (json ++ rest)) ∧
    readArray (text ++ rest) = (readArray json).map (fun (values, _) => (values, rest)) ∧
    ∀ values, Json.AreScalars docs values → readArray (text ++ rest) = .ok (values, rest) := by
  have plain := requoted.plain
  have cutPlain := cutArray?_requoted plain []
  have same : doubleQuoted none text = doubleQuoted none json := by
    rw [doubleQuoted_requoted requoted, doubleQuoted_requoted plain]
  rw [List.append_nil] at cutPlain
  have read : readArray (text ++ rest) = (readArray json).map fun (values, _) => (values, rest) :=
    readArray_eq (cutArray?_requoted requoted rest) cutPlain same
  refine ⟨cutArray?_requoted requoted rest, doubleQuoted_requoted requoted, ?_, read, ?_⟩
  · rw [read]
    exact (readArray_eq (cutArray?_requoted plain rest) cutPlain rfl).symm
  · intro values scalars
    rw [read, readArray, cutPlain]
    simp only [doubleQuoted_requoted plain, Json.decode?_of_areScalars (read?_requoted requoted) scalars,
      elements_requoted requoted scalars, Except.map]

/-- Brackets and the quotes of either kind may stand in the strings. -/
theorem quote_style_irrelevant_brackets :
    Requoted "[\"'[\", \"\\\"\\\"\", -1]".toList
      [.string [.char '\'', .char '['], .string [.char '"', .char '"'],
        .number ⟨true, 1, 0, 0, true⟩]
      "['\\'[', '\"\\\"', -1]".toList ∧
    readArray "['\\'[', '\"\\\"', -1] and".toList =
      .ok ([.text "'[", .text "\"\"", .integer (-1)], " and".toList) := by
  have first : Body '\'' "'[".toList [.char '\'', .char '['] "\\'[".toList :=
    .apostrophe rfl
      (.unit (.character (by decide) (by decide) (by decide)) (.inr (by decide)) .empty)
  have second : Body '\'' "\\\"\\\"".toList [.char '"', .char '"'] "\"\\\"".toList :=
    .doubleQuote rfl (.unit (.letter rfl) (.inr (by decide)) .empty)
  have number : IsNumber "-1".toList ⟨true, 1, 0, 0, true⟩ :=
    @IsNumber.mk true ['1'] _ _ _ _ (by decide) (List.all_eq_true.mp (by decide)) (by decide)
      .missing .missing
  have nothing : Spaces [] := by simp [Spaces]
  have space : Spaces [' '] := by simp [Spaces, Json.isSpace]
  have requoted : Requoted "[\"'[\", \"\\\"\\\"\", -1]".toList
      [.string [.char '\'', .char '['], .string [.char '"', .char '"'],
        .number ⟨true, 1, 0, 0, true⟩]
      "['\\'[', '\"\\\"', -1]".toList :=
    .filled (.more nothing (.string (by decide) first) nothing
      (.more space (.string (by decide) second) nothing
        (.one space (.number number) nothing)))
  refine ⟨requoted, ?_⟩
  refine (quote_style_irrelevant requoted " and".toList).2.2.2.2 _ ?_
  exact .cons rfl (.cons rfl (.cons (by decide) .nil))

end QueryOptions.Filter
