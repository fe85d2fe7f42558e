import Mathlib.Data.List.Forall2
import QueryOptions.Json.Reader
import QueryOptions.Proofs.Number.Shortest
import QueryOptions.Proofs.Text.Word

/-! Reading back JSON arrays of scalars: booleans, integers, finite floats, and strings in which
nothing but quotes is escaped. -/

namespace QueryOptions.Json

open Text (Stops)

def quoteEscaped (text : List Char) : List Char :=
  text.flatMap fun c => if c = '"' then ['\\', '"'] else [c]

def isPlain (text : List Char) : Bool :=
  text.all fun c => c != '\\' && 0x20 ≤ c.toNat

def scalarText : Value → List Char
  | .text s => '"' :: (quoteEscaped s.toList ++ ['"'])
  | value => value.literal

def scalarDoc : Value → Doc
  | .boolean b => .boolean b
  | .integer i => .number ⟨i.toInt < 0, i.toInt.natAbs, 0, 0, true⟩
  | .real x =>
      .number ⟨x.isNegative, decimalValue (x.shortest.whole ++ x.shortest.fraction),
        x.shortest.fraction.length, 0, false⟩
  | .text s => .string (s.toList.map .char)
  | .null => .null

def isListable : Value → Bool
  | .boolean _ => true
  | .integer _ => true
  | .text s => isPlain s.toList
  | _ => false

/-- The scalars that come back from an array, floats included. -/
def isElement : Value → Bool
  | .real x => x.isFinite
  | value => isListable value

theorem isElement_of_isListable {value : Value} (listable : isListable value = true) :
    isElement value = true := by
  cases value with
  | real x => simp [isListable] at listable
  | null | boolean _ | integer _ | text _ => exact listable

theorem readString_plain {text : List Char} (plain : isPlain text = true) (rest : List Char) :
    readString (quoteEscaped text ++ '"' :: rest) = some (text.map .char, rest) := by
  induction text with
  | nil => simp [quoteEscaped, readString]
  | cons c text ih =>
      simp only [isPlain, List.all_cons, Bool.and_eq_true, bne_iff_ne, decide_eq_true_eq] at plain
      obtain ⟨⟨noBackslash, printable⟩, plainRest⟩ := plain
      have tail := ih plainRest
      by_cases quote : c = '"'
      · subst c
        simp only [quoteEscaped, List.flatMap_cons, ↓reduceIte, List.cons_append,
          List.nil_append] at tail ⊢
        simp [readString, shortEscape?, tail]
      · simp only [quoteEscaped, List.flatMap_cons, if_neg quote, List.cons_append,
          List.nil_append] at tail ⊢
        rw [readString.eq_def]
        split <;> simp_all

def EndsNumber (text : List Char) : Prop :=
  Stops Char.isDigit text ∧ ∀ c ∈ text.head?, c ≠ '.' ∧ c ≠ 'e' ∧ c ≠ 'E'

theorem readExponent_none {rest : List Char} (ends : EndsNumber rest) :
    readExponent rest = some (none, rest) := by
  cases rest with
  | nil => rfl
  | cons c rest =>
      have mark := ends.2 c rfl
      simp [readExponent, mark.2]

theorem readNumber_toDigits (negative : Bool) (number : Nat) {rest : List Char}
    (ends : EndsNumber rest) :
    readNumber negative (Nat.toDigits 10 number ++ rest) =
      some (⟨negative, number, 0, 0, true⟩, rest) := by
  have digits : ∀ c ∈ Nat.toDigits 10 number, c.isDigit = true := fun c member =>
    isDigit_of_mem_toDigits member
  have fraction : readFraction rest = some ([], rest) := by
    cases rest with
    | nil => rfl
    | cons c rest =>
        have point : c ≠ '.' := (ends.2 c rfl).1
        rw [readFraction.eq_def]
        split <;> simp_all
  have exponent := readExponent_none ends
  rw [readNumber, Text.takeWhile_run Char.isDigit _ rest digits ends.1,
    Text.dropWhile_run Char.isDigit _ rest digits ends.1]
  split
  · rename_i empty
    exact absurd empty Nat.toDigits_ne_nil
  · rename_i d tail zero
    by_cases positive : 0 < number
    · have head := head?_toDigits positive
      simp [zero] at head
    · have isZero : number = 0 := by omega
      simp [isZero] at zero
  · simp [fraction, exponent, decimalValue_toDigits]

theorem readNumber_plain (negative : Bool) {decimal : Decimal}
    (canonical : 0 < decimal.digits ∨ decimal.scale = 0) {rest : List Char}
    (ends : EndsNumber rest) :
    readNumber negative (decimal.plain ++ rest) =
      some (⟨negative, decimalValue (decimal.whole ++ decimal.fraction), decimal.fraction.length, 0,
        false⟩, rest) := by
  have pointStops : Stops Char.isDigit ('.' :: (decimal.fraction ++ rest)) := by
    rw [Text.stops_cons]
    rfl
  have wholeDigits : ∀ c ∈ decimal.whole, c.isDigit = true := fun c member =>
    Decimal.isDigit_of_mem_whole member
  have fractionDigits : ∀ c ∈ decimal.fraction, c.isDigit = true := fun c member =>
    Decimal.isDigit_of_mem_fraction member
  have fraction : readFraction ('.' :: (decimal.fraction ++ rest)) =
      some (decimal.fraction, rest) := by
    rw [readFraction, Text.takeWhile_run Char.isDigit _ rest fractionDigits ends.1,
      Text.dropWhile_run Char.isDigit _ rest fractionDigits ends.1]
    split
    · rename_i empty
      exact absurd empty decimal.fraction_ne_nil
    · rfl
  rw [Decimal.plain_eq, List.append_assoc, List.cons_append, readNumber,
    Text.takeWhile_run Char.isDigit _ _ wholeDigits pointStops,
    Text.dropWhile_run Char.isDigit _ _ wholeDigits pointStops]
  split
  · rename_i empty
    exact absurd empty decimal.whole_ne_nil
  · rename_i d tail zero
    have leading := Decimal.whole_leading canonical
    simp [zero] at leading
  · simp [fraction, readExponent_none ends, decimal.fraction_ne_nil]

def EndsItem (text : List Char) : Prop :=
  ∃ rest, text = ',' :: rest ∨ text = ']' :: rest

theorem EndsItem.endsNumber {text : List Char} (ends : EndsItem text) : EndsNumber text := by
  obtain ⟨rest, comma | bracket⟩ := ends
  · subst text
    exact ⟨(Text.stops_cons _ _ _).mpr (by decide), by simp⟩
  · subst text
    exact ⟨(Text.stops_cons _ _ _).mpr (by decide), by simp⟩

theorem readDoc_number (fuel : Nat) {c : Char} (tail : List Char) (digit : c.isDigit = true) :
    readDoc (fuel + 1) (c :: tail) =
      (readNumber false (c :: tail)).map fun (numeral, rest) => (.number numeral, rest) := by
  have others : c ≠ ' ' ∧ c ≠ '\t' ∧ c ≠ '\n' ∧ c ≠ '\r' ∧ c ≠ 'n' ∧ c ≠ 't' ∧ c ≠ 'f' ∧ c ≠ '"' ∧
      c ≠ '-' ∧ c ≠ '[' ∧ c ≠ '\x7b' := by
    refine ⟨?_, ?_, ?_, ?_, ?_, ?_, ?_, ?_, ?_, ?_, ?_⟩ <;> (rintro rfl; simp at digit)
  have noSpace : skipSpace (c :: tail) = c :: tail := by
    simp [skipSpace, isSpace, others]
  rw [readDoc, noSpace]
  split <;> simp_all

theorem readDoc_integer (fuel : Nat) (value : Int) {rest : List Char} (ends : EndsNumber rest) :
    readDoc (fuel + 1) (integerText value ++ rest) =
      some (.number ⟨value < 0, value.natAbs, 0, 0, true⟩, rest) := by
  rw [integerText]
  split
  · rename_i negative
    simp [readDoc, skipSpace, isSpace, readNumber_toDigits true value.natAbs ends, negative]
  · rename_i natural
    have read := readNumber_toDigits false value.natAbs ends
    cases digits : Nat.toDigits 10 value.natAbs with
    | nil => exact absurd digits Nat.toDigits_ne_nil
    | cons c tail =>
        have member : c ∈ Nat.toDigits 10 value.natAbs := by simp [digits]
        rw [digits, List.cons_append] at read
        rw [List.cons_append, readDoc_number fuel _ (isDigit_of_mem_toDigits member), read]
        simp [natural]

theorem text_of_isFinite {x : Binary64} (finite : x.isFinite = true) :
    x.text = (if x.isNegative then ['-'] else []) ++ x.shortest.plain := by
  have number : x.isNaN = false := by
    simp only [Binary64.isFinite, Binary64.isNaN, decide_eq_true_eq, decide_eq_false_iff_not]
      at finite ⊢
    omega
  simp [Binary64.text, number, finite]

theorem plain_head (decimal : Decimal) :
    ∃ c tail, decimal.plain = c :: tail ∧ c.isDigit = true := by
  cases front : decimal.whole with
  | nil => exact absurd front decimal.whole_ne_nil
  | cons c tail =>
      have member : c ∈ decimal.whole := by simp [front]
      exact ⟨c, _, by rw [Decimal.plain_eq, front, List.cons_append],
        Decimal.isDigit_of_mem_whole member⟩

theorem readDoc_real (fuel : Nat) {x : Binary64} (finite : x.isFinite = true) {rest : List Char}
    (ends : EndsNumber rest) :
    readDoc (fuel + 1) (x.text ++ rest) = some (scalarDoc (.real x), rest) := by
  have read := readNumber_plain x.isNegative x.shortest_canonical ends
  rw [text_of_isFinite finite]
  cases negative : x.isNegative with
  | true =>
      rw [negative] at read
      simp [readDoc, skipSpace, isSpace, read, scalarDoc, negative]
  | false =>
      rw [negative] at read
      obtain ⟨c, tail, plainEq, digit⟩ := plain_head x.shortest
      rw [plainEq, List.cons_append] at read
      rw [if_neg Bool.false_ne_true, List.nil_append, plainEq, List.cons_append,
        readDoc_number fuel _ digit, read]
      simp [scalarDoc, negative]

theorem readDoc_scalar (fuel : Nat) {value : Value} (element : isElement value = true)
    {rest : List Char} (ends : EndsNumber rest) :
    readDoc (fuel + 1) (scalarText value ++ rest) = some (scalarDoc value, rest) := by
  cases value with
  | null => simp [isElement, isListable] at element
  | boolean b =>
      cases b <;> simp [scalarText, Value.literal, readDoc, skipSpace, isSpace, scalarDoc]
  | integer i => exact readDoc_integer fuel i.toInt ends
  | real x => exact readDoc_real fuel element ends
  | text s =>
      have read := readString_plain element rest
      simp [scalarText, readDoc, skipSpace, isSpace, scalarDoc, read]

def Spaces (text : List Char) : Prop :=
  ∀ c ∈ text, isSpace c = true

theorem spaces_space : Spaces [' '] := by
  simp [Spaces, isSpace]

theorem skipSpace_spaces {spaces : List Char} (all : Spaces spaces) (text : List Char) :
    skipSpace (spaces ++ text) = skipSpace text :=
  List.dropWhile_append_of_pos all

theorem readDoc_spaces (fuel : Nat) {spaces : List Char} (all : Spaces spaces) (text : List Char) :
    readDoc fuel (spaces ++ text) = readDoc fuel text := by
  cases fuel with
  | zero => simp [readDoc]
  | succ fuel => rw [readDoc, readDoc, skipSpace_spaces all]

theorem readItems_spaces (fuel : Nat) {spaces : List Char} (all : Spaces spaces)
    (text : List Char) : readItems fuel (spaces ++ text) = readItems fuel text := by
  cases fuel with
  | zero => simp [readItems]
  | succ fuel => rw [readItems, readItems, readDoc_spaces fuel all]

def itemsText (values : List Value) : List Char :=
  [',', ' '].intercalate (values.map scalarText)

theorem itemsText_single (value : Value) : itemsText [value] = scalarText value := by
  simp [itemsText]

theorem itemsText_cons_cons (value next : Value) (values : List Value) :
    itemsText (value :: next :: values) =
      scalarText value ++ ',' :: ([' '] ++ itemsText (next :: values)) := by
  simp [itemsText, List.intercalate]

theorem readItems_scalars {values : List Value} (nonempty : values ≠ [])
    (elements : ∀ value ∈ values, isElement value = true) (rest : List Char) {fuel : Nat}
    (enough : values.length < fuel) :
    readItems fuel (itemsText values ++ ']' :: rest) = some (values.map scalarDoc, rest) := by
  induction values generalizing fuel with
  | nil => contradiction
  | cons value values ih =>
      have elementHead := elements value (by simp)
      have elementsTail : ∀ value ∈ values, isElement value = true := fun value member =>
        elements value (by simp [member])
      obtain ⟨fuel, rfl⟩ : ∃ less, fuel = less + 2 := ⟨fuel - 2, by simp at enough; omega⟩
      cases values with
      | nil =>
          have ends : EndsNumber (']' :: rest) := EndsItem.endsNumber ⟨rest, .inr rfl⟩
          rw [itemsText_single]
          simp [readItems, readDoc_scalar fuel elementHead ends, skipSpace, isSpace]
      | cons next values =>
          have ends : EndsNumber (',' :: ([' '] ++ itemsText (next :: values) ++ ']' :: rest)) :=
            EndsItem.endsNumber ⟨_, .inl rfl⟩
          have comma (text : List Char) : skipSpace (',' :: text) = ',' :: text := by
            simp [skipSpace, isSpace]
          have tail : readItems (fuel + 1) (itemsText (next :: values) ++ ']' :: rest) =
              some ((next :: values).map scalarDoc, rest) :=
            ih (by simp) elementsTail (by simp only [List.length_cons] at enough ⊢; omega)
          rw [itemsText_cons_cons, readItems, List.append_assoc, List.cons_append,
            readDoc_scalar fuel elementHead ends]
          simp only [Option.bind_eq_bind, Option.bind_some, comma, List.append_assoc,
            readItems_spaces _ spaces_space, tail]
          rfl

theorem characters?_map_char (text : List Char) : characters? (text.map .char) = some text := by
  induction text with
  | nil => rfl
  | cons c text ih => simp [characters?, ih]

theorem value?_integer (value : Int64) :
    Numeral.value? ⟨value.toInt < 0, value.toInt.natAbs, 0, 0, true⟩ = some (.integer value) := by
  by_cases negative : value.toInt < 0
  · have integer : -(value.toInt.natAbs : Int) = value.toInt := by omega
    have nonzero : value.toInt.natAbs ≠ 0 := by omega
    simp only [Numeral.value?, negative, decide_true, if_true, integer, int64?_toInt, Bool.true_and,
      beq_eq_false_iff_ne.mpr nonzero, Bool.not_false]
  · have integer : (value.toInt.natAbs : Int) = value.toInt := by omega
    simp only [Numeral.value?, negative, decide_false, Bool.false_eq_true, if_false, integer,
      int64?_toInt, Bool.false_and, Bool.not_false, Bool.true_and, if_true]

theorem value?_real {x : Binary64} (finite : x.isFinite = true) :
    Numeral.value? ⟨x.isNegative, decimalValue (x.shortest.whole ++ x.shortest.fraction),
      x.shortest.fraction.length, 0, false⟩ = some (.real x) := by
  simp [Numeral.value?, Binary64.ofDecimal_plain finite, finite]

theorem scalar?_scalarDoc {value : Value} (element : isElement value = true) :
    (scalarDoc value).scalar? = some value := by
  cases value with
  | null => simp [isElement, isListable] at element
  | boolean b => rfl
  | integer i => exact value?_integer i
  | real x => exact value?_real element
  | text s => simp [scalarDoc, Doc.scalar?, string?, characters?_map_char]

def AreScalars (docs : List Doc) (values : List Value) : Prop :=
  List.Forall₂ (fun doc value => doc.scalar? = some value) docs values

theorem areScalars_scalarDocs {values : List Value}
    (elements : ∀ value ∈ values, isElement value = true) :
    AreScalars (values.map scalarDoc) values := by
  rw [AreScalars, List.forall₂_map_left_iff, List.forall₂_same]
  exact fun value member => scalar?_scalarDoc (elements value member)

theorem isSound_of_scalar? (room : Nat) {doc : Doc} {value : Value}
    (scalar : doc.scalar? = some value) : doc.isSound room = true := by
  cases doc with
  | null | boolean _ => simp [Doc.isSound]
  | number numeral =>
      rw [Doc.scalar?] at scalar
      simp [Doc.isSound, scalar]
  | string pieces =>
      rw [Doc.scalar?, string?, Option.map_map, Option.map_eq_some_iff] at scalar
      obtain ⟨text, found, _⟩ := scalar
      simp [Doc.isSound, found]
  | array _ | object _ => cases scalar

theorem AreScalars.areSound {docs : List Doc} {values : List Value}
    (scalars : AreScalars docs values) (room : Nat) : Doc.areSound room docs = true := by
  induction scalars with
  | nil => simp [Doc.areSound]
  | cons scalar _ ih => simp [Doc.areSound, isSound_of_scalar? room scalar, ih]

theorem scalar?_ne_null {doc : Doc} (known : doc ≠ .null) : doc.scalar? ≠ some .null := by
  cases doc with
  | null => contradiction
  | boolean _ | array _ | object _ => nofun
  | number numeral =>
      simp only [Doc.scalar?, Numeral.value?]
      split
      · split
        · nofun
        · split <;> nofun
      · split <;> nofun
  | string pieces =>
      rw [Doc.scalar?]
      intro null
      obtain ⟨_, _, impossible⟩ := Option.map_eq_some_iff.mp null
      contradiction

theorem length_le_itemsText (values : List Value) :
    values.length ≤ (itemsText values).length + 1 := by
  induction values with
  | nil => simp
  | cons value values ih =>
      cases values with
      | nil => simp
      | cons next values =>
          rw [itemsText_cons_cons]
          simp only [List.length_append, List.length_cons] at ih ⊢
          omega

theorem readDoc_bracket (fuel : Nat) (text : List Char) :
    readDoc (fuel + 1) ('[' :: text) =
      match skipSpace text with
      | ']' :: rest => some (.array [], rest)
      | _ => (readItems fuel text).map fun (items, rest) => (.array items, rest) := by
  have opening : skipSpace ('[' :: text) = '[' :: text := by simp [skipSpace, isSpace]
  rw [readDoc, opening]
  rfl

theorem readDoc_array {fuel : Nat} {text rest : List Char} {docs : List Doc}
    (read : readItems fuel text = some (docs, rest)) :
    readDoc (fuel + 1) ('[' :: text) = some (.array docs, rest) := by
  rw [readDoc_bracket]
  split
  · rename_i closing
    rcases fuel with _ | _ | fuel
    · simp [readItems] at read
    · simp [readItems, readDoc] at read
    · simp [readItems, readDoc, closing, readNumber] at read
  · rw [read, Option.map_some]

theorem read?_array {body : List Char} {docs : List Doc}
    (few : docs.length ≤ body.length + 1)
    (read : ∀ {fuel}, docs.length < fuel → readItems fuel (body ++ [']']) = some (docs, [])) :
    read? ('[' :: (body ++ [']'])) = some (.array docs) := by
  have enough : docs.length < 2 * ('[' :: (body ++ [']'])).length + 1 := by
    simp only [List.length_cons, List.length_append]
    omega
  rw [read?, readDoc_array (read enough)]
  rfl

theorem decode?_of_areScalars {text : List Char} {docs : List Doc} {values : List Value}
    (read : read? text = some (.array docs)) (scalars : AreScalars docs values) :
    decode? text = some (.array docs) := by
  rw [decode?, read, Option.filter_some, maxDepth, Doc.isSound, if_pos (scalars.areSound 126)]

theorem decode?_items {values : List Value} (nonempty : values ≠ [])
    (elements : ∀ value ∈ values, isElement value = true) :
    decode? ('[' :: (itemsText values ++ [']'])) = some (.array (values.map scalarDoc)) := by
  refine decode?_of_areScalars (read?_array ?_ ?_) (areScalars_scalarDocs elements)
  · rw [List.length_map]
    exact length_le_itemsText values
  · intro fuel enough
    rw [List.length_map] at enough
    exact readItems_scalars nonempty elements [] enough

end QueryOptions.Json
