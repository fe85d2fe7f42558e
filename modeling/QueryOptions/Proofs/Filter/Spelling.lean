import QueryOptions.Filter.Printer
import QueryOptions.Proofs.Filter.Literal
import QueryOptions.Proofs.Json.Scalar

/-!
The spelling of operands: what is written for an operand is a literal that denotes it. A list is
cut at its own brackets, its strings change their quotes, and the outcome is a JSON array.
-/

namespace QueryOptions

/-- The values whose literal stands for them outside of lists. The sign of a number is no part of
the filter language, and a backslash at the end of a string would take its quote along. -/
def Value.isReadable : Value → Bool
  | null => true
  | boolean _ => true
  | integer value => 0 ≤ value.toInt
  | real _ => false
  | text value => value.toList.getLast? != some '\\'

def Operand.isReadable : Operand → Bool
  | single value => value.isReadable
  | list values => values.all Json.isListable

def Value.isSpellable : Value → Bool
  | real x => x.isFinite && !x.isNegative
  | value => value.isReadable

def Operand.isSpellable : Operand → Bool
  | single value => value.isSpellable
  | list values => values.all Json.isElement

theorem Operand.isSpellable_of_isReadable {operand : Operand} (readable : operand.isReadable = true) :
    operand.isSpellable = true := by
  cases operand with
  | single value =>
      cases value with
      | real x => simp [isReadable, Value.isReadable] at readable
      | null | boolean _ | integer _ | text _ => exact readable
  | list values =>
      simp only [isReadable, isSpellable, List.all_eq_true] at readable ⊢
      exact fun value member => Json.isElement_of_isListable (readable value member)

namespace Filter

open Text (Quoting)

theorem escapeQuotes_cons (c : Char) (text : List Char) :
    escapeQuotes (c :: text) =
      (if c = '\'' then ['\\', '\''] else [c]) ++ escapeQuotes text := by
  simp [escapeQuotes]

theorem escapeQuotes_head (c : Char) (text : List Char) :
    ∃ d tail, escapeQuotes (c :: text) = d :: tail ∧ d ≠ '\'' := by
  rw [escapeQuotes_cons]
  by_cases quote : c = '\''
  · exact ⟨'\\', '\'' :: escapeQuotes text, by simp [quote], by decide⟩
  · exact ⟨c, escapeQuotes text, by simp [quote], quote⟩

theorem readQuoted_escapeQuotes {text : List Char} (noBackslash : text.getLast? ≠ some '\\')
    (rest : List Char) :
    readQuoted (escapeQuotes text ++ '\'' :: rest) = some (text, rest) := by
  induction text with
  | nil => simp [escapeQuotes, readQuoted]
  | cons c text ih =>
      cases text with
      | nil =>
          simp only [List.getLast?_singleton, ne_eq, Option.some.injEq] at noBackslash
          by_cases quote : c = '\''
          · subst c
            simp [escapeQuotes, readQuoted]
          · rw [escapeQuotes_cons, if_neg quote]
            simp [escapeQuotes, readQuoted, noBackslash]
      | cons d text =>
          rw [List.getLast?_cons_cons] at noBackslash
          have tail := ih noBackslash
          obtain ⟨first, behind, written, notQuote⟩ := escapeQuotes_head d text
          rw [escapeQuotes_cons, List.append_assoc]
          rw [written, List.cons_append] at tail ⊢
          by_cases quote : c = '\''
          · subst c
            simp [readQuoted, tail]
          · simp [readQuoted, quote, notQuote, tail]

def isBare (c : Char) : Bool :=
  !Text.isQuote c && c != '\\' && c != '[' && c != ']'

theorem isBare_of_isDigit {c : Char} (digit : c.isDigit = true) : isBare c = true := by
  have others : c ≠ '\'' ∧ c ≠ '"' ∧ c ≠ '\\' ∧ c ≠ '[' ∧ c ≠ ']' := by
    refine ⟨?_, ?_, ?_, ?_, ?_⟩ <;> (rintro rfl; simp at digit)
  simp [isBare, Text.isQuote, others]

theorem all_isBare_integerText (value : Int) : (integerText value).all isBare = true := by
  rw [List.all_eq_true, integerText]
  intro c member
  split at member
  · rcases List.mem_cons.mp member with minus | digit
    · rw [minus]
      decide
    · exact isBare_of_isDigit (isDigit_of_mem_toDigits digit)
  · exact isBare_of_isDigit (isDigit_of_mem_toDigits member)

theorem all_isBare_text {x : Binary64} (finite : x.isFinite = true) : x.text.all isBare = true := by
  rw [Json.text_of_isFinite finite, Decimal.plain_eq, List.all_eq_true]
  intro c member
  rcases List.mem_append.mp member with sign | digit
  · split at sign
    · rw [List.mem_singleton.mp sign]
      decide
    · contradiction
  · rcases List.mem_append.mp digit with whole | tail
    · exact isBare_of_isDigit (Decimal.isDigit_of_mem_whole whole)
    · rcases List.mem_cons.mp tail with point | fraction
      · rw [point]
        decide
      · exact isBare_of_isDigit (Decimal.isDigit_of_mem_fraction fraction)

def standing : Option Char → Quoting
  | none => .outside
  | some quote => .inside quote

theorem doubleQuoted_character {c : Char} (noBackslash : c ≠ '\\') (rest : List Char) :
    doubleQuoted (some '\'') (c :: rest) =
      if c = '\'' then '"' :: doubleQuoted none rest
      else if c = '"' then '\\' :: '"' :: doubleQuoted (some '\'') rest
      else c :: doubleQuoted (some '\'') rest := by
  rw [doubleQuoted.eq_def]
  simp [noBackslash]

/-- The text is crossed without a closing bracket, and with its quotes turned into those of JSON it
is the text `json`. The same quote is open before and behind it. -/
structure Crosses (quote : Option Char) (json text : List Char) : Prop where
  cut (depth : Nat) (rest : List Char) :
    cutArray? (standing quote) depth (text ++ rest) =
      (cutArray? (standing quote) depth rest).map fun (array, after) => (text ++ array, after)
  turned (rest : List Char) :
    doubleQuoted quote (text ++ rest) = json ++ doubleQuoted quote rest

namespace Crosses

theorem nil (quote : Option Char) : Crosses quote [] [] :=
  ⟨fun depth rest => by simp, fun rest => rfl⟩

theorem append {quote : Option Char} {json text moreJson moreText : List Char}
    (first : Crosses quote json text) (second : Crosses quote moreJson moreText) :
    Crosses quote (json ++ moreJson) (text ++ moreText) := by
  constructor
  · intro depth rest
    rw [List.append_assoc, first.cut, second.cut, Option.map_map]
    simp [Function.comp_def]
  · intro rest
    rw [List.append_assoc, first.turned, second.turned, List.append_assoc]

theorem cut_outside {json text : List Char} (crosses : Crosses none json text) (depth : Nat)
    (rest : List Char) :
    cutArray? .outside depth (text ++ rest) =
      (cutArray? .outside depth rest).map fun (array, after) => (text ++ array, after) :=
  crosses.cut depth rest

theorem bareCharacter {c : Char} (bare : isBare c = true) : Crosses none [c] [c] := by
  simp only [isBare, Bool.and_eq_true, Bool.not_eq_true', bne_iff_ne] at bare
  obtain ⟨⟨⟨noQuote, _⟩, noOpening⟩, noClosing⟩ := bare
  constructor
  · intro depth rest
    simp [cutArray?, standing, Quoting.step, noQuote, noOpening, noClosing]
  · intro rest
    simp [doubleQuoted, noQuote]

theorem bare {run : List Char} (all : run.all isBare = true) : Crosses none run run := by
  induction run with
  | nil => exact nil none
  | cons c run ih =>
      rw [List.all_cons, Bool.and_eq_true] at all
      exact (bareCharacter all.1).append (ih all.2)

theorem character {quote c : Char} (noQuote : c ≠ quote) (noDouble : c ≠ '"')
    (noBackslash : c ≠ '\\') : Crosses (some quote) [c] [c] := by
  constructor
  · intro depth rest
    simp [cutArray?, standing, Quoting.step, noBackslash, noQuote]
  · intro rest
    rw [List.singleton_append, doubleQuoted.eq_def]
    simp [noBackslash, noQuote, noDouble]

theorem apostrophe : Crosses (some '\'') ['\''] ['\\', '\''] := by
  constructor
  · intro depth rest
    simp [cutArray?, standing, Quoting.step, Function.comp_def]
  · intro rest
    simp [doubleQuoted]

theorem doubleQuote : Crosses (some '\'') ['\\', '"'] ['"'] := by
  constructor
  · intro depth rest
    simp [cutArray?, standing, Quoting.step]
  · intro rest
    simp [doubleQuoted_character]

theorem quoted {quote : Char} {json text : List Char} (quoting : Text.isQuote quote = true)
    (inside : Crosses (some quote) json text) :
    Crosses none ('"' :: (json ++ ['"'])) (quote :: (text ++ [quote])) := by
  have noBackslash : quote ≠ '\\' := by
    rintro rfl
    exact absurd quoting (by decide)
  have noBrackets : quote ≠ '[' ∧ quote ≠ ']' := by
    constructor <;> (rintro rfl; exact absurd quoting (by decide))
  constructor
  · intro depth rest
    have cut : cutArray? (.inside quote) depth (text ++ quote :: rest) = _ :=
      inside.cut depth (quote :: rest)
    have closes : cutArray? (.inside quote) depth (quote :: rest) =
        (cutArray? .outside depth rest).map fun (array, after) => (quote :: array, after) := by
      simp [cutArray?, Quoting.step, noBackslash]
    simp only [standing, List.cons_append, List.append_assoc, List.nil_append]
    rw [cutArray?]
    simp [noBrackets, Quoting.step, quoting, cut, standing, closes, Function.comp_def]
  · intro rest
    have turned := inside.turned (quote :: rest)
    have ends : doubleQuoted (some quote) (quote :: rest) = '"' :: doubleQuoted none rest := by
      rw [doubleQuoted.eq_def]
      simp [noBackslash]
    simp only [List.cons_append, List.append_assoc, List.nil_append]
    rw [doubleQuoted]
    simp [quoting, turned, ends]

theorem escaped {text : List Char} (plain : Json.isPlain text = true) :
    Crosses (some '\'') (Json.quoteEscaped text) (escapeQuotes text) := by
  induction text with
  | nil => exact nil _
  | cons c text ih =>
      simp only [Json.isPlain, List.all_cons, Bool.and_eq_true, bne_iff_ne] at plain ih
      have rest := ih plain.2
      have unfolded : Json.quoteEscaped (c :: text) =
          (if c = '"' then ['\\', '"'] else [c]) ++ Json.quoteEscaped text := by
        simp [Json.quoteEscaped]
      rw [escapeQuotes_cons, unfolded]
      by_cases single : c = '\''
      · subst c
        exact apostrophe.append rest
      · rw [if_neg single]
        by_cases double : c = '"'
        · subst c
          exact doubleQuote.append rest
        · rw [if_neg double]
          exact (character single double plain.1.1).append rest

theorem literal {value : Value} (element : Json.isElement value = true) :
    Crosses none (Json.scalarText value) value.literal := by
  cases value with
  | null => simp [Json.isElement, Json.isListable] at element
  | boolean b => exact bare (by cases b <;> decide)
  | integer i => exact bare (all_isBare_integerText i.toInt)
  | real x => exact bare (all_isBare_text element)
  | text s => exact quoted (by decide) (escaped element)

theorem comma : Crosses none [',', ' '] [',', ' '] :=
  bare (by decide)

theorem cut_closed {json body : List Char} (crosses : Crosses none json body) (rest : List Char) :
    cutArray? .outside 0 ('[' :: (body ++ [']']) ++ rest) = some ('[' :: (body ++ [']']), rest) := by
  have cut := crosses.cut_outside 1 (']' :: rest)
  simp [cutArray?, cut]

theorem turned_closed {json body : List Char} (crosses : Crosses none json body) :
    doubleQuoted none ('[' :: (body ++ [']'])) = '[' :: (json ++ [']']) := by
  simp [doubleQuoted, Text.isQuote, crosses.turned]

end Crosses

def listBody (values : List Value) : List Char :=
  separated [',', ' '] (values.map Value.literal)

theorem listBody_single (value : Value) : listBody [value] = value.literal := by
  simp [listBody, separated]

theorem listBody_cons_cons (value next : Value) (values : List Value) :
    listBody (value :: next :: values) =
      value.literal ++ ([',', ' '] ++ listBody (next :: values)) := by
  simp [listBody, separated, List.intercalate]

theorem Crosses.listBody {values : List Value}
    (all : ∀ value ∈ values, Json.isElement value = true) :
    Crosses none (Json.itemsText values) (listBody values) := by
  induction values with
  | nil => exact nil none
  | cons value values ih =>
      rw [List.forall_mem_cons] at all
      cases values with
      | nil =>
          rw [listBody_single, Json.itemsText_single]
          exact literal all.1
      | cons next values =>
          rw [listBody_cons_cons, Json.itemsText_cons_cons]
          exact (literal all.1).append (comma.append (ih all.2))

theorem elements_of_areScalars {docs : List Json.Doc} {values : List Value}
    (known : ∀ doc ∈ docs, doc ≠ .null) (scalars : Json.AreScalars docs values) :
    elements docs = .ok values := by
  induction scalars with
  | nil => rfl
  | @cons doc value docs values scalar _ ih =>
      rw [List.forall_mem_cons] at known
      have noNull := Json.scalar?_ne_null known.1
      rw [elements, ih known.2]
      cases value with
      | null => contradiction
      | boolean _ | integer _ | real _ | text _ =>
          rw [scalar]
          rfl

theorem elements_scalarDocs {values : List Value}
    (all : ∀ value ∈ values, Json.isElement value = true) :
    elements (values.map Json.scalarDoc) = .ok values := by
  refine elements_of_areScalars ?_ (Json.areScalars_scalarDocs all)
  rw [List.forall_mem_map]
  intro value member
  have element := all value member
  cases value with
  | null => contradiction
  | boolean _ | integer _ | real _ | text _ => nofun

theorem readArray_listBody {values : List Value} (nonempty : values ≠ [])
    (all : ∀ value ∈ values, Json.isElement value = true) :
    readArray ('[' :: (listBody values ++ [']'])) = .ok (values, []) := by
  have crosses := Crosses.listBody all
  have cut := crosses.cut_closed []
  rw [List.append_nil] at cut
  simp only [readArray, cut, crosses.turned_closed, Json.decode?_items nonempty all,
    elements_scalarDocs all, Except.map]

theorem literal_integer {value : Int64} (natural : 0 ≤ value.toInt) :
    Literal (integerText value.toInt) (.single (.integer value)) := by
  have digits : ∀ c ∈ Nat.toDigits 10 value.toInt.natAbs, c.isDigit = true := fun c member =>
    isDigit_of_mem_toDigits member
  have fits : int64? (decimalValue (Nat.toDigits 10 value.toInt.natAbs)) = some value := by
    rw [decimalValue_toDigits, Int.natAbs_of_nonneg natural, int64?_toInt]
  have read := readNumber_whole digits (Text.stops_nil _) (by simp) fits
  rw [List.append_nil] at read
  rw [integerText, if_neg (by omega)]
  refine .number ?_ read
  cases text : Nat.toDigits 10 value.toInt.natAbs with
  | nil => exact absurd text Nat.toDigits_ne_nil
  | cons c tail =>
      rw [text] at digits
      simp [digits c (by simp)]

theorem literal_real {x : Binary64} (finite : x.isFinite = true) (natural : x.isNegative = false) :
    Literal x.text (.single (.real x)) := by
  have rounded := Binary64.ofDecimal_plain finite
  have read := readNumber_fraction x.shortest.whole x.shortest.fraction []
    (fun c member => Decimal.isDigit_of_mem_whole member)
    (fun c member => Decimal.isDigit_of_mem_fraction member) x.shortest.fraction_ne_nil
    (Text.stops_nil _) (by simp)
  rw [natural] at rounded
  rw [List.append_nil, ← Decimal.plain_eq, rounded] at read
  obtain ⟨c, tail, plainEq, digit⟩ := Json.plain_head x.shortest
  rw [Json.text_of_isFinite finite, natural, if_neg Bool.false_ne_true, List.nil_append]
  exact .number (by simp [plainEq, digit]) read

theorem literal_operand {operand : Operand} (spellable : operand.isSpellable = true)
    (nonempty : operand ≠ .list []) : Literal operand.literal operand := by
  cases operand with
  | single value =>
      cases value with
      | null => exact .constant (by decide) (by decide)
      | boolean b => exact .constant (by cases b <;> decide) (by cases b <;> decide)
      | integer i =>
          simp only [Operand.isSpellable, Value.isSpellable, Value.isReadable,
            decide_eq_true_eq] at spellable
          exact literal_integer spellable
      | real x =>
          simp only [Operand.isSpellable, Value.isSpellable, Bool.and_eq_true,
            Bool.not_eq_true'] at spellable
          exact literal_real spellable.1 spellable.2
      | text s =>
          simp only [Operand.isSpellable, Value.isSpellable, Value.isReadable,
            bne_iff_ne] at spellable
          have quoted := Literal.quoted (readQuoted_escapeQuotes spellable [])
          rwa [String.ofList_toList] at quoted
  | list values =>
      have all : ∀ value ∈ values, Json.isElement value = true := by
        simpa [Operand.isSpellable] using spellable
      exact .array rfl (readArray_listBody (by rintro rfl; contradiction) all)

end Filter

end QueryOptions
