import QueryOptions.Proofs.Filter.Rereading
import QueryOptions.Proofs.Json.Quotation

/-!
Texts in lists that do not come back from their spelling. A backslash takes the next character
along as an escape, so what is read is shorter than what was written, or runs on beyond its quote.
-/

namespace QueryOptions

namespace Json

theorem length_characters? {pieces : List Piece} {text : List Char}
    (found : characters? pieces = some text) : text.length ≤ pieces.length := by
  fun_induction characters? pieces generalizing text with
  | case1 =>
      cases found
      exact Nat.le_refl _
  | case2 c rest ih =>
      obtain ⟨inner, innerFound, rfl⟩ := Option.map_eq_some_iff.mp found
      exact Nat.succ_le_succ (ih innerFound)
  | case3 code rest outside ih =>
      obtain ⟨inner, innerFound, rfl⟩ := Option.map_eq_some_iff.mp found
      exact Nat.succ_le_succ (ih innerFound)
  | case4 code surrogate low rest paired ih =>
      obtain ⟨inner, innerFound, rfl⟩ := Option.map_eq_some_iff.mp found
      have shorter := ih innerFound
      simp only [List.length_cons]
      omega
  | case5 => contradiction
  | case6 => contradiction

theorem getLast?_characters? {pieces : List Piece} {text : List Char} {c : Char}
    (found : characters? pieces = some text) (last : pieces.getLast? = some (.char c)) :
    text.getLast? = some c := by
  fun_induction characters? pieces generalizing text with
  | case1 => simp at last
  | case2 d rest ih =>
      obtain ⟨inner, innerFound, rfl⟩ := Option.map_eq_some_iff.mp found
      cases rest with
      | nil =>
          cases innerFound
          simpa using last
      | cons piece rest =>
          rw [List.getLast?_cons_cons] at last
          simp [List.getLast?_cons, ih innerFound last]
  | case3 code rest outside ih =>
      obtain ⟨inner, innerFound, rfl⟩ := Option.map_eq_some_iff.mp found
      cases rest with
      | nil => simp at last
      | cons piece rest =>
          rw [List.getLast?_cons_cons] at last
          simp [List.getLast?_cons, ih innerFound last]
  | case4 code surrogate low rest paired ih =>
      obtain ⟨inner, innerFound, rfl⟩ := Option.map_eq_some_iff.mp found
      cases rest with
      | nil => simp at last
      | cons piece rest =>
          rw [List.getLast?_cons_cons, List.getLast?_cons_cons] at last
          simp [List.getLast?_cons, ih innerFound last]
  | case5 => contradiction
  | case6 => contradiction

end Json

namespace Filter

open Text (Quoting)
open Json (Piece readString isPlain)

def Calm (text : List Char) : Prop :=
  ∀ c ∈ text.takeWhile (· != '\''), c ≠ '\\'

theorem calm_cons {c : Char} {text : List Char} (noBackslash : c ≠ '\\') (calm : Calm text) :
    Calm (c :: text) := by
  intro d member
  by_cases quote : c = '\''
  · simp [quote] at member
  · rw [List.takeWhile_cons_of_pos (by simpa using quote), List.mem_cons] at member
    rcases member with rfl | later
    · exact noBackslash
    · exact calm d later

theorem calm_append {run text : List Char} (noBackslash : ∀ c ∈ run, c ≠ '\\') (calm : Calm text) :
    Calm (run ++ text) := by
  induction run with
  | nil => exact calm
  | cons c run ih =>
      exact calm_cons (noBackslash c (by simp)) (ih fun c member => noBackslash c (by simp [member]))

theorem calm_quote (text : List Char) : Calm ('\'' :: text) := by
  simp [Calm]

theorem Calm.tail {c : Char} {text : List Char} (calm : Calm (c :: text)) (noQuote : c ≠ '\'') :
    c ≠ '\\' ∧ Calm text := by
  rw [Calm, List.takeWhile_cons_of_pos (by simpa using noQuote)] at calm
  exact ⟨calm c (by simp), fun d member => calm d (by simp [member])⟩

/-- What a single-quoted string is read as, once its quotes are doubled: up to its closing quote,
which is added at the end of the text. -/
def readRequoted (text : List Char) : Option (List Piece × List Char) :=
  readString (doubleQuoted (some '\'') text)

inductive RequotedStep (text rest : List Char) : List Piece → Prop
  | closed (ends : ∀ c ∈ text.head?, c = '\'') : RequotedStep text rest []
  | character {c : Char} {tail : List Char} {pieces : List Piece} (textEq : text = c :: tail)
      (notQuote : c ≠ '\'') (notBackslash : c ≠ '\\') (printable : 0x20 ≤ c.toNat)
      (read : readRequoted tail = some (pieces, rest)) : RequotedStep text rest (.char c :: pieces)
  | quote {tail : List Char} {pieces : List Piece} (textEq : text = '\\' :: '\'' :: tail)
      (read : readRequoted tail = some (pieces, rest)) : RequotedStep text rest (.char '\'' :: pieces)
  | escape {letter : Char} {digits tail : List Char} {piece : Piece} {pieces : List Piece}
      (textEq : text = '\\' :: letter :: (digits ++ tail)) (notQuote : letter ≠ '\'')
      (hexadecimal : ∀ c ∈ digits, (hexDigit? c).isSome = true)
      (read : readRequoted tail = some (pieces, rest)) : RequotedStep text rest (piece :: pieces)

theorem doubleQuoted_backslash (next : Char) (text : List Char) :
    doubleQuoted (some '\'') ('\\' :: next :: text) =
      if next = '\'' then '\'' :: doubleQuoted (some '\'') text
      else '\\' :: next :: doubleQuoted (some '\'') text := by
  simp [doubleQuoted]

theorem doubleQuoted_hexadecimal {c : Char} {text requoted : List Char}
    (digit : (hexDigit? c).isSome = true)
    (requote : doubleQuoted (some '\'') text = c :: requoted) :
    ∃ tail, text = c :: tail ∧ requoted = doubleQuoted (some '\'') tail := by
  have others : c ≠ '"' ∧ c ≠ '\\' ∧ c ≠ '\'' := by
    refine ⟨?_, ?_, ?_⟩ <;> (rintro rfl; exact absurd digit (by decide))
  cases text with
  | nil =>
      cases requote
      exact absurd rfl others.1
  | cons d tail =>
      by_cases backslash : d = '\\'
      · subst backslash
        cases tail with
        | nil =>
            cases requote
            exact absurd rfl others.2.1
        | cons next tail =>
            rw [doubleQuoted_backslash] at requote
            split at requote
            · cases requote
              exact absurd rfl others.2.2
            · cases requote
              exact absurd rfl others.2.1
      · rw [doubleQuoted_character backslash] at requote
        split at requote
        · cases requote
          exact absurd rfl others.1
        · split at requote
          · cases requote
            exact absurd rfl others.2.1
          · cases requote
            exact ⟨tail, rfl, rfl⟩

theorem readRequoted_code {text rest : List Char} {pieces : List Piece}
    (read : readString ('\\' :: 'u' :: doubleQuoted (some '\'') text) = some (pieces, rest)) :
    ∃ digits tail piece others, text = digits ++ tail ∧
      (∀ c ∈ digits, (hexDigit? c).isSome = true) ∧ pieces = piece :: others ∧
      readRequoted tail = some (others, rest) := by
  unfold readString at read
  split at read
  · contradiction
  · simp_all
  · rename_i a b c d requoted requote
    simp only [List.cons.injEq, true_and] at requote
    simp only [Option.bind_eq_bind, Option.bind_eq_some_iff] at read
    obtain ⟨code, hexadecimal, ⟨others, tailRest⟩, readTail, pairEq⟩ := read
    cases pairEq
    have digits := Json.hexCode?_isSome hexadecimal
    obtain ⟨first, rfl, afterFirst⟩ := doubleQuoted_hexadecimal (digits a (by simp)) requote
    obtain ⟨second, rfl, afterSecond⟩ :=
      doubleQuoted_hexadecimal (digits b (by simp)) afterFirst.symm
    obtain ⟨third, rfl, afterThird⟩ :=
      doubleQuoted_hexadecimal (digits c (by simp)) afterSecond.symm
    obtain ⟨tail, rfl, afterFourth⟩ :=
      doubleQuoted_hexadecimal (digits d (by simp)) afterThird.symm
    rw [afterFourth] at readTail
    exact ⟨[a, b, c, d], tail, .escape code, others, rfl, digits, rfl, readTail⟩
  · rename_i letter tail _ requote
    simp only [List.cons.injEq, true_and] at requote
    rw [← requote.1] at read
    simp [Json.shortEscape?] at read
  · rename_i c tail _ _ _ requote
    simp only [List.cons.injEq] at requote
    simp [← requote.1] at read

theorem readString_escape {letter : Char} {text rest : List Char} {pieces : List Piece}
    (noCode : letter ≠ 'u') (read : readString ('\\' :: letter :: text) = some (pieces, rest)) :
    ∃ c others, Json.shortEscape? letter = some c ∧ pieces = .char c :: others ∧
      readString text = some (others, rest) := by
  unfold readString at read
  split at read
  · contradiction
  · simp_all
  · simp_all
  · rename_i other tail _ textEq
    simp only [List.cons.injEq, true_and] at textEq
    simp only [Option.bind_eq_bind, Option.bind_eq_some_iff] at read
    obtain ⟨c, escaped, ⟨others, tailRest⟩, readTail, pairEq⟩ := read
    cases pairEq
    rw [textEq.1, textEq.2]
    exact ⟨c, others, escaped, rfl, readTail⟩
  · rename_i c tail _ _ _ textEq
    simp only [List.cons.injEq] at textEq
    simp [← textEq.1] at read

theorem readString_character {c : Char} {text rest : List Char} {pieces : List Piece}
    (noBackslash : c ≠ '\\') (noQuote : c ≠ '"')
    (read : readString (c :: text) = some (pieces, rest)) :
    0x20 ≤ c.toNat ∧ ∃ others, pieces = .char c :: others ∧
      readString text = some (others, rest) := by
  unfold readString at read
  split at read
  · contradiction
  · simp_all
  · simp_all
  · simp_all
  · rename_i head tail _ _ _ textEq
    cases textEq
    split at read
    · contradiction
    · rename_i printable
      simp only [Option.bind_eq_bind, Option.bind_eq_some_iff] at read
      obtain ⟨⟨others, tailRest⟩, readTail, pairEq⟩ := read
      cases pairEq
      exact ⟨by omega, others, rfl, readTail⟩

theorem readRequoted_step {text rest : List Char} {pieces : List Piece}
    (read : readRequoted text = some (pieces, rest)) : RequotedStep text rest pieces := by
  cases text with
  | nil =>
      have empty : pieces = [] := by
        simp only [readRequoted, doubleQuoted, Option.isSome_some, if_true, readString,
          Option.some.injEq, Prod.mk.injEq] at read
        exact read.1.symm
      rw [empty]
      exact .closed (by simp)
  | cons c tail =>
      by_cases backslash : c = '\\'
      · subst backslash
        cases tail with
        | nil => simp [readRequoted, doubleQuoted, readString, Json.shortEscape?] at read
        | cons letter tail =>
            rw [readRequoted, doubleQuoted_backslash] at read
            by_cases quote : letter = '\''
            · subst quote
              rw [if_pos rfl] at read
              obtain ⟨_, others, rfl, readTail⟩ :=
                readString_character (by decide) (by decide) read
              exact .quote rfl readTail
            · rw [if_neg quote] at read
              by_cases code : letter = 'u'
              · subst code
                obtain ⟨digits, rest, piece, others, rfl, hexadecimal, rfl, readTail⟩ :=
                  readRequoted_code read
                exact .escape rfl quote hexadecimal readTail
              · obtain ⟨c, others, _, rfl, readTail⟩ := readString_escape code read
                have spelled : '\\' :: letter :: tail = '\\' :: letter :: ([] ++ tail) := rfl
                exact .escape spelled quote (by simp) readTail
      · rw [readRequoted, doubleQuoted_character backslash] at read
        by_cases quote : c = '\''
        · rw [if_pos quote, readString] at read
          cases read
          exact .closed (by simp [quote])
        · rw [if_neg quote] at read
          by_cases doubled : c = '"'
          · rw [if_pos doubled] at read
            obtain ⟨d, others, escaped, rfl, readTail⟩ := readString_escape (by decide) read
            cases escaped
            exact .character (by rw [doubled]) (by decide) (by decide) (by decide) readTail
          · rw [if_neg doubled] at read
            obtain ⟨printable, others, rfl, readTail⟩ := readString_character backslash doubled read
            exact .character rfl quote backslash printable readTail

theorem readRequoted_calm {array rest : List Char} (calm : Calm (array ++ rest))
    {pieces : List Piece} {jsonRest : List Char}
    (read : readRequoted array = some (pieces, jsonRest)) :
    ∀ piece ∈ pieces, ∃ c, piece = .char c ∧ c ≠ '\\' := by
  induction array generalizing pieces with
  | nil =>
      cases readRequoted_step read with
      | closed _ => simp
      | character textEq | quote textEq | escape textEq => cases textEq
  | cons c array ih =>
      cases readRequoted_step read with
      | closed _ => simp
      | character textEq notQuote notBackslash printable readTail =>
          cases textEq
          intro piece member
          rcases List.mem_cons.mp member with rfl | later
          · exact ⟨c, rfl, notBackslash⟩
          · exact ih (calm.tail notQuote).2 readTail piece later
      | quote textEq | escape textEq =>
          cases textEq
          exact absurd rfl (calm.tail (by decide)).1

/-- How a text compares with the pieces that its spelling is read as: they are not more than its
characters, and fewer unless the text is plain; or the spelling runs on beyond a backslash at its
end, and ends in other characters. -/
def Reread (text : List Char) (pieces : List Piece) : Prop :=
  (pieces.length ≤ text.length ∧ (pieces.length = text.length → isPlain text = true)) ∨
    text.getLast? = some '\\' ∧ ∃ c, pieces.getLast? = some (.char c) ∧ c ≠ '\\'

theorem reread_nil (text : List Char) : Reread text [] := by
  refine .inl ⟨Nat.zero_le _, fun empty => ?_⟩
  rw [List.length_nil, eq_comm, List.length_eq_zero_iff] at empty
  rw [empty]
  rfl

theorem Reread.character {text : List Char} {pieces : List Piece} (reread : Reread text pieces)
    {c : Char} (notBackslash : c ≠ '\\') (printable : 0x20 ≤ c.toNat) (piece : Piece) :
    Reread (c :: text) (piece :: pieces) := by
  rcases reread with ⟨short, plain⟩ | ⟨textLast, last, piecesLast, other⟩
  · refine .inl ⟨Nat.succ_le_succ short, fun equal => ?_⟩
    simp only [List.length_cons, Nat.add_right_cancel_iff] at equal
    have rest := plain equal
    simp only [isPlain, List.all_cons, Bool.and_eq_true, bne_iff_ne, ne_eq, decide_eq_true_eq] at rest ⊢
    exact ⟨⟨notBackslash, printable⟩, rest⟩
  · exact .inr ⟨by simp [List.getLast?_cons, textLast], last,
      by simp [List.getLast?_cons, piecesLast], other⟩

theorem Reread.escape {text : List Char} {pieces : List Piece} (reread : Reread text pieces)
    (front : List Char) (long : 2 ≤ front.length) (piece : Piece) :
    Reread (front ++ text) (piece :: pieces) := by
  rcases reread with ⟨short, _⟩ | ⟨textLast, last, piecesLast, other⟩
  · refine .inl ⟨?_, fun equal => ?_⟩
    · simp only [List.length_cons, List.length_append]
      omega
    · simp only [List.length_cons, List.length_append] at equal
      omega
  · exact .inr ⟨by simp [List.getLast?_append, textLast], last,
      by simp [List.getLast?_cons, piecesLast], other⟩

theorem escapeQuotes_hexadecimal {digits tail text more : List Char}
    (hexadecimal : ∀ c ∈ digits, (hexDigit? c).isSome = true)
    (spelled : digits ++ tail = escapeQuotes text ++ '\'' :: more) :
    ∃ others, text = digits ++ others ∧ tail = escapeQuotes others ++ '\'' :: more := by
  induction digits generalizing text with
  | nil => exact ⟨text, rfl, spelled⟩
  | cons digit digits ih =>
      have isDigit := hexadecimal digit (by simp)
      cases text with
      | nil =>
          cases spelled
          exact absurd isDigit (by decide)
      | cons c text =>
          rw [escapeQuotes_cons] at spelled
          split at spelled
          · simp only [List.cons_append, List.cons.injEq] at spelled
            rw [spelled.1] at isDigit
            exact absurd isDigit (by decide)
          · simp only [List.cons_append, List.nil_append, List.cons.injEq] at spelled
            obtain ⟨others, rfl, tailEq⟩ :=
              ih (fun c member => hexadecimal c (by simp [member])) spelled.2
            exact ⟨others, by rw [spelled.1, List.cons_append], tailEq⟩

theorem spelling_cases (text more : List Char) :
    (text = [] ∧ escapeQuotes text ++ '\'' :: more = '\'' :: more) ∨
      (∃ tail, text = '\'' :: tail ∧
        escapeQuotes text ++ '\'' :: more = '\\' :: '\'' :: (escapeQuotes tail ++ '\'' :: more)) ∨
      ∃ c tail, text = c :: tail ∧ c ≠ '\'' ∧
        escapeQuotes text ++ '\'' :: more = c :: (escapeQuotes tail ++ '\'' :: more) := by
  cases text with
  | nil => exact .inl ⟨rfl, rfl⟩
  | cons c tail =>
      rw [escapeQuotes_cons]
      by_cases quote : c = '\''
      · exact .inr (.inl ⟨tail, by rw [quote], by simp [quote]⟩)
      · exact .inr (.inr ⟨c, tail, rfl, quote, by simp [quote]⟩)

theorem readRequoted_closed {digits array rest more jsonRest : List Char} {pieces : List Piece}
    (hexadecimal : ∀ c ∈ digits, (hexDigit? c).isSome = true)
    (quoted : digits ++ (array ++ rest) = '\'' :: more)
    (read : readRequoted array = some (pieces, jsonRest)) : pieces = [] := by
  cases digits with
  | cons digit digits =>
      have isDigit := hexadecimal digit (by simp)
      rw [List.cons_append, List.cons.injEq] at quoted
      rw [quoted.1] at isDigit
      exact absurd isDigit (by decide)
  | nil =>
      cases readRequoted_step read with
      | closed _ => rfl
      | character textEq notQuote =>
          subst textEq
          simp only [List.nil_append, List.cons_append, List.cons.injEq] at quoted
          exact absurd quoted.1 notQuote
      | quote textEq | escape textEq =>
          subst textEq
          simp at quoted

theorem reread_running {array rest : List Char} (calm : Calm (array ++ rest))
    {pieces : List Piece} {jsonRest : List Char}
    (read : readRequoted array = some (pieces, jsonRest)) :
    Reread ['\\'] (.char '\'' :: pieces) := by
  refine .inr ⟨rfl, ?_⟩
  cases last : pieces.getLast? with
  | none => exact ⟨'\'', by simp [List.getLast?_cons, last], by decide⟩
  | some piece =>
      obtain ⟨c, rfl, other⟩ := readRequoted_calm calm read piece (List.mem_of_getLast? last)
      exact ⟨c, by simp [List.getLast?_cons, last], other⟩

/-- What the spelling of a text is read as. Any part of what follows can be cut off. -/
theorem reread_spelled {text array rest more jsonRest : List Char} {pieces : List Piece}
    (calm : Calm more) (spelled : array ++ rest = escapeQuotes text ++ '\'' :: more)
    (read : readRequoted array = some (pieces, jsonRest)) : Reread text pieces := by
  -- By length and not by structure: one escape takes several characters of the array at once.
  generalize sizeEq : array.length = size
  induction size using Nat.strongRecOn generalizing array text pieces with
  | ind size ih =>
      cases readRequoted_step read with
      | closed _ => exact reread_nil text
      | character textEq notQuote notBackslash printable readTail =>
          subst textEq
          rw [List.length_cons] at sizeEq
          obtain ⟨_, start⟩ | ⟨_, _, start⟩ | ⟨c, tail, rfl, _, start⟩ := spelling_cases text more
          all_goals rw [start, List.cons_append, List.cons.injEq] at spelled
          · exact absurd spelled.1 notQuote
          · exact absurd spelled.1 notBackslash
          · rw [spelled.1] at notBackslash printable
            exact (ih _ (by omega) spelled.2 readTail rfl).character notBackslash printable _
      | quote textEq readTail =>
          subst textEq
          simp only [List.length_cons] at sizeEq
          obtain ⟨_, start⟩ | ⟨tail, rfl, start⟩ | ⟨c, tail, rfl, _, start⟩ := spelling_cases text more
          all_goals
            rw [start] at spelled
            simp only [List.cons_append, List.cons.injEq] at spelled
          · exact absurd spelled.1 (by decide)
          · exact (ih _ (by omega) spelled.2.2 readTail rfl).character (by decide) (by decide) _
          · obtain ⟨rfl, behind⟩ := spelled
            obtain ⟨rfl, next⟩ | ⟨_, _, next⟩ | ⟨d, _, _, notQuote, next⟩ := spelling_cases tail more
            all_goals rw [next, List.cons.injEq] at behind
            · rw [← behind.2] at calm
              exact reread_running calm readTail
            · exact absurd behind.1 (by decide)
            · exact absurd behind.1.symm notQuote
      | @escape letter digits tail piece pieces textEq notQuote hexadecimal readTail =>
          subst textEq
          simp only [List.length_cons, List.length_append] at sizeEq
          obtain ⟨_, start⟩ | ⟨_, _, start⟩ | ⟨c, text, rfl, _, start⟩ := spelling_cases text more
          all_goals
            rw [start] at spelled
            simp only [List.cons_append, List.cons.injEq, List.append_assoc] at spelled
          · exact absurd spelled.1 (by decide)
          · exact absurd spelled.2.1 notQuote
          · obtain ⟨rfl, behind⟩ := spelled
            obtain ⟨_, next⟩ | ⟨text, rfl, next⟩ | ⟨d, text, rfl, _, next⟩ := spelling_cases text more
            all_goals rw [next, List.cons.injEq] at behind
            · exact absurd behind.1 notQuote
            · have closed := readRequoted_closed hexadecimal behind.2 readTail
              subst closed
              exact (reread_nil text).escape ['\\', '\''] (by simp) piece
            · obtain ⟨rfl, behind⟩ := behind
              obtain ⟨others, rfl, tailEq⟩ := escapeQuotes_hexadecimal hexadecimal behind
              have reread := ih _ (by omega) tailEq readTail rfl
              exact reread.escape ('\\' :: letter :: digits) (by simp) piece

theorem isPlain_of_reread {text array rest more jsonRest : List Char} {pieces : List Piece}
    (calm : Calm more) (spelled : array ++ rest = escapeQuotes text ++ '\'' :: more)
    (read : readRequoted array = some (pieces, jsonRest))
    (same : Json.characters? pieces = some text) : isPlain text = true := by
  rcases reread_spelled calm spelled read with ⟨short, plain⟩ | ⟨textLast, c, piecesLast, other⟩
  · have long := Json.length_characters? same
    exact plain (by omega)
  · rw [Json.getLast?_characters? same piecesLast, Option.some.injEq] at textLast
    exact absurd textLast other

end Filter
end QueryOptions
