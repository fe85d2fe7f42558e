import QueryOptions.Proofs.Filter.Lexemes
import QueryOptions.Proofs.Json.Quotation

/-!
Filter text among separators. The splitter of a surrounding text follows quotations in its own way:
a backslash takes any character along, where the reader of strings knows an escaped quote only. As
long as every quote in a string stands behind an even number of backslashes, the two agree, and the
filter is crossed as one piece.
-/

namespace QueryOptions

/-- Every single quote stands behind an even number of backslashes; `odd` tells whether the text
itself stands behind an odd number. -/
def quotesEven (odd : Bool) : List Char → Bool
  | [] => true
  | c :: rest =>
      if c = '\'' then !odd && quotesEven false rest
      else quotesEven (c == '\\' && !odd) rest

/-- No string in the place of an operand has a quote behind an odd number of backslashes. -/
def Operand.isEnclosable : Operand → Bool
  | single (.text s) => quotesEven false s.toList
  | _ => true

namespace Filter

open Text (Nesting Quoting Unwrapped isBlank isInert)
open Text.Nesting (cross?)

theorem unwrapped_of_doubleQuoted (quote : Option Char) (text : List Char)
    (unwrapped : Unwrapped (if quote.isSome then .inside '"' else .outside)
      (doubleQuoted quote text)) :
    Unwrapped (quote.elim .outside .inside) text := by
  fun_induction doubleQuoted quote text with
  | case1 => trivial
  | case2 => trivial
  | case3 c rest isQuote ih =>
      refine ⟨fun _ => ?_, ?_⟩
      · constructor <;> (rintro rfl; exact absurd isQuote (by decide))
      · have opens : Quoting.outside.step c = .inside c := if_pos isQuote
        rw [Option.elim, opens]
        exact ih unwrapped.2
  | case4 c rest noQuote ih =>
      have stays : Quoting.outside.step c = .outside := if_neg noQuote
      obtain ⟨noParenthesis, rest⟩ := unwrapped
      refine ⟨noParenthesis, ?_⟩
      rw [Option.isSome_none, if_neg Bool.false_ne_true, stays] at rest
      rw [Option.elim, stays]
      exact ih rest
  | case5 => exact ⟨nofun, trivial⟩
  | case6 mark next rest single ih => exact Text.unwrapped_escape (ih unwrapped.2)
  | case7 mark next rest other ih => exact Text.unwrapped_escape (ih unwrapped.2.2)
  | case8 rest mark noBackslash ih =>
      refine ⟨nofun, ?_⟩
      rw [Option.elim, Quoting.step, if_neg noBackslash, if_pos rfl]
      exact ih unwrapped.2
  | case9 rest mark noBackslash noMark ih =>
      exact Text.unwrapped_inside noMark (by decide) (ih unwrapped.2.2)
  | case10 c rest mark noBackslash noMark noDouble ih =>
      refine Text.unwrapped_inside noMark noBackslash (ih ?_)
      have rest := unwrapped.2
      rwa [Option.isSome_some, if_pos rfl, Quoting.step, if_neg noBackslash, if_neg noDouble] at rest

theorem step?_array {quoting : Quoting} {c : Char}
    (noParenthesis : quoting = .outside → c ≠ '(' ∧ c ≠ ')') (depth : Nat)
    (outer : List Text.Bracket) :
    Nesting.step? ⟨quoting, List.replicate (depth + 1) .square ++ outer⟩ c =
      some ⟨quoting.step c, List.replicate (openAfter quoting (depth + 1) c) .square ++ outer⟩ := by
  rw [Nesting.step?, openAfter]
  by_cases outside : quoting = .outside
  · subst outside
    obtain ⟨noOpening, noClosing⟩ := noParenthesis rfl
    simp only [if_true, ne_eq, not_true_eq_false, if_false, Text.enclose, noOpening, noClosing]
    split_ifs <;> rfl
  · rw [if_neg outside, if_pos outside]

theorem cross?_cutArray? {quoting : Quoting} {depth : Nat} {array : List Char}
    (cut : cutArray? quoting (depth + 1) array = some (array, []))
    (unwrapped : Unwrapped quoting array) (separator : Char) (outer : List Text.Bracket) :
    cross? separator ⟨quoting, List.replicate (depth + 1) .square ++ outer⟩ array =
      some ⟨.outside, outer⟩ := by
  induction array generalizing quoting depth with
  | nil => simp [cutArray?] at cut
  | cons c array ih =>
      obtain ⟨noParenthesis, unwrapped⟩ := unwrapped
      rw [cross?, if_neg (by simp [Nesting.isTop]), step?_array noParenthesis]
      rcases cutArray?_whole cut with ⟨⟨rfl, rfl, last⟩, rfl⟩ | ⟨goesOn, cut⟩
      · obtain rfl : depth = 0 := by omega
        rfl
      · have stillOpen : openAfter quoting (depth + 1) c ≠ 0 := by
          rw [openAfter]
          split_ifs with inside opening closing
          · omega
          · omega
          · have := mt (fun last => ⟨not_not.mp inside, closing, last⟩) goesOn
            omega
          · omega
        obtain ⟨more, moreEq⟩ := Nat.exists_eq_succ_of_ne_zero stillOpen
        rw [moreEq] at cut ⊢
        exact ih cut unwrapped

theorem cross?_array {lexeme : List Char} {values : List Value} (bracket : lexeme.head? = some '[')
    (read : readArray lexeme = .ok (values, [])) : cross? ';' {} lexeme = some {} := by
  obtain ⟨_, doc, decoded⟩ := readArray_cut read
  have unwrapped := unwrapped_of_doubleQuoted none lexeme (Json.decode?_unwrapped decoded)
  obtain ⟨body, rfl, cut⟩ := readArray_body bracket read
  exact cross?_cutArray? cut unwrapped.2 ';' []

/-- The splitter leaves a string where its reader does. Behind an odd number of backslashes it takes
the next character along, which is then no quote. -/
theorem cross?_readQuoted {text characters : List Char} {odd : Bool}
    (read : readQuoted text = some (characters, [])) (even : quotesEven odd characters = true)
    (goesOn : odd = true → text.head? ≠ some '\'') (separator : Char)
    (brackets : List Text.Bracket) :
    cross? separator ⟨if odd then .escaped '\'' else .inside '\'', brackets⟩ text =
      some ⟨.outside, brackets⟩ := by
  fun_induction readQuoted text generalizing characters odd with
  | case1 => contradiction
  | case2 tail =>
      cases read
      cases odd with
      | true => exact absurd rfl (goesOn rfl)
      | false => rfl
  | case3 tail ih =>
      obtain ⟨⟨inner, _⟩, readInner, pairEq⟩ := Option.map_eq_some_iff.mp read
      cases pairEq
      rw [quotesEven, if_pos rfl, Bool.and_eq_true, Bool.not_eq_true'] at even
      obtain ⟨rfl, even⟩ := even
      exact ih readInner even (by simp)
  | case4 c tail notQuote notEscape ih =>
      obtain ⟨⟨inner, _⟩, readInner, pairEq⟩ := Option.map_eq_some_iff.mp read
      cases pairEq
      rw [quotesEven, if_neg notQuote] at even
      have next := ih readInner even (by
        intro nextOdd quote
        rw [Bool.and_eq_true, beq_iff_eq] at nextOdd
        obtain ⟨rest, tailEq⟩ := List.head?_eq_some_iff.mp quote
        exact notEscape rest nextOdd.1 tailEq)
      have stepped : Nesting.step? ⟨if odd then .escaped '\'' else .inside '\'', brackets⟩ c =
          some ⟨if c == '\\' && !odd then .escaped '\'' else .inside '\'', brackets⟩ := by
        cases odd with
        | true => simp [Nesting.step?, Quoting.step]
        | false =>
            by_cases backslash : c = '\\'
            · simp [Nesting.step?, Quoting.step, backslash]
            · have noQuote : c ≠ '\'' := notQuote
              simp [Nesting.step?, Quoting.step, backslash, noQuote]
      have inside : Nesting.isTop ⟨if odd then .escaped '\'' else .inside '\'', brackets⟩ = false := by
        cases odd <;> rfl
      rw [cross?, inside, Bool.false_and, if_neg Bool.false_ne_true, stepped]
      exact next

def isEnclosable (filter : Filter) : Bool :=
  filter.leaves.all fun comparison => comparison.operand.isEnclosable

theorem crossed_covers :
    Covers (fun operand => operand.isEnclosable = true)
      (fun text => cross? ';' {} text = some {}) where
  run inert := Text.cross?_inert rfl inert []
  string := by
    intro body characters read enclosable
    rw [Operand.isEnclosable, String.toList_ofList] at enclosable
    exact cross?_readQuoted read enclosable (by simp) ';' []
  array := cross?_array
  append := by
    intro left right crossedLeft crossedRight
    rw [Text.cross?_append, crossedLeft]
    exact crossedRight
  group := by
    intro body crossed
    have inside : cross? ';' ⟨.outside, [.round]⟩ body = some ⟨.outside, [.round]⟩ :=
      Text.cross?_within crossed ';' (List.cons_ne_nil Text.Bracket.round [])
    have opened : cross? ';' {} ('(' :: (body ++ [')'])) =
        cross? ';' ⟨.outside, [.round]⟩ (body ++ [')']) := rfl
    rw [opened, Text.cross?_append, inside]
    rfl

theorem split?_of_isEnclosable {limits : Limits} {text : List Char} {filter : Filter}
    (found : read limits text = .ok filter) (enclosable : filter.isEnclosable = true) :
    Text.split? ';' text = some [text] := by
  rw [isEnclosable, List.all_eq_true] at enclosable
  exact (Text.split?_eq_whole_iff ';' text).mpr (crossed_covers.text found enclosable)

inductive Reading
  | between
  | string
  | escape
  | array (quoting : Quoting) (depth : Nat)

def Reading.step? : Reading → Char → Option Reading
  | between, c =>
      if c = '\'' then some string
      else if c = '[' then some (array .outside 1)
      else if c = ',' ∨ c = ';' then none
      else some between
  | string, c => some (if c = '\'' then between else if c = '\\' then escape else string)
  | escape, c => some (if c = '\\' then escape else string)
  | array quoting depth, c =>
      some (if Closes quoting depth c then between
        else array (quoting.step c) (openAfter quoting depth c))

theorem reading_run {run : List Char} (inert : ∀ c ∈ run, isInert c = true ∨ c = ')') :
    run.foldlM Reading.step? .between = some .between := by
  induction run with
  | nil => rfl
  | cons c run ih =>
      have stays : Reading.step? .between c = some .between := by
        rcases inert c (by simp) with inert | rfl
        · simp only [isInert, Text.marks, List.mem_cons, List.not_mem_nil, or_false, not_or,
            decide_eq_true_eq] at inert
          simp [Reading.step?, inert]
        · rfl
      rw [List.foldlM_cons, stays]
      exact ih fun c member => inert c (by simp [member])

theorem reading_string {text characters : List Char} (escaped : Bool)
    (read : readQuoted text = some (characters, []))
    (goesOn : escaped = true → text.head? ≠ some '\'') :
    text.foldlM Reading.step? (if escaped then .escape else .string) = some .between := by
  fun_induction readQuoted text generalizing characters escaped with
  | case1 => contradiction
  | case2 tail =>
      cases read
      cases escaped with
      | true => exact absurd rfl (goesOn rfl)
      | false => rfl
  | case3 tail ih =>
      obtain ⟨⟨inner, _⟩, readInner, pairEq⟩ := Option.map_eq_some_iff.mp read
      cases pairEq
      have next := ih false readInner (by simp)
      cases escaped <;> exact next
  | case4 c tail notQuote notEscape ih =>
      obtain ⟨⟨inner, _⟩, readInner, pairEq⟩ := Option.map_eq_some_iff.mp read
      cases pairEq
      have next := ih (c == '\\') readInner (by
        intro backslash quote
        obtain ⟨rest, tailEq⟩ := List.head?_eq_some_iff.mp quote
        exact notEscape rest (by simpa using backslash) tailEq)
      have noQuote : c ≠ '\'' := notQuote
      have stepped : Reading.step? (if escaped then .escape else .string) c =
          some (if c == '\\' then .escape else .string) := by
        cases escaped <;> simp [Reading.step?, noQuote]
      rw [List.foldlM_cons, stepped]
      exact next

theorem reading_array {quoting : Quoting} {depth : Nat} {array : List Char}
    (cut : cutArray? quoting depth array = some (array, [])) :
    array.foldlM Reading.step? (.array quoting depth) = some .between := by
  induction array generalizing quoting depth with
  | nil => simp [cutArray?] at cut
  | cons c array ih =>
      rw [List.foldlM_cons, Reading.step?]
      rcases cutArray?_whole cut with ⟨closes, rfl⟩ | ⟨goesOn, cut⟩
      · rw [if_pos closes]
        rfl
      · rw [if_neg goesOn]
        exact ih cut

theorem reading_covers :
    Covers (fun _ => True) (fun text => text.foldlM Reading.step? .between = some .between) where
  run inert := reading_run fun c member => .inl (inert c member)
  string read _ := reading_string false read (by simp)
  array := by
    intro lexeme values bracket read
    obtain ⟨body, rfl, cut⟩ := readArray_body bracket read
    exact reading_array cut
  append := by
    intro left right readLeft readRight
    rw [List.foldlM_append, readLeft]
    exact readRight
  group := by
    intro body read
    have opened : ('(' :: (body ++ [')'])).foldlM Reading.step? .between =
        (body ++ [')']).foldlM Reading.step? .between := rfl
    rw [opened, List.foldlM_append, read]
    rfl

/-- The text of a filter that goes on, behind blanks and closing parentheses, with a comma or a
semicolon is broken off in a literal. -/
theorem broken_off {limits : Limits} {front rest : List Char} {mark : Char} {filter other : Filter}
    (early : read limits front = .ok other) (separates : mark = ',' ∨ mark = ';')
    (skipped : List Char) (blanks : ∀ c ∈ skipped, isBlank c = true ∨ c = ')') :
    read limits (front ++ (skipped ++ mark :: rest)) ≠ .ok filter := by
  intro whole
  have readWhole := reading_covers.text whole fun _ _ => trivial
  have readFront := reading_covers.text early fun _ _ => trivial
  have readSkipped : skipped.foldlM Reading.step? .between = some .between :=
    reading_run fun c member => (blanks c member).imp Text.isInert_of_isBlank id
  have stuck : Reading.step? .between mark = none := by
    rcases separates with rfl | rfl <;> rfl
  rw [List.foldlM_append, readFront, Option.bind_eq_bind, Option.bind_some, List.foldlM_append,
    readSkipped, Option.bind_eq_bind, Option.bind_some, List.foldlM_cons, stuck] at readWhole
  contradiction

end Filter

end QueryOptions
