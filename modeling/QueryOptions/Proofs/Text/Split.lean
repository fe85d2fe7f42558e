import QueryOptions.Proofs.Text.Word
import QueryOptions.Text.Split

/-!
Texts that are crossed without a separator at the top level. They never come apart, and they stay
whole inside brackets, whatever the separator is there.
-/

namespace QueryOptions.Text

/-- The nesting behind a text that has no separator at the top level. -/
def Nesting.cross? (separator : Char) (nesting : Nesting) : List Char → Option Nesting
  | [] => some nesting
  | c :: rest =>
      if nesting.isTop && c == separator then none
      else (nesting.step? c).bind fun next => next.cross? separator rest

open Nesting (cross?)

theorem isTop_iff (nesting : Nesting) : nesting.isTop = true ↔ nesting = {} := by
  cases nesting with
  | mk quoting brackets => simp [Nesting.isTop]

theorem cross?_append (separator : Char) (nesting : Nesting) (left right : List Char) :
    cross? separator nesting (left ++ right) =
      (cross? separator nesting left).bind fun next => cross? separator next right := by
  induction left generalizing nesting with
  | nil => rfl
  | cons c left ih =>
      simp only [List.cons_append, cross?]
      split
      · rfl
      · rw [Option.bind_assoc]
        exact congrArg _ (funext ih)

theorem splitFrom_crossed {separator : Char} {nesting next : Nesting} {text : List Char}
    (crossed : cross? separator nesting text = some next) (rest : List Char) :
    splitFrom separator nesting (text ++ rest) =
      (splitFrom separator next rest).map fun pieces => text.foldr pushFirst pieces := by
  induction text generalizing nesting with
  | nil =>
      cases crossed
      simp
  | cons c text ih =>
      rw [cross?] at crossed
      split at crossed
      · contradiction
      · rename_i apart
        obtain ⟨middle, stepped, crossed⟩ := Option.bind_eq_some_iff.mp crossed
        simp only [List.cons_append, splitFrom, stepped, apart, Bool.false_eq_true, if_false,
          ih crossed, Option.map_map]
        rfl

theorem foldr_pushFirst (text piece : List Char) (pieces : List (List Char)) :
    text.foldr pushFirst (piece :: pieces) = (text ++ piece) :: pieces := by
  induction text with
  | nil => rfl
  | cons c text ih => simp [ih, pushFirst]

theorem splitFrom_first {separator : Char} {nesting : Nesting} {text : List Char}
    {pieces : List (List Char)} (found : splitFrom separator nesting text = some pieces) :
    ∃ piece others, pieces = piece :: others ∧ cross? separator nesting piece = some {} ∧
      (text = piece ∧ others = [] ∨ ∃ tail, text = piece ++ separator :: tail) := by
  induction text generalizing nesting pieces with
  | nil =>
      simp only [splitFrom, Option.ite_none_right_eq_some, Option.some.injEq] at found
      obtain ⟨top, rfl⟩ := found
      exact ⟨[], [], rfl, by rw [(isTop_iff nesting).mp top]; rfl, .inl ⟨rfl, rfl⟩⟩
  | cons c text ih =>
      rw [splitFrom] at found
      split at found
      · contradiction
      · rename_i next stepped
        split at found
        · rename_i separates
          rw [Bool.and_eq_true, beq_iff_eq, isTop_iff] at separates
          obtain ⟨others, _, rfl⟩ := Option.map_eq_some_iff.mp found
          refine ⟨[], others, rfl, by rw [separates.1]; rfl, .inr ⟨text, ?_⟩⟩
          rw [separates.2, List.nil_append]
        · rename_i apart
          obtain ⟨rest, foundRest, rfl⟩ := Option.map_eq_some_iff.mp found
          obtain ⟨piece, others, rfl, crossed, ends⟩ := ih foundRest
          refine ⟨c :: piece, others, rfl, ?_, ?_⟩
          · rw [cross?, if_neg apart, stepped]
            exact crossed
          · rcases ends with ⟨rfl, rfl⟩ | ⟨tail, rfl⟩
            · exact .inl ⟨rfl, rfl⟩
            · exact .inr ⟨tail, rfl⟩

theorem split?_eq_whole_iff (separator : Char) (text : List Char) :
    split? separator text = some [text] ↔ cross? separator {} text = some {} := by
  constructor
  · intro whole
    obtain ⟨piece, others, piecesEq, crossed, _⟩ := splitFrom_first whole
    cases piecesEq
    exact crossed
  · intro crossed
    have alone := splitFrom_crossed crossed []
    rw [List.append_nil] at alone
    rw [split?, alone]
    simp [splitFrom, Nesting.isTop, foldr_pushFirst]

theorem enclose_within {brackets next : List Bracket} {c : Char}
    (enclosed : enclose brackets c = some next) (outer : List Bracket) :
    enclose (brackets ++ outer) c = some (next ++ outer) := by
  rw [enclose.eq_def] at enclosed ⊢
  split_ifs at enclosed ⊢ with opensRound opensSquare closesRound closesSquare
  · cases enclosed
    rfl
  · cases enclosed
    rfl
  · split at enclosed
    · cases enclosed
      rfl
    · contradiction
  · split at enclosed
    · cases enclosed
      rfl
    · contradiction
  · cases enclosed
    rfl

theorem step?_within {quoting quoting' : Quoting} {brackets brackets' : List Bracket} {c : Char}
    (stepped : Nesting.step? ⟨quoting, brackets⟩ c = some ⟨quoting', brackets'⟩)
    (outer : List Bracket) :
    Nesting.step? ⟨quoting, brackets ++ outer⟩ c = some ⟨quoting', brackets' ++ outer⟩ := by
  rw [Nesting.step?] at stepped ⊢
  split at stepped
  · rename_i outside
    obtain ⟨next, enclosed, nestingEq⟩ := Option.map_eq_some_iff.mp stepped
    cases nestingEq
    rw [if_pos outside, enclose_within enclosed outer]
    rfl
  · rename_i inside
    cases stepped
    rw [if_neg inside]

theorem cross?_within {separator : Char} {quoting quoting' : Quoting}
    {brackets brackets' : List Bracket} {text : List Char}
    (crossed : cross? separator ⟨quoting, brackets⟩ text = some ⟨quoting', brackets'⟩)
    (other : Char) {outer : List Bracket} (enclosed : outer ≠ []) :
    cross? other ⟨quoting, brackets ++ outer⟩ text = some ⟨quoting', brackets' ++ outer⟩ := by
  induction text generalizing quoting brackets with
  | nil =>
      cases crossed
      rfl
  | cons c text ih =>
      rw [cross?] at crossed
      split at crossed
      · contradiction
      · obtain ⟨⟨_, _⟩, stepped, crossed⟩ := Option.bind_eq_some_iff.mp crossed
        have deep : Nesting.isTop ⟨quoting, brackets ++ outer⟩ = false := by
          simp [Nesting.isTop, enclosed]
        rw [cross?, deep, Bool.false_and, if_neg Bool.false_ne_true, step?_within stepped outer]
        exact ih crossed

def marks : List Char :=
  ['\'', '"', '(', ')', '[', ']', ',', ';']

def isInert (c : Char) : Bool :=
  c ∉ marks

theorem isInert_of_class {inClass : Char → Bool}
    (others : marks.all (fun mark => !inClass mark) = true) {c : Char} (member : inClass c = true) :
    isInert c = true := by
  rw [isInert, decide_eq_true_iff]
  intro mark
  have other := List.all_eq_true.mp others c mark
  simp [member] at other

theorem isInert_of_isNameChar {c : Char} (name : isNameChar c = true) : isInert c = true :=
  isInert_of_class (by decide +kernel) name

theorem isInert_of_isBlank {c : Char} (blank : isBlank c = true) : isInert c = true :=
  isInert_of_class (by decide) blank

theorem step?_inert {c : Char} (inert : isInert c = true) (brackets : List Bracket) :
    Nesting.step? ⟨.outside, brackets⟩ c = some ⟨.outside, brackets⟩ := by
  simp only [isInert, marks, List.mem_cons, List.not_mem_nil, or_false, not_or,
    decide_eq_true_eq] at inert
  simp [Nesting.step?, enclose, Quoting.step, isQuote, inert]

theorem cross?_inert {separator : Char} (mark : isInert separator = false) {run : List Char}
    (inert : ∀ c ∈ run, isInert c = true) (brackets : List Bracket) :
    cross? separator ⟨.outside, brackets⟩ run = some ⟨.outside, brackets⟩ := by
  induction run with
  | nil => rfl
  | cons c run ih =>
      have here := inert c (by simp)
      have noSeparator : c ≠ separator := by
        rintro rfl
        rw [mark] at here
        contradiction
      rw [cross?, if_neg (by simp [noSeparator]), step?_inert here]
      exact ih fun c member => inert c (by simp [member])

def Unwrapped : Quoting → List Char → Prop
  | _, [] => True
  | quoting, c :: rest =>
      (quoting = .outside → c ≠ '(' ∧ c ≠ ')') ∧ Unwrapped (quoting.step c) rest

theorem unwrapped_cons {c : Char} {text : List Char} (other : c ∉ ['\'', '"', '(', ')'])
    (unwrapped : Unwrapped .outside text) : Unwrapped .outside (c :: text) := by
  simp only [List.mem_cons, List.not_mem_nil, or_false, not_or] at other
  have stays : Quoting.outside.step c = .outside := by simp [Quoting.step, isQuote, other]
  refine ⟨fun _ => other.2.2, ?_⟩
  rwa [stays]

theorem unwrapped_inside {c : Char} {quote : Char} {text : List Char} (noQuote : c ≠ quote)
    (noBackslash : c ≠ '\\') (unwrapped : Unwrapped (.inside quote) text) :
    Unwrapped (.inside quote) (c :: text) := by
  refine ⟨nofun, ?_⟩
  rwa [Quoting.step, if_neg noBackslash, if_neg noQuote]

theorem unwrapped_escape {quote next : Char} {text : List Char}
    (unwrapped : Unwrapped (.inside quote) text) :
    Unwrapped (.inside quote) ('\\' :: next :: text) :=
  ⟨nofun, nofun, unwrapped⟩

theorem unwrapped_dropWhile {inClass : Char → Bool}
    (others : ['\'', '"', '(', ')'].all (fun mark => !inClass mark) = true) {text : List Char}
    (unwrapped : Unwrapped .outside (text.dropWhile inClass)) : Unwrapped .outside text := by
  induction text with
  | nil => exact unwrapped
  | cons c text ih =>
      cases member : inClass c with
      | false => rwa [List.dropWhile_cons_of_neg (by simp [member])] at unwrapped
      | true =>
          rw [List.dropWhile_cons_of_pos member] at unwrapped
          refine unwrapped_cons (fun mark => ?_) (ih unwrapped)
          have other := List.all_eq_true.mp others c mark
          simp [member] at other

end QueryOptions.Text
