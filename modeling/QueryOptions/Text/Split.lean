import QueryOptions.Text.Offset
import QueryOptions.Text.Quoting

/-! Splitting a text at the separators that stand outside quotations, parentheses and brackets. -/

namespace QueryOptions.Text

inductive Bracket
  | round
  | square
deriving DecidableEq

def enclose (brackets : List Bracket) (c : Char) : Option (List Bracket) :=
  if c = '(' then some (.round :: brackets)
  else if c = '[' then some (.square :: brackets)
  else if c = ')' then
    match brackets with
    | .round :: outer => some outer
    | _ => none
  else if c = ']' then
    match brackets with
    | .square :: outer => some outer
    | _ => none
  else some brackets

structure Nesting where
  quoting : Quoting := .outside
  brackets : List Bracket := []
deriving DecidableEq

def Nesting.isTop (nesting : Nesting) : Bool :=
  nesting.quoting == .outside && nesting.brackets.isEmpty

def Nesting.step? (nesting : Nesting) (c : Char) : Option Nesting :=
  if nesting.quoting = .outside then
    (enclose nesting.brackets c).map fun brackets => ⟨nesting.quoting.step c, brackets⟩
  else
    some ⟨nesting.quoting.step c, nesting.brackets⟩

def pushFirst (c : Char) : List (List Char) → List (List Char)
  | [] => [[c]]
  | piece :: pieces => (c :: piece) :: pieces

def splitFrom (separator : Char) (nesting : Nesting) : List Char → Option (List (List Char))
  | [] => if nesting.isTop then some [[]] else none
  | c :: rest =>
      match nesting.step? c with
      | none => none
      | some next =>
          if nesting.isTop && c == separator then
            (splitFrom separator next rest).map ([] :: ·)
          else
            (splitFrom separator next rest).map (pushFirst c)

/-- The pieces between the top-level separators, or none when quotes or brackets do not match.
There is always at least one piece. The separator is no quote and no bracket. -/
def split? (separator : Char) (text : List Char) : Option (List (List Char)) :=
  splitFrom separator {} text

def locate (separator : Char) (start : Nat) : List (List Char) → List (Nat × List Char)
  | [] => []
  | piece :: pieces =>
      (start, piece) :: locate separator (start + byteLength piece + separator.utf8Size) pieces

end QueryOptions.Text
