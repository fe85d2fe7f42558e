import QueryOptions.Filter.Basic
import QueryOptions.Filter.Literal

/-! Reading filter text. Terms are comparisons, or filters in parentheses; `and` and `or` bind
equally and join terms from left to right. -/

namespace QueryOptions.Filter

open Text (Complaint Fault skipBlanks)

inductive Failure
  | text (fault : Fault)
  | shape (property : String) (operator : Operator) (fault : ShapeFault)
deriving DecidableEq

def Failure.toError (input : List Char) : Failure → Error
  | text fault => fault.toError input
  | shape property operator fault => .invalidShape property operator.text fault.message

structure Limits where
  depth : Nat := 32
  terms : Nat := 512
deriving DecidableEq

def fail (complaint : Complaint) (rest : List Char) : Except Failure α :=
  .error (.text ⟨complaint, rest⟩)

def readOperator (text : List Char) : Except Failure (Operator × List Char) :=
  match Text.takeName? text with
  | none => fail (.expectedOperator text.head?) text
  | some (word, rest) =>
      match Operator.ofWord? word with
      | some operator =>
          if Text.atWordEnd rest then .ok (operator, rest)
          else fail (.unknownOperator (String.ofList word)) text
      | none => fail (.unknownOperator (String.ofList word)) text

def readOperand (text : List Char) : Except Failure (Operand × List Char) :=
  match readLiteral text with
  | .error complaint => fail complaint text
  | .ok (operand, rest) =>
      if Text.atValueEnd rest then .ok (operand, rest)
      else fail (.unexpectedAfterLiteral rest.head?) rest

def readComparison (text : List Char) : Except Failure (Comparison × List Char) := do
  let (property, rest) ← (Text.readProperty text).mapError .text
  let (operator, rest) ← readOperator (skipBlanks rest)
  let (operand, rest) ← readOperand (skipBlanks rest)
  match shapeFault? operator operand with
  | some fault => .error (.shape (String.ofList property) operator fault)
  | none => .ok ({ property := String.ofList property, operator, operand }, rest)

def readConnective? (text : List Char) : Option (Connective × List Char) :=
  [Connective.and, .or].findSome? fun connective =>
    (Text.keyword? connective.word text).map fun rest => (connective, rest)

def readClosing (text : List Char) : Except Failure (List Char) :=
  match skipBlanks text with
  | ')' :: rest => .ok rest
  | rest => fail (.expectedCharacter ')' rest.head?) rest

mutual

/-- Reads one term at the given depth, after `terms` comparisons, and returns it with the new
number of comparisons and the remaining text. The length of the text is enough fuel. -/
def readTerm (limits : Limits) (fuel depth terms : Nat) (text : List Char) :
    Except Failure (Filter × Nat × List Char) :=
  match fuel with
  | 0 => fail (.unexpected text.head?) text
  | fuel + 1 =>
      match skipBlanks text with
      | '(' :: rest =>
          if limits.depth ≤ depth then fail (.nestingTooDeep limits.depth) ('(' :: rest)
          else do
            let (first, terms, rest) ← readTerm limits fuel (depth + 1) terms rest
            let (group, terms, rest) ← readChain limits fuel (depth + 1) terms first rest
            let rest ← readClosing rest
            .ok (group, terms, rest)
      | rest =>
          if limits.terms ≤ terms then fail (.tooManyComparisons limits.terms) rest
          else do
            let (comparison, rest) ← readComparison rest
            .ok (leaf comparison, terms + 1, rest)

def readChain (limits : Limits) (fuel depth terms : Nat) (left : Filter) (text : List Char) :
    Except Failure (Filter × Nat × List Char) :=
  match fuel with
  | 0 => fail (.unexpected text.head?) text
  | fuel + 1 =>
      match readConnective? (skipBlanks text) with
      | none => .ok (left, terms, skipBlanks text)
      | some (connective, rest) => do
          let (right, terms, rest) ← readTerm limits fuel depth terms rest
          readChain limits fuel depth terms (join connective [left, right]) rest

end

def read (limits : Limits) (text : List Char) : Except Failure Filter :=
  match skipBlanks text with
  | [] => fail .emptyFilter []
  | start => do
      let (first, terms, rest) ← readTerm limits (start.length + 1) 0 0 start
      let (filter, _, rest) ← readChain limits (start.length + 1) 0 terms first rest
      match rest with
      | [] => .ok filter
      | rest => fail (.unexpected rest.head?) rest

def parse (limits : Limits) (input : String) : Except Error Filter :=
  (read limits input.toList).mapError (Failure.toError input.toList)

end QueryOptions.Filter
