import QueryOptions.Text.Word

/-! Comparison operators and the connectives that join comparisons. -/

namespace QueryOptions

inductive Operator
  | eq
  | ne
  | gt
  | ge
  | lt
  | le
  | isIn
  | between
deriving DecidableEq

namespace Operator

def all : List Operator :=
  [eq, ne, gt, ge, lt, le, isIn, between]

def word : Operator → List Char
  | eq => ['e', 'q']
  | ne => ['n', 'e']
  | gt => ['g', 't']
  | ge => ['g', 'e']
  | lt => ['l', 't']
  | le => ['l', 'e']
  | isIn => ['i', 'n']
  | between => ['b', 'w']

def text (operator : Operator) : String :=
  String.ofList operator.word

def ofWord? (word : List Char) : Option Operator :=
  all.find? fun operator => Text.sameWord operator.word word

def acceptsNull : Operator → Bool
  | eq | ne => true
  | _ => false

def takesList : Operator → Bool
  | isIn | between => true
  | _ => false

end Operator

inductive Connective
  | and
  | or
deriving DecidableEq

def Connective.word : Connective → List Char
  | and => ['a', 'n', 'd']
  | or => ['o', 'r']

end QueryOptions
