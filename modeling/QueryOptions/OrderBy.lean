import QueryOptions.Error
import QueryOptions.Text.CommaList

/-! The orderings of a result: properties between commas, each with a direction. -/

namespace QueryOptions

inductive Direction
  | ascending
  | descending
deriving DecidableEq

def Direction.word : Direction → List Char
  | ascending => ['a', 's', 'c']
  | descending => ['d', 'e', 's', 'c']

structure OrderBy where
  property : String
  direction : Direction
deriving DecidableEq

namespace OrderBy

def render (order : OrderBy) : List Char :=
  order.property.toList ++ ' ' :: order.direction.word

def text (order : OrderBy) : String :=
  String.ofList order.render

open Text (Fault skipBlanks)

def readDirection (text : List Char) : Except Fault (Direction × List Char) :=
  if text.head?.all (· == ',') then .ok (.ascending, text)
  else
    match Text.takeName? text with
    | none => Text.fail (.expectedSeparator text.head?) text
    | some (word, rest) =>
        if Text.sameWord word Direction.ascending.word then .ok (.ascending, skipBlanks rest)
        else if Text.sameWord word Direction.descending.word then .ok (.descending, skipBlanks rest)
        else Text.fail (.unknownDirection (String.ofList word)) text

def readItem (text : List Char) : Except Fault (OrderBy × List Char) := do
  let (property, rest) ← Text.readProperty (skipBlanks text)
  let (direction, rest) ← readDirection (skipBlanks rest)
  .ok (⟨String.ofList property, direction⟩, rest)

def read (text : List Char) : Except Fault (List OrderBy) :=
  Text.readCommaList readItem text

def parse (input : String) : Except Error (List OrderBy) :=
  (read input.toList).mapError (Text.Fault.toError input.toList)

end OrderBy

end QueryOptions
