import QueryOptions.Error
import QueryOptions.Text.CommaList

/-! The columns selected from a result: property names between commas. -/

namespace QueryOptions.Select

open Text (Fault skipBlanks)

def readItem (text : List Char) : Except Fault (String × List Char) := do
  let (property, rest) ← Text.readProperty (skipBlanks text)
  .ok (String.ofList property, skipBlanks rest)

def read (text : List Char) : Except Fault (List String) :=
  Text.readCommaList readItem text

def parse (input : String) : Except Error (List String) :=
  (read input.toList).mapError (Text.Fault.toError input.toList)

end QueryOptions.Select
