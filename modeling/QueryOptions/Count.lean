import QueryOptions.Error
import QueryOptions.Number.Integer
import QueryOptions.Text.Blank

/-! Counts given as text: the options `top` and `skip`. -/

namespace QueryOptions.Count

def dropPlus : List Char → List Char
  | '+' :: rest => rest
  | text => text

def read? (text : List Char) : Option UInt64 :=
  let digits := dropPlus text
  if digits.isEmpty || !digits.all Char.isDigit then none else uint64? (decimalValue digits)

def parse (option : String) (text : List Char) : Except Error UInt64 :=
  match read? (Text.trim text) with
  | some count => .ok count
  | none =>
      .error (.invalidOption option
        ("expected a non-negative integer, found '" ++ String.ofList (Text.trim text) ++ "'"))

end QueryOptions.Count
