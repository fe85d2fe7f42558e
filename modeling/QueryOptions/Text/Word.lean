import QueryOptions.Text.Alphanumeric
import QueryOptions.Text.Blank
import QueryOptions.Text.Fault

/-! Words of the option languages: names, and keywords written in any ASCII case. -/

namespace QueryOptions.Text

def isNameChar (c : Char) : Bool :=
  isAlphanumeric c || c == '_' || c == '.'

def takeName? (text : List Char) : Option (List Char × List Char) :=
  match text.takeWhile isNameChar with
  | [] => none
  | name => some (name, text.dropWhile isNameChar)

def readProperty (text : List Char) : Except Fault (List Char × List Char) :=
  match takeName? text with
  | some found => .ok found
  | none => fail (.expectedProperty text.head?) text

def sameWord (left right : List Char) : Bool :=
  left.map Char.toLower == right.map Char.toLower

def stripWord? : List Char → List Char → Option (List Char)
  | [], rest => some rest
  | _ :: _, [] => none
  | w :: word, c :: rest => if w.toLower = c.toLower then stripWord? word rest else none

/-- A keyword ends at the end of the text, before a blank and before a parenthesis. -/
def atWordEnd : List Char → Bool
  | [] => true
  | c :: _ => c == '(' || c == ')' || isBlank c

def atValueEnd : List Char → Bool
  | [] => true
  | c :: _ => c == ')' || isBlank c

def keyword? (word text : List Char) : Option (List Char) :=
  (stripWord? word text).filter atWordEnd

end QueryOptions.Text
