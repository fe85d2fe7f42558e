import QueryOptions.Filter.Comparison
import QueryOptions.Json.Reader
import QueryOptions.Text.Quoting

/-! Literals of the filter language: quoted strings, numbers, arrays, and the words `null`, `true`
and `false`. Each reader starts at the head of the text and returns what follows the literal; a
fault lies where the literal starts. -/

namespace QueryOptions.Filter

open Text (Complaint Quoting)

/-- Reads a string from behind its opening quote. A backslash before a quote escapes it, and
stands for itself elsewhere. -/
def readQuoted : List Char → Option (List Char × List Char)
  | [] => none
  | '\'' :: rest => some ([], rest)
  | '\\' :: '\'' :: rest => (readQuoted rest).map fun (body, rest) => ('\'' :: body, rest)
  | c :: rest => (readQuoted rest).map fun (body, rest) => (c :: body, rest)

/-- Reads digits, and a fraction after a point. Without a point the number is an integer and has to
fit; with one it is rounded to the nearest float. -/
def readNumber (text : List Char) : Except Complaint (Value × List Char) :=
  let whole := text.takeWhile Char.isDigit
  match text.dropWhile Char.isDigit with
  | '.' :: rest =>
      let fraction := rest.takeWhile Char.isDigit
      let after := rest.dropWhile Char.isDigit
      if fraction.isEmpty || after.head? == some '.' then .error .invalidNumber
      else
        .ok (.real (.ofDecimal false (decimalValue (whole ++ fraction)) (-fraction.length)), after)
  | rest =>
      match int64? (decimalValue whole) with
      | some value => .ok (.integer value, rest)
      | none => .error .integerOutOfRange

/-- Cuts the text behind the bracket that closes the outermost open one, of `depth` open brackets
so far. Brackets count outside of quotations only. -/
def cutArray? (quoting : Quoting) (depth : Nat) : List Char → Option (List Char × List Char)
  | [] => none
  | c :: rest =>
      let more (quoting : Quoting) (depth : Nat) :=
        (cutArray? quoting depth rest).map fun (array, rest) => (c :: array, rest)
      if quoting ≠ .outside then more (quoting.step c) depth
      else if c = '[' then more .outside (depth + 1)
      else if c = ']' then
        if depth ≤ 1 then some ([c], rest) else more .outside (depth - 1)
      else more (quoting.step c) depth

/-- Turns single-quoted strings into double-quoted ones; `quote` is the one that is open. In a
single-quoted string an escaped single quote loses its backslash, and a bare double quote gets
one. -/
def doubleQuoted (quote : Option Char) : List Char → List Char
  | [] => if quote.isSome then ['"'] else []
  | c :: rest =>
      match quote with
      | none =>
          if Text.isQuote c then '"' :: doubleQuoted (some c) rest
          else c :: doubleQuoted none rest
      | some mark =>
          if c = '\\' then
            match rest with
            | [] => ['\\', '"']
            | next :: rest =>
                if next = mark ∧ mark = '\'' then '\'' :: doubleQuoted quote rest
                else '\\' :: next :: doubleQuoted quote rest
          else if c = mark then '"' :: doubleQuoted none rest
          else if c = '"' then '\\' :: '"' :: doubleQuoted quote rest
          else c :: doubleQuoted quote rest

def elements : List Json.Doc → Except Complaint (List Value)
  | [] => .ok []
  | item :: items =>
      match item.scalar? with
      | some .null => .error .nullElement
      | some value => (elements items).map (value :: ·)
      | none => .error .compoundElement

def readArray (text : List Char) : Except Complaint (List Value × List Char) :=
  match cutArray? .outside 0 text with
  | none => .error .unterminatedArray
  | some (array, rest) =>
      match Json.decode? (doubleQuoted none array) with
      | some (.array items) => (elements items).map fun values => (values, rest)
      | _ => .error .invalidArray

def readConstant? (text : List Char) : Option (Value × List Char) :=
  [Value.null, .boolean true, .boolean false].findSome? fun value =>
    (Text.keyword? value.literal text).map fun rest => (value, rest)

def readLiteral (text : List Char) : Except Complaint (Operand × List Char) :=
  match text with
  | '\'' :: rest =>
      match readQuoted rest with
      | some (body, rest) => .ok (.single (.text (String.ofList body)), rest)
      | none => .error .unterminatedString
  | '[' :: _ => (readArray text).map fun (values, rest) => (.list values, rest)
  | _ =>
      if text.head?.any Char.isDigit then
        (readNumber text).map fun (value, rest) => (.single value, rest)
      else
        match readConstant? text with
        | some (value, rest) => .ok (.single value, rest)
        | none => .error (.expectedLiteral text.head?)

end QueryOptions.Filter
