import QueryOptions.Json.Basic
import QueryOptions.Number.Hexadecimal

/-! Reading JSON text by the grammar of RFC 8259. -/

namespace QueryOptions.Json

def isSpace (c : Char) : Bool :=
  c == ' ' || c == '\t' || c == '\n' || c == '\r'

def skipSpace (text : List Char) : List Char :=
  text.dropWhile isSpace

def hexCode? (a b c d : Char) : Option Nat := do
  let a ← hexDigit? a
  let b ← hexDigit? b
  let c ← hexDigit? c
  let d ← hexDigit? d
  some (((a * 16 + b) * 16 + c) * 16 + d)

def shortEscape? : Char → Option Char
  | '"' => some '"'
  | '\\' => some '\\'
  | '/' => some '/'
  | 'b' => some '\x08'
  | 'f' => some '\x0C'
  | 'n' => some '\n'
  | 'r' => some '\r'
  | 't' => some '\t'
  | _ => none

def readString : List Char → Option (List Piece × List Char)
  | [] => none
  | '"' :: rest => some ([], rest)
  | '\\' :: 'u' :: a :: b :: c :: d :: rest => do
      let code ← hexCode? a b c d
      let (pieces, rest) ← readString rest
      some (.escape code :: pieces, rest)
  | '\\' :: letter :: rest => do
      let c ← shortEscape? letter
      let (pieces, rest) ← readString rest
      some (.char c :: pieces, rest)
  | c :: rest =>
      if c.toNat < 0x20 ∨ c = '\\' then none
      else do
        let (pieces, rest) ← readString rest
        some (.char c :: pieces, rest)

def readFraction : List Char → Option (List Char × List Char)
  | '.' :: rest =>
      match rest.takeWhile Char.isDigit with
      | [] => none
      | digits => some (digits, rest.dropWhile Char.isDigit)
  | rest => some ([], rest)

def readExponentDigits (negative : Bool) (text : List Char) : Option (Option Int × List Char) :=
  match text.takeWhile Char.isDigit with
  | [] => none
  | digits =>
      let size : Int := decimalValue digits
      some (some (if negative then -size else size), text.dropWhile Char.isDigit)

def readExponent : List Char → Option (Option Int × List Char)
  | c :: rest =>
      if c = 'e' ∨ c = 'E' then
        match rest with
        | '+' :: rest => readExponentDigits false rest
        | '-' :: rest => readExponentDigits true rest
        | rest => readExponentDigits false rest
      else some (none, c :: rest)
  | [] => some (none, [])

def readNumber (negative : Bool) (text : List Char) : Option (Numeral × List Char) :=
  match text.takeWhile Char.isDigit with
  | [] => none
  | '0' :: _ :: _ => none
  | whole => do
      let (fraction, rest) ← readFraction (text.dropWhile Char.isDigit)
      let (exponent, rest) ← readExponent rest
      some
        ({ negative, digits := decimalValue (whole ++ fraction), places := fraction.length,
           exponent := exponent.getD 0, integral := fraction.isEmpty && exponent.isNone }, rest)

mutual

/-- Reads one document; `fuel` bounds the calls and is more than the length of the text needs. -/
def readDoc : Nat → List Char → Option (Doc × List Char)
  | 0, _ => none
  | fuel + 1, text =>
      match skipSpace text with
      | 'n' :: 'u' :: 'l' :: 'l' :: rest => some (.null, rest)
      | 't' :: 'r' :: 'u' :: 'e' :: rest => some (.boolean true, rest)
      | 'f' :: 'a' :: 'l' :: 's' :: 'e' :: rest => some (.boolean false, rest)
      | '"' :: rest => (readString rest).map fun (pieces, rest) => (.string pieces, rest)
      | '-' :: rest => (readNumber true rest).map fun (numeral, rest) => (.number numeral, rest)
      | '[' :: rest =>
          match skipSpace rest with
          | ']' :: rest => some (.array [], rest)
          | _ => (readItems fuel rest).map fun (items, rest) => (.array items, rest)
      | '{' :: rest =>
          match skipSpace rest with
          | '}' :: rest => some (.object [], rest)
          | _ => (readMembers fuel rest).map fun (members, rest) => (.object members, rest)
      | other => (readNumber false other).map fun (numeral, rest) => (.number numeral, rest)

def readItems : Nat → List Char → Option (List Doc × List Char)
  | 0, _ => none
  | fuel + 1, text => do
      let (item, rest) ← readDoc fuel text
      match skipSpace rest with
      | ',' :: rest =>
          let (items, rest) ← readItems fuel rest
          some (item :: items, rest)
      | ']' :: rest => some ([item], rest)
      | _ => none

def readMembers : Nat → List Char → Option (List (List Piece × Doc) × List Char)
  | 0, _ => none
  | fuel + 1, text =>
      match skipSpace text with
      | '"' :: rest => do
          let (name, rest) ← readString rest
          match skipSpace rest with
          | ':' :: rest =>
              let (item, rest) ← readDoc fuel rest
              match skipSpace rest with
              | ',' :: rest =>
                  let (members, rest) ← readMembers fuel rest
                  some ((name, item) :: members, rest)
              | '}' :: rest => some ([(name, item)], rest)
              | _ => none
          | _ => none
      | _ => none

end

def read? (text : List Char) : Option Doc :=
  match readDoc (2 * text.length + 2) text with
  | some (doc, rest) => if (skipSpace rest).isEmpty then some doc else none
  | none => none

def maxDepth : Nat := 127

def decode? (text : List Char) : Option Doc :=
  (read? text).filter (Doc.isSound maxDepth)

end QueryOptions.Json
