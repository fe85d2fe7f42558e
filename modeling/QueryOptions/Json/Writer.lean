import QueryOptions.Number.Hexadecimal
import QueryOptions.Value

/-! Writing JSON text: strings, integers and records without spaces. -/

namespace QueryOptions.Json

def escapeChar (c : Char) : List Char :=
  if c = '"' then ['\\', '"']
  else if c = '\\' then ['\\', '\\']
  else if c = '\x08' then ['\\', 'b']
  else if c = '\t' then ['\\', 't']
  else if c = '\n' then ['\\', 'n']
  else if c = '\x0C' then ['\\', 'f']
  else if c = '\r' then ['\\', 'r']
  else if c.toNat < 0x20 then
    ['\\', 'u', '0', '0', hexChar (c.toNat / 16), hexChar (c.toNat % 16)]
  else [c]

def quote (text : String) : String :=
  "\"" ++ String.ofList (text.toList.flatMap escapeChar) ++ "\""

def record (members : List (String × String)) : String :=
  "\x7b" ++ ",".intercalate (members.map fun (name, text) => quote name ++ ":" ++ text) ++ "\x7d"

def nullable (write : α → String) : Option α → String
  | some value => write value
  | none => "null"

def ofValue? : Value → Option String
  | .null => some "null"
  | .boolean true => some "true"
  | .boolean false => some "false"
  | .integer i => some (String.ofList (integerText i.toInt))
  | .real _ => none
  | .text s => some (quote s)

end QueryOptions.Json
