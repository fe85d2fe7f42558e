import QueryOptions.Error

/-! Names in a schema: segments of ASCII letters, digits and underscores, joined by single dots. -/

namespace QueryOptions.Schema

inductive NameFault
  | empty
  | badCharacter (name : String)
  | emptySegment (name : String)
deriving DecidableEq

def NameFault.message : NameFault → String
  | empty => "Property name cannot be empty"
  | badCharacter name => "Property name contains invalid characters: " ++ name
  | emptySegment name => "Property name has an empty path segment: " ++ name

def isNameCharacter (c : Char) : Bool :=
  c.isAlphanum || c == '_' || c == '.'

def hasEmptySegment (atStart : Bool) : List Char → Bool
  | [] => atStart
  | c :: rest => if c = '.' then atStart || hasEmptySegment true rest else hasEmptySegment false rest

def nameFault? (name : String) : Option NameFault :=
  if name.isEmpty then some .empty
  else if !name.toList.all isNameCharacter then some (.badCharacter name)
  else if hasEmptySegment true name.toList then some (.emptySegment name)
  else none

def checkName (name : String) : Except Error Unit :=
  match nameFault? name with
  | some fault => .error (.inconsistent fault.message)
  | none => .ok ()

end QueryOptions.Schema
