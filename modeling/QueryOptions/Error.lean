import QueryOptions.Text.Fault
import QueryOptions.Value

/-! Reasons for refusing a request. Only `inconsistent` speaks of the host's own schema or
configuration; all others are faults of the request. -/

namespace QueryOptions

inductive Error
  | malformed (message : String) (position : Nat) (input : String)
  | unknownProperty (property : String) (allowed : List String)
  | invalidShape (property operator message : String)
  | valueNotAllowed (property : String) (value : Value) (allowed : List Value)
  | expandRequired (property expand : String)
  | notExpandable (property entity : String) (allowed : List String)
  | notQueryable (entity : String)
  | invalidExpand (message : String)
  | invalidOption (option message : String)
  | inconsistent (message : String)
deriving DecidableEq

inductive ErrorKind
  | malformed
  | validation
  | internal
deriving DecidableEq

namespace Error

def commaSeparated (items : List String) : String :=
  ", ".intercalate items

def message : Error → String
  | malformed message position input =>
      "syntax error: " ++ message ++ " at position " ++ toString position ++ " in '" ++ input ++ "'"
  | unknownProperty property allowed =>
      "unknown property '" ++ property ++ "', allowed properties: " ++ commaSeparated allowed
  | invalidShape property operator message =>
      "invalid value for '" ++ property ++ " " ++ operator ++ "': " ++ message
  | valueNotAllowed property value allowed =>
      "value " ++ String.ofList value.literal ++ " not allowed for '" ++ property ++ "', allowed: " ++
        commaSeparated (allowed.map fun v => String.ofList v.literal)
  | expandRequired property expand =>
      "filter on '" ++ property ++ "' requires '" ++ expand ++ "' to be expanded"
  | notExpandable property entity allowed =>
      "'" ++ property ++ "' of '" ++ entity ++ "' is not expandable, allowed: " ++
        commaSeparated allowed
  | notQueryable entity => "entity '" ++ entity ++ "' does not support query options"
  | invalidExpand message => "invalid expand: " ++ message
  | invalidOption option message => "invalid value for option '" ++ option ++ "': " ++ message
  | inconsistent message => "internal inconsistency: " ++ message

def kind : Error → ErrorKind
  | malformed .. => .malformed
  | inconsistent .. => .internal
  | _ => .validation

def isBadRequest (error : Error) : Bool :=
  error.kind != .internal

/-- Moves a fault of a part of some text, starting at the byte `offset`, onto the whole text. -/
def within (whole : String) (offset : Nat) : Error → Error
  | malformed message position _ => malformed message (offset + position) whole
  | other => other

end Error

def Text.Fault.toError (input : List Char) (fault : Text.Fault) : Error :=
  .malformed fault.complaint.message (fault.position input) (String.ofList input)

end QueryOptions
