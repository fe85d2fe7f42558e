import QueryOptions.Text.Offset

/-! Faults of option text: what is wrong with a text, and where. -/

namespace QueryOptions.Text

inductive Complaint
  | emptyFilter
  | unexpected (found : Option Char)
  | expectedCharacter (expected : Char) (found : Option Char)
  | expectedProperty (found : Option Char)
  | expectedOperator (found : Option Char)
  | unknownOperator (word : String)
  | expectedLiteral (found : Option Char)
  | unexpectedAfterLiteral (found : Option Char)
  | nestingTooDeep (limit : Nat)
  | tooManyComparisons (limit : Nat)
  | unterminatedString
  | invalidNumber
  | integerOutOfRange
  | unterminatedArray
  | invalidArray
  | nullElement
  | compoundElement
  | unknownDirection (word : String)
  | expectedSeparator (found : Option Char)
deriving DecidableEq

def describe : Option Char → String
  | some c => "'" ++ c.toString ++ "'"
  | none => "end of input"

def Complaint.message : Complaint → String
  | emptyFilter => "Empty filter expression"
  | unexpected found => "Unexpected " ++ describe found
  | expectedCharacter expected found =>
      "Expected '" ++ expected.toString ++ "', found " ++ describe found
  | expectedProperty found => "Expected property name, found " ++ describe found
  | expectedOperator found => "Expected operator, found " ++ describe found
  | unknownOperator word => "Unknown operator '" ++ word ++ "'"
  | expectedLiteral found => "Expected literal, found " ++ describe found
  | unexpectedAfterLiteral found => "Unexpected " ++ describe found ++ " after literal"
  | nestingTooDeep limit => "Filter nesting exceeds the maximum depth of " ++ toString limit
  | tooManyComparisons limit => "Filter exceeds the maximum of " ++ toString limit ++ " comparisons"
  | unterminatedString => "Unterminated string"
  | invalidNumber => "Invalid number"
  | integerOutOfRange => "Integer literal out of range"
  | unterminatedArray => "Unterminated array literal"
  | invalidArray => "Invalid array literal: <json>"
  | nullElement => "Array elements must not be null"
  | compoundElement => "Array elements must be scalars"
  | unknownDirection word => "Unknown sort direction '" ++ word ++ "'"
  | expectedSeparator found => "Expected ',' or end of input, found " ++ describe found

structure Fault where
  complaint : Complaint
  rest : List Char
deriving DecidableEq

def Fault.position (fault : Fault) (input : List Char) : Nat :=
  offsetOf input fault.rest

def fail (complaint : Complaint) (rest : List Char) : Except Fault α :=
  .error ⟨complaint, rest⟩

end QueryOptions.Text
