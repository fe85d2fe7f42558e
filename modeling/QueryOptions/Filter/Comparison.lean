import QueryOptions.Error
import QueryOptions.Filter.Operator
import QueryOptions.Schema.Definition

/-! Comparisons of a property with a value or a list of values. -/

namespace QueryOptions

inductive Operand
  | single (value : Value)
  | list (values : List Value)
deriving DecidableEq

namespace Operand

def isNull : Operand → Bool
  | single value => value.isNull
  | list _ => false

def single? : Operand → Option Value
  | single value => some value
  | list _ => none

def list? : Operand → Option (List Value)
  | single _ => none
  | list values => some values

def values : Operand → List Value
  | single value => [value]
  | list values => values

def same : Operand → Operand → Bool
  | single a, single b => a.same b
  | list as, list bs => as.length == bs.length && (as.zip bs).all fun (a, b) => a.same b
  | _, _ => false

end Operand

inductive ShapeFault
  | nullOperand
  | listRequired
  | listRefused
  | notTwoBounds
  | noMembers
  | nullMember
deriving DecidableEq

def ShapeFault.message : ShapeFault → String
  | nullOperand => "only eq and ne accept null"
  | listRequired => "operator requires an array value"
  | listRefused => "only in and bw accept an array value"
  | notTwoBounds => "bw requires exactly 2 values"
  | noMembers => "in requires at least one value"
  | nullMember => "array values must not be null"

def shapeFault? (operator : Operator) : Operand → Option ShapeFault
  | .single value =>
      if value.isNull && !operator.acceptsNull then some .nullOperand
      else if operator.takesList then some .listRequired
      else none
  | .list values =>
      if !operator.takesList then some .listRefused
      else if operator = .between ∧ values.length ≠ 2 then some .notTwoBounds
      else if operator = .isIn ∧ values.isEmpty then some .noMembers
      else if values.any Value.isNull then some .nullMember
      else none

/-- A property compared with an operand. The definition is the catalog's, once it has been looked
up there. -/
structure Comparison where
  property : String
  operator : Operator
  operand : Operand
  definition : Option PropertyDefinition := none

namespace Comparison

def make (property : String) (operator : Operator) (operand : Operand) : Except Error Comparison :=
  match shapeFault? operator operand with
  | some fault => .error (.invalidShape property operator.text fault.message)
  | none => .ok { property, operator, operand }

def same (a b : Comparison) : Bool :=
  a.property == b.property && a.operator == b.operator && a.operand.same b.operand

def atLeast (candidate bound : Value) : Bool :=
  match candidate.compareNumeric bound with
  | some .gt | some .eq => true
  | _ => false

def atMost (candidate bound : Value) : Bool :=
  match candidate.compareNumeric bound with
  | some .lt | some .eq => true
  | _ => false

def admits (comparison : Comparison) (candidate : Value) : Bool :=
  match comparison.operator, comparison.operand with
  | .eq, .single value => candidate.looseEq value
  | .ne, .single value => !candidate.looseEq value
  | .gt, .single value => candidate.compareNumeric value == some .gt
  | .ge, .single value => atLeast candidate value
  | .lt, .single value => candidate.compareNumeric value == some .lt
  | .le, .single value => atMost candidate value
  | .isIn, .list values => values.any fun value => candidate.looseEq value
  | .between, .list [low, high] => atLeast candidate low && atMost candidate high
  | _, _ => false

def overwrite (comparison other : Comparison) : Comparison :=
  { comparison with
    operator := other.operator
    operand := other.operand
    definition := other.definition.or comparison.definition }

end Comparison

end QueryOptions
