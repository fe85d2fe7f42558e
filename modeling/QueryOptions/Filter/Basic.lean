import QueryOptions.Filter.Comparison
import QueryOptions.Schema.Catalog

/-! Filters: trees of comparisons joined by connectives. -/

namespace QueryOptions

inductive Filter
  | leaf (comparison : Comparison)
  | join (connective : Connective) (children : List Filter)

namespace Filter

def makeLeaf (property : String) (operator : Operator) (operand : Operand) : Except Error Filter :=
  (Comparison.make property operator operand).map leaf

mutual

def leaves : Filter → List Comparison
  | leaf comparison => [comparison]
  | join _ children => leavesOf children

def leavesOf : List Filter → List Comparison
  | [] => []
  | child :: children => child.leaves ++ leavesOf children

end

mutual

def mapLeaves (change : Comparison → Comparison) : Filter → Filter
  | leaf comparison => leaf (change comparison)
  | join connective children => join connective (mapLeavesOf change children)

def mapLeavesOf (change : Comparison → Comparison) : List Filter → List Filter
  | [] => []
  | child :: children => child.mapLeaves change :: mapLeavesOf change children

end

mutual

def same : Filter → Filter → Bool
  | leaf a, leaf b => a.same b
  | join c as, join d bs => c == d && sameAll as bs
  | _, _ => false

def sameAll : List Filter → List Filter → Bool
  | [], [] => true
  | a :: as, b :: bs => a.same b && sameAll as bs
  | _, _ => false

end

def isOn (property : String) (operators : Option (List Operator)) (comparison : Comparison) : Bool :=
  comparison.property == property &&
    match operators with
    | none => true
    | some operators => operators.contains comparison.operator

def first? (filter : Filter) (property : String) (operators : Option (List Operator)) :
    Option Comparison :=
  filter.leaves.find? (isOn property operators)

def allOn (filter : Filter) (property : String) (operators : Option (List Operator)) :
    List Comparison :=
  filter.leaves.filter (isOn property operators)

def lowerBound? (filter : Filter) (property : String) : Option Value :=
  match (filter.first? property (some [.ge, .gt, .between])).map Comparison.operand with
  | some (.single value) => some value
  | some (.list values) => values[0]?
  | none => none

def upperBound? (filter : Filter) (property : String) : Option Value :=
  match (filter.first? property (some [.le, .lt, .between])).map Comparison.operand with
  | some (.single value) => some value
  | some (.list values) => values[1]?
  | none => none

mutual

/-- Whether a record with this value of the property could pass, whatever its other properties. -/
def admits (property : String) (candidate : Value) : Filter → Bool
  | leaf comparison => comparison.property != property || comparison.admits candidate
  | join .and children => allAdmit property candidate children
  | join .or children => anyAdmits property candidate children

def allAdmit (property : String) (candidate : Value) : List Filter → Bool
  | [] => true
  | child :: children => child.admits property candidate && allAdmit property candidate children

def anyAdmits (property : String) (candidate : Value) : List Filter → Bool
  | [] => false
  | child :: children => child.admits property candidate || anyAdmits property candidate children

end

def bindTo (catalog : PropertyCatalog) (filter : Filter) : Filter :=
  filter.mapLeaves fun comparison =>
    { comparison with definition := catalog.get? comparison.property }

end Filter

end QueryOptions
