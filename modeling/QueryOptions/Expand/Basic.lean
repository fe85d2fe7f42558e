import QueryOptions.Filter.Basic
import QueryOptions.OrderBy

/-! Expanded relations, each with options of its own. -/

namespace QueryOptions

structure Expand where
  property : String
  filters : Option Filter := none
  orderBy : List OrderBy := []
  select : List String := []
  top : Option UInt64 := none
  skip : UInt64 := 0
  skiptoken : Option String := none
  children : List Expand := []

namespace Expand

def hasConstraints (node : Expand) : Bool :=
  node.filters.isSome || !node.orderBy.isEmpty || !node.select.isEmpty || node.top.isSome ||
    node.skip != 0 || node.skiptoken.isSome

def find? (nodes : List Expand) (property : String) : Option Expand :=
  nodes.find? (·.property == property)

def sameFilters : Option Filter → Option Filter → Bool
  | none, none => true
  | some a, some b => a.same b
  | _, _ => false

mutual

def same : Expand → Expand → Bool
  | ⟨property, filters, orderBy, select, top, skip, skiptoken, children⟩, other =>
      property == other.property && sameFilters filters other.filters &&
        orderBy == other.orderBy && select == other.select && top == other.top &&
        skip == other.skip && skiptoken == other.skiptoken && sameAll children other.children

def sameAll : List Expand → List Expand → Bool
  | [], [] => true
  | a :: as, b :: bs => a.same b && sameAll as bs
  | _, _ => false

end

end Expand

end QueryOptions
