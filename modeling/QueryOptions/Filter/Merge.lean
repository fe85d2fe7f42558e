import QueryOptions.Filter.Basic

/-! Merging the comparisons of one filter into another. -/

namespace QueryOptions.Filter

mutual

def changeFirst? (property : String) (change : Comparison → Comparison) : Filter → Option Filter
  | leaf comparison =>
      if comparison.property = property then some (leaf (change comparison)) else none
  | join connective children => (changeFirstOf? property change children).map (join connective)

def changeFirstOf? (property : String) (change : Comparison → Comparison) :
    List Filter → Option (List Filter)
  | [] => none
  | child :: children =>
      match child.changeFirst? property change with
      | some changed => some (changed :: children)
      | none => (changeFirstOf? property change children).map (child :: ·)

end

def append (connective : Connective) (filter : Filter) (comparison : Comparison) : Filter :=
  match filter with
  | leaf first => join connective [leaf first, leaf comparison]
  | join root children => join root (children ++ [leaf comparison])

def mergeLeaf (connective : Connective) (filter : Filter) (comparison : Comparison) : Filter :=
  match filter.changeFirst? comparison.property (·.overwrite comparison) with
  | some merged => merged
  | none => filter.append connective comparison

def merge (connective : Connective) (filter other : Filter) : Filter :=
  other.leaves.foldl (mergeLeaf connective) filter

end QueryOptions.Filter
