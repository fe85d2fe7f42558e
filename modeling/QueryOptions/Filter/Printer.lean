import QueryOptions.Filter.Basic

/-! Filters as text. Reading the text of a filter that was read gives the same filter. -/

namespace QueryOptions

def separated (separator : List Char) (items : List (List Char)) : List Char :=
  separator.intercalate items

def Operand.literal : Operand → List Char
  | single value => value.literal
  | list values => '[' :: separated [',', ' '] (values.map Value.literal) ++ [']']

def Comparison.render (comparison : Comparison) : List Char :=
  comparison.property.toList ++ ' ' :: comparison.operator.word ++ ' ' ::
    comparison.operand.literal

def parenthesized (wanted : Bool) (text : List Char) : List Char :=
  if wanted then '(' :: text ++ [')'] else text

namespace Filter

def isJoin : Filter → Bool
  | leaf _ => false
  | join _ _ => true

mutual

/-- Children are joined by their connective. Since filters are read from left to right, only a
child behind the first needs parentheses, and only if it is itself a join. -/
def render : Filter → List Char
  | leaf comparison => comparison.render
  | join connective children => renderAll connective children

def renderAll (connective : Connective) : List Filter → List Char
  | [] => []
  | child :: children => child.render ++ renderTail connective children

def renderTail (connective : Connective) : List Filter → List Char
  | [] => []
  | child :: children =>
      ' ' :: connective.word ++ ' ' :: parenthesized child.isJoin child.render ++
        renderTail connective children

end

def text (filter : Filter) : String :=
  String.ofList filter.render

end Filter

end QueryOptions
