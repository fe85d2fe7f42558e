import QueryOptions.Text.Word

/-! Lists of items between commas. A blank text is the empty list. -/

namespace QueryOptions.Text

/-- Reads items up to the end of the text; an item's reader leaves the text at the comma behind
it. The length of the text is enough fuel. -/
def readItems (readItem : List Char → Except Fault (α × List Char)) :
    Nat → List Char → Except Fault (List α)
  | 0, text => fail (.expectedSeparator text.head?) text
  | fuel + 1, text => do
      let (item, rest) ← readItem text
      match rest with
      | [] => .ok [item]
      | ',' :: rest => (readItems readItem fuel rest).map (item :: ·)
      | rest => fail (.expectedSeparator rest.head?) rest

def readCommaList (readItem : List Char → Except Fault (α × List Char)) (text : List Char) :
    Except Fault (List α) :=
  if isBlankText text then .ok [] else readItems readItem (text.length + 1) text

end QueryOptions.Text
