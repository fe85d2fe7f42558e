/-! Character classes given as ranges of code points. -/

namespace QueryOptions.Text

def inRanges (ranges : List (Nat × Nat)) (c : Char) : Bool :=
  ranges.any fun range => range.1 ≤ c.toNat && c.toNat ≤ range.2

end QueryOptions.Text
