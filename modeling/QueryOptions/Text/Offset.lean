/-! Places in a text, measured in bytes of its UTF-8 form. -/

namespace QueryOptions.Text

def byteLength : List Char → Nat
  | [] => 0
  | c :: rest => c.utf8Size + byteLength rest

def offsetOf (whole rest : List Char) : Nat :=
  byteLength whole - byteLength rest

theorem byteLength_append (left right : List Char) :
    byteLength (left ++ right) = byteLength left + byteLength right := by
  induction left with
  | nil => simp [byteLength]
  | cons c rest ih => simp [byteLength, ih, Nat.add_assoc]

theorem offsetOf_append (before rest : List Char) :
    offsetOf (before ++ rest) rest = byteLength before := by
  rw [offsetOf, byteLength_append]
  omega

end QueryOptions.Text
