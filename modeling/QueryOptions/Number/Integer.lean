/-! Integers in decimal notation. -/

namespace QueryOptions

def integerText (value : Int) : List Char :=
  if value < 0 then '-' :: Nat.toDigits 10 value.natAbs else Nat.toDigits 10 value.natAbs

def decimalValue (digits : List Char) : Nat :=
  digits.foldl (fun value digit => 10 * value + (digit.toNat - '0'.toNat)) 0

def int64? (value : Int) : Option Int64 :=
  if -0x8000000000000000 ≤ value ∧ value < 0x8000000000000000 then some (Int64.ofInt value) else none

def uint64? (value : Nat) : Option UInt64 :=
  if value < 0x10000000000000000 then some value.toUInt64 else none

end QueryOptions
