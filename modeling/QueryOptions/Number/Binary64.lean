/-! Floating-point numbers of 64 bits, kept as their bits: one sign bit, eleven exponent bits and
fifty-two fraction bits. -/

namespace QueryOptions

structure Binary64 where
  bits : UInt64
deriving DecidableEq

namespace Binary64

def signWeight : Nat := 0x8000000000000000

def exponentWeight : Nat := 0x10000000000000

def magnitude (x : Binary64) : Nat :=
  x.bits.toNat % signWeight

def isNegative (x : Binary64) : Bool :=
  signWeight ≤ x.bits.toNat

def infiniteMagnitude : Nat :=
  0x7FF * exponentWeight

def isNaN (x : Binary64) : Bool :=
  infiniteMagnitude < x.magnitude

def isFinite (x : Binary64) : Bool :=
  x.magnitude < infiniteMagnitude

def ofMagnitude (negative : Bool) (magnitude : Nat) : Binary64 :=
  ⟨((if negative then signWeight else 0) + magnitude).toUInt64⟩

/-- Places a number on the line: equal for the two zeros, and in order for all numbers but NaN. -/
def rank (x : Binary64) : Int :=
  if x.isNegative then -(x.magnitude : Int) else x.magnitude

def compare? (x y : Binary64) : Option Ordering :=
  if x.isNaN || y.isNaN then none else some (compare x.rank y.rank)

def same (x y : Binary64) : Bool :=
  (x.isNaN && y.isNaN) || x.compare? y == some .eq

/-- A finite number's magnitude is `significand * 2 ^ (exponent - 1074)`. -/
def significand (x : Binary64) : Nat :=
  if x.magnitude < exponentWeight then x.magnitude else exponentWeight + x.magnitude % exponentWeight

def exponent (x : Binary64) : Nat :=
  if x.magnitude < exponentWeight then 0 else x.magnitude / exponentWeight - 1

end Binary64

end QueryOptions
