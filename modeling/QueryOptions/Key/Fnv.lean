/-! The FNV-1a hash of 64 bits, and keys made of it. -/

namespace QueryOptions

namespace Fnv

def offsetBasis : UInt64 := 0xCBF29CE484222325

def prime : UInt64 := 0x100000001B3

def step (state : UInt64) (byte : UInt8) : UInt64 :=
  (state ^^^ byte.toUInt64) * prime

def feed (state : UInt64) (bytes : List UInt8) : UInt64 :=
  bytes.foldl step state

def hash (bytes : List UInt8) : UInt64 :=
  feed offsetBasis bytes

theorem feed_append (state : UInt64) (first second : List UInt8) :
    feed state (first ++ second) = feed (feed state first) second := by
  simp [feed]

end Fnv

structure Key where
  hash : UInt64
deriving DecidableEq

namespace Key

def ofBytes (bytes : List UInt8) : Key :=
  ⟨Fnv.hash bytes⟩

def text (key : Key) : String :=
  let digits := Nat.toDigits 16 key.hash.toNat
  String.ofList (List.replicate (16 - digits.length) '0' ++ digits)

end Key

end QueryOptions
