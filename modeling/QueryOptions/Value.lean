import QueryOptions.Bytes
import QueryOptions.Number.Integer
import QueryOptions.Number.Shortest

/-! Scalar values: the literals of filters and the members of allowed-value sets. -/

namespace QueryOptions

inductive Value
  | null
  | boolean (value : Bool)
  | integer (value : Int64)
  | real (value : Binary64)
  | text (value : String)
deriving DecidableEq

def escapeQuotes (text : List Char) : List Char :=
  text.flatMap fun c => if c = '\'' then ['\\', '\''] else [c]

namespace Value

def isNull : Value → Bool
  | null => true
  | _ => false

def isNumeric : Value → Bool
  | integer _ => true
  | real _ => true
  | _ => false

def boolean? : Value → Option Bool
  | boolean value => some value
  | _ => none

def integer? : Value → Option Int64
  | integer value => some value
  | _ => none

def real? : Value → Option Binary64
  | integer value => some (Binary64.ofInt value.toInt)
  | real value => some value
  | _ => none

def text? : Value → Option String
  | text value => some value
  | _ => none

def same : Value → Value → Bool
  | null, null => true
  | boolean a, boolean b => a == b
  | integer a, integer b => a == b
  | real a, real b => a.same b
  | text a, text b => a == b
  | _, _ => false

/-- The order of two numbers: exact between integers, by floating point otherwise. -/
def compareNumeric : Value → Value → Option Ordering
  | integer a, integer b => some (compare a.toInt b.toInt)
  | a, b =>
      match a.real?, b.real? with
      | some x, some y => x.compare? y
      | _, _ => none

def looseEq (a b : Value) : Bool :=
  if a.isNumeric && b.isNumeric then a.compareNumeric b == some .eq else a.same b

def kindIndex : Value → UInt64
  | null => 0
  | boolean _ => 1
  | integer _ => 2
  | real _ => 3
  | text _ => 4

/-- What a value hands to a hash function: its kind, then its content, floats by their bits. -/
def hashInput (value : Value) : List UInt8 :=
  littleEndian value.kindIndex ++
    match value with
    | null => []
    | boolean b => [b.toUInt8]
    | integer i => littleEndian i.toUInt64
    | real x => littleEndian x.bits
    | text s => utf8Bytes s ++ [0xFF]

def literal : Value → List Char
  | null => ['n', 'u', 'l', 'l']
  | boolean true => ['t', 'r', 'u', 'e']
  | boolean false => ['f', 'a', 'l', 's', 'e']
  | integer i => integerText i.toInt
  | real x => x.text
  | text s => '\'' :: escapeQuotes s.toList ++ ['\'']

end Value

end QueryOptions
