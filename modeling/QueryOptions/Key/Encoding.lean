import QueryOptions.Bytes
import QueryOptions.Expand.Basic
import QueryOptions.Key.Fnv

/-! The bytes that stand for option trees. Lengths go before what they count, so that neighbours do
not run together. -/

namespace QueryOptions

namespace Encoding

def ascii (text : List Char) : List UInt8 :=
  text.map fun c => c.toNat.toUInt8

def word (value : UInt64) : List UInt8 :=
  littleEndian value

def length (count : Nat) : List UInt8 :=
  littleEndian count.toUInt64

def string (text : String) : List UInt8 :=
  length (utf8Bytes text).length ++ utf8Bytes text

def optional (encode : α → List UInt8) : Option α → List UInt8
  | some value => 1 :: encode value
  | none => [0]

def value : Value → List UInt8
  | .null => ascii ['n', 'u', 'l', 'l']
  | .boolean b => ascii ['b', 'o', 'o', 'l'] ++ [b.toUInt8]
  | .integer i => ascii ['i', '6', '4'] ++ word i.toUInt64
  | .real x => ascii ['f', '6', '4'] ++ word x.bits
  | .text s => ascii ['s', 't', 'r'] ++ string s

def operand : Operand → List UInt8
  | .single v => value v
  | .list vs => ascii ['l', 'i', 's', 't'] ++ length vs.length ++ vs.flatMap value

def comparison (comparison : Comparison) : List UInt8 :=
  ascii ['e', 'x', 'p', 'r'] ++ string comparison.property ++ ascii comparison.operator.word ++
    operand comparison.operand

def connective : Connective → List UInt8
  | .and => ascii ['a', 'n', 'd']
  | .or => ascii ['o', 'r', '_']

mutual

def filter : Filter → List UInt8
  | .leaf c => comparison c
  | .join c children => connective c ++ length children.length ++ filters children

def filters : List Filter → List UInt8
  | [] => []
  | child :: children => filter child ++ filters children

end

def optionalFilter : Option Filter → List UInt8
  | some f => filter f
  | none => ascii ['n', 'o', 'f', 'i', 'l', 't', 'e', 'r']

def order (order : OrderBy) : List UInt8 :=
  string order.property ++ ascii order.direction.word

def orderBy (orders : List OrderBy) : List UInt8 :=
  ascii ['o', 'r', 'd', 'e', 'r'] ++ length orders.length ++ orders.flatMap order

def select (names : List String) : List UInt8 :=
  ascii ['s', 'e', 'l', 'e', 'c', 't'] ++ length names.length ++ names.flatMap string

def expandHead (count : Nat) : List UInt8 :=
  ascii ['e', 'x', 'p', 'a', 'n', 'd'] ++ length count

mutual

def expandNode : Expand → List UInt8
  | ⟨property, filters, orders, names, top, skip, skiptoken, children⟩ =>
      string property ++ optionalFilter filters ++ orderBy orders ++ select names ++
        optional word top ++ word skip ++ optional string skiptoken ++
        expandHead children.length ++ expandNodes children

def expandNodes : List Expand → List UInt8
  | [] => []
  | node :: nodes => expandNode node ++ expandNodes nodes

end

def expand (nodes : List Expand) : List UInt8 :=
  expandHead nodes.length ++ expandNodes nodes

end Encoding

def Filter.key (filter : Filter) : Key :=
  .ofBytes (Encoding.filter filter)

def Expand.key (node : Expand) : Key :=
  .ofBytes (Encoding.expand [node])

end QueryOptions
