import QueryOptions.Value

/-! JSON documents as their text spells them. Whether a spelling can be used as a value (a number in
range, surrogate escapes in pairs, a bounded depth) is a question of its own. -/

namespace QueryOptions.Json

inductive Piece
  | char (c : Char)
  | escape (code : Nat)
deriving DecidableEq

/-- A number as written: the digits before and after the point read as one number, how many stand
after it, and the exponent. It is integral when neither point nor exponent is written. -/
structure Numeral where
  negative : Bool
  digits : Nat
  places : Nat
  exponent : Int
  integral : Bool
deriving DecidableEq

inductive Doc
  | null
  | boolean (value : Bool)
  | number (numeral : Numeral)
  | string (pieces : List Piece)
  | array (items : List Doc)
  | object (members : List (List Piece × Doc))

namespace Numeral

/-- Integral numbers that fit 64 bits stay integers, except for negative zero; all others go to
the nearest floating-point number, which has to be finite. -/
def value? (numeral : Numeral) : Option Value :=
  let integer := if numeral.negative then -(numeral.digits : Int) else numeral.digits
  let rounded :=
    Binary64.ofDecimal numeral.negative numeral.digits (numeral.exponent - numeral.places)
  let real := if rounded.isFinite then some (Value.real rounded) else none
  if numeral.integral && !(numeral.negative && numeral.digits == 0) then
    match int64? integer with
    | some small => some (.integer small)
    | none => real
  else real

def count? (numeral : Numeral) : Option UInt64 :=
  if numeral.integral && !numeral.negative then uint64? numeral.digits else none

end Numeral

/-- The characters of a string. Escapes of surrogates have to come in pairs, a high one first. -/
def characters? : List Piece → Option (List Char)
  | [] => some []
  | .char c :: rest => (characters? rest).map (c :: ·)
  | .escape code :: rest =>
      if code < 0xD800 ∨ 0xE000 ≤ code then (characters? rest).map (Char.ofNat code :: ·)
      else
        match rest with
        | .escape low :: rest =>
            if code < 0xDC00 ∧ 0xDC00 ≤ low ∧ low < 0xE000 then
              (characters? rest).map
                (Char.ofNat (0x10000 + (code - 0xD800) * 0x400 + (low - 0xDC00)) :: ·)
            else none
        | _ => none

def string? (pieces : List Piece) : Option String :=
  (characters? pieces).map String.ofList

mutual

def Doc.isSound : Nat → Doc → Bool
  | _, .null => true
  | _, .boolean _ => true
  | _, .number numeral => numeral.value?.isSome
  | _, .string pieces => (characters? pieces).isSome
  | 0, .array _ => false
  | room + 1, .array items => areSound room items
  | 0, .object _ => false
  | room + 1, .object members => membersSound room members

def Doc.areSound : Nat → List Doc → Bool
  | _, [] => true
  | room, item :: items => item.isSound room && areSound room items

def Doc.membersSound : Nat → List (List Piece × Doc) → Bool
  | _, [] => true
  | room, (name, item) :: members =>
      (characters? name).isSome && item.isSound room && membersSound room members

end

namespace Doc

def scalar? : Doc → Option Value
  | null => some .null
  | boolean value => some (.boolean value)
  | number numeral => numeral.value?
  | string pieces => (string? pieces).map .text
  | array _ => none
  | object _ => none

end Doc

end QueryOptions.Json
