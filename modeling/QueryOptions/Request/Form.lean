import QueryOptions.Bytes
import QueryOptions.Number.Hexadecimal
import QueryOptions.Text.Utf8

/-! Query strings: names and values between ampersands, with plus signs for spaces and other bytes
after percent signs. -/

namespace QueryOptions.Form

def pieces (separator : UInt8) : List UInt8 → List (List UInt8)
  | [] => [[]]
  | byte :: rest =>
      if byte = separator then [] :: pieces separator rest
      else
        match pieces separator rest with
        | [] => [[byte]]
        | piece :: others => (byte :: piece) :: others

def hexByte? (high low : UInt8) : Option UInt8 := do
  let high ← hexDigit? (Char.ofNat high.toNat)
  let low ← hexDigit? (Char.ofNat low.toNat)
  some (high * 16 + low).toUInt8

def percentDecode : List UInt8 → List UInt8
  | byte :: high :: low :: rest =>
      match if byte = '%'.toUInt8 then hexByte? high low else none with
      | some decoded => decoded :: percentDecode rest
      | none => byte :: percentDecode (high :: low :: rest)
  | rest => rest

def plusToSpace (byte : UInt8) : UInt8 :=
  if byte = '+'.toUInt8 then ' '.toUInt8 else byte

def decode (bytes : List UInt8) : String :=
  Text.decodeUtf8 (percentDecode (bytes.map plusToSpace))

def pair (piece : List UInt8) : String × String :=
  let isName (byte : UInt8) := byte != '='.toUInt8
  (decode (piece.takeWhile isName), decode ((piece.dropWhile isName).drop 1))

def parse (query : String) : List (String × String) :=
  ((pieces '&'.toUInt8 (utf8Bytes query)).filter fun piece => !piece.isEmpty).map pair

end QueryOptions.Form
