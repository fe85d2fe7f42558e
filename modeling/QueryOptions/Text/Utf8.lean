/-! Decoding UTF-8 with a replacement character for each broken sequence. -/

namespace QueryOptions.Text

/-- A sequence that has begun: the bits read so far, how many bytes are missing, and the range of
the next one. -/
structure Sequence where
  code : Nat
  missing : Nat
  low : Nat := 0x80
  high : Nat := 0xBF

def replacement : Char := Char.ofNat 0xFFFD

/-- What a byte gives at the start of a sequence: a character at once, or a sequence to complete.
The bounds of the second byte keep out overlong forms, surrogates and codes beyond the last. -/
def startSequence (byte : Nat) : List Char × Option Sequence :=
  if byte < 0x80 then ([Char.ofNat byte], none)
  else if byte < 0xC2 then ([replacement], none)
  else if byte < 0xE0 then ([], some { code := byte - 0xC0, missing := 1 })
  else if byte < 0xF0 then
    ([], some
      { code := byte - 0xE0, missing := 2, low := if byte = 0xE0 then 0xA0 else 0x80,
        high := if byte = 0xED then 0x9F else 0xBF })
  else if byte < 0xF5 then
    ([], some
      { code := byte - 0xF0, missing := 3, low := if byte = 0xF0 then 0x90 else 0x80,
        high := if byte = 0xF4 then 0x8F else 0xBF })
  else ([replacement], none)

def stepSequence (pending : Option Sequence) (byte : Nat) : List Char × Option Sequence :=
  match pending with
  | none => startSequence byte
  | some sequence =>
      if sequence.low ≤ byte ∧ byte ≤ sequence.high then
        let code := sequence.code * 0x40 + (byte - 0x80)
        if sequence.missing = 1 then ([Char.ofNat code], none)
        else ([], some { code, missing := sequence.missing - 1 })
      else
        let (characters, next) := startSequence byte
        (replacement :: characters, next)

def decodeFrom (pending : Option Sequence) : List UInt8 → List Char
  | [] => if pending.isSome then [replacement] else []
  | byte :: rest =>
      let (characters, next) := stepSequence pending byte.toNat
      characters ++ decodeFrom next rest

def decodeUtf8 (bytes : List UInt8) : String :=
  String.ofList (decodeFrom none bytes)

end QueryOptions.Text
