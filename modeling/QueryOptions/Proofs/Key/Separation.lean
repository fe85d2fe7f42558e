import QueryOptions.Number.Hexadecimal
import QueryOptions.Proofs.Key.Identity

/-!
One byte is enough to change a key. A step of the hash can be undone, so that the difference of one
byte is carried through all bytes that come after it, and the digits of a key give back the hash.
-/

namespace QueryOptions

def hexadecimalValue (digits : List Char) : Nat :=
  digits.foldl (fun value digit => 16 * value + (hexDigit? digit).getD 0) 0

theorem hexadecimalValue_append_singleton (digits : List Char) (last : Char) :
    hexadecimalValue (digits ++ [last]) =
      16 * hexadecimalValue digits + (hexDigit? last).getD 0 := by
  simp [hexadecimalValue]

theorem hexDigit?_digitChar : ∀ digit < 16, hexDigit? (Nat.digitChar digit) = some digit := by
  decide

theorem hexadecimalValue_toDigits (number : Nat) :
    hexadecimalValue (Nat.toDigits 16 number) = number := by
  induction number using Nat.strongRecOn with
  | ind number ih =>
      by_cases small : number < 16
      · rw [Nat.toDigits_of_lt_base small]
        simp [hexadecimalValue, hexDigit?_digitChar number small]
      · rw [Nat.toDigits_of_base_le (by decide) (by omega), hexadecimalValue_append_singleton,
          ih (number / 16) (by omega), hexDigit?_digitChar _ (Nat.mod_lt _ (by decide)),
          Option.getD_some]
        omega

theorem hexadecimalValue_zeros_append (count : Nat) (digits : List Char) :
    hexadecimalValue (List.replicate count '0' ++ digits) = hexadecimalValue digits := by
  induction count with
  | zero => rfl
  | succ count ih => rw [List.replicate_succ, List.cons_append, ← ih]; rfl

theorem Key.text_inj {first second : Key} (same : first.text = second.text) : first = second := by
  have digits := congrArg (fun text => hexadecimalValue text.toList) same
  simp only [Key.text, String.toList_ofList, hexadecimalValue_zeros_append,
    hexadecimalValue_toDigits] at digits
  obtain ⟨first⟩ := first
  obtain ⟨second⟩ := second
  exact congrArg Key.mk (UInt64.toNat_inj.mp digits)

/-- Lists of one length with exactly one place where their items differ. -/
def DifferOnce (first second : List α) : Prop :=
  first.length = second.length ∧ ∃! index : Nat, first[index]? ≠ second[index]?

theorem DifferOnce.oneApart {first second : List α} (differ : DifferOnce first second) :
    OneApart (· ≠ ·) first second := by
  induction first generalizing second with
  | nil =>
      obtain ⟨lengthEq, index, different, _⟩ := differ
      obtain rfl : second = [] := List.length_eq_zero_iff.mp lengthEq.symm
      contradiction
  | cons a first ih =>
      obtain ⟨lengthEq, index, different, only⟩ := differ
      cases second with
      | nil => simp at lengthEq
      | cons b second =>
          simp only [List.length_cons, Nat.add_right_cancel_iff] at lengthEq
          by_cases apart : a = b
          · subst apart
            cases index with
            | zero => simp at different
            | succ index =>
                refine .tail a (ih ⟨lengthEq, index, by simpa using different, ?_⟩)
                intro other otherDifferent
                exact Nat.succ.inj (only (other + 1) (by simpa using otherDifferent))
          · have here : 0 = index := only 0 (by simpa using apart)
            have tails : first = second := by
              apply List.ext_getElem?
              intro place
              by_contra elsewhere
              have further := only (place + 1) (by simpa using elsewhere)
              omega
            rw [tails]
            exact .head apart second

theorem OneApart.differOnce {first second : List α} (apart : OneApart (· ≠ ·) first second) :
    DifferOnce first second := by
  induction apart with
  | @head a b apart rest =>
      refine ⟨rfl, 0, by simpa using apart, ?_⟩
      intro index different
      cases index with
      | zero => rfl
      | succ index => simp at different
  | tail a _ ih =>
      obtain ⟨lengthEq, index, different, only⟩ := ih
      refine ⟨by simpa using lengthEq, index + 1, by simpa using different, ?_⟩
      intro other otherDifferent
      cases other with
      | zero => simp at otherDifferent
      | succ other => rw [only other (by simpa using otherDifferent)]

namespace Fnv

def feedAll (state : UInt64) (portions : List (List UInt8)) : UInt64 :=
  portions.foldl feed state

/-- It makes no difference where one portion ends and the next one begins. -/
theorem feedAll_eq (state : UInt64) (portions : List (List UInt8)) :
    feedAll state portions = feed state portions.flatten := by
  induction portions generalizing state with
  | nil => rfl
  | cons portion portions ih => rw [List.flatten_cons, feed_append, ← ih]; rfl

end Fnv

theorem Key.text_ofBytes_ne {first second : List UInt8} (apart : OneApart (· ≠ ·) first second) :
    (Key.ofBytes first).text ≠ (Key.ofBytes second).text := by
  intro same
  exact Fnv.feed_ne_of_oneApart apart (congrArg Key.hash (Key.text_inj same))

theorem littleEndian_of_lt {word : UInt64} (small : word < 256) :
    littleEndian word = [word.toUInt8, 0, 0, 0, 0, 0, 0, 0] := by
  have bound : word.toNat < 256 := UInt64.lt_iff_toNat_lt.mp small
  simp only [littleEndian, List.cons.injEq, and_true, true_and, ← UInt8.toNat_inj,
    UInt64.toNat_toUInt8, UInt64.toNat_shiftRight, UInt64.reduceToNat, Nat.reduceMod, Nat.reducePow,
    Nat.shiftRight_eq_div_pow, UInt8.toNat_zero]
  omega

theorem oneApart_littleEndian {first second : UInt64} (firstSmall : first < 256)
    (secondSmall : second < 256) (different : first ≠ second) :
    OneApart (· ≠ ·) (littleEndian first) (littleEndian second) := by
  rw [littleEndian_of_lt firstSmall, littleEndian_of_lt secondSmall]
  refine .head ?_ _
  intro same
  apply different
  have bytes := congrArg UInt8.toNat same
  have firstBound : first.toNat < 256 := UInt64.lt_iff_toNat_lt.mp firstSmall
  have secondBound : second.toNat < 256 := UInt64.lt_iff_toNat_lt.mp secondSmall
  rw [UInt64.toNat_toUInt8, UInt64.toNat_toUInt8] at bytes
  apply UInt64.toNat_inj.mp
  omega

theorem Options.oneApart_skip (options : Options) {skip other : UInt64}
    (apart : OneApart (· ≠ ·) (littleEndian skip) (littleEndian other)) :
    OneApart (· ≠ ·) (options.setSkip skip).encoding (options.setSkip other).encoding := by
  simp only [encoding, List.append_assoc]
  exact ((apart.append_right _).append_left _).append_left _

/-- Bytes that differ in one place have different keys, in whatever portions they are fed. So have
options, filters and expand nodes whose bytes differ in one place, such as options that only skip
different numbers below 256. -/
theorem keys_differ_of_one_byte :
    (∀ (start rest : List UInt8) (a b : UInt8), a ≠ b → ∀ portions others : List (List UInt8),
      portions.flatten = start ++ a :: rest → others.flatten = start ++ b :: rest →
      (Key.mk (Fnv.feedAll Fnv.offsetBasis portions)).text ≠
        (Key.mk (Fnv.feedAll Fnv.offsetBasis others)).text) ∧
    (∀ first second : Options, DifferOnce first.encoding second.encoding →
      first.key.text ≠ second.key.text) ∧
    (∀ first second : Filter, DifferOnce (Encoding.filter first) (Encoding.filter second) →
      first.key.text ≠ second.key.text) ∧
    (∀ first second : Expand, DifferOnce (Encoding.expand [first]) (Encoding.expand [second]) →
      first.key.text ≠ second.key.text) ∧
    ∀ (options : Options) (skip other : UInt64), skip < 256 → other < 256 → skip ≠ other →
      DifferOnce (options.setSkip skip).encoding (options.setSkip other).encoding ∧
        (options.setSkip skip).key.text ≠ (options.setSkip other).key.text := by
  refine ⟨?_, ?_, ?_, ?_, ?_⟩
  · intro start rest a b different portions others portionsEq othersEq
    rw [Fnv.feedAll_eq, Fnv.feedAll_eq, portionsEq, othersEq]
    exact Key.text_ofBytes_ne (.append_left start (.head different rest))
  · intro first second differ
    exact Key.text_ofBytes_ne differ.oneApart
  · intro first second differ
    exact Key.text_ofBytes_ne differ.oneApart
  · intro first second differ
    exact Key.text_ofBytes_ne differ.oneApart
  · intro options skip other skipSmall otherSmall different
    have apart := options.oneApart_skip (oneApart_littleEndian skipSmall otherSmall different)
    exact ⟨apart.differOnce, Key.text_ofBytes_ne apart⟩

/-- The second of three bytes, however they are fed; a flag in a filter and in an expand node; and a
number to skip, from the least byte to the greatest. -/
theorem keys_differ_of_one_byte_flags :
    let flagged (flag : Bool) : Filter := .leaf ⟨"open", .eq, .single (.boolean flag), none⟩
    let issues (flag : Bool) : Expand := ⟨"issues", some (flagged flag), [], [], none, 0, none, []⟩
    let options : Options := { catalog := ⟨"magazine", .empty, [], [], []⟩ }
    (Key.mk (Fnv.feedAll Fnv.offsetBasis [[1, 2], [], [3]])).text ≠
        (Key.mk (Fnv.feedAll Fnv.offsetBasis [[1], [7, 3]])).text ∧
      (DifferOnce (Encoding.filter (flagged false)) (Encoding.filter (flagged true)) ∧
        (flagged false).key.text ≠ (flagged true).key.text) ∧
      (DifferOnce (Encoding.expand [issues false]) (Encoding.expand [issues true]) ∧
        (issues false).key.text ≠ (issues true).key.text) ∧
      DifferOnce (options.setSkip 0).encoding (options.setSkip 255).encoding ∧
      (options.setSkip 0).key.text ≠ (options.setSkip 255).key.text := by
  intro flagged issues options
  obtain ⟨portions, requests, filters, nodes, skips⟩ := keys_differ_of_one_byte
  have filterApart : OneApart (· ≠ ·) (Encoding.filter (flagged false))
      (Encoding.filter (flagged true)) := .append_left _ (.append_left _ (.head (by decide) []))
  have nodeApart : OneApart (· ≠ ·) (Encoding.expand [issues false])
      (Encoding.expand [issues true]) := by
    simp only [Encoding.expand, Encoding.expandNodes, issues, Encoding.expandNode,
      Encoding.optionalFilter, List.append_assoc]
    exact ((filterApart.append_right _).append_left _).append_left _
  refine ⟨?_, ⟨filterApart.differOnce, filters _ _ filterApart.differOnce⟩,
    ⟨nodeApart.differOnce, nodes _ _ nodeApart.differOnce⟩, ?_⟩
  · exact portions [1] [3] 2 7 (by decide) _ _ rfl rfl
  · have differ := (skips options 0 255 (by decide) (by decide) (by decide)).1
    exact ⟨differ, requests _ _ differ⟩

end QueryOptions
