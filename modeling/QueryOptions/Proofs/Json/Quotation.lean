import QueryOptions.Json.Reader
import QueryOptions.Proofs.Text.Split

/-! In JSON text parentheses stand in strings only. -/

namespace QueryOptions.Json

open Text (Unwrapped unwrapped_cons unwrapped_inside unwrapped_escape unwrapped_dropWhile)

theorem hexCode?_isSome {a b c d : Char} {code : Nat} (found : hexCode? a b c d = some code) :
    ∀ digit ∈ [a, b, c, d], (hexDigit? digit).isSome = true := by
  simp only [hexCode?, Option.bind_eq_bind, Option.bind_eq_some_iff] at found
  obtain ⟨_, first, _, second, _, third, _, fourth, _⟩ := found
  simp [first, second, third, fourth]

theorem readString_unwrapped {text rest : List Char} {pieces : List Piece}
    (read : readString text = some (pieces, rest)) (unwrapped : Unwrapped .outside rest) :
    Unwrapped (.inside '"') text := by
  fun_induction readString text generalizing pieces with
  | case1 => contradiction
  | case2 tail =>
      cases read
      exact ⟨nofun, unwrapped⟩
  | case3 a b c d tail ih =>
      simp only [Option.bind_eq_bind, Option.bind_eq_some_iff] at read
      obtain ⟨code, hexadecimal, ⟨others, tailRest⟩, readTail, pairEq⟩ := read
      cases pairEq
      have digit : ∀ digit ∈ [a, b, c, d], digit ≠ '"' ∧ digit ≠ '\\' := by
        intro digit member
        have found := hexCode?_isSome hexadecimal digit member
        constructor <;> (rintro rfl; exact absurd found (by decide))
      simp only [List.mem_cons, List.not_mem_nil, or_false, forall_eq_or_imp, forall_eq] at digit
      obtain ⟨first, second, third, fourth⟩ := digit
      exact unwrapped_escape (unwrapped_inside first.1 first.2 (unwrapped_inside second.1 second.2
        (unwrapped_inside third.1 third.2 (unwrapped_inside fourth.1 fourth.2 (ih readTail)))))
  | case4 letter tail _ ih =>
      simp only [Option.bind_eq_bind, Option.bind_eq_some_iff] at read
      obtain ⟨c, escaped, ⟨others, tailRest⟩, readTail, pairEq⟩ := read
      cases pairEq
      exact unwrapped_escape (ih readTail)
  | case5 => contradiction
  | case6 c tail noQuote _ _ printable ih =>
      simp only [Option.bind_eq_bind, Option.bind_eq_some_iff] at read
      obtain ⟨⟨others, tailRest⟩, readTail, pairEq⟩ := read
      cases pairEq
      rw [not_or] at printable
      exact unwrapped_inside noQuote printable.2 (ih readTail)

theorem skipSpace_unwrapped {text : List Char} (unwrapped : Unwrapped .outside (skipSpace text)) :
    Unwrapped .outside text :=
  unwrapped_dropWhile (by decide) unwrapped

theorem digits_unwrapped {text : List Char}
    (unwrapped : Unwrapped .outside (text.dropWhile Char.isDigit)) : Unwrapped .outside text :=
  unwrapped_dropWhile (by decide) unwrapped

theorem readFraction_unwrapped {text fraction rest : List Char}
    (read : readFraction text = some (fraction, rest)) (unwrapped : Unwrapped .outside rest) :
    Unwrapped .outside text := by
  rw [readFraction.eq_def] at read
  split at read
  · split at read
    · contradiction
    · cases read
      exact unwrapped_cons (by decide) (digits_unwrapped unwrapped)
  · cases read
    exact unwrapped

theorem readExponentDigits_unwrapped {negative : Bool} {text rest : List Char}
    {exponent : Option Int} (read : readExponentDigits negative text = some (exponent, rest))
    (unwrapped : Unwrapped .outside rest) : Unwrapped .outside text := by
  rw [readExponentDigits] at read
  split at read
  · contradiction
  · cases read
    exact digits_unwrapped unwrapped

theorem readExponent_unwrapped {text rest : List Char} {exponent : Option Int}
    (read : readExponent text = some (exponent, rest)) (unwrapped : Unwrapped .outside rest) :
    Unwrapped .outside text := by
  rw [readExponent.eq_def] at read
  split at read
  · rename_i c tail
    split at read
    · rename_i letter
      have marked : c ∉ ['\'', '"', '(', ')'] := by
        rcases letter with rfl | rfl <;> decide
      split at read
      · exact unwrapped_cons marked
          (unwrapped_cons (by decide) (readExponentDigits_unwrapped read unwrapped))
      · exact unwrapped_cons marked
          (unwrapped_cons (by decide) (readExponentDigits_unwrapped read unwrapped))
      · exact unwrapped_cons marked (readExponentDigits_unwrapped read unwrapped)
    · cases read
      exact unwrapped
  · cases read
    exact unwrapped

theorem readNumber_unwrapped {negative : Bool} {text rest : List Char} {numeral : Numeral}
    (read : readNumber negative text = some (numeral, rest)) (unwrapped : Unwrapped .outside rest) :
    Unwrapped .outside text := by
  rw [readNumber] at read
  split at read
  · contradiction
  · contradiction
  · simp only [Option.bind_eq_bind, Option.bind_eq_some_iff] at read
    obtain ⟨⟨fraction, behind⟩, readPlaces, ⟨exponent, last⟩, readLast, pairEq⟩ := read
    cases pairEq
    exact digits_unwrapped
      (readFraction_unwrapped readPlaces (readExponent_unwrapped readLast unwrapped))

/-- What a reader takes off the head of a text adds no parentheses outside of quotations. -/
def Unwraps (read : List Char → Option (α × List Char)) : Prop :=
  ∀ {text found rest}, read text = some (found, rest) → Unwrapped .outside rest →
    Unwrapped .outside text

theorem readDoc_step {fuel : Nat} (items : Unwraps (readItems fuel))
    (members : Unwraps (readMembers fuel)) : Unwraps (readDoc (fuel + 1)) := by
  intro text doc rest read unwrapped
  refine skipSpace_unwrapped ?_
  rw [readDoc] at read
  generalize skipSpace text = start at read ⊢
  split at read
  · cases read
    exact unwrapped_cons (by decide) (unwrapped_cons (by decide)
      (unwrapped_cons (by decide) (unwrapped_cons (by decide) unwrapped)))
  · cases read
    exact unwrapped_cons (by decide) (unwrapped_cons (by decide)
      (unwrapped_cons (by decide) (unwrapped_cons (by decide) unwrapped)))
  · cases read
    exact unwrapped_cons (by decide) (unwrapped_cons (by decide) (unwrapped_cons (by decide)
      (unwrapped_cons (by decide) (unwrapped_cons (by decide) unwrapped))))
  · obtain ⟨⟨pieces, _⟩, readPieces, pairEq⟩ := Option.map_eq_some_iff.mp read
    cases pairEq
    exact ⟨fun _ => by decide, readString_unwrapped readPieces unwrapped⟩
  · obtain ⟨⟨numeral, _⟩, readNumeral, pairEq⟩ := Option.map_eq_some_iff.mp read
    cases pairEq
    exact unwrapped_cons (by decide) (readNumber_unwrapped readNumeral unwrapped)
  · refine unwrapped_cons (by decide) ?_
    split at read
    · rename_i closing
      cases read
      refine skipSpace_unwrapped ?_
      rw [closing]
      exact unwrapped_cons (by decide) unwrapped
    · obtain ⟨⟨found, _⟩, readFound, pairEq⟩ := Option.map_eq_some_iff.mp read
      cases pairEq
      exact items readFound unwrapped
  · refine unwrapped_cons (by decide) ?_
    split at read
    · rename_i closing
      cases read
      refine skipSpace_unwrapped ?_
      rw [closing]
      exact unwrapped_cons (by decide) unwrapped
    · obtain ⟨⟨found, _⟩, readFound, pairEq⟩ := Option.map_eq_some_iff.mp read
      cases pairEq
      exact members readFound unwrapped
  · obtain ⟨⟨numeral, _⟩, readNumeral, pairEq⟩ := Option.map_eq_some_iff.mp read
    cases pairEq
    exact readNumber_unwrapped readNumeral unwrapped

theorem readItems_step {fuel : Nat} (docs : Unwraps (readDoc fuel))
    (items : Unwraps (readItems fuel)) : Unwraps (readItems (fuel + 1)) := by
  intro text found rest read unwrapped
  rw [readItems, Option.bind_eq_bind, Option.bind_eq_some_iff] at read
  obtain ⟨⟨item, behind⟩, readItem, read⟩ := read
  refine docs readItem (skipSpace_unwrapped ?_)
  dsimp only at read
  split at read
  · rename_i comma
    rw [Option.bind_eq_bind, Option.bind_eq_some_iff] at read
    obtain ⟨⟨others, _⟩, readOthers, pairEq⟩ := read
    cases pairEq
    rw [comma]
    exact unwrapped_cons (by decide) (items readOthers unwrapped)
  · rename_i closing
    cases read
    rw [closing]
    exact unwrapped_cons (by decide) unwrapped
  · contradiction

theorem readMembers_step {fuel : Nat} (docs : Unwraps (readDoc fuel))
    (members : Unwraps (readMembers fuel)) : Unwraps (readMembers (fuel + 1)) := by
  intro text found rest read unwrapped
  refine skipSpace_unwrapped ?_
  rw [readMembers] at read
  split at read
  · rename_i quoted
    rw [Option.bind_eq_bind, Option.bind_eq_some_iff] at read
    obtain ⟨⟨name, behindName⟩, readName, read⟩ := read
    rw [quoted]
    refine ⟨fun _ => by decide, readString_unwrapped readName (skipSpace_unwrapped ?_)⟩
    dsimp only at read
    split at read
    · rename_i colon
      rw [Option.bind_eq_bind, Option.bind_eq_some_iff] at read
      obtain ⟨⟨item, behind⟩, readItem, read⟩ := read
      rw [colon]
      refine unwrapped_cons (by decide) (docs readItem (skipSpace_unwrapped ?_))
      dsimp only at read
      split at read
      · rename_i comma
        rw [Option.bind_eq_bind, Option.bind_eq_some_iff] at read
        obtain ⟨⟨others, _⟩, readOthers, pairEq⟩ := read
        cases pairEq
        rw [comma]
        exact unwrapped_cons (by decide) (members readOthers unwrapped)
      · rename_i closing
        cases read
        rw [closing]
        exact unwrapped_cons (by decide) unwrapped
      · contradiction
    · contradiction
  · contradiction

theorem readers_unwrap (fuel : Nat) :
    Unwraps (readDoc fuel) ∧ Unwraps (readItems fuel) ∧ Unwraps (readMembers fuel) := by
  induction fuel with
  | zero => exact ⟨nofun, nofun, nofun⟩
  | succ fuel ih =>
      exact ⟨readDoc_step ih.2.1 ih.2.2, readItems_step ih.1 ih.2.1, readMembers_step ih.1 ih.2.2⟩

theorem decode?_unwrapped {text : List Char} {doc : Doc} (decoded : decode? text = some doc) :
    Unwrapped .outside text := by
  have found := (Option.filter_eq_some_iff.mp decoded).1
  rw [read?] at found
  split at found
  · rename_i rest read
    split at found
    · rename_i ended
      have nothing : Unwrapped .outside (skipSpace rest) := by
        rw [List.isEmpty_iff.mp ended]
        trivial
      exact (readers_unwrap _).1 read (skipSpace_unwrapped nothing)
    · contradiction
  · contradiction

end QueryOptions.Json
