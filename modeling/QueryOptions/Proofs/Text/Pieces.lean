import QueryOptions.Proofs.Text.Split

/-!
The pieces that a text is split into, each at its place in the text. Pieces are not split again, and
joined they are split as before.
-/

namespace QueryOptions.Text

structure IsPiece (separator : Char) (text before piece after : List Char) : Prop where
  text_eq : text = before ++ (piece ++ after)
  split : ∃ left right, split? separator text = some (left ++ piece :: right) ∧
    before = left.flatMap (· ++ [separator])

theorem join_splitFrom {separator : Char} {nesting : Nesting} {text first : List Char}
    {others : List (List Char)}
    (split : splitFrom separator nesting text = some (first :: others)) :
    text = first ++ others.flatMap (separator :: ·) := by
  induction text generalizing nesting first others with
  | nil =>
      rw [splitFrom] at split
      split at split
      · cases split
        rfl
      · contradiction
  | cons c text ih =>
      rw [splitFrom] at split
      split at split
      · contradiction
      · rename_i next _
        split at split
        · rename_i separates
          obtain ⟨pieces, rest, piecesEq⟩ := Option.map_eq_some_iff.mp split
          obtain ⟨piece, later, rfl, _⟩ := splitFrom_first rest
          cases piecesEq
          have sign : c = separator := by simpa using (Bool.and_eq_true_iff.mp separates).2
          rw [sign, ih rest]
          rfl
        · obtain ⟨pieces, rest, piecesEq⟩ := Option.map_eq_some_iff.mp split
          obtain ⟨piece, later, rfl, _⟩ := splitFrom_first rest
          cases piecesEq
          rw [ih rest]
          rfl

theorem intercalate_cons (separator : Char) (first : List Char) (others : List (List Char)) :
    [separator].intercalate (first :: others) = first ++ others.flatMap (separator :: ·) := by
  induction others generalizing first with
  | nil => simp
  | cons next others ih =>
      rw [List.intercalate_cons_cons, ih, List.flatMap_cons]
      simp

theorem join_split? {separator : Char} {text : List Char} {pieces : List (List Char)}
    (split : split? separator text = some pieces) :
    pieces ≠ [] ∧ [separator].intercalate pieces = text := by
  obtain ⟨first, others, rfl, _, _⟩ := splitFrom_first split
  exact ⟨by simp, (intercalate_cons separator first others).trans (join_splitFrom split).symm⟩

section
variable {separator : Char} (stays : Nesting.step? {} separator = some {})
include stays

theorem splitFrom_append {nesting : Nesting} {left right : List Char}
    {pieces others : List (List Char)} (first : splitFrom separator nesting left = some pieces)
    (second : split? separator right = some others) :
    splitFrom separator nesting (left ++ separator :: right) = some (pieces ++ others) := by
  induction left generalizing nesting pieces with
  | nil =>
      simp only [splitFrom, Option.ite_none_right_eq_some, Option.some.injEq] at first
      obtain ⟨top, rfl⟩ := first
      obtain rfl := (isTop_iff nesting).mp top
      rw [split?] at second
      simp [splitFrom, stays, top, second]
  | cons c left ih =>
      rw [splitFrom] at first
      rw [List.cons_append, splitFrom]
      split at first
      · contradiction
      · split at first
        · rename_i separates
          obtain ⟨later, rest, rfl⟩ := Option.map_eq_some_iff.mp first
          simp only [separates, if_true, ih rest, Option.map_some, List.cons_append]
        · rename_i apart
          obtain ⟨later, rest, rfl⟩ := Option.map_eq_some_iff.mp first
          obtain ⟨piece, others, rfl, _⟩ := splitFrom_first rest
          simp only [apart, ih rest, Option.map_some]
          rfl

/-- Two texts with a separator between them are split into the pieces of both. -/
theorem split?_append {left right : List Char} {pieces others : List (List Char)}
    (first : split? separator left = some pieces) (second : split? separator right = some others) :
    split? separator (left ++ separator :: right) = some (pieces ++ others) :=
  splitFrom_append stays first second

theorem whole_of_splitFrom {nesting : Nesting} {text first : List Char}
    {others : List (List Char)}
    (split : splitFrom separator nesting text = some (first :: others)) :
    ∀ piece ∈ others, split? separator piece = some [piece] := by
  induction text generalizing nesting first others with
  | nil =>
      rw [splitFrom] at split
      split at split
      · cases split
        simp
      · contradiction
  | cons c text ih =>
      rw [splitFrom] at split
      split at split
      · contradiction
      · rename_i next stepped
        split at split
        · rename_i separates
          rw [Bool.and_eq_true, beq_iff_eq, isTop_iff] at separates
          obtain ⟨pieces, rest, piecesEq⟩ := Option.map_eq_some_iff.mp split
          obtain ⟨piece, later, rfl, crossed, _⟩ := splitFrom_first rest
          cases piecesEq
          rw [separates.1, separates.2, stays] at stepped
          cases stepped
          exact List.forall_mem_cons.mpr ⟨(split?_eq_whole_iff separator piece).mpr crossed, ih rest⟩
        · obtain ⟨pieces, rest, piecesEq⟩ := Option.map_eq_some_iff.mp split
          obtain ⟨piece, later, rfl, _⟩ := splitFrom_first rest
          cases piecesEq
          exact ih rest

theorem whole_of_split? {text : List Char} {pieces : List (List Char)}
    (split : split? separator text = some pieces) :
    ∀ piece ∈ pieces, split? separator piece = some [piece] := by
  obtain ⟨piece, others, rfl, crossed, _⟩ := splitFrom_first split
  exact List.forall_mem_cons.mpr
    ⟨(split?_eq_whole_iff separator piece).mpr crossed, whole_of_splitFrom stays split⟩

theorem split?_join {pieces : List (List Char)} (nonempty : pieces ≠ [])
    (whole : ∀ piece ∈ pieces, split? separator piece = some [piece]) :
    split? separator ([separator].intercalate pieces) = some pieces := by
  induction pieces with
  | nil => contradiction
  | cons piece pieces ih =>
      rw [List.forall_mem_cons] at whole
      cases pieces with
      | nil => simpa using whole.1
      | cons next pieces =>
          rw [List.intercalate_cons_cons, List.append_assoc]
          exact split?_append stays whole.1 (ih (by simp) whole.2)

end

theorem flatMap_separators (separator : Char) (first : List Char) (left : List (List Char)) :
    first ++ (left.flatMap (separator :: ·) ++ [separator]) =
      (first :: left).flatMap (· ++ [separator]) := by
  induction left generalizing first with
  | nil => simp
  | cons piece left ih =>
      rw [List.flatMap_cons, List.flatMap_cons, ← ih piece]
      simp

theorem isPiece_of_split? {separator : Char} {text piece : List Char}
    {left right : List (List Char)}
    (split : split? separator text = some (left ++ piece :: right)) :
    IsPiece separator text (left.flatMap (· ++ [separator])) piece
      (right.flatMap (separator :: ·)) := by
  refine ⟨?_, left, right, split, rfl⟩
  cases left with
  | nil => exact join_splitFrom split
  | cons first left =>
      rw [join_splitFrom split, ← flatMap_separators]
      simp

theorem map_snd_locate (separator : Char) (start : Nat) (pieces : List (List Char)) :
    (locate separator start pieces).map Prod.snd = pieces := by
  induction pieces generalizing start with
  | nil => rfl
  | cons piece pieces ih => rw [locate, List.map_cons, ih]

theorem locate_eq_append {separator : Char} {start offset : Nat} {pieces : List (List Char)}
    {piece : List Char} {left right : List (Nat × List Char)}
    (located : locate separator start pieces = left ++ (offset, piece) :: right) :
    pieces = left.map Prod.snd ++ piece :: right.map Prod.snd ∧
      offset = start + byteLength ((left.map Prod.snd).flatMap (· ++ [separator])) := by
  have piecesEq : pieces = left.map Prod.snd ++ piece :: right.map Prod.snd := by
    rw [← map_snd_locate separator start pieces, located]
    simp
  refine ⟨piecesEq, ?_⟩
  subst piecesEq
  induction left generalizing start with
  | nil =>
      simp only [List.map_nil, List.nil_append, locate, List.cons.injEq, Prod.mk.injEq] at located
      exact located.1.1.symm
  | cons first left ih =>
      rw [List.map_cons, List.cons_append, locate, List.cons_append, List.cons.injEq] at located
      rw [ih located.2, List.map_cons, List.flatMap_cons, byteLength_append, byteLength_append]
      simp only [byteLength]
      omega

theorem mem_locate {separator : Char} {start offset : Nat} {pieces : List (List Char)}
    {piece : List Char} (member : (offset, piece) ∈ locate separator start pieces) :
    ∃ left right, pieces = left ++ piece :: right ∧
      offset = start + byteLength (left.flatMap (· ++ [separator])) := by
  obtain ⟨left, right, located⟩ := List.append_of_mem member
  obtain ⟨piecesEq, offsetEq⟩ := locate_eq_append located
  exact ⟨_, _, piecesEq, offsetEq⟩

theorem isPiece_of_mem_locate {separator : Char} {text : List Char} {pieces : List (List Char)}
    (split : split? separator text = some pieces) {offset : Nat} {piece : List Char}
    (member : (offset, piece) ∈ locate separator 0 pieces) :
    ∃ before after, IsPiece separator text before piece after ∧ offset = byteLength before := by
  obtain ⟨left, right, rfl, offsetEq⟩ := mem_locate member
  rw [Nat.zero_add] at offsetEq
  exact ⟨_, _, isPiece_of_split? split, offsetEq⟩

def locatedPieces? (separator : Char) (text : List Char) : Option (List (Nat × List Char)) :=
  (split? separator text).map (locate separator 0)

theorem locatedPieces?_eq_whole_iff {separator : Char} {text : List Char} :
    locatedPieces? separator text = some [(0, text)] ↔ split? separator text = some [text] := by
  constructor
  · intro whole
    obtain ⟨pieces, split, located⟩ := Option.map_eq_some_iff.mp whole
    rw [split, ← map_snd_locate separator 0 pieces, located]
    rfl
  · intro whole
    rw [locatedPieces?, whole]
    rfl

theorem step?_of_separates {separator : Char}
    (separates : separator ∉ ['\'', '"', '(', ')', '[', ']']) :
    Nesting.step? {} separator = some {} := by
  simp only [List.mem_cons, List.not_mem_nil, or_false, not_or] at separates
  simp [Nesting.step?, enclose, Quoting.step, isQuote, separates]

/-- Splitting and joining undo each other. The pieces of a text, joined, are the text; each is found
at its offset, behind the pieces and separators before it, and comes apart no more. Texts that do
not come apart are the pieces of what they are joined to. -/
theorem splitting_inverts_joining {separator : Char}
    (separates : separator ∉ ['\'', '"', '(', ')', '[', ']']) :
    (∀ text pieces, locatedPieces? separator text = some pieces →
      pieces ≠ [] ∧ [separator].intercalate (pieces.map Prod.snd) = text ∧
      (∀ left offset piece right, pieces = left ++ (offset, piece) :: right →
        ∃ before after, text = before ++ piece ++ after ∧ byteLength before = offset ∧
          before = left.flatMap fun (_, earlier) => earlier ++ [separator]) ∧
      ∀ offset piece, (offset, piece) ∈ pieces →
        locatedPieces? separator piece = some [(0, piece)]) ∧
    ∀ pieces : List (List Char), pieces ≠ [] →
      (∀ piece ∈ pieces, locatedPieces? separator piece = some [(0, piece)]) →
      ∃ located, locatedPieces? separator ([separator].intercalate pieces) = some located ∧
        located.map Prod.snd = pieces := by
  have stays := step?_of_separates separates
  constructor
  · intro text located found
    obtain ⟨pieces, split, rfl⟩ := Option.map_eq_some_iff.mp found
    obtain ⟨nonempty, joined⟩ := join_split? split
    refine ⟨?_, ?_, ?_, ?_⟩
    · intro none
      rw [← map_snd_locate separator 0 pieces, none] at nonempty
      contradiction
    · rw [map_snd_locate, joined]
    · intro left offset piece right locatedEq
      obtain ⟨piecesEq, offsetEq⟩ := locate_eq_append locatedEq
      subst piecesEq
      have place := isPiece_of_split? split
      refine ⟨_, _, place.text_eq.trans (List.append_assoc ..).symm, ?_, ?_⟩
      · rw [offsetEq, Nat.zero_add]
      · rw [List.flatMap_map]
    · intro offset piece member
      obtain ⟨left, right, piecesEq, _⟩ := mem_locate member
      exact locatedPieces?_eq_whole_iff.mpr
        (whole_of_split? stays split piece (by simp [piecesEq]))
  · intro pieces nonempty whole
    have split := split?_join stays nonempty fun piece member =>
      locatedPieces?_eq_whole_iff.mp (whole piece member)
    refine ⟨locate separator 0 pieces, ?_, map_snd_locate separator 0 pieces⟩
    rw [locatedPieces?, split]
    rfl

/-- The pieces lie at bytes, of which the accented letter takes two; a comma in brackets or in a
quotation, an escaped quote before it, does not separate. -/
theorem splitting_inverts_joining_items :
    let items := ["é(b,c)".toList, "'d\\',e'".toList, []]
    let text := "é(b,c),'d\\',e',".toList
    ',' ∉ ['\'', '"', '(', ')', '[', ']'] ∧
      locatedPieces? ',' text = some [(0, items[0]), (8, items[1]), (16, [])] ∧
      [','].intercalate items = text ∧
      (∃ before after, text = before ++ items[1] ++ after ∧ byteLength before = 8) ∧
      locatedPieces? ',' items[1] = some [(0, items[1])] ∧
      ∃ located, locatedPieces? ',' ([','].intercalate items) = some located ∧
        located.map Prod.snd = items := by
  intro items text
  have found : locatedPieces? ',' text = some [(0, items[0]), (8, items[1]), (16, [])] := by
    decide +kernel
  have separates : ',' ∉ ['\'', '"', '(', ')', '[', ']'] := by decide
  obtain ⟨splits, joins⟩ := splitting_inverts_joining separates
  obtain ⟨_, joined, placed, whole⟩ := splits text _ found
  obtain ⟨before, after, textEq, offsetEq, _⟩ := placed [(0, items[0])] 8 items[1] [(16, [])] rfl
  have alone : ∀ piece ∈ items, locatedPieces? ',' piece = some [(0, piece)] := by decide +kernel
  exact ⟨separates, found, joined, ⟨before, after, textEq, offsetEq⟩,
    whole 8 items[1] (by simp), joins items (by simp [items]) alone⟩

end QueryOptions.Text
