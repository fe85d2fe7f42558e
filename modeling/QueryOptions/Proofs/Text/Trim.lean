import QueryOptions.Proofs.Text.Word

/-! Blanks at the end of a text, and texts that do not end in one. -/

namespace QueryOptions.Text

def EndsSolid (text : List Char) : Prop :=
  ∃ front c, text = front ++ [c] ∧ isBlank c = false

theorem EndsSolid.append {text : List Char} (ends : EndsSolid text) (front : List Char) :
    EndsSolid (front ++ text) := by
  obtain ⟨inner, c, rfl, solid⟩ := ends
  exact ⟨front ++ inner, c, by simp, solid⟩

theorem endsSolid_name {name : List Char} (nonempty : name ≠ [])
    (names : ∀ c ∈ name, isNameChar c = true) : EndsSolid name :=
  ⟨name.dropLast, name.getLast nonempty, (List.dropLast_concat_getLast nonempty).symm,
    isBlank_of_isNameChar (names _ (List.getLast_mem nonempty))⟩

theorem dropTrailingBlanks_append {front : List Char} (solid : EndsSolid front)
    (text : List Char) : dropTrailingBlanks (front ++ text) = front ++ dropTrailingBlanks text := by
  obtain ⟨inner, c, rfl, noBlank⟩ := solid
  simp only [dropTrailingBlanks, List.reverse_append, List.dropWhile_append]
  split
  · rename_i empty
    simp [List.isEmpty_iff.mp empty, noBlank]
  · simp

theorem dropTrailingBlanks_blanks {text : List Char} (blanks : Blanks text) :
    dropTrailingBlanks text = [] := by
  rw [dropTrailingBlanks, List.reverse_eq_nil_iff, ← List.append_nil text.reverse]
  exact dropWhile_run isBlank _ _ (by simpa [Blanks] using blanks) (stops_nil isBlank)

theorem dropTrailingBlanks_split (text : List Char) :
    ∃ blanks, Blanks blanks ∧ text = dropTrailingBlanks text ++ blanks := by
  obtain ⟨blanks, allBlank, reversed⟩ := skipBlanks_split text.reverse
  refine ⟨blanks.reverse, by simpa [Blanks] using allBlank, ?_⟩
  simpa [dropTrailingBlanks, skipBlanks] using congrArg List.reverse reversed

theorem dropTrailingBlanks_solid {text : List Char} (solid : EndsSolid text) :
    dropTrailingBlanks text = text := by
  simpa [dropTrailingBlanks_blanks blanks_nil] using dropTrailingBlanks_append solid []

theorem trim_append {front text : List Char} (stops : Stops isBlank (front ++ text))
    (solid : EndsSolid front) : trim (front ++ text) = front ++ dropTrailingBlanks text := by
  have start : skipBlanks (front ++ text) = front ++ text := skipBlanks_of_stops stops
  rw [trim, start, dropTrailingBlanks_append solid]

theorem trim_padded {before text after : List Char} (blanksBefore : Blanks before)
    (stops : Stops isBlank (text ++ after)) (solid : EndsSolid text) (blanksAfter : Blanks after) :
    trim (before ++ (text ++ after)) = text := by
  rw [trim, skipBlanks_blanks blanksBefore stops, dropTrailingBlanks_append solid,
    dropTrailingBlanks_blanks blanksAfter, List.append_nil]

theorem trim_split (text : List Char) :
    ∃ before after, Blanks before ∧ Blanks after ∧ skipBlanks text = trim text ++ after ∧
      text = before ++ (trim text ++ after) := by
  obtain ⟨before, blanksBefore, textEq⟩ := skipBlanks_split text
  obtain ⟨after, blanksAfter, startEq⟩ := dropTrailingBlanks_split (skipBlanks text)
  refine ⟨before, after, blanksBefore, blanksAfter, startEq, ?_⟩
  rw [trim, ← startEq]
  exact textEq

theorem trim_isEmpty (text : List Char) : (trim text).isEmpty = isBlankText text := by
  rw [Bool.eq_iff_iff, isBlankText, List.all_eq_true, List.isEmpty_iff]
  constructor
  · intro empty
    obtain ⟨before, after, blanksBefore, blanksAfter, _, textEq⟩ := trim_split text
    rw [textEq, empty, List.nil_append]
    exact blanks_append blanksBefore blanksAfter
  · intro blanks
    have skipped : skipBlanks text = [] := by
      simpa using skipBlanks_blanks blanks (stops_nil isBlank)
    rw [trim, skipped]
    rfl

theorem dropTrailingBlanks_twice (text : List Char) :
    dropTrailingBlanks (dropTrailingBlanks text) = dropTrailingBlanks text := by
  have again : skipBlanks (text.reverse.dropWhile isBlank) = text.reverse.dropWhile isBlank :=
    skipBlanks_of_stops (stops_dropWhile isBlank text.reverse)
  rw [dropTrailingBlanks, dropTrailingBlanks, List.reverse_reverse, ← skipBlanks, again]

theorem trim_trim (text : List Char) : trim (trim text) = trim text := by
  obtain ⟨before, after, _, _, startEq, _⟩ := trim_split text
  have stops : Stops isBlank (trim text) := by
    have start : Stops isBlank (trim text ++ after) := startEq ▸ stops_dropWhile isBlank text
    cases trimmed : trim text with
    | nil => exact stops_nil isBlank
    | cons c rest =>
        rw [trimmed, List.cons_append, stops_cons] at start
        exact (stops_cons _ _ _).mpr start
  have begun : skipBlanks (trim text) = trim text := skipBlanks_of_stops stops
  rw [trim, begun, trim, dropTrailingBlanks_twice]

end QueryOptions.Text
