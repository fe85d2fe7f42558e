import QueryOptions.OrderBy
import QueryOptions.Proofs.Outcome
import QueryOptions.Proofs.Text.Word
import QueryOptions.Select

/-!
Where the faults of a text lie. A reader leaves a tail of the text, and a fault starts a tail of it,
so that its position stands between two characters of the text.
-/

namespace QueryOptions

namespace Text

def Trails (text : List Char) : Except Fault (α × List Char) → Prop
  | .ok (_, rest) => rest <:+ text
  | .error fault => fault.rest <:+ text

theorem skipBlanks_suffix (text : List Char) : skipBlanks text <:+ text :=
  List.dropWhile_suffix isBlank

theorem Trails.mono {text whole : List Char} {result : Except Fault (α × List Char)}
    (trails : Trails text result) (tail : text <:+ whole) : Trails whole result := by
  cases result with
  | error fault => exact List.IsSuffix.trans trails tail
  | ok found => exact List.IsSuffix.trans trails tail

theorem Trails.bind {text : List Char} {first : Except Fault (α × List Char)}
    {next : α × List Char → Except Fault (β × List Char)} (trails : Trails text first)
    (trailsNext : ∀ value rest, Trails rest (next (value, rest))) :
    Trails text (first >>= next) := by
  cases first with
  | error fault => exact trails
  | ok found => exact (trailsNext found.1 found.2).mono trails

theorem trails_readProperty (text : List Char) : Trails text (readProperty text) := by
  rw [readProperty]
  split
  · rename_i found taken
    obtain ⟨textEq, _⟩ := takeName?_eq_some taken
    exact ⟨found.1, textEq.symm⟩
  · exact List.suffix_refl text

theorem fault_readItems {readItem : List Char → Except Fault (α × List Char)}
    (trails : ∀ text, Trails text (readItem text)) {fuel : Nat} {text : List Char} {fault : Fault}
    (failed : readItems readItem fuel text = .error fault) : fault.rest <:+ text := by
  induction fuel generalizing text with
  | zero =>
      cases failed
      exact List.suffix_refl text
  | succ fuel ih =>
      have item := trails text
      rcases Outcome.bind_eq_error.mp failed with first | ⟨⟨value, rest⟩, read, later⟩
      · rwa [first] at item
      · rw [read] at item
        dsimp only at later
        split at later
        · contradiction
        · rename_i tail
          have behind : tail <:+ text := (List.suffix_cons ',' tail).trans item
          exact (ih (Outcome.map_eq_error.mp later)).trans behind
        · cases later
          exact item

theorem fault_readCommaList {readItem : List Char → Except Fault (α × List Char)}
    (trails : ∀ text, Trails text (readItem text)) {text : List Char} {fault : Fault}
    (failed : readCommaList readItem text = .error fault) : fault.rest <:+ text := by
  rw [readCommaList] at failed
  split at failed
  · contradiction
  · exact fault_readItems trails failed

theorem byteLength_eq (text : List Char) : byteLength text = (String.ofList text).utf8ByteSize := by
  induction text with
  | nil => rfl
  | cons c text ih =>
      rw [byteLength, ih, ← List.singleton_append, String.ofList_append, String.utf8ByteSize_append]
      simp

end Text

namespace OrderBy

open Text (Trails skipBlanks)

theorem trails_readDirection (text : List Char) : Trails text (readDirection text) := by
  rw [readDirection]
  split
  · exact List.suffix_refl text
  · split
    · exact List.suffix_refl text
    · rename_i word rest taken
      obtain ⟨textEq, _⟩ := Text.takeName?_eq_some taken
      have behind : skipBlanks rest <:+ text :=
        (Text.skipBlanks_suffix rest).trans ⟨word, textEq.symm⟩
      split
      · exact behind
      · split
        · exact behind
        · exact List.suffix_refl text

theorem trails_readItem (text : List Char) : Trails text (readItem text) := by
  have start := (Text.trails_readProperty (skipBlanks text)).mono (Text.skipBlanks_suffix text)
  refine start.bind fun property rest => ?_
  have direction := (trails_readDirection (skipBlanks rest)).mono (Text.skipBlanks_suffix rest)
  exact direction.bind fun direction rest => List.suffix_refl rest

end OrderBy

theorem Select.trails_readItem (text : List Char) : Text.Trails text (readItem text) := by
  have start := (Text.trails_readProperty (Text.skipBlanks text)).mono (Text.skipBlanks_suffix text)
  exact start.bind fun property rest => Text.skipBlanks_suffix rest

/-- The error shows the text itself, and a place between two characters of it. -/
structure Error.PointsInto (text : String) (position : Nat) (input : String) : Prop where
  whole : input = text
  within : position ≤ text.utf8ByteSize
  boundary : (String.Pos.Raw.mk position).IsValid text

theorem Error.pointsInto_append (before after : String) :
    PointsInto (before ++ after) before.utf8ByteSize (before ++ after) where
  whole := rfl
  within := by
    rw [String.utf8ByteSize_append]
    exact Nat.le_add_right _ _
  boundary := String.Pos.Raw.isValid_iff_exists_append.mpr ⟨before, after, rfl, rfl⟩

theorem Error.PointsInto.inside {text input : String} {position : Nat}
    (points : PointsInto text position input) (before after : String) :
    PointsInto (before ++ text ++ after) (before.utf8ByteSize + position)
      (before ++ text ++ after) := by
  obtain ⟨left, right, rfl, placeEq⟩ := String.Pos.Raw.isValid_iff_exists_append.mp points.boundary
  cases placeEq
  have wholeEq : before ++ (left ++ right) ++ after = (before ++ left) ++ (right ++ after) := by
    simp only [String.append_assoc]
  rw [wholeEq, ← String.utf8ByteSize_append]
  exact pointsInto_append _ _

theorem Text.Fault.toError_eq (fault : Text.Fault) {text before : String}
    (split : text = before ++ String.ofList fault.rest) :
    fault.toError text.toList = .malformed fault.complaint.message before.utf8ByteSize text := by
  have place : fault.position text.toList = before.utf8ByteSize := by
    rw [Text.Fault.position, split, String.toList_append, String.toList_ofList,
      Text.offsetOf_append, Text.byteLength_eq, String.ofList_toList]
  rw [Text.Fault.toError, place, String.ofList_toList]

theorem Text.Fault.pointsInto {text : String} {fault : Text.Fault}
    (tail : fault.rest <:+ text.toList) {message input : String} {position : Nat}
    (reported : fault.toError text.toList = .malformed message position input) :
    Error.PointsInto text position input := by
  obtain ⟨before, textEq⟩ := tail
  have split : text = String.ofList before ++ String.ofList fault.rest := by
    rw [← String.ofList_append, textEq, String.ofList_toList]
  rw [fault.toError_eq split] at reported
  cases reported
  rw [split]
  exact Error.pointsInto_append _ _

theorem Text.pointsInto_of_readCommaList {readItem : List Char → Except Fault (α × List Char)}
    (trails : ∀ text, Trails text (readItem text)) {text message input : String} {position : Nat}
    (failed : (readCommaList readItem text.toList).mapError (Fault.toError text.toList) =
      .error (.malformed message position input)) : Error.PointsInto text position input := by
  obtain ⟨fault, read, reported⟩ := Outcome.mapError_eq_error.mp failed
  exact Fault.pointsInto (fault_readCommaList trails read) reported

end QueryOptions
