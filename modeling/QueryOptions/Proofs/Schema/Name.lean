import Mathlib.Tactic.Common
import QueryOptions.Schema.Name

/-! The names that the naming rules let through: paths of segments, joined by single dots. -/

namespace QueryOptions.Schema

def IsSegmentCharacter (c : Char) : Prop :=
  ('a' ≤ c ∧ c ≤ 'z') ∨ ('A' ≤ c ∧ c ≤ 'Z') ∨ ('0' ≤ c ∧ c ≤ '9') ∨ c = '_'

/-- One or more segments that are not empty, with a dot between neighbours. -/
def IsPath (name : String) : Prop :=
  ∃ segments : List (List Char), segments ≠ [] ∧
    (∀ segment ∈ segments, segment ≠ [] ∧ ∀ c ∈ segment, IsSegmentCharacter c) ∧
    name.toList = ['.'].intercalate segments

theorem isAlphanum_iff {c : Char} :
    c.isAlphanum = true ↔
      ('a' ≤ c ∧ c ≤ 'z') ∨ ('A' ≤ c ∧ c ≤ 'Z') ∨ ('0' ≤ c ∧ c ≤ '9') := by
  have ofBounds : ∀ low high : Char,
      (decide (low ≤ c) && decide (c ≤ high)) = true ↔ low ≤ c ∧ c ≤ high := by simp
  have upper : c.isUpper = true ↔ 'A' ≤ c ∧ c ≤ 'Z' := decide_eq_true_iff
  have lower : c.isLower = true ↔ 'a' ≤ c ∧ c ≤ 'z' := ofBounds 'a' 'z'
  have digit : c.isDigit = true ↔ '0' ≤ c ∧ c ≤ '9' := ofBounds '0' '9'
  have classes : c.isAlphanum = ((c.isUpper || c.isLower) || c.isDigit) := rfl
  rw [classes, Bool.or_eq_true, Bool.or_eq_true, upper, lower, digit, or_assoc, or_left_comm]

theorem isNameCharacter_iff {c : Char} :
    isNameCharacter c = true ↔ IsSegmentCharacter c ∨ c = '.' := by
  rw [isNameCharacter, Bool.or_eq_true, Bool.or_eq_true, isAlphanum_iff, beq_iff_eq, beq_iff_eq,
    IsSegmentCharacter]
  simp only [or_assoc]

theorem not_isSegmentCharacter_dot : ¬ IsSegmentCharacter '.' := by
  simp only [IsSegmentCharacter]
  decide

theorem isPath_iff {name : String} :
    IsPath name ↔ ∀ segment ∈ name.toList.splitOn '.',
      segment ≠ [] ∧ ∀ c ∈ segment, IsSegmentCharacter c := by
  constructor
  · rintro ⟨segments, nonempty, each, joined⟩
    have noDot : ∀ segment ∈ segments, '.' ∉ segment := by
      intro segment member dot
      exact not_isSegmentCharacter_dot ((each segment member).2 '.' dot)
    rwa [joined, List.splitOn_intercalate '.' noDot nonempty]
  · intro each
    exact ⟨_, List.splitOn_ne_nil '.' name.toList, each, (List.intercalate_splitOn '.').symm⟩

theorem all_isNameCharacter_iff {text : List Char} :
    text.all isNameCharacter = true ↔
      ∀ segment ∈ text.splitOn '.', ∀ c ∈ segment, IsSegmentCharacter c := by
  induction text with
  | nil => simp
  | cons c text ih =>
      rw [List.all_cons, Bool.and_eq_true, isNameCharacter_iff, ih,
        List.splitOn_cons_eq_if_modifyHead]
      obtain ⟨first, others, pieces⟩ := List.exists_cons_of_ne_nil (List.splitOn_ne_nil '.' text)
      by_cases dot : c = '.'
      · simp [dot]
      · simp [dot, pieces, and_assoc]

theorem hasEmptySegment_iff {atStart : Bool} {text : List Char} :
    hasEmptySegment atStart text = true ↔
      atStart = true ∧ (text.splitOn '.').head? = some [] ∨ [] ∈ (text.splitOn '.').tail := by
  induction text generalizing atStart with
  | nil => simp [hasEmptySegment]
  | cons c text ih =>
      rw [hasEmptySegment, List.splitOn_cons_eq_if_modifyHead]
      obtain ⟨first, others, pieces⟩ := List.exists_cons_of_ne_nil (List.splitOn_ne_nil '.' text)
      by_cases dot : c = '.' <;> simp [dot, ih, pieces]

theorem nameFault?_eq_none_iff {name : String} : nameFault? name = none ↔ IsPath name := by
  have noneEmpty : hasEmptySegment true name.toList = false ↔ [] ∉ name.toList.splitOn '.' := by
    obtain ⟨first, others, pieces⟩ :=
      List.exists_cons_of_ne_nil (List.splitOn_ne_nil '.' name.toList)
    rw [← Bool.not_eq_true, hasEmptySegment_iff, pieces]
    simp
  have named : hasEmptySegment true name.toList = false → name.isEmpty = false := by
    intro segments
    rw [← Bool.not_eq_true, String.isEmpty_iff]
    rintro rfl
    contradiction
  rw [isPath_iff]
  constructor
  · intro noFault
    rw [nameFault?] at noFault
    split_ifs at noFault with empty bad gap
    rw [Bool.not_eq_true, noneEmpty] at gap
    rw [Bool.not_eq_true, Bool.not_eq_false', all_isNameCharacter_iff] at bad
    intro segment member
    refine ⟨?_, bad segment member⟩
    rintro rfl
    exact gap member
  · intro each
    have gap := noneEmpty.mpr fun member => (each [] member).1 rfl
    have good := all_isNameCharacter_iff.mpr fun segment member => (each segment member).2
    simp [nameFault?, named gap, good, gap]

theorem checkName_eq_ok_iff {name : String} : checkName name = .ok () ↔ IsPath name := by
  rw [← nameFault?_eq_none_iff, checkName]
  cases nameFault? name <;> simp

end QueryOptions.Schema
