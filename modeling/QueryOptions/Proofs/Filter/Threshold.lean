import QueryOptions.Proofs.Filter.Rereading

/-!
The limits of the filter reader are thresholds. They never change what a text is read as: one that
is accepted under some limits is read as the same filter under all others that leave room for its
comparisons and its groups, and under the rest it is refused for one of the limits.
-/

namespace QueryOptions.Filter

open Text (Complaint skipBlanks)
open Grammar

def Limits.IsPassed (limits : Limits) (complaint : Complaint) : Prop :=
  complaint = .nestingTooDeep limits.depth ∨ complaint = .tooManyComparisons limits.terms

/-- What the first reading returns the second one returns as well, or it stops at a limit. -/
def Follows (limits : Limits) (first second : Except Failure α) : Prop :=
  ∀ value, first = .ok value → second = .ok value ∨
    ∃ complaint rest, limits.IsPassed complaint ∧ second = fail complaint rest

theorem follows_refl (limits : Limits) (reading : Except Failure α) :
    Follows limits reading reading :=
  fun _ => .inl

theorem follows_fail (limits : Limits) (complaint : Complaint) (rest : List Char)
    (second : Except Failure α) : Follows limits (fail complaint rest) second := by
  intro value read
  simp [fail] at read

theorem follows_passed {limits : Limits} {complaint : Complaint}
    (passed : limits.IsPassed complaint) (first : Except Failure α) (rest : List Char) :
    Follows limits first (fail complaint rest) :=
  fun _ _ => .inr ⟨complaint, rest, passed, rfl⟩

theorem Follows.bind {limits : Limits} {first second : Except Failure α}
    {next later : α → Except Failure β} (follows : Follows limits first second)
    (followsNext : ∀ value, Follows limits (next value) (later value)) :
    Follows limits (first >>= next) (second >>= later) := by
  intro result read
  obtain ⟨value, readFirst, readNext⟩ := Outcome.bind_eq_ok.mp read
  rcases follows value readFirst with same | ⟨complaint, rest, passed, stopped⟩
  · rw [same]
    exact followsNext value result readNext
  · refine .inr ⟨complaint, rest, passed, ?_⟩
    rw [stopped]
    rfl

section
variable (wide limits : Limits) {fuel : Nat}

theorem readTerm_follows
    (terms : ∀ depth count text,
      Follows limits (readTerm wide fuel depth count text) (readTerm limits fuel depth count text))
    (chains : ∀ depth count left text, Follows limits (readChain wide fuel depth count left text)
      (readChain limits fuel depth count left text))
    (depth count : Nat) (text : List Char) :
    Follows limits (readTerm wide (fuel + 1) depth count text)
      (readTerm limits (fuel + 1) depth count text) := by
  rw [readTerm, readTerm]
  split
  · by_cases deep : limits.depth ≤ depth
    · rw [if_pos deep]
      exact follows_passed (.inl rfl) _ _
    · rw [if_neg deep]
      by_cases deepest : wide.depth ≤ depth
      · rw [if_pos deepest]
        exact follows_fail _ _ _ _
      · rw [if_neg deepest]
        exact (terms _ _ _).bind fun first => (chains _ _ _ _).bind fun group =>
          follows_refl limits _
  · by_cases many : limits.terms ≤ count
    · rw [if_pos many]
      exact follows_passed (.inr rfl) _ _
    · rw [if_neg many]
      by_cases most : wide.terms ≤ count
      · rw [if_pos most]
        exact follows_fail _ _ _ _
      · rw [if_neg most]
        exact follows_refl limits _

theorem readChain_follows
    (terms : ∀ depth count text,
      Follows limits (readTerm wide fuel depth count text) (readTerm limits fuel depth count text))
    (chains : ∀ depth count left text, Follows limits (readChain wide fuel depth count left text)
      (readChain limits fuel depth count left text))
    (depth count : Nat) (left : Filter) (text : List Char) :
    Follows limits (readChain wide (fuel + 1) depth count left text)
      (readChain limits (fuel + 1) depth count left text) := by
  rw [readChain, readChain]
  split
  · exact follows_refl limits _
  · exact (terms _ _ _).bind fun right => chains _ _ _ _

theorem readers_follow (fuel : Nat) :
    (∀ depth count text,
      Follows limits (readTerm wide fuel depth count text) (readTerm limits fuel depth count text)) ∧
    ∀ depth count left text, Follows limits (readChain wide fuel depth count left text)
      (readChain limits fuel depth count left text) := by
  induction fuel with
  | zero =>
      constructor
      · intro depth count text
        rw [readTerm, readTerm]
        exact follows_refl limits _
      · intro depth count left text
        rw [readChain, readChain]
        exact follows_refl limits _
  | succ fuel ih =>
      exact ⟨readTerm_follows wide limits ih.1 ih.2, readChain_follows wide limits ih.1 ih.2⟩

theorem read_follows (text : List Char) : Follows limits (read wide text) (read limits text) := by
  rw [read, read]
  split
  · exact follows_refl limits _
  · have readers := readers_follow wide limits
    exact ((readers _).1 _ _ _).bind fun first => ((readers _).2 _ _ _ _).bind fun filter =>
      follows_refl limits _

end

/-- The text is read as the filter from some nesting and its number of comparisons on. -/
theorem exists_least_nesting {wide : Limits} {text : List Char} {filter : Filter}
    (found : read wide text = .ok filter) :
    ∃ depth, ∀ limits : Limits, read limits text = .ok filter ↔
      depth ≤ limits.depth ∧ filter.leaves.length ≤ limits.terms := by
  classical
  obtain ⟨comparisons, nesting, derives, _, _⟩ := read_sound found
  have some : ∃ nesting comparisons, DerivesText text filter comparisons nesting :=
    ⟨nesting, comparisons, derives⟩
  have counted : ∀ {comparisons nesting}, DerivesText text filter comparisons nesting →
      comparisons = filter.leaves.length := by
    rintro comparisons nesting ⟨_, _, _, _, _, _, derives⟩
    exact derives.derived.leaves.symm
  refine ⟨Nat.find some, fun limits => ⟨fun accepted => ?_, fun ⟨shallow, few⟩ => ?_⟩⟩
  · obtain ⟨comparisons, nesting, derives, few, shallow⟩ := read_sound accepted
    have least := Nat.find_min' some ⟨comparisons, derives⟩
    rw [counted derives] at few
    exact ⟨least.trans shallow, few⟩
  · obtain ⟨comparisons, derives⟩ := Nat.find_spec some
    rw [← counted derives] at few
    exact read_complete derives few shallow

/-- A text that is a filter under some limits is this filter whenever its comparisons and its groups
are not too many, and otherwise a limit refuses it. -/
theorem limits_are_thresholds (text : String)
    (accepted : ∃ limits filter, parse limits text = .ok filter) :
    ∃ filter depth, ∀ limits : Limits,
      (depth ≤ limits.depth ∧ filter.leaves.length ≤ limits.terms →
        parse limits text = .ok filter) ∧
      (¬(depth ≤ limits.depth ∧ filter.leaves.length ≤ limits.terms) →
        ∃ complaint position, limits.IsPassed complaint ∧
          parse limits text = .error (.malformed complaint.message position text)) ∧
      ∀ found, parse limits text = .ok found → found = filter ∧
        ∀ larger : Limits, limits.depth ≤ larger.depth → limits.terms ≤ larger.terms →
          parse larger text = .ok filter := by
  obtain ⟨wide, filter, parsed⟩ := accepted
  rw [parse, Outcome.mapError_eq_ok] at parsed
  obtain ⟨depth, exact⟩ := exists_least_nesting parsed
  have follows : ∀ limits, Follows limits (read wide text.toList) (read limits text.toList) :=
    fun limits => read_follows wide limits text.toList
  refine ⟨filter, depth, fun limits => ⟨fun room => ?_, fun noRoom => ?_, fun found readFound => ?_⟩⟩
  · rw [parse, Outcome.mapError_eq_ok]
    exact (exact limits).mpr room
  · rcases follows limits filter parsed with same | ⟨complaint, rest, passed, stopped⟩
    · exact absurd ((exact limits).mp same) noRoom
    · refine ⟨complaint, Text.offsetOf text.toList rest, passed, ?_⟩
      rw [parse, stopped, fail, Outcome.mapError_error, Failure.toError, Text.Fault.toError,
        String.ofList_toList]
      rfl
  · rw [parse, Outcome.mapError_eq_ok] at readFound
    have same : found = filter := by
      rcases follows limits filter parsed with same | ⟨complaint, rest, _, stopped⟩
      · exact Except.ok.inj (readFound.symm.trans same)
      · simp [stopped, fail] at readFound
    refine ⟨same, fun larger deeper more => ?_⟩
    obtain ⟨shallow, few⟩ := (exact limits).mp (same ▸ readFound)
    rw [parse, Outcome.mapError_eq_ok]
    exact (exact larger).mpr ⟨shallow.trans deeper, few.trans more⟩

/-- Three comparisons, in groups side by side and within each other. -/
theorem limits_are_thresholds_groups :
    let text := "(a eq 1) and ((b in ['(', ')']) or c eq null)"
    (∃ limits filter, parse limits text = .ok filter) ∧
    ∃ filter depth, ∀ limits : Limits,
      (depth ≤ limits.depth ∧ filter.leaves.length ≤ limits.terms →
        parse limits text = .ok filter) ∧
      (¬(depth ≤ limits.depth ∧ filter.leaves.length ≤ limits.terms) →
        ∃ complaint position, limits.IsPassed complaint ∧
          parse limits text = .error (.malformed complaint.message position text)) := by
  intro text
  have tested : (parse {} text).toOption.any (fun _ => true) = true := by decide +kernel
  obtain ⟨filter, parsed, _⟩ := Outcome.toOption_any tested
  have accepted : ∃ limits filter, parse limits text = .ok filter := ⟨{}, filter, parsed⟩
  obtain ⟨filter, depth, exact⟩ := limits_are_thresholds text accepted
  exact ⟨accepted, filter, depth, fun limits => ⟨(exact limits).1, (exact limits).2.1⟩⟩

end QueryOptions.Filter
