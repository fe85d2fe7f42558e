import QueryOptions.Proofs.Filter.Acceptance
import QueryOptions.Proofs.Text.Placement

/-!
Where the faults of filter text lie. What is read before a fault is derived by the grammar, so that
the reader that fails has started at a tail of the text.
-/

namespace QueryOptions.Filter

open Text (Fault skipBlanks)

theorem fault_readOperator {text : List Char} {fault : Fault}
    (failed : readOperator text = .error (.text fault)) : fault.rest <:+ text := by
  rw [readOperator] at failed
  split at failed
  · cases failed
    exact List.suffix_refl text
  · split at failed
    · split at failed
      · contradiction
      · cases failed
        exact List.suffix_refl text
    · cases failed
      exact List.suffix_refl text

theorem fault_readOperand {text : List Char} {fault : Fault}
    (failed : readOperand text = .error (.text fault)) : fault.rest <:+ text := by
  rw [readOperand] at failed
  split at failed
  · cases failed
    exact List.suffix_refl text
  · rename_i operand rest read
    split at failed
    · contradiction
    · cases failed
      obtain ⟨lexeme, textEq, _⟩ := readLiteral_sound read
      exact ⟨lexeme, textEq.symm⟩

theorem fault_readComparison {text : List Char} {fault : Fault}
    (failed : readComparison text = .error (.text fault)) : fault.rest <:+ text := by
  have property := Text.trails_readProperty text
  rcases Outcome.bind_eq_error.mp failed with first | ⟨⟨name, afterName⟩, readName, failed⟩
  · obtain ⟨cause, read, causeEq⟩ := Outcome.mapError_eq_error.mp first
    cases causeEq
    rwa [read] at property
  · rw [Outcome.mapError_eq_ok.mp readName] at property
    have behindName : skipBlanks afterName <:+ text :=
      (Text.skipBlanks_suffix afterName).trans property
    rcases Outcome.bind_eq_error.mp failed with second | ⟨⟨operator, afterWord⟩, readWord, failed⟩
    · exact (fault_readOperator second).trans behindName
    · obtain ⟨word, wordEq, _⟩ := readOperator_sound readWord
      have afterOperator : afterWord <:+ text :=
        List.IsSuffix.trans ⟨word, wordEq.symm⟩ behindName
      have behindWord : skipBlanks afterWord <:+ text :=
        (Text.skipBlanks_suffix afterWord).trans afterOperator
      rcases Outcome.bind_eq_error.mp failed with third | ⟨⟨operand, rest⟩, _, failed⟩
      · exact (fault_readOperand third).trans behindWord
      · dsimp only at failed
        split at failed
        · cases failed
        · contradiction

theorem fault_readClosing {text : List Char} {fault : Fault}
    (failed : readClosing text = .error (.text fault)) : fault.rest <:+ text := by
  rw [readClosing] at failed
  split at failed
  · contradiction
  · cases failed
    exact Text.skipBlanks_suffix text

def TermFaults (limits : Limits) (fuel : Nat) : Prop :=
  ∀ {depth terms text fault}, depth ≤ limits.depth →
    readTerm limits fuel depth terms text = .error (.text fault) → fault.rest <:+ text

def ChainFaults (limits : Limits) (fuel : Nat) : Prop :=
  ∀ {depth terms left text fault}, depth ≤ limits.depth →
    readChain limits fuel depth terms left text = .error (.text fault) → fault.rest <:+ text

theorem suffix_of_readTerm {limits : Limits} {fuel depth terms total : Nat} {text rest : List Char}
    {filter : Filter} (shallow : depth ≤ limits.depth)
    (read : readTerm limits fuel depth terms text = .ok (filter, total, rest)) : rest <:+ text := by
  obtain ⟨before, lexeme, _, _, rfl, _⟩ := (readers_derive limits fuel).1 shallow read
  rw [← List.append_assoc]
  exact List.suffix_append _ rest

theorem suffix_of_readExpression {limits : Limits} {fuel depth terms total : Nat}
    {text rest : List Char} {filter : Filter} (shallow : depth ≤ limits.depth)
    (read : readExpression limits fuel depth terms text = .ok (filter, total, rest)) :
    rest <:+ text := by
  have readers := readers_derive limits fuel
  obtain ⟨before, lexeme, after, _, _, rfl, _⟩ :=
    readExpression_sound readers.1 readers.2 shallow read
  rw [← List.append_assoc, ← List.append_assoc]
  exact List.suffix_append _ rest

theorem fault_readExpression {limits : Limits} {fuel depth terms : Nat} {text : List Char}
    {fault : Fault} (termFaults : TermFaults limits fuel) (chainFaults : ChainFaults limits fuel)
    (shallow : depth ≤ limits.depth)
    (failed : readExpression limits fuel depth terms text = .error (.text fault)) :
    fault.rest <:+ text := by
  rcases Outcome.bind_eq_error.mp failed with first | ⟨⟨filter, total, rest⟩, read, later⟩
  · exact termFaults shallow first
  · exact (chainFaults shallow later).trans (suffix_of_readTerm shallow read)

theorem termFaults_step {limits : Limits} {fuel : Nat} (termFaults : TermFaults limits fuel)
    (chainFaults : ChainFaults limits fuel) : TermFaults limits (fuel + 1) := by
  intro depth terms text fault shallow failed
  refine List.IsSuffix.trans ?_ (Text.skipBlanks_suffix text)
  obtain ⟨_, step⟩ | ⟨tail, opening, inside, step⟩ | ⟨_, step⟩ | ⟨_, step⟩ :=
    readTerm_cases limits fuel depth terms text <;> rw [step] at failed
  · cases failed
    exact List.suffix_refl _
  · have behind : tail <:+ skipBlanks text := opening ▸ List.suffix_cons '(' tail
    rcases Outcome.bind_eq_error.mp failed with first | ⟨⟨group, total, rest⟩, read, failed⟩
    · exact (fault_readExpression termFaults chainFaults inside first).trans behind
    · rcases Outcome.bind_eq_error.mp failed with closing | ⟨_, _, impossible⟩
      · have insideGroup := suffix_of_readExpression inside read
        exact ((fault_readClosing closing).trans insideGroup).trans behind
      · contradiction
  · cases failed
    exact List.suffix_refl _
  · rcases Outcome.bind_eq_error.mp failed with comparison | ⟨_, _, impossible⟩
    · exact fault_readComparison comparison
    · contradiction

theorem chainFaults_step {limits : Limits} {fuel : Nat} (termFaults : TermFaults limits fuel)
    (chainFaults : ChainFaults limits fuel) : ChainFaults limits (fuel + 1) := by
  intro depth terms left text fault shallow failed
  cases connected : readConnective? (skipBlanks text) with
  | none =>
      rw [readChain_end limits fuel depth terms left connected] at failed
      contradiction
  | some found =>
      obtain ⟨connective, afterWord⟩ := found
      obtain ⟨_, word, wordEq, _⟩ := readConnective?_eq_some connected
      have behind : afterWord <:+ text :=
        List.IsSuffix.trans ⟨word, wordEq.symm⟩ (Text.skipBlanks_suffix text)
      rw [readChain_joined limits fuel depth terms left connected] at failed
      rcases Outcome.bind_eq_error.mp failed with right | ⟨⟨filter, total, rest⟩, read, later⟩
      · exact (termFaults shallow right).trans behind
      · exact ((chainFaults shallow later).trans (suffix_of_readTerm shallow read)).trans behind

theorem readers_fault (limits : Limits) (fuel : Nat) :
    TermFaults limits fuel ∧ ChainFaults limits fuel := by
  induction fuel with
  | zero =>
      constructor
      · intro depth terms text fault _ failed
        cases failed
        exact List.suffix_refl text
      · intro depth terms left text fault _ failed
        cases failed
        exact List.suffix_refl text
  | succ fuel ih => exact ⟨termFaults_step ih.1 ih.2, chainFaults_step ih.1 ih.2⟩

theorem fault_read {limits : Limits} {text : List Char} {fault : Fault}
    (failed : read limits text = .error (.text fault)) : fault.rest <:+ text := by
  by_cases empty : skipBlanks text = []
  · rw [Filter.read, empty] at failed
    cases failed
    exact List.nil_suffix
  · have readers := readers_fault limits ((skipBlanks text).length + 1)
    refine List.IsSuffix.trans ?_ (Text.skipBlanks_suffix text)
    rw [read_eq limits text empty] at failed
    rcases Outcome.bind_eq_error.mp failed with first | ⟨⟨filter, total, rest⟩, read, failed⟩
    · exact fault_readExpression readers.1 readers.2 (Nat.zero_le _) first
    · dsimp only at failed
      split at failed
      · contradiction
      · cases failed
        exact suffix_of_readExpression (Nat.zero_le _) read

theorem pointsInto_of_parse {limits : Limits} {text message input : String} {position : Nat}
    (failed : parse limits text = .error (.malformed message position input)) :
    Error.PointsInto text position input := by
  obtain ⟨failure, read, reported⟩ := Outcome.mapError_eq_error.mp failed
  cases failure with
  | text fault => exact Text.Fault.pointsInto (fault_read read) reported
  | shape property operator fault => contradiction

end QueryOptions.Filter
