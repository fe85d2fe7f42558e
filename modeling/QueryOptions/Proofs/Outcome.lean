import Mathlib.Data.List.Forall2

/-! How a computation that may fail comes to succeed, and where it fails if it does not. -/

namespace QueryOptions.Outcome

theorem bind_eq_ok {first : Except ε α} {next : α → Except ε β} {result : β} :
    (first >>= next) = .ok result ↔ ∃ value, first = .ok value ∧ next value = .ok result := by
  cases first with
  | error error => simp [bind, Except.bind]
  | ok value => simp [bind, Except.bind]

theorem bind_eq_error {first : Except ε α} {next : α → Except ε β} {error : ε} :
    (first >>= next) = .error error ↔
      first = .error error ∨ ∃ value, first = .ok value ∧ next value = .error error := by
  cases first with
  | error error => simp [bind, Except.bind]
  | ok value => simp [bind, Except.bind]

theorem map_eq_ok {outcome : Except ε α} {change : α → β} {result : β} :
    outcome.map change = .ok result ↔ ∃ value, outcome = .ok value ∧ change value = result := by
  cases outcome with
  | error error => simp [Except.map]
  | ok value => simp [Except.map]

theorem map_eq_error {outcome : Except ε α} {change : α → β} {error : ε} :
    outcome.map change = .error error ↔ outcome = .error error := by
  cases outcome with
  | error other => simp [Except.map]
  | ok value => simp [Except.map]

theorem mapError_ok (value : α) (change : ε → δ) :
    (Except.ok value).mapError change = .ok value :=
  rfl

theorem mapError_eq_ok {outcome : Except ε α} {change : ε → δ} {result : α} :
    outcome.mapError change = .ok result ↔ outcome = .ok result := by
  cases outcome with
  | error error => exact ⟨nofun, nofun⟩
  | ok value => simp only [mapError_ok, Except.ok.injEq]

theorem mapError_error (cause : ε) (change : ε → δ) :
    (Except.error cause : Except ε α).mapError change = .error (change cause) :=
  rfl

theorem mapError_eq_error {outcome : Except ε α} {change : ε → δ} {error : δ} :
    outcome.mapError change = .error error ↔
      ∃ cause, outcome = .error cause ∧ change cause = error := by
  cases outcome with
  | error cause => simp only [mapError_error, Except.error.injEq, exists_eq_left']
  | ok value => exact ⟨nofun, nofun⟩

instance decidableFails [DecidableEq ε] :
    (outcome : Except ε α) → (error : ε) → Decidable (outcome = .error error)
  | .ok _, _ => isFalse nofun
  | .error cause, error =>
      decidable_of_iff (cause = error) (Except.error.injEq cause error).symm.to_iff

instance decidableSucceeds [DecidableEq α] :
    (outcome : Except ε α) → (value : α) → Decidable (outcome = .ok value)
  | .error _, _ => isFalse nofun
  | .ok found, value => decidable_of_iff (found = value) (Except.ok.injEq found value).symm.to_iff

theorem toOption_any {outcome : Except ε α} {test : α → Bool}
    (passed : outcome.toOption.any test = true) :
    ∃ value, outcome = .ok value ∧ test value = true := by
  cases outcome with
  | error error => simp [Except.toOption] at passed
  | ok value => exact ⟨value, rfl, by simpa [Except.toOption] using passed⟩

theorem forM_eq_ok {items : List α} {check : α → Except ε PUnit} :
    items.forM check = .ok ⟨⟩ ↔ ∀ item ∈ items, check item = .ok ⟨⟩ := by
  induction items with
  | nil => simp [List.forM, pure, Except.pure]
  | cons item items ih =>
      rw [List.forM, bind_eq_ok, List.forall_mem_cons, ih]
      constructor
      · rintro ⟨_, first, rest⟩
        exact ⟨first, rest⟩
      · rintro ⟨first, rest⟩
        exact ⟨⟨⟩, first, rest⟩

theorem forM_eq_error {items : List α} {check : α → Except ε PUnit} {error : ε}
    (failed : items.forM check = .error error) : ∃ item ∈ items, check item = .error error := by
  induction items with
  | nil => contradiction
  | cons item items ih =>
      rw [List.forM] at failed
      rcases bind_eq_error.mp failed with first | ⟨_, _, rest⟩
      · exact ⟨item, by simp, first⟩
      · obtain ⟨other, member, failed⟩ := ih rest
        exact ⟨other, by simp [member], failed⟩

theorem foldlM_keeps {invariant : β → Prop} {step : β → α → Except ε β} {items : List α}
    (keeps : ∀ state, ∀ item ∈ items, ∀ next, invariant state → step state item = .ok next →
      invariant next)
    {start last : β} (holds : invariant start) (run : items.foldlM step start = .ok last) :
    invariant last := by
  induction items generalizing start with
  | nil =>
      simp only [List.foldlM_nil, pure, Except.pure, Except.ok.injEq] at run
      exact run ▸ holds
  | cons item items ih =>
      rw [List.foldlM_cons] at run
      obtain ⟨next, first, rest⟩ := bind_eq_ok.mp run
      have later : ∀ state, ∀ item ∈ items, ∀ next, invariant state → step state item = .ok next →
          invariant next :=
        fun state item member => keeps state item (by simp [member])
      exact ih later (keeps start item (by simp) next holds first) rest

theorem mapM_eq_ok {convert : α → Except ε β} {items : List α} {results : List β} :
    items.mapM convert = .ok results ↔
      List.Forall₂ (fun item result => convert item = .ok result) items results := by
  induction items generalizing results with
  | nil => simp [pure, Except.pure, eq_comm]
  | cons item items ih =>
      rw [List.mapM_cons, bind_eq_ok, List.forall₂_cons_left_iff]
      constructor
      · rintro ⟨first, isFirst, converted⟩
        obtain ⟨rest, isRest, converted⟩ := bind_eq_ok.mp converted
        cases converted
        exact ⟨first, rest, isFirst, ih.mp isRest, rfl⟩
      · rintro ⟨first, rest, isFirst, isRest, rfl⟩
        exact ⟨first, isFirst, bind_eq_ok.mpr ⟨rest, ih.mpr isRest, rfl⟩⟩

theorem mapM_all {property : β → Prop} {convert : α → Except ε β} {items : List α}
    (each : ∀ item ∈ items, ∀ result, convert item = .ok result → property result)
    {results : List β} (converted : items.mapM convert = .ok results) :
    ∀ result ∈ results, property result := by
  induction items generalizing results with
  | nil =>
      simp only [List.mapM_nil, pure, Except.pure, Except.ok.injEq] at converted
      simp [← converted]
  | cons item items ih =>
      rw [List.mapM_cons] at converted
      obtain ⟨first, isFirst, converted⟩ := bind_eq_ok.mp converted
      obtain ⟨rest, isRest, converted⟩ := bind_eq_ok.mp converted
      simp only [pure, Except.pure, Except.ok.injEq] at converted
      rw [← converted, List.forall_mem_cons]
      refine ⟨each item (by simp) first isFirst, ih ?_ isRest⟩
      exact fun item member => each item (by simp [member])

theorem mapM_eq_error {convert : α → Except ε β} {items : List α} {error : ε}
    (failed : items.mapM convert = .error error) : ∃ item ∈ items, convert item = .error error := by
  induction items with
  | nil => contradiction
  | cons item items ih =>
      rw [List.mapM_cons] at failed
      rcases bind_eq_error.mp failed with first | ⟨_, _, failed⟩
      · exact ⟨item, by simp, first⟩
      · rcases bind_eq_error.mp failed with rest | ⟨_, _, impossible⟩
        · obtain ⟨other, member, failed⟩ := ih rest
          exact ⟨other, by simp [member], failed⟩
        · contradiction

theorem foldlM_eq_error {step : β → α → Except ε β} {items : List α} {start : β} {error : ε}
    (failed : items.foldlM step start = .error error) :
    ∃ state, ∃ item ∈ items, step state item = .error error := by
  induction items generalizing start with
  | nil => contradiction
  | cons item items ih =>
      rw [List.foldlM_cons] at failed
      rcases bind_eq_error.mp failed with first | ⟨next, _, rest⟩
      · exact ⟨start, item, by simp, first⟩
      · obtain ⟨state, other, member, failed⟩ := ih rest
        exact ⟨state, other, by simp [member], failed⟩

end QueryOptions.Outcome
