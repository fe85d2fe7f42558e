import QueryOptions.Error

/-!
Computations that keep what they have learnt. The state may hold more or less of it; as long as what
it holds is right, a computation has one answer, whatever was asked before.
-/

namespace QueryOptions

structure Memory (σ : Type) where
  start : σ
  Right : σ → Prop
  start_right : Right start

namespace Memory

variable {σ : Type} {memory : Memory σ}

/-- Wherever the memory is right, the computation has this result and leaves the memory right. -/
def Answers (memory : Memory σ) (action : ExceptT Error (StateM σ) α)
    (result : Except Error α) : Prop :=
  ∀ state, memory.Right state →
    (action.run.run state).1 = result ∧ memory.Right (action.run.run state).2

theorem run_bind (first : ExceptT Error (StateM σ) α) (next : α → ExceptT Error (StateM σ) β)
    (state : σ) :
    (first >>= next).run.run state =
      match first.run.run state with
      | (.ok value, later) => (next value).run.run later
      | (.error error, later) => (.error error, later) := by
  simp only [ExceptT.run_bind, StateT.run_bind]
  cases outcome : first.run.run state with
  | mk result later => cases result <;> rfl

theorem answers_ofExcept (result : Except Error α) :
    memory.Answers (ExceptT.mk (pure result)) result :=
  fun _ right => ⟨rfl, right⟩

theorem answers_pure (value : α) : memory.Answers (pure value) (.ok value) :=
  answers_ofExcept (.ok value)

theorem answers_throw (error : Error) :
    memory.Answers (throw error : ExceptT Error (StateM σ) α) (.error error) :=
  answers_ofExcept (.error error)

theorem Answers.bind {first : ExceptT Error (StateM σ) α} {result : Except Error α}
    {next : α → ExceptT Error (StateM σ) β} {following : α → Except Error β}
    (answersFirst : memory.Answers first result)
    (answersNext : ∀ value, result = .ok value → memory.Answers (next value) (following value)) :
    memory.Answers (first >>= next) (result >>= following) := by
  intro state right
  obtain ⟨same, later⟩ := answersFirst state right
  rw [run_bind]
  cases outcome : first.run.run state with
  | mk found middle =>
      rw [outcome] at same later
      subst same
      cases found with
      | error error => exact ⟨rfl, later⟩
      | ok value => exact answersNext value rfl middle later

theorem Answers.bind_ok {first : ExceptT Error (StateM σ) α} {value : α}
    {next : α → ExceptT Error (StateM σ) β} {result : Except Error β}
    (answersFirst : memory.Answers first (.ok value))
    (answersNext : memory.Answers (next value) result) :
    memory.Answers (first >>= next) result := by
  have both : memory.Answers (first >>= next) (.ok value >>= fun _ => result) := by
    apply answersFirst.bind
    intro other same
    cases same
    exact answersNext
  exact both

theorem answers_get_bind {next : σ → ExceptT Error (StateM σ) α} {result : Except Error α}
    (answersNext : ∀ state, memory.Right state → memory.Answers (next state) result) :
    memory.Answers (get >>= next) result :=
  fun state right => answersNext state right state right

theorem answers_modify {change : σ → σ}
    (keeps : ∀ state, memory.Right state → memory.Right (change state)) :
    memory.Answers (modify change) (.ok ⟨⟩) :=
  fun state right => ⟨rfl, keeps state right⟩

/-- Wherever the memory is right it stays right, and what the computation returns, if it returns
anything, has the property. -/
def Yields (memory : Memory σ) (action : ExceptT Error (StateM σ) α) (property : α → Prop) : Prop :=
  ∀ state, memory.Right state → memory.Right (action.run.run state).2 ∧
    ∀ value, (action.run.run state).1 = .ok value → property value

theorem yields_ofExcept {result : Except Error α} {property : α → Prop}
    (holds : ∀ value, result = .ok value → property value) :
    memory.Yields (ExceptT.mk (pure result)) property :=
  fun _ right => ⟨right, holds⟩

theorem yields_pure {value : α} {property : α → Prop} (holds : property value) :
    memory.Yields (pure value) property :=
  yields_ofExcept fun other same => by cases same; exact holds

theorem Yields.bind {first : ExceptT Error (StateM σ) α} {middle : α → Prop}
    {next : α → ExceptT Error (StateM σ) β} {property : β → Prop}
    (yieldsFirst : memory.Yields first middle)
    (yieldsNext : ∀ value, middle value → memory.Yields (next value) property) :
    memory.Yields (first >>= next) property := by
  intro state right
  obtain ⟨later, holds⟩ := yieldsFirst state right
  rw [run_bind]
  cases outcome : first.run.run state with
  | mk found between =>
      rw [outcome] at later holds
      cases found with
      | error error => exact ⟨later, fun value same => nomatch same⟩
      | ok value => exact yieldsNext value (holds value rfl) between later

theorem yields_get_bind {next : σ → ExceptT Error (StateM σ) α} {property : α → Prop}
    (yieldsNext : ∀ state, memory.Right state → memory.Yields (next state) property) :
    memory.Yields (get >>= next) property :=
  fun state right => yieldsNext state right state right

theorem yields_modify {change : σ → σ}
    (keeps : ∀ state, memory.Right state → memory.Right (change state)) :
    memory.Yields (modify change) fun _ => True :=
  fun state right => ⟨keeps state right, fun _ _ => trivial⟩

end Memory

end QueryOptions
