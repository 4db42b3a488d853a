import GuestMemory.Action
import GuestMemory.Proofs.Checked

/-!
Taking actions apart. An action that ended in an answer went through answers of all its steps; one
that ended in a refusal went through answers up to the step that refused.
-/

namespace GuestMemory

variable {σ τ α β : Type}

namespace Outcome

/-- The state that an outcome leaves; there is none after a fault. -/
def state? : Outcome σ α → Option σ
  | .done _ state => some state
  | .refused _ state => some state
  | .fault _ => none

theorem state?_eq_some {outcome : Outcome σ α} {state : σ} :
    outcome.state? = some state ↔
      (∃ value, outcome = .done value state) ∨ ∃ cause, outcome = .refused cause state := by
  cases outcome <;> simp [state?]

/-- Why an outcome is a refusal, if it is one. -/
def refusal? : Outcome σ α → Option Refusal
  | .refused cause _ => some cause
  | _ => none

theorem refusal?_eq_some {outcome : Outcome σ α} {cause : Refusal} :
    outcome.refusal? = some cause ↔ ∃ state, outcome = .refused cause state := by
  cases outcome <;> simp [refusal?]

/-- What stopped an outcome, if something did. -/
def fault? : Outcome σ α → Option Fault
  | .done _ _ => none
  | .refused _ _ => none
  | .fault cause => some cause

theorem fault?_eq_some {outcome : Outcome σ α} {cause : Fault} :
    outcome.fault? = some cause ↔ outcome = .fault cause := by
  cases outcome <;> simp [fault?]

end Outcome

namespace Action

variable {state after : σ} {value : α} {result : β} {cause refusal : Refusal}

theorem bind_eq_done {action : Action σ α} {next : α → Action σ β} :
    (action >>= next) state = .done result after ↔
      ∃ value middle, action state = .done value middle ∧
        next value middle = .done result after := by
  rw [bind_apply]
  cases action state <;> simp

theorem bind_exists {action : Action σ α} {next : α → Action σ β} {value : α} {middle : σ}
    (done : action state = .done value middle)
    (answered : ∃ after, next value middle = .done result after) :
    ∃ after, (action >>= next) state = .done result after :=
  answered.imp fun _ ended => bind_eq_done.mpr ⟨value, middle, done, ended⟩

theorem pure_eq_done {answer : α} :
    (pure answer : Action σ α) state = .done value after ↔ answer = value ∧ state = after := by
  rw [pure_apply, Outcome.done.injEq]

theorem refuse_ne_done : (refuse cause : Action σ α) state ≠ .done value after := by
  simp

theorem require_eq_done {condition : Bool} {answer : Unit} :
    require condition cause state = .done answer after ↔ condition = true ∧ state = after := by
  cases condition <;> simp

theorem expect_eq_done {answer : Option α} :
    expect answer cause state = .done value after ↔ answer = some value ∧ state = after := by
  cases answer <;> simp

theorem read_eq_done {view : σ → α} :
    read view state = .done value after ↔ view state = value ∧ state = after := by
  rw [read_apply, Outcome.done.injEq]

theorem check_eq_done {computation : Checked α} :
    check computation state = .done value after ↔ computation = .ok value ∧ state = after := by
  cases computation <;> simp

theorem inspect_eq_done {view : σ → Checked α} :
    inspect view state = .done value after ↔ view state = .ok value ∧ state = after := by
  rw [inspect_apply, check_eq_done]

theorem update_eq_done {change : σ → Checked σ} {answer : Unit} :
    update change state = .done answer after ↔ change state = .ok after := by
  rw [update]
  cases change state <;> simp

theorem focus_eq_done {view : τ → σ} {replace : τ → σ → τ} {action : Action σ α}
    {whole final : τ} :
    focus view replace action whole = .done value final ↔
      ∃ part, action (view whole) = .done value part ∧ replace whole part = final := by
  rw [focus]
  cases action (view whole) <;> simp

theorem ensuring_eq_done {cleanup : σ → Checked σ} {action : Action σ α} :
    ensuring cleanup action state = .done value after ↔
      ∃ middle, action state = .done value middle ∧ cleanup middle = .ok after := by
  rw [ensuring]
  cases action state with
  | done answer middle => cases ended : cleanup middle <;> simp [ended]
  | refused cause middle => cases ended : cleanup middle <;> simp [ended]
  | fault fault => simp

theorem onRefusal_eq_done {cleanup : σ → Checked σ} {action : Action σ α} :
    onRefusal action cleanup state = .done value after ↔ action state = .done value after := by
  rw [onRefusal]
  cases action state with
  | refused cause middle => cases ended : cleanup middle <;> simp [ended]
  | _ => simp

/-- Ends in an answer where the action does and where it refuses, after which one can go on. -/
def settle (ofValue : α → β) (ofRefusal : Refusal → β) (action : Action σ α) : Action σ β :=
  fun state =>
    match action state with
    | .done value after => .done (ofValue value) after
    | .refused cause after => .done (ofRefusal cause) after
    | .fault fault => .fault fault

theorem settle_eq_done {ofValue : α → β} {ofRefusal : Refusal → β} {action : Action σ α} :
    settle ofValue ofRefusal action state = .done result after ↔
      (∃ value, action state = .done value after ∧ ofValue value = result) ∨
        ∃ cause, action state = .refused cause after ∧ ofRefusal cause = result := by
  rw [settle]
  cases action state <;> simp [and_comm]

section mapM

variable {γ : Type} {run : γ → Action σ α} {request : γ} {requests later : List γ}
variable {answers : List α} {middle : σ}

theorem mapM_nil_eq_done :
    [].mapM run state = .done answers after ↔ answers = [] ∧ state = after := by
  rw [List.mapM_nil, pure_eq_done]
  exact and_congr_left fun _ => eq_comm

theorem mapM_cons_eq_done :
    (request :: requests).mapM run state = .done answers after ↔
      ∃ answer middle rest, run request state = .done answer middle ∧
        requests.mapM run middle = .done rest after ∧ answers = answer :: rest := by
  simp only [List.mapM_cons, bind_eq_done, pure_eq_done]
  constructor
  · rintro ⟨answer, middle, first, rest, last, others, rfl, rfl⟩
    exact ⟨answer, middle, rest, first, others, rfl⟩
  · rintro ⟨answer, middle, rest, first, others, rfl⟩
    exact ⟨answer, middle, first, rest, after, others, rfl, rfl⟩

/-- If each request of a list takes the state along with a step of a model, the list takes it along
with these steps, one after another. -/
theorem mapM_simulates {Model : Type} {Represents : σ → Model → Prop}
    {Step : Model → γ → α → Model → Prop} {Run : Model → List γ → List α → Model → Prop}
    (nil : ∀ model, Run model [] [] model)
    (cons : ∀ {model next final request answer requests answers},
      Step model request answer next → Run next requests answers final →
        Run model (request :: requests) (answer :: answers) final)
    (simulates : ∀ {state after model request answer}, Represents state model →
      run request state = .done answer after →
        ∃ next, Step model request answer next ∧ Represents after next)
    {model : Model} (represents : Represents state model)
    (ran : requests.mapM run state = .done answers after) :
    ∃ final, Run model requests answers final ∧ Represents after final := by
  induction requests generalizing state model answers with
  | nil =>
      obtain ⟨rfl, rfl⟩ := mapM_nil_eq_done.mp ran
      exact ⟨model, nil model, represents⟩
  | cons request requests ih =>
      obtain ⟨answer, middle, rest, served, others, rfl⟩ := mapM_cons_eq_done.mp ran
      obtain ⟨next, step, represents⟩ := simulates represents served
      obtain ⟨final, steps, represents⟩ := ih represents others
      exact ⟨final, cons step steps, represents⟩

theorem mapM_append_eq_done :
    (requests ++ later).mapM run state = .done answers after ↔
      ∃ first middle rest, requests.mapM run state = .done first middle ∧
        later.mapM run middle = .done rest after ∧ answers = first ++ rest := by
  simp only [List.mapM_append, bind_eq_done, pure_eq_done]
  constructor
  · rintro ⟨first, middle, earlier, rest, last, others, rfl, rfl⟩
    exact ⟨first, middle, rest, earlier, others, rfl⟩
  · rintro ⟨first, middle, rest, earlier, others, rfl⟩
    exact ⟨first, middle, earlier, rest, after, others, rfl, rfl⟩

end mapM

theorem bind_eq_refused {action : Action σ α} {next : α → Action σ β} :
    (action >>= next) state = .refused cause after ↔
      action state = .refused cause after ∨
        ∃ value middle, action state = .done value middle ∧
          next value middle = .refused cause after := by
  rw [bind_apply]
  cases action state <;> simp

theorem onRefusal_eq_refused {cleanup : σ → Checked σ} {action : Action σ α} :
    onRefusal action cleanup state = .refused cause after ↔
      ∃ middle, action state = .refused cause middle ∧ cleanup middle = .ok after := by
  rw [onRefusal]
  cases action state with
  | refused other middle => cases ended : cleanup middle <;> simp [ended]
  | _ => simp

theorem ensuring_eq_refused {cleanup : σ → Checked σ} {action : Action σ α} :
    ensuring cleanup action state = .refused cause after ↔
      ∃ middle, action state = .refused cause middle ∧ cleanup middle = .ok after := by
  rw [ensuring]
  cases action state with
  | done answer middle => cases ended : cleanup middle <;> simp [ended]
  | refused other middle => cases ended : cleanup middle <;> simp [ended]
  | fault fault => simp

theorem focus_eq_refused {view : τ → σ} {replace : τ → σ → τ} {action : Action σ α}
    {whole final : τ} :
    focus view replace action whole = .refused cause final ↔
      ∃ part, action (view whole) = .refused cause part ∧ replace whole part = final := by
  rw [focus]
  cases action (view whole) <;> simp

end Action

end GuestMemory
