import GuestMemory.Refusal

/-!
Actions: computations on a state that end in an answer, in a refusal or in a fault. A refusal
hands the state back like an answer does, so that it can be said what a refused request has
changed; a fault leaves no state.
-/

namespace GuestMemory

/-- How an action ended. -/
inductive Outcome (σ α : Type) where
  | done (value : α) (state : σ)
  | refused (cause : Refusal) (state : σ)
  | fault (fault : Fault)

namespace Outcome

variable {σ α : Type}

/-- The number that a guest receives for an outcome; there is none after a fault. -/
def code? : Outcome σ α → Option ResultCode
  | .done _ _ => some .success
  | .refused cause _ => some cause.error.code
  | .fault _ => none

/-- What an outcome leaves in the log, given what an answer does. -/
def records (ofAnswer : α → List Record) : Outcome σ α → List Record
  | .done value _ => ofAnswer value
  | .refused cause _ => cause.records
  | .fault cause => cause.records

end Outcome

/-- A computation on states `σ` with answers `α`. -/
def Action (σ α : Type) := σ → Outcome σ α

namespace Action

variable {σ τ α β : Type}

/-- Lets `next` go on with an answer. -/
def andThen (action : Action σ α) (next : α → Action σ β) : Action σ β := fun state =>
  match action state with
  | .done value after => next value after
  | .refused cause after => .refused cause after
  | .fault fault => .fault fault

instance : Monad (Action σ) where
  pure value := fun state => .done value state
  bind := andThen

def refuse (cause : Refusal) : Action σ α := fun state =>
  .refused cause state

/-- Turns the request down unless the condition holds. -/
def require (condition : Bool) (cause : Refusal) : Action σ Unit :=
  if condition then pure () else refuse cause

/-- Answers with what is there, and turns the request down if nothing is. -/
def expect (answer : Option α) (cause : Refusal) : Action σ α :=
  match answer with
  | some value => pure value
  | none => refuse cause

def read (view : σ → α) : Action σ α := fun state =>
  .done (view state) state

/-- Computes something that a fault may stop; the state stays. -/
def check (computation : Checked α) : Action σ α := fun state =>
  match computation with
  | .ok value => .done value state
  | .error fault => .fault fault

/-- Computes something from the state that a fault may stop; the state stays. -/
def inspect (view : σ → Checked α) : Action σ α := fun state =>
  check (view state) state

def update (change : σ → Checked σ) : Action σ Unit := fun state =>
  match change state with
  | .ok after => .done () after
  | .error fault => .fault fault

/-- Acts on a part of a larger state. -/
def focus (view : τ → σ) (replace : τ → σ → τ) (action : Action σ α) : Action τ α := fun whole =>
  match action (view whole) with
  | .done value part => .done value (replace whole part)
  | .refused cause part => .refused cause (replace whole part)
  | .fault fault => .fault fault

/-- Runs `cleanup` on the state that the action leaves behind, whether it ended in an answer or in
a refusal. -/
def ensuring (cleanup : σ → Checked σ) (action : Action σ α) : Action σ α := fun state =>
  match action state with
  | .done value after =>
    match cleanup after with
    | .ok after => .done value after
    | .error fault => .fault fault
  | .refused cause after =>
    match cleanup after with
    | .ok after => .refused cause after
    | .error fault => .fault fault
  | .fault fault => .fault fault

/-- Runs `cleanup` on the state that a refusal leaves behind. -/
def onRefusal (action : Action σ α) (cleanup : σ → Checked σ) : Action σ α := fun state =>
  match action state with
  | .refused cause after =>
    match cleanup after with
    | .ok after => .refused cause after
    | .error fault => .fault fault
  | outcome => outcome

@[simp]
theorem pure_apply (value : α) (state : σ) : (pure value : Action σ α) state = .done value state :=
  rfl

@[simp]
theorem bind_apply (action : Action σ α) (next : α → Action σ β) (state : σ) :
    (action >>= next) state =
      match action state with
      | .done value after => next value after
      | .refused cause after => .refused cause after
      | .fault fault => .fault fault :=
  rfl

@[simp]
theorem refuse_apply (cause : Refusal) (state : σ) :
    (refuse cause : Action σ α) state = .refused cause state :=
  rfl

@[simp]
theorem require_apply (condition : Bool) (cause : Refusal) (state : σ) :
    require condition cause state =
      if condition then .done () state else .refused cause state := by
  cases condition <;> rfl

@[simp]
theorem expect_some (value : α) (cause : Refusal) :
    (expect (some value) cause : Action σ α) = pure value :=
  rfl

@[simp]
theorem expect_none (cause : Refusal) : (expect none cause : Action σ α) = refuse cause :=
  rfl

@[simp]
theorem read_apply (view : σ → α) (state : σ) : read view state = .done (view state) state :=
  rfl

@[simp]
theorem check_ok (value : α) : (check (.ok value) : Action σ α) = pure value :=
  rfl

@[simp]
theorem check_error (fault : Fault) (state : σ) :
    (check (.error fault) : Action σ α) state = .fault fault :=
  rfl

@[simp]
theorem inspect_apply (view : σ → Checked α) (state : σ) :
    inspect view state = check (view state) state :=
  rfl

theorem update_of_ok {change : σ → Checked σ} {state after : σ}
    (changed : change state = .ok after) : update change state = .done () after := by
  simp only [update, changed]

instance : LawfulMonad (Action σ) :=
  LawfulMonad.mk' (Action σ)
    (fun action => by
      funext state
      simp only [Functor.map, andThen]
      cases action state <;> rfl)
    (fun _ _ => rfl)
    (fun action _ _ => by
      funext state
      simp only [bind_apply]
      cases action state <;> rfl)

end Action

end GuestMemory
