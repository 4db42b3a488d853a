import GuestMemory.Proofs.Action.Effects

/-!
Safety: which faults can stop a computation. One that no fault can stop has an answer, and an action
that none can stop is answered or refused.
-/

namespace GuestMemory

variable {σ τ α β : Type} {allowed : Fault → Prop}

namespace Checked

/-- Only the allowed faults stop the computation. -/
def Safe (allowed : Fault → Prop) (computation : Checked α) : Prop :=
  ∀ fault, computation = .error fault → allowed fault

namespace Safe

variable {computation : Checked α} {next : α → Checked β}

theorem of_exists (answered : ∃ value, computation = .ok value) : computation.Safe allowed := by
  obtain ⟨value, rfl⟩ := answered
  exact fun _ stopped => nomatch stopped

theorem ok (value : α) : Safe allowed (.ok value : Checked α) :=
  of_exists ⟨value, rfl⟩

theorem error {fault : Fault} (permitted : allowed fault) :
    Safe allowed (.error fault : Checked α) := by
  intro other stopped
  cases stopped
  exact permitted

theorem bind (first : computation.Safe allowed)
    (second : ∀ value, computation = .ok value → (next value).Safe allowed) :
    Safe allowed (computation >>= next) := by
  cases computation with
  | ok value => exact second value rfl
  | error fault => exact error (first fault rfl)

theorem ite {condition : Prop} [Decidable condition] {other : Checked α}
    (first : condition → computation.Safe allowed) (second : ¬ condition → other.Safe allowed) :
    Safe allowed (if condition then computation else other) := by
  split
  · exact first ‹_›
  · exact second ‹_›

theorem exists_of_none (safe : computation.Safe fun _ => False) :
    ∃ value, computation = .ok value := by
  cases computation with
  | ok value => exact ⟨value, rfl⟩
  | error fault => exact (safe fault rfl).elim

end Safe

theorem safe_below {limit value : Nat} (room : allowed .overflow ∨ value < limit) :
    (below limit value).Safe allowed :=
  .ite (fun _ => .ok _) fun beyond => .error (room.resolve_right beyond)

theorem safe_word {value : Nat} (room : allowed .overflow ∨ value < wordLimit) :
    (word value).Safe allowed :=
  safe_below room

end Checked

namespace Action

/-- Only the allowed faults stop the action in the given state. -/
def Safe (allowed : Fault → Prop) (action : Action σ α) (state : σ) : Prop :=
  ∀ fault, action state = .fault fault → allowed fault

namespace Safe

variable {action : Action σ α} {next : α → Action σ β} {state : σ}

theorem of_done {value : α} {after : σ} (done : action state = .done value after) :
    action.Safe allowed state := by
  intro fault stopped
  rw [done] at stopped
  cases stopped

theorem pure (value : α) : Safe allowed (Pure.pure value : Action σ α) state :=
  of_done rfl

theorem refuse (cause : Refusal) : Safe allowed (refuse cause : Action σ α) state :=
  fun _ stopped => nomatch stopped

theorem require (condition : Bool) (cause : Refusal) :
    Safe allowed (require condition cause : Action σ Unit) state := by
  cases condition with
  | true => exact pure ()
  | false => exact refuse cause

theorem expect (answer : Option α) (cause : Refusal) :
    Safe allowed (expect answer cause : Action σ α) state := by
  cases answer with
  | some value => exact pure value
  | none => exact refuse cause

theorem read (view : σ → α) : Safe allowed (read view) state :=
  of_done rfl

theorem check {computation : Checked α} (safe : computation.Safe allowed) :
    Safe allowed (check computation : Action σ α) state := by
  intro fault stopped
  cases computation with
  | ok value => cases stopped
  | error other =>
      cases stopped
      exact safe _ rfl

theorem inspect {view : σ → Checked α} (safe : (view state).Safe allowed) :
    Safe allowed (inspect view) state :=
  check safe

theorem update {change : σ → Checked σ} (safe : (change state).Safe allowed) :
    Safe allowed (update change) state := by
  intro fault stopped
  rw [Action.update] at stopped
  cases changed : change state with
  | ok after =>
      rw [changed] at stopped
      cases stopped
  | error other =>
      rw [changed] at stopped
      cases stopped
      exact safe _ changed

theorem bind (first : action.Safe allowed state)
    (second : ∀ value middle, action state = .done value middle →
      (next value).Safe allowed middle) :
    Safe allowed (action >>= next) state := by
  intro fault stopped
  rw [bind_apply] at stopped
  cases ended : action state with
  | done value middle =>
      rw [ended] at stopped
      exact second value middle ended fault stopped
  | refused cause middle =>
      rw [ended] at stopped
      cases stopped
  | fault other =>
      rw [ended] at stopped
      cases stopped
      exact first _ ended

theorem after_steady (steady : Steady action) (first : action.Safe allowed state)
    (second : ∀ value, action state = .done value state → (next value).Safe allowed state) :
    Safe allowed (action >>= next) state := by
  refine first.bind fun value middle done => ?_
  obtain rfl := steady.of_done done
  exact second value done

theorem ite {condition : Prop} [Decidable condition] {other : Action σ α}
    (first : condition → action.Safe allowed state)
    (second : ¬ condition → other.Safe allowed state) :
    Safe allowed (if condition then action else other) state := by
  split
  · exact first ‹_›
  · exact second ‹_›

theorem focus {view : τ → σ} {replace : τ → σ → τ} {whole : τ}
    (safe : action.Safe allowed (view whole)) : Safe allowed (focus view replace action) whole := by
  intro fault stopped
  rw [Action.focus] at stopped
  cases ended : action (view whole) with
  | fault other =>
      rw [ended] at stopped
      cases stopped
      exact safe _ ended
  | _ =>
      rw [ended] at stopped
      cases stopped

theorem ensuring {cleanup : σ → Checked σ} (safe : action.Safe allowed state)
    (cleans : ∀ middle, (action state).state? = some middle → (cleanup middle).Safe allowed) :
    Safe allowed (ensuring cleanup action) state := by
  intro fault stopped
  rw [Action.ensuring] at stopped
  cases ended : action state with
  | fault other =>
      rw [ended] at stopped
      cases stopped
      exact safe _ ended
  | _ =>
      rename_i middle
      have cleaned := cleans middle (by rw [ended]; rfl)
      rw [ended] at stopped
      cases given : cleanup middle with
      | ok after =>
          simp only [given] at stopped
          cases stopped
      | error other =>
          simp only [given] at stopped
          cases stopped
          exact cleaned _ given

theorem onRefusal {cleanup : σ → Checked σ} (safe : action.Safe allowed state)
    (cleans : ∀ cause middle, action state = .refused cause middle →
      (cleanup middle).Safe allowed) : Safe allowed (onRefusal action cleanup) state := by
  intro fault stopped
  rw [Action.onRefusal] at stopped
  cases ended : action state with
  | done value middle =>
      rw [ended] at stopped
      cases stopped
  | fault other =>
      rw [ended] at stopped
      cases stopped
      exact safe _ ended
  | refused cause middle =>
      have cleaned := cleans cause middle ended
      rw [ended] at stopped
      cases given : cleanup middle with
      | ok after =>
          simp only [given] at stopped
          cases stopped
      | error other =>
          simp only [given] at stopped
          cases stopped
          exact cleaned _ given

/-- An action that no fault can stop and that never refuses is answered. -/
theorem done_of_accepts (safe : action.Safe (fun _ => False) state) (accepts : Accepts action) :
    ∃ value after, action state = .done value after := by
  cases ended : action state with
  | done value after => exact ⟨value, after, rfl⟩
  | refused cause after => exact absurd ended (accepts _ _ _)
  | fault fault => exact (safe fault ended).elim

/-- An action tells the guest how it ended, unless an allowed fault has stopped it. -/
theorem code?_or_fault (safe : action.Safe allowed state) :
    (∃ code, (action state).code? = some code) ∨
      ∃ fault, allowed fault ∧ action state = .fault fault := by
  cases ended : action state with
  | done value after => exact .inl ⟨_, rfl⟩
  | refused cause after => exact .inl ⟨_, rfl⟩
  | fault fault => exact .inr ⟨fault, safe fault ended, rfl⟩

/-- An action that no fault can stop tells the guest how it ended. -/
theorem code?_of_none (safe : action.Safe (fun _ => False) state) :
    ∃ code, (action state).code? = some code :=
  safe.code?_or_fault.resolve_right fun ⟨_, impossible, _⟩ => impossible

/-- An action that one fault alone can stop, and only on a condition, tells the guest how it ended
unless the condition holds and that fault has stopped it. -/
theorem code?_or_stopped {fault : Fault} {condition : Prop}
    (safe : action.Safe (fun other => other = fault ∧ condition) state) :
    (∃ code, (action state).code? = some code) ∨ action state = .fault fault ∧ condition := by
  refine safe.code?_or_fault.imp_right ?_
  rintro ⟨_, ⟨rfl, holds⟩, stopped⟩
  exact ⟨stopped, holds⟩

end Safe

end Action

end GuestMemory
