import GuestMemory.Proofs.Action.Safety

/-!
Verdicts: how an action ends, as far as its caller can tell. The verdict on a sequence whose first
action is steady is found one action after another, all of them in the same state.
-/

namespace GuestMemory

variable {σ τ α β : Type}

/-- How an action ends that is not answered. -/
inductive Halt where
  | refused (error : Error)
  | faulted
  deriving DecidableEq

/-- An answer, or how there is none. -/
abbrev Verdict (α : Type) := Except Halt α

namespace Verdict

variable {verdict : Verdict α} {next : α → Verdict β} {result : β} {halt : Halt}

@[simp]
theorem ok_bind (value : α) (next : α → Verdict β) : (Except.ok value >>= next) = next value :=
  rfl

@[simp]
theorem error_bind (halt : Halt) (next : α → Verdict β) :
    ((Except.error halt : Verdict α) >>= next) = .error halt :=
  rfl

@[simp]
theorem pure_eq (value : α) : (pure value : Verdict α) = .ok value :=
  rfl

theorem bind_eq_ok :
    (verdict >>= next) = .ok result ↔ ∃ value, verdict = .ok value ∧ next value = .ok result := by
  cases verdict <;> simp

@[simp]
theorem bind_unit (verdict : Verdict Unit) : (verdict >>= fun _ => .ok ()) = verdict := by
  cases verdict <;> rfl

/-- What follows a verdict matters only where that is an answer. -/
theorem bind_congr_of_ok {other : α → Verdict β}
    (same : ∀ value, verdict = .ok value → next value = other value) :
    (verdict >>= next) = verdict >>= other := by
  cases verdict with
  | ok value => exact same value rfl
  | error halt => rfl

/-- Goes on only if the condition holds. -/
def demand (condition : Prop) [Decidable condition] (halt : Halt) : Verdict Unit :=
  if condition then .ok () else .error halt

variable {condition other : Prop} [Decidable condition] [Decidable other]

@[simp]
theorem demand_eq_ok {answer : Unit} : demand condition halt = .ok answer ↔ condition := by
  by_cases holds : condition <;> simp [demand, holds]

theorem demand_of_true (holds : condition) : demand condition halt = .ok () :=
  if_pos holds

theorem demand_of_false (fails : ¬ condition) : demand condition halt = .error halt :=
  if_neg fails

theorem demand_bind_congr {next following : Unit → Verdict β}
    (same : condition → next () = following ()) :
    (demand condition halt >>= next) = demand condition halt >>= following := by
  by_cases holds : condition
  · rw [demand_of_true holds, ok_bind, ok_bind, same holds]
  · rw [demand_of_false holds, error_bind, error_bind]

theorem demand_congr (same : condition ↔ other) : demand condition halt = demand other halt := by
  by_cases holds : condition
  · rw [demand_of_true holds, demand_of_true (same.mp holds)]
  · rw [demand_of_false holds, demand_of_false (mt same.mpr holds)]

end Verdict

/-- Why a computation is stopped does not matter to its caller. -/
def Checked.verdict : Checked α → Verdict α
  | .ok value => .ok value
  | .error _ => .error .faulted

@[simp]
theorem Checked.verdict_ok (value : α) : verdict (.ok value : Checked α) = .ok value :=
  rfl

@[simp]
theorem Checked.verdict_error (fault : Fault) :
    verdict (.error fault : Checked α) = .error .faulted :=
  rfl

theorem Checked.verdict_eq_ok {computation : Checked α} {value : α} :
    computation.verdict = .ok value ↔ computation = .ok value := by
  cases computation <;> simp

namespace Outcome

def verdict : Outcome σ α → Verdict α
  | .done value _ => .ok value
  | .refused cause _ => .error (.refused cause.error)
  | .fault _ => .error .faulted

/-- The verdict without the answer. -/
def ending (outcome : Outcome σ α) : Verdict Unit :=
  outcome.verdict >>= fun _ => .ok ()

variable {outcome : Outcome σ α}

theorem verdict_eq_ok {value : α} :
    outcome.verdict = .ok value ↔ ∃ state, outcome = .done value state := by
  cases outcome <;> simp [verdict]

theorem ending_eq_ok {answer : Unit} :
    outcome.ending = .ok answer ↔ ∃ value state, outcome = .done value state := by
  cases outcome <;> simp [ending, verdict]

/-- What the caller is told depends on the verdict alone. -/
theorem code?_eq_of_ending {other : Outcome τ β} (same : outcome.ending = other.ending)
    (coded : outcome.code? ≠ none) : outcome.code? = other.code? := by
  cases outcome <;> cases other <;> simp_all [ending, verdict, code?]

end Outcome

namespace Action

open Outcome Verdict

variable {action : Action σ α} {next : α → Action σ β} {state after : σ} {value : α}

theorem verdict_bind (steady : Steady action) :
    ((action >>= next) state).verdict =
      (action state).verdict >>= fun value => (next value state).verdict := by
  cases ended : action state with
  | done value after =>
      obtain rfl := steady.of_done ended
      simp [verdict, ended]
  | refused cause after => simp [verdict, ended]
  | fault fault => simp [verdict, ended]

/-- Guards are judged in their order, in the state that they all find. -/
theorem ending_bind (steady : Steady action) :
    ((action >>= next) state).ending =
      (action state).verdict >>= fun value => (next value state).ending := by
  rw [ending, verdict_bind steady, bind_assoc]
  rfl

theorem ending_bind_of_done (done : action state = .done value after) :
    ((action >>= next) state).ending = (next value after).ending := by
  rw [bind_apply, done]

theorem ending_bind_of_error {halt : Halt} (ended : (action state).ending = .error halt) :
    ((action >>= next) state).ending = .error halt := by
  cases outcome : action state <;> simp_all [ending, verdict]

/-- What follows an action is judged where that leaves off. -/
theorem ending_bind_eq {rest : Verdict Unit}
    (follows : ∀ value after, action state = .done value after →
      (next value after).ending = rest) :
    ((action >>= next) state).ending = (action state).ending >>= fun _ => rest := by
  cases ended : action state with
  | done value after =>
      rw [ending_bind_of_done ended, follows value after ended]
      rfl
  | refused cause after => exact ending_bind_of_error (by rw [ended]; rfl)
  | fault fault => exact ending_bind_of_error (by rw [ended]; rfl)

/-- An action that cannot be refused is answered or stopped, as a condition has it. -/
theorem ending_of_accepts {condition : Prop} [Decidable condition] (accepts : Accepts action)
    (safe : condition → action.Safe (fun _ => False) state)
    (needs : ∀ value after, action state = .done value after → condition) :
    (action state).ending = demand condition .faulted := by
  by_cases holds : condition
  · obtain ⟨value, after, done⟩ := (safe holds).done_of_accepts accepts
    rw [demand_of_true holds, done]
    rfl
  · rw [demand_of_false holds]
    cases ended : action state with
    | done value after => exact absurd (needs value after ended) holds
    | refused cause after => exact absurd ended (accepts state cause after)
    | fault fault => rfl

theorem ending_of_done (done : action state = .done value after) :
    (action state).ending = .ok () :=
  ending_eq_ok.mpr ⟨value, after, done⟩

/-- A steady action that is answered leaves the state to what follows. -/
theorem done_of_verdict (steady : Steady action) (answered : (action state).verdict = .ok value) :
    action state = .done value state := by
  obtain ⟨after, done⟩ := verdict_eq_ok.mp answered
  rw [done, steady.of_done done]

/-- What follows a steady action matters only in the state that it leaves as it was. -/
theorem bind_congr_of_steady {other : α → Action σ β} (steady : Steady action)
    (same : ∀ value, action state = .done value state → next value state = other value state) :
    (action >>= next) state = (action >>= other) state := by
  rw [bind_apply, bind_apply]
  cases ended : action state with
  | done value after =>
      obtain rfl := steady.of_done ended
      exact same value ended
  | refused cause after => rfl
  | fault fault => rfl

/-- To look twice is to look once. -/
theorem Steady.bind_again {guard : Action σ Unit} {next : Unit → Action σ β}
    (steady : Steady guard) : (guard >>= fun _ => guard >>= next) = guard >>= next := by
  funext state
  cases ended : guard state with
  | done value after =>
      obtain rfl := steady.of_done ended
      simp only [bind_apply, ended]
  | refused cause after => simp only [bind_apply, ended]
  | fault fault => simp only [bind_apply, ended]

@[simp]
theorem verdict_require {condition : Bool} {cause : Refusal} :
    (require condition cause state).verdict = demand condition (.refused cause.error) := by
  cases condition <;> rfl

@[simp]
theorem verdict_pure : ((pure value : Action σ α) state).verdict = .ok value :=
  rfl

@[simp]
theorem verdict_check {computation : Checked α} :
    (check computation state).verdict = computation.verdict := by
  cases computation <;> rfl

@[simp]
theorem verdict_inspect {view : σ → Checked α} :
    (inspect view state).verdict = (view state).verdict := by
  rw [inspect_apply, verdict_check]

theorem verdict_expect {answer : Option α} {cause : Refusal} :
    (expect answer cause state).verdict =
      match answer with
      | some value => .ok value
      | none => .error (.refused cause.error) := by
  cases answer <;> rfl

theorem verdict_focus {view : τ → σ} {replace : τ → σ → τ} {whole : τ} :
    (focus view replace action whole).verdict = (action (view whole)).verdict := by
  rw [focus]
  cases action (view whole) <;> rfl

/-- Cleaning up does not change the verdict where it cannot fail. -/
theorem ending_ensuring {cleanup : σ → Checked σ}
    (cleans : ∀ middle, (action state).state? = some middle → ∃ after, cleanup middle = .ok after) :
    (ensuring cleanup action state).ending = (action state).ending := by
  cases ended : action state with
  | done value middle =>
      obtain ⟨after, cleaned⟩ := cleans middle (by rw [ended]; rfl)
      simp [ensuring, ended, cleaned, ending, verdict]
  | refused cause middle =>
      obtain ⟨after, cleaned⟩ := cleans middle (by rw [ended]; rfl)
      simp [ensuring, ended, cleaned, ending, verdict]
  | fault fault => simp [ensuring, ended, ending, verdict]

end Action

end GuestMemory
