import GuestMemory.Proofs.Action

/-!
What actions leave alone. A steady action changes nothing, an action that restores has undone
its changes when it refuses, and an action that keeps a property does so however it ends.
-/

namespace GuestMemory.Action

variable {σ τ α β : Type} {valid : σ → Prop} {same : σ → σ → Prop}

/-- Whatever its outcome, the action leaves the state as it was. -/
def Steady (action : Action σ α) : Prop :=
  ∀ state after, (action state).state? = some after → after = state

/-- The action ends in an answer or in a fault. -/
def Accepts (action : Action σ α) : Prop :=
  ∀ state cause after, action state ≠ .refused cause after

/-- What a refusal leaves is the same, in the given sense, as what was there before. -/
def Restores (valid : σ → Prop) (same : σ → σ → Prop) (action : Action σ α) : Prop :=
  ∀ state cause after, valid state → action state = .refused cause after → same state after

/-- An action that refuses has changed nothing yet. -/
abbrev RefusesFirst (action : Action σ α) : Prop :=
  Restores (fun _ => True) (fun state after => after = state) action

/-- Whatever its outcome, the action leaves a valid state where it found one. -/
def Keeps (valid : σ → Prop) (action : Action σ α) : Prop :=
  ∀ state after, valid state → (action state).state? = some after → valid after

theorem state?_bind {action : Action σ α} {next : α → Action σ β} {state after : σ} :
    ((action >>= next) state).state? = some after ↔
      (∃ cause, action state = .refused cause after) ∨
        ∃ value middle, action state = .done value middle ∧
          (next value middle).state? = some after := by
  rw [bind_apply]
  cases action state <;> simp [Outcome.state?]

namespace Steady

theorem of_done {action : Action σ α} {state after : σ} {value : α} (steady : Steady action)
    (done : action state = .done value after) : after = state :=
  steady state after (by rw [done]; rfl)

theorem of_refused {action : Action σ α} {state after : σ} {cause : Refusal}
    (steady : Steady action) (refused : action state = .refused cause after) : after = state :=
  steady state after (by rw [refused]; rfl)

theorem bind {action : Action σ α} {next : α → Action σ β} (first : Steady action)
    (second : ∀ value, Steady (next value)) : Steady (action >>= next) := by
  intro state after ended
  rcases state?_bind.mp ended with ⟨cause, refused⟩ | ⟨value, middle, done, further⟩
  · exact first.of_refused refused
  · obtain rfl := first.of_done done
    exact second value _ _ further

theorem pure (value : α) : Steady (Pure.pure value : Action σ α) := by
  intro state after ended
  cases ended
  rfl

theorem refuse (cause : Refusal) : Steady (refuse cause : Action σ α) := by
  intro state after ended
  cases ended
  rfl

theorem require (condition : Bool) (cause : Refusal) :
    Steady (require condition cause : Action σ Unit) := by
  cases condition with
  | true => exact pure ()
  | false => exact refuse cause

theorem expect (answer : Option α) (cause : Refusal) :
    Steady (expect answer cause : Action σ α) := by
  cases answer with
  | some value => exact pure value
  | none => exact refuse cause

theorem read (view : σ → α) : Steady (read view) := by
  intro state after ended
  cases ended
  rfl

theorem check (computation : Checked α) : Steady (check computation : Action σ α) := by
  cases computation with
  | ok value => exact pure value
  | error fault =>
      intro state after ended
      cases ended

theorem inspect (view : σ → Checked α) : Steady (inspect view) := fun state =>
  check (view state) state

theorem ite {condition : Prop} [Decidable condition] {action other : Action σ α}
    (first : Steady action) (second : Steady other) :
    Steady (if condition then action else other) := by
  split
  · exact first
  · exact second

end Steady

namespace Accepts

theorem bind {action : Action σ α} {next : α → Action σ β} (first : Accepts action)
    (second : ∀ value, Accepts (next value)) : Accepts (action >>= next) := by
  intro state cause after refused
  rcases bind_eq_refused.mp refused with early | ⟨value, middle, _, late⟩
  · exact first _ _ _ early
  · exact second value _ _ _ late

theorem pure (value : α) : Accepts (Pure.pure value : Action σ α) := by
  intro state cause after refused
  cases refused

theorem read (view : σ → α) : Accepts (read view) := by
  intro state cause after refused
  cases refused

theorem check (computation : Checked α) : Accepts (check computation : Action σ α) := by
  intro state cause after refused
  cases computation <;> cases refused

theorem inspect (view : σ → Checked α) : Accepts (inspect view) := fun state =>
  check (view state) state

theorem update (change : σ → Checked σ) : Accepts (update change) := by
  intro state cause after refused
  rw [Action.update] at refused
  split at refused <;> cases refused

theorem ite {condition : Prop} [Decidable condition] {action other : Action σ α}
    (first : Accepts action) (second : Accepts other) :
    Accepts (if condition then action else other) := by
  split
  · exact first
  · exact second

theorem settle (ofValue : α → β) (ofRefusal : Refusal → β) (action : Action σ α) :
    Accepts (settle ofValue ofRefusal action) := by
  intro state cause after
  rw [Action.settle]
  split <;> exact nofun

end Accepts

theorem Steady.restores {action : Action σ α} (steady : Steady action)
    (refl : ∀ state, same state state) : Restores valid same action := by
  intro state cause after _ refused
  rw [steady.of_refused refused]
  exact refl state

theorem Accepts.restores {action : Action σ α} (accepts : Accepts action) :
    Restores valid same action := by
  intro state cause after _ refused
  exact absurd refused (accepts state cause after)

namespace Restores

theorem after_steady {action : Action σ α} {next : α → Action σ β} (steady : Steady action)
    (refl : ∀ state, same state state) (restores : ∀ value, Restores valid same (next value)) :
    Restores valid same (action >>= next) := by
  intro state cause after sound refused
  rcases bind_eq_refused.mp refused with early | ⟨value, middle, done, late⟩
  · exact steady.restores refl state cause after sound early
  · obtain rfl := steady.of_done done
    exact restores value _ _ _ sound late

theorem then_accepts {action : Action σ α} {next : α → Action σ β}
    (restores : Restores valid same action) (accepts : ∀ value, Accepts (next value)) :
    Restores valid same (action >>= next) := by
  intro state cause after sound refused
  rcases bind_eq_refused.mp refused with early | ⟨value, middle, _, late⟩
  · exact restores _ _ _ sound early
  · exact absurd late (accepts value _ _ _)

theorem ite {condition : Prop} [Decidable condition] {action other : Action σ α}
    (first : Restores valid same action) (second : Restores valid same other) :
    Restores valid same (if condition then action else other) := by
  split
  · exact first
  · exact second

end Restores

theorem Steady.keeps {action : Action σ α} (steady : Steady action) : Keeps valid action := by
  intro state after sound ended
  rw [steady state after ended]
  exact sound

namespace Keeps

theorem bind {action : Action σ α} {next : α → Action σ β} (first : Keeps valid action)
    (second : ∀ value, Keeps valid (next value)) : Keeps valid (action >>= next) := by
  intro state after sound ended
  rcases state?_bind.mp ended with ⟨cause, refused⟩ | ⟨value, middle, done, further⟩
  · exact first state after sound (by rw [refused]; rfl)
  · exact second value _ _ (first state middle sound (by rw [done]; rfl)) further

theorem update {change : σ → Checked σ}
    (kept : ∀ state after, valid state → change state = .ok after → valid after) :
    Keeps valid (update change) := by
  intro state after sound ended
  rcases Outcome.state?_eq_some.mp ended with ⟨_, done⟩ | ⟨cause, refused⟩
  · exact kept state after sound (update_eq_done.mp done)
  · exact absurd refused (Accepts.update change _ _ _)

theorem ite {condition : Prop} [Decidable condition] {action other : Action σ α}
    (first : Keeps valid action) (second : Keeps valid other) :
    Keeps valid (if condition then action else other) := by
  split
  · exact first
  · exact second

theorem focus {view : τ → σ} {replace : τ → σ → τ} {action : Action σ α} {wide : τ → Prop}
    (keeps : Keeps valid action) (inner : ∀ whole, wide whole → valid (view whole))
    (outer : ∀ whole part, wide whole → valid part → wide (replace whole part)) :
    Keeps wide (focus view replace action) := by
  intro whole after sound ended
  rcases Outcome.state?_eq_some.mp ended with ⟨value, done⟩ | ⟨cause, refused⟩
  · obtain ⟨part, inside, rfl⟩ := focus_eq_done.mp done
    exact outer whole part sound (keeps _ _ (inner whole sound) (by rw [inside]; rfl))
  · obtain ⟨part, inside, rfl⟩ := focus_eq_refused.mp refused
    exact outer whole part sound (keeps _ _ (inner whole sound) (by rw [inside]; rfl))

theorem ensuring {cleanup : σ → Checked σ} {action : Action σ α} (keeps : Keeps valid action)
    (kept : ∀ state after, valid state → cleanup state = .ok after → valid after) :
    Keeps valid (ensuring cleanup action) := by
  intro state after sound ended
  rcases Outcome.state?_eq_some.mp ended with ⟨value, done⟩ | ⟨cause, refused⟩
  · obtain ⟨middle, inside, cleaned⟩ := ensuring_eq_done.mp done
    exact kept middle after (keeps _ _ sound (by rw [inside]; rfl)) cleaned
  · obtain ⟨middle, inside, cleaned⟩ := ensuring_eq_refused.mp refused
    exact kept middle after (keeps _ _ sound (by rw [inside]; rfl)) cleaned

theorem onRefusal {cleanup : σ → Checked σ} {action : Action σ α} (keeps : Keeps valid action)
    (kept : ∀ state after, valid state → cleanup state = .ok after → valid after) :
    Keeps valid (onRefusal action cleanup) := by
  intro state after sound ended
  rcases Outcome.state?_eq_some.mp ended with ⟨value, done⟩ | ⟨cause, refused⟩
  · have inside := onRefusal_eq_done.mp done
    exact keeps _ _ sound (by rw [inside]; rfl)
  · obtain ⟨middle, inside, cleaned⟩ := onRefusal_eq_refused.mp refused
    exact kept middle after (keeps _ _ sound (by rw [inside]; rfl)) cleaned

end Keeps

/-- What is asked of the states of a transaction, and which of them count as the same. -/
class Recoverable (σ : Type) where
  valid : σ → Prop
  same : σ → σ → Prop
  refl : ∀ state, same state state

/-- A refusal undoes what was done, and every outcome keeps the state valid. -/
structure Transactional [Recoverable σ] (action : Action σ α) : Prop where
  restores : Restores Recoverable.valid Recoverable.same action
  keeps : Keeps Recoverable.valid action

namespace Transactional

variable [Recoverable σ]

theorem of_steady {action : Action σ α} (steady : Steady action) : Transactional action :=
  ⟨steady.restores Recoverable.refl, steady.keeps⟩

theorem of_accepts {action : Action σ α} (accepts : Accepts action)
    (keeps : Keeps Recoverable.valid action) : Transactional action :=
  ⟨accepts.restores, keeps⟩

/-- Guards may stand before anything. -/
theorem after_steady {action : Action σ α} {next : α → Action σ β} (steady : Steady action)
    (transactional : ∀ value, Transactional (next value)) : Transactional (action >>= next) where
  restores := Restores.after_steady steady Recoverable.refl fun value =>
    (transactional value).restores
  keeps := steady.keeps.bind fun value => (transactional value).keeps

/-- After what may be refused stand steps that cannot be. -/
theorem then_accepts {action : Action σ α} {next : α → Action σ β}
    (transactional : Transactional action) (accepts : ∀ value, Accepts (next value))
    (keeps : ∀ value, Keeps Recoverable.valid (next value)) : Transactional (action >>= next) where
  restores := transactional.restores.then_accepts accepts
  keeps := transactional.keeps.bind keeps

/-- Something is made, used by an action that refuses before it changes anything, and cleaned up
however that ends. -/
theorem ensuring {γ : Type} {making : Action σ γ} {cleanup : γ → σ → Checked σ}
    {action : γ → Action σ α} (transactional : Transactional making)
    (undone : ∀ state made thing after, Recoverable.valid state →
      making state = .done thing made → cleanup thing made = .ok after →
      Recoverable.same state after)
    (kept : ∀ thing state after, Recoverable.valid state → cleanup thing state = .ok after →
      Recoverable.valid after)
    (first : ∀ thing, RefusesFirst (action thing))
    (keeps : ∀ thing, Keeps Recoverable.valid (action thing)) :
    Transactional (do
      let thing ← making
      .ensuring (cleanup thing) (action thing)) where
  restores := by
    intro state cause after valid refused
    rcases bind_eq_refused.mp refused with early | ⟨thing, made, ready, late⟩
    · exact transactional.restores _ _ _ valid early
    · obtain ⟨middle, inside, cleaned⟩ := ensuring_eq_refused.mp late
      obtain rfl := first thing _ _ _ trivial inside
      exact undone _ _ _ _ valid ready cleaned
  keeps := transactional.keeps.bind fun thing => (keeps thing).ensuring (kept thing)

end Transactional

end GuestMemory.Action
