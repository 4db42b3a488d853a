import GuestMemory.Proofs.HandleTable.Requests
import Mathlib.Logic.Function.Iterate

/-!
Generations. They are counted for a table as a whole and the first follows the last, so that a
closed handle stays closed until as many handles have been opened as there are generations. Then it
may come back for another object.
-/

namespace GuestMemory.HandleTable

open GuestMemory.Action

variable {Object Kind : Type} [DecidableEq Kind] {kindOf : Object → Kind}
variable {empty start table after : HandleTable Object} {capacity count generation : Nat}
variable {request : Request Object Kind} {requests : List (Request Object Kind)}
variable {answer : Answer Object} {answers : List (Answer Object)} {object other : Object}
variable {handle : Handle}

/-- The answer tells of a handle that was opened. -/
def Answer.isOpened : Answer Object → Bool
  | opened _ => true
  | _ => false

theorem iterate_generationAfter (first : 1 ≤ generation)
    (last : generation ≤ Handle.lastGeneration) (count : Nat) :
    generationAfter^[count] generation =
      (generation - 1 + count) % Handle.lastGeneration + 1 := by
  induction count with
  | zero =>
      rw [Function.iterate_zero_apply, Nat.add_zero, Nat.mod_eq_of_lt (by omega)]
      omega
  | succ count ih =>
      rw [Function.iterate_succ_apply', ih, generationAfter, Nat.mod_add_mod, Nat.add_assoc]

/-- No generation is met again before all others. -/
theorem iterate_generationAfter_ne (first : 1 ≤ generation)
    (last : generation ≤ Handle.lastGeneration) (some : 0 < count)
    (few : count < Handle.lastGeneration) : generationAfter^[count] generation ≠ generation := by
  rw [iterate_generationAfter first last]
  simp only [Handle.lastGeneration] at *
  omega

theorem iterate_generationAfter_all (first : 1 ≤ generation)
    (last : generation ≤ Handle.lastGeneration) :
    generationAfter^[Handle.lastGeneration] generation = generation := by
  rw [iterate_generationAfter first last, Nat.add_mod_right, Nat.mod_eq_of_lt (by omega)]
  omega

/-- What a request can do to a table: open a handle, close one or nothing. -/
theorem serve_eq_done (sound : table.WellFormed)
    (served : request.serve kindOf table = .done answer after) :
    (∃ object handle, answer = .opened handle ∧ table.Opened after object handle) ∨
      answer.isOpened = false ∧ ((∃ handle, after = (table.remove handle).2) ∨ after = table) := by
  cases request with
  | add object =>
      rcases settle_eq_done.mp served with ⟨handle, done, rfl⟩ | ⟨cause, refused, rfl⟩
      · exact .inl ⟨object, handle, rfl, opened_of_add sound done⟩
      · exact .inr ⟨rfl, .inr (full_of_add sound refused).2.1⟩
  | remove handle =>
      obtain ⟨rfl, rfl⟩ := Outcome.done.inj served
      exact .inr ⟨rfl, .inl ⟨handle, rfl⟩⟩
  | get _ | getOfKind _ _ | size =>
      obtain ⟨rfl, rfl⟩ := Outcome.done.inj served
      exact .inr ⟨rfl, .inr rfl⟩

theorem WellFormed.run (sound : table.WellFormed)
    (ran : requests.mapM (Request.serve kindOf) table = .done answers after) : after.WellFormed :=
    by
  induction requests generalizing table answers with
  | nil =>
      obtain ⟨_, rfl⟩ := mapM_nil_eq_done.mp ran
      exact sound
  | cons request requests ih =>
      obtain ⟨answer, between, rest, served, others, _⟩ := mapM_cons_eq_done.mp ran
      rcases serve_eq_done sound served with ⟨_, _, _, opened⟩ | ⟨_, ⟨_, rfl⟩ | rfl⟩
      · exact ih (opened.wellFormed sound) others
      · exact ih (sound.remove _) others
      · exact ih sound others

/-- Since the handle was opened, `count` others were. -/
structure Since (handle : Handle) (count : Nat) (table : HandleTable Object) : Prop where
  wellFormed : table.WellFormed
  first : 1 ≤ handle.generation
  last : handle.generation ≤ Handle.lastGeneration
  next : table.nextGeneration = generationAfter^[count + 1] handle.generation

namespace Since

theorem of_opened (sound : start.WellFormed) (opened : start.Opened table object handle) :
    table.Since handle 0 where
  wellFormed := opened.wellFormed sound
  first := opened.generation_eq ▸ sound.first
  last := opened.generation_eq ▸ sound.last
  next := by rw [opened.nextGeneration_eq, opened.generation_eq, Function.iterate_one]

theorem remove (since : table.Since handle count) (other : Handle) :
    (table.remove other).2.Since handle count :=
  { since with
    wellFormed := since.wellFormed.remove other
    next := nextGeneration_remove.trans since.next }

theorem step (since : table.Since handle count)
    (served : request.serve kindOf table = .done answer after) :
    after.Since handle (count + if answer.isOpened then 1 else 0) := by
  rcases serve_eq_done since.wellFormed served with
    ⟨object, other, rfl, opened⟩ | ⟨unopened, ⟨other, rfl⟩ | rfl⟩
  · exact { since with
      wellFormed := opened.wellFormed since.wellFormed
      next := by
        rw [opened.nextGeneration_eq, since.next]
        exact (Function.iterate_succ_apply' _ _ _).symm }
  · rw [unopened]
    exact since.remove other
  · rw [unopened]
    exact since

theorem run (since : table.Since handle count)
    (ran : requests.mapM (Request.serve kindOf) table = .done answers after) :
    after.Since handle (count + answers.countP Answer.isOpened) := by
  induction requests generalizing table count answers with
  | nil =>
      obtain ⟨rfl, rfl⟩ := mapM_nil_eq_done.mp ran
      exact since
  | cons request requests ih =>
      obtain ⟨answer, between, rest, served, others, rfl⟩ := mapM_cons_eq_done.mp ran
      have reached := ih (since.step served) others
      rwa [Nat.add_assoc, Nat.add_comm (ite _ _ _), ← List.countP_cons] at reached

/-- A handle that names nothing is opened again by no request before all generations are used. -/
theorem stays_closed_step (since : table.Since handle count) (closed : table.get? handle = none)
    (few : count + (if answer.isOpened then 1 else 0) < Handle.lastGeneration)
    (served : request.serve kindOf table = .done answer after) : after.get? handle = none := by
  rcases serve_eq_done since.wellFormed served with
    ⟨object, other, rfl, opened⟩ | ⟨_, ⟨other, rfl⟩ | rfl⟩
  · have apart : handle ≠ other := fun same =>
      iterate_generationAfter_ne since.first since.last (Nat.succ_pos count) few
        (since.next.symm.trans (same ▸ opened.generation_eq.symm))
    rw [opened.get?_after since.wellFormed, if_neg apart, closed]
  · rw [get?_remove, closed, ite_self]
  · exact closed

theorem stays_closed_run (since : table.Since handle count) (closed : table.get? handle = none)
    (few : count + answers.countP Answer.isOpened < Handle.lastGeneration)
    (ran : requests.mapM (Request.serve kindOf) table = .done answers after) :
    after.get? handle = none := by
  induction requests generalizing table count answers with
  | nil =>
      obtain ⟨_, rfl⟩ := mapM_nil_eq_done.mp ran
      exact closed
  | cons request requests ih =>
      obtain ⟨answer, between, rest, served, others, rfl⟩ := mapM_cons_eq_done.mp ran
      rw [List.countP_cons] at few
      exact ih (since.step served) (since.stays_closed_step closed (by omega) served) (by omega)
        others

end Since

/-- A closed handle names nothing as long as fewer handles than there are generations have been
opened after it. -/
theorem closed_names_nothing (kindOf : Object → Kind)
    {opened used closed reached : HandleTable Object} {earlier between last : List (Answer Object)}
    (before middle later : List (Request Object Kind))
    (created : create capacity = .ok empty)
    (began : before.mapM (Request.serve kindOf) empty = .done earlier start)
    (added : add object start = .done handle opened)
    (went : middle.mapM (Request.serve kindOf) opened = .done between used)
    (removed : used.remove handle = (true, closed))
    (ran : later.mapM (Request.serve kindOf) closed = .done last reached)
    (few : (between ++ last).countP Answer.isOpened < Handle.lastGeneration) :
    reached.get? handle = none := by
  have sound := (WellFormed.of_create created).run began
  have since := ((Since.of_opened sound (opened_of_add sound added)).run went).remove handle
  have gone : (used.remove handle).2.get? handle = none := by rw [get?_remove, if_pos rfl]
  rw [removed] at since gone
  rw [List.countP_append] at few
  exact since.stays_closed_run gone (by omega) ran

theorem closed_names_nothing_of_reused_slot :
    ∃ empty opened closed reached : HandleTable Nat, create 2 = .ok empty ∧
      add 1 empty = .done ⟨0x8000⟩ opened ∧
      opened.remove ⟨0x8000⟩ = (true, closed) ∧
      [Request.add 2].mapM (Request.serve fun _ => ()) closed = .done [.opened ⟨0x10000⟩] reached ∧
      reached.get? ⟨0x8000⟩ = none := by
  have created : create 2 = .ok (⟨2, #[], [], 1⟩ : HandleTable Nat) := rfl
  have added : add 1 ⟨2, #[], [], 1⟩ = .done ⟨0x8000⟩ ⟨2, #[⟨1, some 1⟩], [], 2⟩ := rfl
  have removed : remove ⟨2, #[⟨1, some 1⟩], [], 2⟩ ⟨0x8000⟩ = (true, ⟨2, #[⟨1, none⟩], [0], 2⟩) :=
    rfl
  have reused : [Request.add 2].mapM (Request.serve fun _ => ()) ⟨2, #[⟨1, none⟩], [0], 2⟩ =
      .done [.opened ⟨0x10000⟩] ⟨2, #[⟨2, some 2⟩], [], 3⟩ := rfl
  exact ⟨_, _, _, _, created, added, removed, reused,
    closed_names_nothing (fun _ => ()) [] [] _ created rfl added rfl removed reused (by decide)⟩

/-- Opens and closes a handle `count` times, in a slot and from a generation on. -/
def churn (object : Object) (index : Nat) :
    (count : Nat) → (generation : Nat) → List (Request Object Kind)
  | 0, _ => []
  | count + 1, generation =>
    .add object :: .remove (.ofParts index generation) ::
      churn object index count (generationAfter generation)

/-- The slot emptied last is used again. -/
theorem add_of_free {index : Nat} {free : List Nat} (object : Object)
    (head : table.free = index :: free) :
    ∃ after, add object table = .done (.ofParts index table.nextGeneration) after ∧
      after.free = free := by
  rw [add, head]
  exact ⟨_, rfl, rfl⟩

theorem churn_exists (kindOf : Object → Kind) {index : Nat} {free : List Nat}
    (sound : table.WellFormed)
    (head : table.free = index :: free) (object : Object) (count : Nat) :
    ∃ answers after,
      (churn object index count table.nextGeneration).mapM (Request.serve kindOf) table =
        .done answers after ∧
      after.WellFormed ∧ after.free = index :: free ∧
      after.nextGeneration = generationAfter^[count] table.nextGeneration := by
  induction count generalizing table with
  | zero => exact ⟨[], table, rfl, sound, head, rfl⟩
  | succ count ih =>
      obtain ⟨middle, added, rest⟩ := add_of_free object head
      have indexed := sound.lt_indexLimit (sound.lt_size_of_mem_free (head ▸ List.mem_cons_self))
      have opened := opened_of_add sound added
      obtain ⟨closed, removed, kept, emptied, next⟩ :=
        (opened.wellFormed sound).remove_exists (opened.get?_self sound)
      rw [Handle.index_ofParts indexed sound.last, rest] at emptied
      obtain ⟨answers, after, ran, sound, again, last⟩ := ih kept emptied
      rw [next, opened.nextGeneration_eq] at ran last
      have served := mapM_cons_eq_done.mpr ⟨_, _, _, serve_remove removed, ran, rfl⟩
      exact ⟨_, after, mapM_cons_eq_done.mpr ⟨_, _, _, serve_add_of_done added, served, rfl⟩,
        sound, again, last.trans (Function.iterate_succ_apply _ _ _).symm⟩

/-- A closed handle names another object once its slot has been used with all other generations. -/
theorem comes_back (kindOf : Object → Kind) (sound : start.WellFormed)
    (added : add object start = .done handle table) (other : Object) :
    ∃ answers after,
      (Request.remove handle ::
        (churn other handle.index (Handle.lastGeneration - 1) table.nextGeneration ++
          [.add other])).mapM (Request.serve kindOf) table = .done (.closed true :: answers) after ∧
      after.get? handle = some other := by
  have opened := opened_of_add sound added
  obtain ⟨closed, removed, kept, emptied, next⟩ :=
    (opened.wellFormed sound).remove_exists (opened.get?_self sound)
  obtain ⟨answers, churned, ran, kept, head, last⟩ :=
    churn_exists kindOf kept emptied other (Handle.lastGeneration - 1)
  obtain ⟨after, again, _⟩ := add_of_free other head
  have cycle : churned.nextGeneration = handle.generation := by
    rw [last, next, opened.nextGeneration_eq, ← opened.generation_eq,
      ← Function.iterate_succ_apply]
    exact iterate_generationAfter_all (opened.generation_eq ▸ sound.first)
      (opened.generation_eq ▸ sound.last)
  have same : Handle.ofParts handle.index churned.nextGeneration = handle :=
    Handle.eq_of_parts (Handle.index_ofParts handle.index_lt kept.last)
      ((Handle.generation_ofParts handle.index_lt kept.last).trans cycle)
  rw [same] at again
  rw [next] at ran
  have served : [Request.add other].mapM (Request.serve kindOf) churned =
      .done [.opened handle] after :=
    mapM_cons_eq_done.mpr ⟨_, after, _, serve_add_of_done again, rfl, rfl⟩
  exact ⟨_, after, mapM_cons_eq_done.mpr ⟨_, closed, _, serve_remove removed,
    mapM_append_eq_done.mpr ⟨_, churned, _, ran, served, rfl⟩, rfl⟩,
    (opened_of_add kept again).get?_self kept⟩

/-- The first handle of a table, closed and back in the end. -/
theorem first_handle_comes_back : ∃ (empty reached : HandleTable Nat) (answers : List (Answer Nat)),
    create 2 = .ok empty ∧
    (Request.add 1 :: .remove ⟨0x8000⟩ :: (churn 2 0 32766 2 ++ [.add 2])).mapM
        (Request.serve fun _ => ()) empty =
      .done (.opened ⟨0x8000⟩ :: .closed true :: answers) reached ∧
    reached.get? ⟨0x8000⟩ = some 2 := by
  have created : create 2 = .ok (⟨2, #[], [], 1⟩ : HandleTable Nat) := rfl
  have added : add 1 ⟨2, #[], [], 1⟩ = .done ⟨0x8000⟩ ⟨2, #[⟨1, some 1⟩], [], 2⟩ := rfl
  obtain ⟨answers, reached, ran, found⟩ :=
    comes_back (fun _ => ()) (.of_create created) added 2
  exact ⟨_, reached, answers, created,
    mapM_cons_eq_done.mpr ⟨_, _, _, serve_add_of_done added, ran, rfl⟩, found⟩

end GuestMemory.HandleTable
