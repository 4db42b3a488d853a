import GuestMemory.Proofs.Kernel.Canonicity
import GuestMemory.Proofs.Kernel.ShownFrames
import Mathlib.Data.Set.Lattice
import Mathlib.Order.CompletePartialOrder

/-!
Independence: calls that leave the pages alone that others are about can be made in any order. What
a task is judged by and what it makes of its pages depends on nothing but these; room for references
is all that calls could contend for, and there is always enough of it unless a frame is shown very
often.
-/

namespace GuestMemory

open Verdict

theorem forM_congr {α : Type} {values : List α} {judge other : α → Verdict Unit}
    (same : ∀ value ∈ values, judge value = other value) :
    forM values judge = forM values other := by
  induction values with
  | nil => rfl
  | cons value rest ih =>
      obtain ⟨first, others⟩ := List.forall_mem_cons.mp same
      rw [List.forM_cons, List.forM_cons, first, ih others]

/-- A task asks for at most two more references each time a frame appears. -/
theorem Work.times_le {work : Work} {times : Nat} (asked : .retainable times ∈ work.demands) :
    times ≤ 2 := by
  cases work <;> simp only [demands, List.mem_cons, Demand.retainable.injEq, reduceCtorEq,
    List.not_mem_nil, or_false, false_or] at asked <;> omega

namespace Task

variable {task first second : Task} {view other : View} {pages others : Pages}
variable {key : Nat × Nat} {keys : Set (Nat × Nat)} {role : RangeRole} {asked : Demand}

theorem mem_reads_of_mem_range (inside : key ∈ task.range role) : key ∈ task.reads := by
  cases role with
  | source => exact .inr inside
  | destination => exact .inl inside

theorem exists_of_mem_reads (inside : key ∈ task.reads) :
    ∃ role, ∃ offset < task.pages, (task.place role).page offset = key := by
  rcases inside with shown | lent
  · exact ⟨.destination, Place.mem_pages.mp shown⟩
  · exact ⟨.source, Place.mem_pages.mp lent⟩

theorem behind_eqOn (same : Set.EqOn others pages task.reads) (role : RangeRole) :
    task.behind others role = task.behind pages role := by
  apply List.map_congr_left
  intro key inside
  rw [same (mem_reads_of_mem_range inside)]

/-- A task is judged the same where its pages are, unless it is for want of references. -/
theorem judge_congr (capacity : other.capacity = view.capacity)
    (same : Set.EqOn other.pages view.pages task.reads)
    (room : ∀ times, .retainable times ∈ task.work.demands →
      task.judgeDemand other (.retainable times) = task.judgeDemand view (.retainable times)) :
    task.judge other = task.judge view := by
  apply forM_congr
  intro asked member
  cases asked with
  | meets role check =>
      apply demand_congr
      refine forall₂_congr fun key inside => ?_
      rw [same (mem_reads_of_mem_range inside)]
  | described => exact judgeDemand_described_congr capacity (behind_eqOn same .source)
  | retainable times => exact room times member
  | backed => simp only [judgeDemand, behind_eqOn same]

/-- What a task makes of its pages depends on these alone. -/
theorem effect_congr (same : Set.EqOn others pages task.reads) (inside : key ∈ task.reads) :
    task.effect others key = task.effect pages key := by
  by_cases shown : key ∈ task.range .destination
  · rw [effect_of_mem_destination shown, effect_of_mem_destination shown, same inside,
      same (mem_reads_of_mem_range (mirror_mem shown))]
  · have lent := (mem_reads.mp inside).resolve_left shown
    rw [effect_source shown lent, effect_source shown lent, same inside]

instance (task : Task) (key : Nat × Nat) : Decidable (key ∈ task.reads) :=
  inferInstanceAs (Decidable (_ ∨ _))

/-- The pages that the task may change, in a list. -/
def written (task : Task) : List (Nat × Nat) :=
  task.range .destination ++ if task.work.changesSource then task.range .source else []

theorem mem_written : key ∈ task.written ↔ key ∈ task.writes := by
  rw [mem_writes, written]
  cases task.work.changesSource <;> simp

theorem disjoint_iff :
    Disjoint first.writes second.reads ↔ ∀ key ∈ first.written, key ∉ second.reads := by
  simp only [Set.disjoint_left, mem_written]

theorem effect_eqOn (apart : Disjoint task.writes keys) :
    Set.EqOn (task.effect pages) pages keys := fun _ inside =>
  effect_of_not_mem_writes (Set.disjoint_right.mp apart inside)

/-- Tasks that leave each other's pages alone can be done in either order. -/
theorem effect_comm (apart : Disjoint first.writes second.reads)
    (away : Disjoint second.writes first.reads) :
    second.effect (first.effect pages) = first.effect (second.effect pages) := by
  funext key
  -- A page that one of them writes is none that the other looks at.
  by_cases written : key ∈ first.writes
  · have unread := Set.disjoint_left.mp apart written
    rw [effect_of_not_mem_reads unread,
      effect_congr (effect_eqOn away) (writes_subset_reads written)]
  rw [effect_of_not_mem_writes written]
  by_cases rewritten : key ∈ second.writes
  · exact effect_congr (effect_eqOn apart) (writes_subset_reads rewritten)
  · rw [effect_of_not_mem_writes rewritten, effect_of_not_mem_writes rewritten,
      effect_of_not_mem_writes written]

end Task

/-- What becomes of the pages when a call comes to a task, or to none. -/
def Verdict.effect (verdict : Verdict Task) (pages : Pages) : Pages :=
  match verdict with
  | .ok task => task.effect pages
  | .error _ => pages

/-- A call, and the process that makes it. -/
structure Attempt where
  current : Nat
  request : Call

namespace Attempt

variable (attempt : Attempt)

def perform : Action Kernel Commit :=
  Kernel.perform attempt.current attempt.request

def task (setting : Setting) : Verdict Task :=
  setting.task attempt.current attempt.request

def judge (kernel : Kernel) : Verdict Task :=
  kernel.setting.judge kernel.view attempt.current attempt.request

/-- The pages of all ranges that the call names, unless its arguments are wrong. -/
def reads (setting : Setting) : Set (Nat × Nat) :=
  { key | ∃ task, attempt.task setting = .ok task ∧ key ∈ task.reads }

/-- The pages of the ranges that the call changes, unless its arguments are wrong. -/
def writes (setting : Setting) : Set (Nat × Nat) :=
  { key | ∃ task, attempt.task setting = .ok task ∧ key ∈ task.writes }

variable {attempt} {setting : Setting} {kernel : Kernel} {task : Task}

theorem reads_eq (came : attempt.task setting = .ok task) : attempt.reads setting = task.reads := by
  ext key
  simp [reads, came]

theorem writes_eq (came : attempt.task setting = .ok task) :
    attempt.writes setting = task.writes := by
  ext key
  simp [writes, came]

theorem task_of_judge (judged : attempt.judge kernel = .ok task) :
    attempt.task kernel.setting = .ok task :=
  (Setting.judge_eq_ok.mp judged).1

end Attempt

/-- What a call has answered and where it has led; nothing after a fault. -/
def Outcome.answer? {σ α : Type} (outcome : Outcome σ α) : Option (ResultCode × σ) := do
  return (← outcome.code?, ← outcome.state?)

theorem Outcome.answer?_eq_some {σ α : Type} {outcome : Outcome σ α} {code : ResultCode}
    {state : σ} : outcome.answer? = some (code, state) ↔
      outcome.code? = some code ∧ outcome.state? = some state := by
  cases outcome <;> simp [answer?, code?, state?]

theorem Outcome.answer?_of_code {σ α : Type} {outcome : Outcome σ α} {code : ResultCode}
    (coded : outcome.code? = some code) : ∃ state, outcome.answer? = some (code, state) := by
  cases outcome with
  | done value state => exact ⟨state, answer?_eq_some.mpr ⟨coded, rfl⟩⟩
  | refused cause state => exact ⟨state, answer?_eq_some.mpr ⟨coded, rfl⟩⟩
  | fault fault => cases coded

namespace Kernel

/-- What two calls answer that are made in turn, and where they lead. -/
def inTurn? (kernel : Kernel) (first second : Attempt) :
    Option (ResultCode × ResultCode × Kernel) := do
  let (code, middle) ← (first.perform kernel).answer?
  let (other, final) ← (second.perform middle).answer?
  return (code, other, final)

theorem inTurn?_eq_some {kernel final : Kernel} {first second : Attempt} {code other : ResultCode} :
    kernel.inTurn? first second = some (code, other, final) ↔
      ∃ middle, (first.perform kernel).answer? = some (code, middle) ∧
        (second.perform middle).answer? = some (other, final) := by
  simp only [inTurn?, Option.bind_eq_bind, Option.bind_eq_some_iff, Option.pure_def,
    Option.some.injEq, Prod.mk.injEq, Prod.exists]
  constructor
  · rintro ⟨_, middle, answered, _, _, next, rfl, rfl, rfl⟩
    exact ⟨middle, answered, next⟩
  · rintro ⟨middle, answered, next⟩
    exact ⟨code, middle, answered, other, final, next, rfl, rfl, rfl⟩

/-- No frame is shown so often that a task could find no room for the references it asks for. -/
def Roomy (kernel : Kernel) : Prop :=
  ∀ frame, 3 * kernel.shown frame < References.limit

/-- Where an answered call leads, given what it comes to. -/
structure Answered (kernel : Kernel) (verdict : Verdict Task) (after : Kernel) : Prop where
  setting_eq : after.setting = kernel.setting
  page_eq : after.page = verdict.effect kernel.page
  frames : kernel.resources.frames.Recounted after.resources.frames
  shown_le : ∀ frame, after.shown frame ≤ 2 * kernel.shown frame

variable {config : Config} {cache : InstructionCache} {initial reached kernel after : Kernel}
variable {steps : List Step} {task : Task} {verdict : Verdict Task} {times : Nat}
variable {attempt first second : Attempt} {code : ResultCode}

theorem OrdinaryInvariant.judgeDemand_retainable (inv : OrdinaryInvariant config kernel)
    (roomy : kernel.Roomy)
    (asked : .retainable times ∈ task.work.demands) :
    task.judgeDemand kernel.view (.retainable times) = .ok () := by
  apply Task.judgeDemand_retainable_iff.mpr
  intro frame _
  calc kernel.view.held frame + times * (task.frames kernel.page).count frame
      ≤ kernel.shown frame + 2 * kernel.shown frame := by
        rw [inv.held_eq]
        exact Nat.add_le_add_left
          (Nat.mul_le_mul (Work.times_le asked) (count_frames_le_shown frame)) _
    _ = 3 * kernel.shown frame := by omega
    _ < References.limit := roomy frame

theorem answered_of_leads (leads : task.Leads kernel after) :
    kernel.Answered (.ok task) after where
  setting_eq := leads.setting_eq
  page_eq := leads.page_eq
  frames := leads.frames
  shown_le frame := by
    have once := leads.shown_le frame
    have lent : (task.frames kernel.page).count frame ≤ kernel.shown frame :=
      count_frames_le_shown frame
    omega

theorem answered_of_restored (restored : kernel.Restored after) (halt : Halt) :
    kernel.Answered (.error halt) after where
  setting_eq := by rw [setting, restored.config_eq, restored.processes_eq, setting]
  page_eq := by
    funext key
    rw [page, spaces, restored.processes_eq]
    rfl
  frames := by
    rw [restored.resources.frames_eq]
    rfl
  shown_le frame := by
    rw [shown, restored.processes_eq]
    exact Nat.le_mul_of_pos_left _ Nat.two_pos

/-- An answered call leads to where the effect of its task is, or nowhere. -/
theorem OrdinaryInvariant.answered (inv : OrdinaryInvariant config kernel)
    (ended : (attempt.perform kernel).state? = some after) :
    kernel.Answered (attempt.judge kernel) after := by
  have ending : (attempt.perform kernel).ending = attempt.judge kernel >>= fun _ => .ok () :=
    ending_perform_of_invariant inv
  rcases Outcome.state?_eq_some.mp ended with ⟨result, done⟩ | ⟨cause, refused⟩
  · obtain ⟨task, judged, leads, _⟩ := leads_of_perform inv done
    rw [Attempt.judge, judged]
    exact answered_of_leads leads
  · have restored := transactional_perform.restores _ _ _ inv.sound refused
    rw [refused] at ending
    cases judged : attempt.judge kernel with
    | ok task =>
        rw [judged] at ending
        cases ending
    | error halt => exact answered_of_restored restored halt

theorem Answered.roomy (answered : kernel.Answered verdict after)
    (few : kernel.mappedPages < 2 ^ 29) : after.Roomy := by
  intro frame
  have more := answered.shown_le frame
  have mapped := kernel.shown_le_mappedPages frame
  simp only [References.limit]
  omega

theorem roomy_of_few (few : kernel.mappedPages < 2 ^ 29) : kernel.Roomy := by
  intro frame
  have mapped := kernel.shown_le_mappedPages frame
  simp only [References.limit]
  omega

/-- What a call writes is all that it changes. -/
theorem Answered.eqOn {keys : Set (Nat × Nat)}
    (answered : kernel.Answered (attempt.judge kernel) after)
    (apart : Disjoint (attempt.writes kernel.setting) keys) :
    Set.EqOn after.page kernel.page keys := by
  rw [answered.page_eq]
  cases judged : attempt.judge kernel with
  | error halt => exact fun _ _ => rfl
  | ok task =>
      rw [Attempt.writes_eq (Attempt.task_of_judge judged)] at apart
      exact Task.effect_eqOn apart

/-- A call is judged as before after another that leaves its pages alone. -/
theorem Answered.judge_eq (answered : kernel.Answered (first.judge kernel) after)
    (inv : OrdinaryInvariant config kernel) (afterInv : OrdinaryInvariant config after)
    (few : kernel.mappedPages < 2 ^ 29)
    (apart : Disjoint (first.writes kernel.setting) (second.reads kernel.setting)) :
    second.judge after = second.judge kernel := by
  rw [Attempt.judge, answered.setting_eq, Attempt.judge, Setting.judge]
  apply bind_congr_of_ok
  intro task came
  apply bind_congr_of_ok
  intro _ _
  congr 1
  apply Task.judge_congr (afterInv.capacity_eq.trans inv.capacity_eq.symm)
  · rw [Attempt.reads_eq came] at apart
    exact answered.eqOn apart
  · -- Besides the pages it is a matter of room for references, which there is before and after.
    intro times asked
    exact (afterInv.judgeDemand_retainable (answered.roomy few) asked).trans
      (inv.judgeDemand_retainable (roomy_of_few few) asked).symm

/-- Calls that leave each other's pages alone do the same to them in either order. -/
theorem effect_comm (apart : Disjoint (first.writes kernel.setting) (second.reads kernel.setting))
    (away : Disjoint (second.writes kernel.setting) (first.reads kernel.setting)) (pages : Pages) :
    (second.judge kernel).effect ((first.judge kernel).effect pages) =
      (first.judge kernel).effect ((second.judge kernel).effect pages) := by
  cases here : first.judge kernel with
  | error halt => rfl
  | ok task =>
      cases there : second.judge kernel with
      | error halt => rfl
      | ok other =>
          have came := Attempt.task_of_judge here
          have otherCame := Attempt.task_of_judge there
          rw [Attempt.writes_eq came, Attempt.reads_eq otherCame] at apart
          rw [Attempt.writes_eq otherCame, Attempt.reads_eq came] at away
          exact Task.effect_comm apart away

/-- A call that is judged the same answers the same. -/
theorem answers_again {other : Kernel} (inv : OrdinaryInvariant config kernel)
    (otherInv : OrdinaryInvariant config other)
    (judged : attempt.judge other = attempt.judge kernel)
    (coded : (attempt.perform kernel).code? = some code) :
    ∃ after, (attempt.perform other).answer? = some (code, after) := by
  have ending : (attempt.perform kernel).ending = (attempt.perform other).ending :=
    calc (attempt.perform kernel).ending
        = attempt.judge kernel >>= fun _ => .ok () := ending_perform_of_invariant inv
      _ = attempt.judge other >>= fun _ => .ok () := by rw [judged]
      _ = (attempt.perform other).ending := (ending_perform_of_invariant otherInv).symm
  have same := Outcome.code?_eq_of_ending ending (by rw [coded]; exact Option.some_ne_none code)
  exact Outcome.answer?_of_code (same.symm.trans coded)

/-- Two calls that leave each other's pages alone, made the other way round. -/
theorem OrdinaryInvariant.inTurn?_comm {final : Kernel} {other : ResultCode}
    (inv : OrdinaryInvariant config kernel)
    (few : kernel.mappedPages < 2 ^ 29)
    (apart : Disjoint (first.writes kernel.setting) (second.reads kernel.setting))
    (away : Disjoint (second.writes kernel.setting) (first.reads kernel.setting))
    (answered : kernel.inTurn? first second = some (code, other, final)) :
    ∃ also, kernel.inTurn? second first = some (other, code, also) ∧ final.SameMemory also := by
  -- One order leads over `middle` to `final`, the other over `side` to `also`.
  obtain ⟨middle, firstAnswer, secondAnswer⟩ := inTurn?_eq_some.mp answered
  obtain ⟨coded, ended⟩ := Outcome.answer?_eq_some.mp firstAnswer
  obtain ⟨otherCoded, finished⟩ := Outcome.answer?_eq_some.mp secondAnswer
  have middleInv := invariant_of_call inv ended
  have led := inv.answered ended
  have kept := led.judge_eq inv middleInv few apart
  obtain ⟨side, sideAnswer⟩ := answers_again middleInv inv kept.symm otherCoded
  obtain ⟨_, sideEnded⟩ := Outcome.answer?_eq_some.mp sideAnswer
  have sideInv := invariant_of_call inv sideEnded
  have sideLed := inv.answered sideEnded
  have sideKept := sideLed.judge_eq inv sideInv few away
  obtain ⟨also, alsoAnswer⟩ := answers_again inv sideInv sideKept coded
  obtain ⟨_, alsoEnded⟩ := Outcome.answer?_eq_some.mp alsoAnswer
  have finalLed := middleInv.answered finished
  have alsoLed := sideInv.answered alsoEnded
  refine ⟨also, inTurn?_eq_some.mpr ⟨side, sideAnswer, alsoAnswer⟩, ?_⟩
  apply (invariant_of_call middleInv finished).sameMemory (invariant_of_call sideInv alsoEnded)
  · rw [alsoLed.setting_eq, sideLed.setting_eq, finalLed.setting_eq, led.setting_eq]
  · rw [alsoLed.page_eq, sideLed.page_eq, sideKept, finalLed.page_eq, led.page_eq, kept]
    exact (effect_comm apart away _).symm
  · exact (led.frames.trans finalLed.frames).symm.trans (sideLed.frames.trans alsoLed.frames)

/-- A call that is answered is so, too, after another that leaves its pages alone. -/
theorem OrdinaryInvariant.inTurn?_isSome {other : ResultCode}
    (inv : OrdinaryInvariant config kernel)
    (few : kernel.mappedPages < 2 ^ 29)
    (apart : Disjoint (first.writes kernel.setting) (second.reads kernel.setting))
    (coded : (first.perform kernel).code? = some code)
    (otherCoded : (second.perform kernel).code? = some other) :
    (kernel.inTurn? first second).isSome := by
  obtain ⟨middle, firstAnswer⟩ := Outcome.answer?_of_code coded
  obtain ⟨_, ended⟩ := Outcome.answer?_eq_some.mp firstAnswer
  have middleInv := invariant_of_call inv ended
  have kept := (inv.answered ended).judge_eq inv middleInv few apart
  obtain ⟨final, secondAnswer⟩ := answers_again inv middleInv kept otherCoded
  exact Option.isSome_of_eq_some (inTurn?_eq_some.mpr ⟨middle, firstAnswer, secondAnswer⟩)

/-- Two calls that change no page which the other is about can be made in either order: each
answers the same, and in the end the memory is the same. Where frames lie before the last address
and handles name processes that are there, both do answer. -/
theorem independent_calls_commute (created : create config cache = .ok initial)
    (ordinary : ∀ step ∈ steps, step.Ordinary) (ran : initial.run? steps = some reached)
    (few : reached.mappedPages < 2 ^ 29)
    (apart : Disjoint (first.writes reached.setting) (second.reads reached.setting))
    (away : Disjoint (second.writes reached.setting) (first.reads reached.setting)) :
    (∀ code other final, reached.inTurn? first second = some (code, other, final) →
      ∃ also, reached.inTurn? second first = some (other, code, also) ∧ final.SameMemory also) ∧
    (config.frameBase + config.framePages * pageSize < wordLimit → initial.Knows steps →
      first.current < reached.processes.length → second.current < reached.processes.length →
      (reached.inTurn? first second).isSome) := by
  have inv := ordinaryInvariant_run created ordinary ran
  refine ⟨fun _ _ _ => inv.inTurn?_comm few apart away, fun fits knows here there => ?_⟩
  have guarded : FaultGuarded (fun _ => False) config reached :=
    faultGuarded_run fits created (fun step member => (ordinary step member).regular) knows ran
      (Nat.lt_trans few (by decide))
  obtain ⟨_, coded⟩ :=
    (guarded.safe_perform_of_wellFormed (.inr here) first.request inv.layouts).code?_of_none
  obtain ⟨_, otherCoded⟩ :=
    (guarded.safe_perform_of_wellFormed (.inr there) second.request inv.layouts).code?_of_none
  exact inv.inTurn?_isSome few apart coded otherCoded

/-- One page of the second process is protected while the next one is lent out as code. -/
theorem independent_calls_commute_of_neighbours :
    ∃ reached code other final also, small.run? (smallRun.take 7) = some reached ∧
      reached.inTurn? ⟨0, .setPermission ⟨0x8000⟩ 0x1000000000 0x1000 1⟩
        ⟨0, .mapCode ⟨0x8000⟩ 0x9000000 0x1000001000 0x1000⟩ = some (code, other, final) ∧
      reached.inTurn? ⟨0, .mapCode ⟨0x8000⟩ 0x9000000 0x1000001000 0x1000⟩
        ⟨0, .setPermission ⟨0x8000⟩ 0x1000000000 0x1000 1⟩ = some (other, code, also) ∧
      final.SameMemory also := by
  let protect : Attempt := ⟨0, .setPermission ⟨0x8000⟩ 0x1000000000 0x1000 1⟩
  let lend : Attempt := ⟨0, .mapCode ⟨0x8000⟩ 0x9000000 0x1000001000 0x1000⟩
  have shown : ((small.run? (smallRun.take 7)).map fun reached =>
      (protect.task reached.setting, lend.task reached.setting,
        decide (reached.mappedPages < 2 ^ 29 ∧ 0 < reached.processes.length))) =
      some (.ok ⟨.setPermission .read, ⟨1, 0x1000000000⟩, ⟨1, 0x1000000000⟩, 1⟩,
        .ok ⟨.mapCode, ⟨1, 0x9000000⟩, ⟨1, 0x1000001000⟩, 1⟩, true) := by
    decide +kernel
  obtain ⟨reached, ran, shown⟩ := Option.map_eq_some_iff.mp shown
  obtain ⟨came, shown⟩ := Prod.mk.inj shown
  obtain ⟨otherCame, shown⟩ := Prod.mk.inj shown
  obtain ⟨few, present⟩ := of_decide_eq_true shown
  have apart : Disjoint (protect.writes reached.setting) (lend.reads reached.setting) := by
    rw [Attempt.writes_eq came, Attempt.reads_eq otherCame, Task.disjoint_iff]
    decide +kernel
  have away : Disjoint (lend.writes reached.setting) (protect.reads reached.setting) := by
    rw [Attempt.writes_eq otherCame, Attempt.reads_eq came, Task.disjoint_iff]
    decide +kernel
  obtain ⟨swapped, answers⟩ := independent_calls_commute create_small
    (show ∀ step ∈ smallRun.take 7, step.Ordinary by decide +kernel) ran few apart away
  obtain ⟨⟨code, other, final⟩, answered⟩ := Option.isSome_iff_exists.mp
    (answers (by decide +kernel) (show small.Knows (smallRun.take 7) by decide +kernel)
      present present)
  obtain ⟨also, again, same⟩ := swapped code other final answered
  exact ⟨reached, code, other, final, also, ran, answered, again, same⟩

end Kernel

end GuestMemory
