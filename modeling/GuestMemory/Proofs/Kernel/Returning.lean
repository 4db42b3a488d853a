import GuestMemory.Proofs.Kernel.Withdrawals

/-!
Giving back memory of another process, from the arguments of the call to the pages: what is required
of them, in which order, and what becomes of the memory where nothing is missing.
-/

namespace GuestMemory

open GuestMemory.Action Verdict

namespace Properties

variable {properties : Properties}

/-- The memory has been mapped from another process, and guest and kernel may read and write it. -/
def MayReturn (properties : Properties) : Prop :=
  properties.state = .sharedCode ∧ properties.permission.contains .userReadWrite = true ∧
    properties.attributes = .empty

instance : DecidablePred MayReturn := fun properties =>
  inferInstanceAs (Decidable (properties.state = .sharedCode ∧
    properties.permission.contains .userReadWrite = true ∧ properties.attributes = .empty))

theorem MayReturn.used (returns : properties.MayReturn) : properties.state ≠ .free := by
  rw [returns.1]
  decide

theorem Orderly.meets_shared_iff (orderly : properties.Orderly) :
    ((Check.exactly .sharedCode).withPermission .userReadWrite .userReadWrite).Meets properties ↔
      properties.MayReturn := by
  refine (Check.meets_withPermission_iff orderly).trans ?_
  exact and_congr decide_eq_true_iff (and_congr_left' beq_iff_eq.symm)

end Properties

namespace Kernel

variable {config : Config} {kernel : Kernel} {task : Task}
variable {current destination source size : Nat} {handle : Handle}

theorem OrdinaryInvariant.judge_unmapMemory (inv : OrdinaryInvariant config kernel)
    (ends : kernel.extent.stop < wordLimit)
    (work : task.work = .unmapMemory) :
    task.judge kernel.view = (do
      demand (∀ key ∈ task.range .destination, (kernel.page key).properties.MayReturn)
        (.refused .invalidCurrentMemory)
      demand (∀ key ∈ task.range .source, (kernel.page key).properties.MayLend)
        (.refused .invalidCurrentMemory)
      demand ((Run.contiguous (kernel.framesBehind (task.range .source))).length ≤
        kernel.resources.descriptors.free.length) (.refused .outOfResource)
      demand (∀ offset < task.pages, (kernel.page (task.destination.page offset)).frame =
        (kernel.page (task.source.page offset)).frame) (.refused .invalidCurrentMemory)) :=
  inv.judge_withdrawal ends (congrArg Work.demands work) (by decide)
    ⟨Properties.Orderly.meets_shared_iff, Properties.MayReturn.used⟩
    ⟨Check.meets_ofState_iff, Properties.MayLend.used⟩

/-- What is required of a request to give back memory of another process, in the order in which it
is looked at. -/
def returningRequirements (kernel : Kernel) (current destination : Nat) (handle : Handle)
    (source size : Nat) : List Requirement :=
  let owner := kernel.opened? current handle
  let shown : Place := ⟨current, destination⟩
  let lent := fun index => Place.mk index source
  let count := size / pageSize
  kernel.sharingRequirements current destination handle source size ++ [
    ⟨∀ key ∈ shown.pages count, (kernel.page key).properties.MayReturn, .invalidCurrentMemory⟩,
    ⟨∀ index ∈ owner, ∀ key ∈ (lent index).pages count, (kernel.page key).properties.MayLend,
      .invalidCurrentMemory⟩,
    ⟨∀ index ∈ owner, (Run.contiguous (kernel.framesBehind ((lent index).pages count))).length ≤
      kernel.resources.descriptors.free.length, .outOfResource⟩,
    ⟨∀ index ∈ owner, ∀ offset < count, (kernel.page (shown.page offset)).frame =
      (kernel.page ((lent index).page offset)).frame, .invalidCurrentMemory⟩]

theorem judge_returningRequirements (inv : OrdinaryInvariant config kernel) (names : kernel.Named)
    (present : current < kernel.processes.length) (ends : kernel.extent.stop < wordLimit) :
    (do
      let task ← kernel.setting.memoryTask .unmapMemory current destination handle source size
      kernel.setting.requirePlaces task
      task.judge kernel.view) =
        Requirement.judge
          (kernel.returningRequirements current destination handle source size) := by
  refine judge_memoryTask inv.layouts names present rfl fun owner opened => ?_
  rw [inv.judge_unmapMemory ends rfl]
  simp only [Requirement.judge_cons, Requirement.judge_nil, bind_unit, opened, Option.mem_def,
    Option.some.injEq, forall_eq']
  rfl

variable {cache : InstructionCache} {initial reached : Kernel} {steps : List Step}

/-- In every state that a kernel can reach whose frames lie before the last address, a request to
give back memory of another process ends in the error of the first requirement that is violated and
is done if none is. The pages of the destination are then free, each frame has as many references
less as it was behind them but never none, and nothing else is another. -/
theorem unmapMemory_is_exact (fits : config.frameBase + config.framePages * pageSize < wordLimit)
    (created : create config cache = .ok initial) (ordinary : ∀ step ∈ steps, step.Ordinary)
    (knows : initial.Knows steps) (ran : initial.run? steps = some reached)
    (present : current < reached.processes.length) (destination : UInt64) (handle : Handle)
    (source size : UInt64) :
    let outcome := perform current (.unmapMemory destination handle source size) reached
    outcome.ending = Requirement.judge (reached.returningRequirements current destination.toNat
      handle source.toNat size.toNat) ∧
    ∀ result after, outcome = .done result after →
      let shown := Place.pages ⟨current, destination.toNat⟩ (size.toNat / pageSize)
      (∀ key ∈ shown, after.Vacant key) ∧ reached.ChangesOnly shown after ∧
      (∀ frame, after.resources.frames.held frame + (reached.framesBehind shown).count frame =
        reached.resources.frames.held frame) ∧
      (∀ frame, after.resources.frames.held frame = 0 ↔ reached.resources.frames.held frame = 0) ∧
      after.resources.cache = reached.resources.cache := by
  intro outcome
  have inv := ordinaryInvariant_run created ordinary ran
  have names := (Named.of_create created).run knows ordinary ran
  have ends := inv.stop_lt fits
  refine ⟨(ending_perform_eq_judge inv).trans
    (judge_returningRequirements inv names present ends), fun result after done => ?_⟩
  obtain ⟨task, judged, leads, afterInv⟩ := leads_of_perform inv done
  obtain ⟨came, _⟩ := Setting.judge_eq_ok.mp judged
  obtain ⟨owner, opened, rfl⟩ := eq_of_came_to_memoryTask names present came
  have clears (page other : Page) : Work.unmapMemory.onDestination page other = .blank := rfl
  exact ⟨fun key inside => vacant_of_leads leads clears afterInv inside,
    changesOnly_of_leads leads inv afterInv rfl, held_add_of_leads leads clears inv afterInv,
    held_eq_zero_iff_of_leads leads inv afterInv, leads.cache_eq⟩

/-- One of two pages of code is given back: the other one stays, and the frame of the first one is
still behind the page of its process. -/
theorem unmapMemory_is_exact_of_lent_code :
    ∃ reached result after, small.run? (smallRun.take 5) = some reached ∧
      perform 0 (.unmapMemory 0x9001000 ⟨0x8000⟩ 0x8001000 0x1000) reached = .done result after ∧
      after.Vacant (0, 0x9001) ∧
      after.translation? (0, 0x9000) = reached.translation? (0, 0x9000) ∧
      reached.resources.frames.held 0x80001 = 2 ∧ after.resources.frames.held 0x80001 = 1 := by
  have shown : ((small.run? (smallRun.take 5)).map fun reached =>
      (reached.processes.length,
        Requirement.judge (reached.returningRequirements 0 0x9001000 ⟨0x8000⟩ 0x8001000 0x1000),
        reached.resources.frames.held 0x80001,
        reached.framesBehind (Place.pages ⟨0, 0x9001000⟩ 1))) =
      some (2, .ok (), 2, [0x80001]) := by
    decide +kernel
  obtain ⟨reached, ran, shown⟩ := Option.map_eq_some_iff.mp shown
  obtain ⟨length, met, twice, behind⟩ : _ ∧ _ ∧ _ ∧ _ := by simpa only [Prod.mk.injEq] using shown
  obtain ⟨ending, exact⟩ := unmapMemory_is_exact (show _ < wordLimit by decide +kernel)
    create_small (show ∀ step ∈ smallRun.take 5, step.Ordinary by decide +kernel)
    (show small.Knows (smallRun.take 5) by decide +kernel) ran (show 0 < _ by omega)
    0x9001000 ⟨0x8000⟩ 0x8001000 0x1000
  obtain ⟨result, after, done⟩ := Outcome.ending_eq_ok.mp (ending.trans met)
  obtain ⟨vacant, changes, held, _⟩ := exact result after done
  refine ⟨reached, result, after, ran, done, vacant _ (by decide +kernel),
    changes.translation?_eq (0, 0x9000) (by decide +kernel), twice, ?_⟩
  have dropped : after.resources.frames.held 0x80001 +
      (reached.framesBehind (Place.pages ⟨0, 0x9001000⟩ 1)).count 0x80001 =
        reached.resources.frames.held 0x80001 := held 0x80001
  rw [behind, twice] at dropped
  exact Nat.succ.inj dropped

/-- Where a frame is the last there is, a request is stopped that meets all requirements, even if
its pages have been mapped one by one. -/
theorem returning_the_last_frame_stops :
    let run := topmostRun ++ [
      .call 0 (.mapMemory 0x8002000 ⟨0x8000⟩ 0x8000000 0x1000),
      .call 0 (.mapMemory 0x8003000 ⟨0x8000⟩ 0x8001000 0x1000)]
    create topmost.config topmost.resources.cache = .ok topmost ∧
    (∀ step ∈ run, step.Ordinary) ∧ topmost.Knows run ∧
    ∃ reached, topmost.run? run = some reached ∧ 0 < reached.processes.length ∧
      Requirement.judge (reached.returningRequirements 0 0x8002000 ⟨0x8000⟩ 0x8000000 0x2000) =
        .ok () ∧
      perform 0 (.unmapMemory 0x8002000 ⟨0x8000⟩ 0x8000000 0x2000) reached = .fault .overflow := by
  intro run
  obtain ⟨reached, ran, _, stops⟩ := topmost_overflows run 0
    (.unmapMemory 0x8002000 ⟨0x8000⟩ 0x8000000 0x2000)
    (·.returningRequirements 0 0x8002000 ⟨0x8000⟩ 0x8000000 0x2000) (by decide +kernel)
  exact ⟨rfl, by decide +kernel, by decide +kernel, reached, ran, stops⟩

end Kernel

end GuestMemory
