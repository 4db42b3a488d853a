import GuestMemory.Proofs.AddressSpace.Reclaiming
import GuestMemory.Proofs.Kernel.Canonicity
import GuestMemory.Proofs.Kernel.Transitions

/-!
Inverses: what a call has mapped, another takes away again. The second is never in want of anything
after the first, and it leaves the memory that the first has found.
-/

namespace GuestMemory

open GuestMemory.Action Verdict

/-- The work that takes away what such work has mapped. -/
def Work.reverse? : Work → Option Work
  | mapMemory => some unmapMemory
  | mapCode => some unmapCode
  | setPermission _ | unmapMemory | unmapCode => none

theorem Work.reverse?_cases {work other : Work} (reverse : work.reverse? = some other) :
    work = .mapMemory ∧ other = .unmapMemory ∨ work = .mapCode ∧ other = .unmapCode := by
  cases work <;> cases reverse
  · exact .inl ⟨rfl, rfl⟩
  · exact .inr ⟨rfl, rfl⟩

/-- Other work with the same pages. -/
def Task.withWork (task : Task) (work : Work) : Task :=
  { task with work }

@[simp]
theorem Task.work_withWork (task : Task) (work : Work) : (task.withWork work).work = work :=
  rfl

/-- The call that takes away what the call has mapped. -/
def Call.reverse? : Call → Option Call
  | mapMemory destination handle source size => some (unmapMemory destination handle source size)
  | mapCode handle destination source size => some (unmapCode handle destination source size)
  | setPermission .. | unmapMemory .. | unmapCode .. => none

namespace Setting

variable {setting : Setting} {current destination source size : Nat} {handle : Handle}
variable {request back : Call} {task : Task} {work : Work}

/-- The arguments of a call about shared memory are good for the same task with other work. -/
theorem memoryTask_eq_ok
    (came : setting.memoryTask work current destination handle source size = .ok task)
    (other : Work) : task.work = work ∧
      setting.memoryTask other current destination handle source size =
        .ok (task.withWork other) := by
  simp only [memoryTask, Verdict.bind_eq_ok, Verdict.pure_eq, Except.ok.injEq] at came ⊢
  obtain ⟨_, first, _, second, _, whole, _, fits, _, sourceFits, owner, resolved, rfl⟩ := came
  exact ⟨rfl, (), first, (), second, (), whole, (), fits, (), sourceFits, owner, resolved, rfl⟩

theorem codeTask_eq_ok
    (came : setting.codeTask work current handle destination source size = .ok task)
    (other : Work) : task.work = work ∧
      setting.codeTask other current handle destination source size =
        .ok (task.withWork other) := by
  simp only [codeTask, Verdict.bind_eq_ok, Verdict.pure_eq, Except.ok.injEq] at came ⊢
  obtain ⟨_, aligned, _, whole, _, fits, _, sourceFits, target, resolved, rfl⟩ := came
  exact ⟨rfl, (), aligned, (), whole, (), fits, (), sourceFits, target, resolved, rfl⟩

theorem destination_of_codeTask
    (came : setting.codeTask work current handle destination source size = .ok task) :
    task.destination.address = destination ∧ task.pages * pageSize = size := by
  simp only [codeTask, Verdict.bind_eq_ok, demand_eq_ok, Kernel.wholePages_iff] at came
  obtain ⟨_, _, _, whole, _, _, _, _, target, _, built⟩ := came
  cases built
  exact ⟨rfl, whole.mul_eq⟩

/-- The reverse of a call comes to the same task but for the work. -/
theorem task_reverse (came : setting.task current request = .ok task)
    (reverse : request.reverse? = some back) :
    ∃ work, task.work.reverse? = some work ∧
      setting.task current back = .ok (task.withWork work) := by
  cases request with
  | mapMemory destination handle source size =>
      cases reverse
      obtain ⟨kind, reversed⟩ := memoryTask_eq_ok came .unmapMemory
      exact ⟨.unmapMemory, by rw [kind]; rfl, reversed⟩
  | mapCode handle destination source size =>
      cases reverse
      obtain ⟨kind, reversed⟩ := codeTask_eq_ok came .unmapCode
      exact ⟨.unmapCode, by rw [kind]; rfl, reversed⟩
  | setPermission | unmapMemory | unmapCode => cases reverse

theorem requirePlaces_reverse (reverse : task.work.reverse? = some work) :
    setting.requirePlaces (task.withWork work) = setting.requirePlaces task := by
  obtain ⟨done, destination, source, pages⟩ := task
  cases done <;> cases reverse <;> rfl

end Setting

namespace Task

variable {task : Task} {view after : View} {work : Work} {key : Nat × Nat}

theorem meets_shared : ((Check.exactly .sharedCode).withPermission .userReadWrite
    .userReadWrite).Meets (.plain .sharedCode .userReadWrite) := by
  decide

/-- A check for a state and a whole permission leaves nothing open. -/
theorem eq_plain_of_meets {properties : Properties} {state : MemoryState}
    {permission : KernelPermission} (orderly : properties.Orderly)
    (meets : ((Check.exactly state).withPermission .all permission).Meets properties) :
    properties = .plain state permission := by
  have whole := orderly.known
  have granted := meets.permission
  have found : properties.state = state := of_decide_eq_true meets.state
  rw [orderly.eq_plain meets.attributes, found]
  exact congrArg (Properties.plain state) (whole.symm.trans granted)

/-- Only work with two ranges is taken back. -/
theorem two_of_reverse (reverse : task.work.reverse? = some work) (permission : UserPermission) :
    task.work ≠ .setPermission permission := by
  intro kind
  rw [kind] at reverse
  cases reverse

/-- What a task shows at its destination has the frames of its source. -/
theorem behind_effect_destination (pages : Pages) (reverse : task.work.reverse? = some work) :
    task.behind (task.effect pages) .destination = task.behind pages .source := by
  apply behind_eq_iff.mpr
  intro offset bounded
  simp only [place]
  rw [effect_destination bounded]
  rcases Work.reverse?_cases reverse with ⟨kind, _⟩ | ⟨kind, _⟩ <;> rw [kind] <;> rfl

/-- A task keeps the frames of its source where that is apart from its destination. -/
theorem behind_effect_source (pages : Pages)
    (outside : ∀ key ∈ task.range .source, key ∉ task.range .destination) :
    task.behind (task.effect pages) .source = task.behind pages .source := by
  apply behind_eq_iff.mpr
  intro offset bounded
  have inside : task.source.page offset ∈ task.range .source := Place.page_mem_pages.mpr bounded
  rw [place, effect_source (outside _ inside) inside]
  cases task.work <;> rfl

/-- After a task has been done, nothing is in the way of its reverse. -/
theorem judge_reverse (judged : task.judge view = .ok ())
    (reverse : task.work.reverse? = some work) (capacity : after.capacity = view.capacity)
    (pages : after.pages = task.effect view.pages) :
    (task.withWork work).judge after = .ok () := by
  have outside (key : Nat × Nat) (inside : key ∈ task.range .source) :
      key ∉ task.range .destination := fun also =>
    outside_of_judge judged (two_of_reverse reverse) also inside
  have shown := behind_effect_destination view.pages reverse
  have kept := behind_effect_source view.pages outside
  rw [← pages] at shown kept
  have described : (task.withWork work).judgeDemand after .described = .ok () := by
    refine (judgeDemand_described_congr capacity kept).trans (judge_eq_ok.mp judged _ ?_)
    rcases Work.reverse?_cases reverse with ⟨kind, _⟩ | ⟨kind, _⟩ <;> rw [kind] <;> decide
  have backed := judgeDemand_backed_of_described described (shown.trans kept.symm)
  rw [judge_eq_ok] at judged ⊢
  rcases Work.reverse?_cases reverse with ⟨kind, rfl⟩ | ⟨kind, rfl⟩
  · simp only [kind, work_withWork, Work.demands, List.forall_mem_cons] at judged ⊢
    obtain ⟨source, _⟩ := judged
    refine ⟨?_, ?_, described, backed, by simp⟩
    · rw [judgeDemand_meets, pages]
      intro key inside
      rw [effect_of_mem_destination (show key ∈ task.range .destination from inside), kind]
      exact meets_shared
    · rw [judgeDemand_meets, pages] at *
      intro key inside
      rw [effect_source (outside key inside) inside, kind]
      exact source key inside
  · simp only [work_withWork, Work.demands, List.forall_mem_cons]
    refine ⟨?_, ?_, described, backed, by simp⟩
    · rw [judgeDemand_meets, pages]
      intro key inside
      rw [effect_source (outside key inside) inside, kind]
      exact AddressSpace.meets_lent rfl
    · rw [judgeDemand_meets, pages]
      intro key inside
      rw [effect_of_mem_destination (show key ∈ task.range .destination from inside), kind]
      exact AddressSpace.meets_unmarked ⟨_, _, .inl rfl, rfl⟩

/-- What can be taken back is mapped where nothing is. -/
theorem blank_of_reverse (judged : task.judge view = .ok ())
    (reverse : task.work.reverse? = some work) (regular : (view.pages key).Regular)
    (shown : key ∈ task.range .destination) : view.pages key = .blank := by
  have free : task.judgeDemand view (.meets .destination (.exactly .free)) = .ok () := by
    apply judge_eq_ok.mp judged
    rcases Work.reverse?_cases reverse with ⟨kind, _⟩ | ⟨kind, _⟩ <;> rw [kind] <;> decide
  exact regular.eq_blank (of_decide_eq_true (judgeDemand_meets.mp free key shown).state)

/-- A task and its reverse together change nothing. -/
theorem effect_reverse (judged : task.judge view = .ok ())
    (reverse : task.work.reverse? = some work) (regular : ∀ key, (view.pages key).Regular) :
    (task.withWork work).effect (task.effect view.pages) = view.pages := by
  funext key
  by_cases shown : key ∈ task.range .destination
  · rw [effect_of_mem_destination (show key ∈ (task.withWork work).range _ from shown),
      blank_of_reverse judged reverse (regular key) shown]
    rcases Work.reverse?_cases reverse with ⟨_, rfl⟩ | ⟨_, rfl⟩ <;> rfl
  by_cases lent : key ∈ task.range .source
  · rw [effect_source (show key ∉ (task.withWork work).range _ from shown) lent,
      effect_source shown lent]
    rcases Work.reverse?_cases reverse with ⟨kind, rfl⟩ | ⟨kind, rfl⟩
    · rw [kind]
      rfl
    · -- Memory is lent as code only where nothing but its state and permission is of note.
      rw [kind]
      rw [judge_eq_ok, kind] at judged
      have owned := eq_plain_of_meets (regular key).orderly
        (judgeDemand_meets.mp (judged (.meets .source _) (.head _)) key lent)
      exact congrArg (Page.mk · _) owned.symm
  · have outside : key ∉ task.reads := not_or.mpr ⟨shown, lent⟩
    rw [effect_of_not_mem_reads (show key ∉ (task.withWork work).reads from outside),
      effect_of_not_mem_reads outside]

/-- That an alias goes away, which holds instructions yet, is told. -/
theorem invalidation?_reverse (lent : task.work = .mapCode) (positive : 0 < task.pages)
    (strategy : InvalidationStrategy) (pages : Pages) :
    (task.withWork .unmapCode).invalidation? strategy (task.effect pages) =
      some (strategy.request task.destination.address (task.pages * pageSize)) := by
  have member : task.destination.page 0 ∈ task.range .destination :=
    Place.page_mem_pages.mpr positive
  apply if_pos
  refine ⟨task.destination.page 0, member, ?_⟩
  rw [effect_of_mem_destination member, lent]
  exact show MemoryState.aliasCode.has .code = true by decide

end Task

namespace Kernel

variable {config : Config} {cache : InstructionCache} {initial reached kernel middle : Kernel}
variable {steps : List Step} {current : Nat} {request back : Call} {result : Commit}

/-- The reverse of a call that is done is done as well, and leads back. -/
theorem perform_reverse (inv : OrdinaryInvariant config kernel)
    (done : perform current request kernel = .done result middle)
    (reverse : request.reverse? = some back) :
    ∃ task work answer final, kernel.setting.task current request = .ok task ∧
      task.work.reverse? = some work ∧ task.Leads kernel middle ∧
      perform current back middle = .done answer final ∧
      (task.withWork work).Leads middle final ∧ kernel.SameMemory final := by
  obtain ⟨task, judged, leads, middleInv⟩ := leads_of_perform inv done
  obtain ⟨came, admitted, met⟩ := Setting.judge_eq_ok.mp judged
  obtain ⟨work, reversed, cameBack⟩ := Setting.task_reverse came reverse
  have judgedBack : middle.setting.judge middle.view current back = .ok (task.withWork work) := by
    rw [leads.setting_eq, Setting.judge_eq_ok]
    refine ⟨cameBack, (Setting.requirePlaces_reverse reversed).trans admitted, ?_⟩
    exact Task.judge_reverse met reversed (middleInv.capacity_eq.trans inv.capacity_eq.symm)
      leads.page_eq
  obtain ⟨answer, final, performed, leadsBack, finalInv⟩ := leads_of_judge middleInv judgedBack
  refine ⟨task, work, answer, final, came, reversed, leads, performed, leadsBack, ?_⟩
  apply inv.sameMemory finalInv (leadsBack.setting_eq.trans leads.setting_eq)
  · rw [leadsBack.page_eq, leads.page_eq]
    exact Task.effect_reverse met reversed inv.regular
  · exact leads.frames.trans leadsBack.frames

/-- Mapping memory of a process into the current one and taking it away again at once changes
nothing, wherever the frames of the source come from, whatever the destination is next to, and even
where the handle names the current process itself. -/
theorem mapMemory_is_undone {destination source size : UInt64} {handle : Handle}
    (created : create config cache = .ok initial) (ordinary : ∀ step ∈ steps, step.Ordinary)
    (ran : initial.run? steps = some reached)
    (mapped : perform current (.mapMemory destination handle source size) reached =
      .done result middle) :
    ∃ answer final, perform current (.unmapMemory destination handle source size) middle =
        .done answer final ∧ reached.SameMemory final := by
  obtain ⟨_, _, answer, final, _, _, _, performed, _, same⟩ :=
    perform_reverse (ordinaryInvariant_run created ordinary ran) mapped rfl
  exact ⟨answer, final, performed, same⟩

/-- Two pages of code of the second process, which the first takes away at once. -/
theorem mapMemory_is_undone_of_lent_code :
    ∃ reached result middle answer final, small.run? (smallRun.take 4) = some reached ∧
      perform 0 (.mapMemory 0x9000000 ⟨0x8000⟩ 0x8000000 0x2000) reached = .done result middle ∧
      perform 0 (.unmapMemory 0x9000000 ⟨0x8000⟩ 0x8000000 0x2000) middle = .done answer final ∧
      reached.SameMemory final := by
  have shown : ((small.run? (smallRun.take 4)).map fun reached =>
      (perform 0 (.mapMemory 0x9000000 ⟨0x8000⟩ 0x8000000 0x2000) reached).ending) =
        some (.ok ()) := by
    decide +kernel
  obtain ⟨reached, ran, shown⟩ := Option.map_eq_some_iff.mp shown
  obtain ⟨result, middle, mapped⟩ := Outcome.ending_eq_ok.mp shown
  obtain ⟨answer, final, performed, same⟩ := mapMemory_is_undone create_small
    (show ∀ step ∈ smallRun.take 4, step.Ordinary by decide +kernel) ran mapped
  exact ⟨reached, result, middle, answer, final, ran, mapped, performed, same⟩

/-- Lending out memory as code and giving it back at once changes nothing but what the instruction
cache has been asked: it has been told once to forget the alias. -/
theorem mapCode_is_undone {destination source size : UInt64} {handle : Handle}
    (created : create config cache = .ok initial) (ordinary : ∀ step ∈ steps, step.Ordinary)
    (ran : initial.run? steps = some reached)
    (mapped : perform current (.mapCode handle destination source size) reached =
      .done result middle) :
    ∃ answer final, perform current (.unmapCode handle destination source size) middle =
        .done answer final ∧ reached.SameMemory final ∧
      final.resources.cache = reached.resources.cache.request
        (reached.config.invalidation.request destination.toNat size.toNat) := by
  obtain ⟨task, work, answer, final, came, reversed, leads, performed, leadsBack, same⟩ :=
    perform_reverse (ordinaryInvariant_run created ordinary ran) mapped rfl
  obtain ⟨kind, _⟩ := Setting.codeTask_eq_ok came .unmapCode
  rw [kind] at reversed
  cases reversed
  have kept : middle.config = reached.config := congrArg Setting.config leads.setting_eq
  have silent : middle.resources.cache = reached.resources.cache := by
    rw [leads.cache_eq, Task.invalidation?, kind]
    rfl
  obtain ⟨address, bytes⟩ := Setting.destination_of_codeTask came
  have positive := (Setting.valid_of_task came).positive
  refine ⟨answer, final, performed, same, ?_⟩
  rw [leadsBack.cache_eq, leads.page_eq, Task.invalidation?_reverse kind positive, silent, kept,
    address, bytes]
  rfl

/-- Two of three pages of ordinary memory, next to pages that another process shows. -/
theorem mapCode_is_undone_of_two_pages :
    ∃ reached result middle answer final, small.run? (smallRun.take 7) = some reached ∧
      perform 0 (.mapCode ⟨0x8000⟩ 0x9000000 0x1000001000 0x2000) reached = .done result middle ∧
      perform 0 (.unmapCode ⟨0x8000⟩ 0x9000000 0x1000001000 0x2000) middle =
        .done answer final ∧
      reached.SameMemory final ∧ final.resources.cache = .recording [.all] := by
  have shown : ((small.run? (smallRun.take 7)).map fun reached =>
      ((perform 0 (.mapCode ⟨0x8000⟩ 0x9000000 0x1000001000 0x2000) reached).ending,
        reached.resources.cache.request (reached.config.invalidation.request 0x9000000 0x2000))) =
          some (.ok (), .recording [.all]) := by
    decide +kernel
  obtain ⟨reached, ran, shown⟩ := Option.map_eq_some_iff.mp shown
  obtain ⟨ended, requested⟩ := Prod.mk.inj shown
  obtain ⟨result, middle, mapped⟩ := Outcome.ending_eq_ok.mp ended
  obtain ⟨answer, final, performed, same, told⟩ := mapCode_is_undone create_small
    (show ∀ step ∈ smallRun.take 7, step.Ordinary by decide +kernel) ran mapped
  exact ⟨reached, result, middle, answer, final, ran, mapped, performed, same,
    told.trans requested⟩

end Kernel

end GuestMemory
