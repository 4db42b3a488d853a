import GuestMemory.Proofs.Kernel.CodeAliases
import GuestMemory.Proofs.Kernel.Inverses

/-!
What the instruction cache is told when a code alias goes away. That depends on the state of the
alias: one that has been made writable is data from then on, and is taken away in silence even if it
has been made executable again.
-/

namespace GuestMemory

open GuestMemory.Action Verdict AddressSpace

variable {config : Config} {cache : InstructionCache} {initial reached after : Kernel}
variable {steps : List Step} {current address size pages number : Nat} {handle : Handle}
variable {state : MemoryState} {task : Task} {strategy : InvalidationStrategy} {result : Commit}

/-- After the request no instruction of the page is cached. -/
def Invalidation.Covers (number : Nat) : Invalidation → Prop
  | range address size =>
    address ≤ number * pageSize ∧ (number + 1) * pageSize ≤ address + size
  | all => True

/-- The request for an alias covers all its pages. -/
theorem InvalidationStrategy.covers_request (strategy : InvalidationStrategy)
    (aligned : address % pageSize = 0) (inside : Within (pageOf address) pages number) :
    (strategy.request address (pages * pageSize)).Covers number := by
  cases strategy with
  | all => trivial
  | range =>
      obtain ⟨lower, upper⟩ := inside
      simp only [request, Invalidation.Covers, pageOf, pageSize_eq] at *
      omega

/-- Of the two states of an alias, one is code. -/
theorem MemoryState.IsAlias.has_code_iff (aliased : state.IsAlias) :
    state.has .code = true ↔ state = .aliasCode := by
  rcases aliased with rfl | rfl <;> decide

namespace Task

variable {view : View} {pages : Pages} {key : Nat × Nat}

/-- Only aliases are taken away as such. -/
theorem isAlias_of_judge (judged : task.judge view = .ok ()) (work : task.work = .unmapCode)
    (inside : key ∈ task.range .destination) : (view.pages key).properties.state.IsAlias := by
  simp only [judge_eq_ok, work, Work.demands, List.forall_mem_cons] at judged
  exact MemoryState.has_canCodeAlias_iff.mp (judgeDemand_meets.mp judged.2.1 key inside).state

theorem invalidation?_unmapCode (work : task.work = .unmapCode)
    (aliases : ∀ key ∈ task.range .destination, (pages key).properties.state.IsAlias) :
    task.invalidation? strategy pages =
      if ∃ key ∈ task.range .destination, (pages key).properties.state = .aliasCode then
        some (strategy.request task.destination.address (task.pages * pageSize))
      else none := by
  rw [invalidation?, work]
  refine if_congr ?_ rfl rfl
  exact exists_congr fun key => and_congr_right fun inside => (aliases key inside).has_code_iff

end Task

/-- What a call about code memory comes to is about the process that its handle names. -/
theorem Setting.resolve_of_codeTask {setting : Setting} {work : Work} {source : Nat}
    (came : setting.codeTask work current handle address source size = .ok task) :
    address % pageSize = 0 ∧ Kernel.WholePages size ∧ ∃ target,
      setting.resolve current handle = .ok target ∧
        task = ⟨work, ⟨target, address⟩, ⟨target, source⟩, size / pageSize⟩ := by
  simp only [codeTask, Verdict.bind_eq_ok, demand_eq_ok, Kernel.wholePages_iff] at came
  obtain ⟨_, aligned, _, whole, _, _, _, _, target, resolved, built⟩ := came
  rw [Bool.and_eq_true, isPageAligned_iff] at aligned
  exact ⟨aligned.1, whole, target, resolved, (Except.ok.inj built).symm⟩

namespace Kernel

/-- The pages of a process in one of the states of memory in use. -/
theorem mem_pagesWith_state_iff {target : Nat} {process : Process} (state : MemoryState)
    (used : state ≠ .free) (coherent : ∀ process ∈ reached.processes, process.space.Coherent)
    (listed : reached.processes[target]? = some process) (number : Nat) :
    number ∈ process.space.pagesWith (·.state = state) ↔
      (reached.page (target, number)).properties.state = state := by
  have coherent := coherent process (List.mem_of_getElem? listed)
  rw [coherent.mem_pagesWith_iff (show ¬ MemoryState.free = state from used.symm),
    page_of_listed (spaces_listed listed)]

/-- Whoever takes a code alias away takes away aliases only, and tells the instruction cache what
their states ask for. -/
theorem aliases_of_unmapCode {destination source bytes : UInt64}
    (inv : OrdinaryInvariant config reached)
    (unmapped : perform current (.unmapCode handle destination source bytes) reached =
      .done result after) :
    ∃ target process, reached.setting.resolve current handle = .ok target ∧
      reached.processes[target]? = some process ∧ destination.toNat % pageSize = 0 ∧
      WholePages bytes.toNat ∧
      let keys := Place.pages ⟨target, destination.toNat⟩ (bytes.toNat / pageSize)
      (∀ key ∈ keys, (reached.page key).properties.state.IsAlias) ∧
      after.resources.cache = reached.resources.cache.told
        (if ∃ key ∈ keys, (reached.page key).properties.state = .aliasCode then
          some (reached.config.invalidation.request destination.toNat bytes.toNat)
        else none) := by
  obtain ⟨task, judged, leads, _⟩ := leads_of_perform inv unmapped
  obtain ⟨came, admitted, ended⟩ := Setting.judge_eq_ok.mp judged
  obtain ⟨process, _, hosts⟩ := hosts_of_requirePlaces inv.coherent inv.layouts
    (Setting.valid_of_task came) admitted
  have work : task.work = .unmapCode := (Setting.codeTask_eq_ok came .unmapCode).1
  have aliased (key : Nat × Nat) (inside : key ∈ task.range .destination) :
      (reached.page key).properties.state.IsAlias :=
    Task.isAlias_of_judge ended work inside
  have told := leads.cache_eq
  rw [Task.invalidation?_unmapCode work aliased] at told
  obtain ⟨aligned, whole, target, resolved, rfl⟩ := Setting.resolve_of_codeTask came
  rw [whole.mul_eq] at told
  exact ⟨target, process, resolved, hosts.target_listed, aligned, whole, aliased, told⟩

/-- When a code alias is taken away, the instruction cache is told to forget all of it if some page
of it is still code, and nothing if all of it has become data. -/
theorem unmapCode_invalidates {destination source bytes : UInt64}
    (created : create config cache = .ok initial) (ordinary : ∀ step ∈ steps, step.Ordinary)
    (ran : initial.run? steps = some reached)
    (unmapped : perform current (.unmapCode handle destination source bytes) reached =
      .done result after) :
    ∃ target process, reached.setting.resolve current handle = .ok target ∧
      reached.processes[target]? = some process ∧
      let inside := Within (pageOf destination.toNat) (bytes.toNat / pageSize)
      let code := process.space.pagesWith (·.state = .aliasCode)
      let data := process.space.pagesWith (·.state = .aliasCodeData)
      let request := reached.config.invalidation.request destination.toNat bytes.toNat
      (∀ number, inside number → number ∈ code ∪ data ∧ request.Covers number) ∧
      ((∃ number ∈ code, inside number) →
        after.resources.cache = reached.resources.cache.request request) ∧
      ((∀ number, inside number → number ∈ data) →
        after.resources.cache = reached.resources.cache) := by
  have inv := ordinaryInvariant_run created ordinary ran
  obtain ⟨target, process, resolved, listed, aligned, whole, aliased, told⟩ :=
    aliases_of_unmapCode inv unmapped
  have code := mem_pagesWith_state_iff .aliasCode (by decide) inv.coherent listed
  have data := mem_pagesWith_state_iff .aliasCodeData (by decide) inv.coherent listed
  refine ⟨target, process, resolved, listed, fun number inside => ⟨?_, ?_⟩,
    fun ⟨number, still, inside⟩ => ?_, fun all => ?_⟩
  · rw [Set.mem_union, code, data]
    exact aliased _ (Place.mem_pages_iff.mpr ⟨rfl, inside⟩)
  · have covers := reached.config.invalidation.covers_request aligned inside
    rwa [whole.mul_eq] at covers
  · rw [told, if_pos ⟨_, Place.mem_pages_iff.mpr ⟨rfl, inside⟩, (code number).mp still⟩]
    rfl
  · rw [told, if_neg]
    · rfl
    · rintro ⟨⟨index, number⟩, inside, still⟩
      obtain ⟨rfl, within⟩ := Place.mem_pages_iff.mp inside
      cases still.symm.trans ((data number).mp (all number within))

/-- The alias that another process has made executable is still code. -/
theorem unmapCode_invalidates_executable_alias :
    ∃ reached process result after, small.run? smallRun = some reached ∧
      reached.processes[1]? = some process ∧
      0x9000 ∈ process.space.pagesWith (·.state = .aliasCode) ∧
      perform 1 (.unmapCode .currentProcess 0x9000000 0x1000001000 0x1000) reached =
        .done result after ∧
      after.resources.cache = reached.resources.cache.request .all := by
  have shown : ((small.run? smallRun).bind fun reached => reached.processes[1]?.map fun process =>
      (decide (0x9000 ∈ process.space.pagesWith (·.state = .aliasCode)),
        (perform 1 (.unmapCode .currentProcess 0x9000000 0x1000001000 0x1000) reached).ending,
        reached.setting.resolve 1 .currentProcess, reached.config.invalidation)) =
      some (true, .ok (), .ok 1, .all) := by
    decide +kernel
  obtain ⟨reached, ran, shown⟩ := Option.bind_eq_some_iff.mp shown
  obtain ⟨process, listed, shown⟩ := Option.map_eq_some_iff.mp shown
  simp only [Prod.mk.injEq, decide_eq_true_iff] at shown
  obtain ⟨code, ended, resolved, strategy⟩ := shown
  obtain ⟨result, after, done⟩ := Outcome.ending_eq_ok.mp ended
  obtain ⟨target, other, named, found, _, told, _⟩ := unmapCode_invalidates create_small
    (show ∀ step ∈ smallRun, step.Ordinary by decide +kernel) ran done
  cases resolved.symm.trans named
  cases listed.symm.trans found
  rw [strategy] at told
  exact ⟨reached, process, result, after, ran, listed, code, done, told ⟨0x9000, code, by decide⟩⟩

/-- A process writes to a code alias and makes it executable again. -/
def rewrittenRun : List Step := [
  .createProcess {}, .mapPages 0 0x1000000000 1 .normal .readWrite,
  .call 0 (.mapCode .currentProcess 0x9000000 0x1000000000 0x1000),
  .call 0 (.setPermission .currentProcess 0x9000000 0x1000 3),
  .call 0 (.setPermission .currentProcess 0x9000000 0x1000 5)]

/-- Instructions may stay cached when their alias is taken away: it was executable, and the
instruction cache is told nothing. -/
theorem rewritten_alias_stays_cached :
    ∃ reached process translation result after, (∀ step ∈ rewrittenRun, step.Ordinary) ∧
      small.run? rewrittenRun = some reached ∧ reached.processes[0]? = some process ∧
      process.space.directory.translate 0x9000000 = some translation ∧
      translation.permission.isUserExecutable = true ∧
      perform 0 (.unmapCode .currentProcess 0x9000000 0x1000000000 0x1000) reached =
        .done result after ∧
      after.resources.cache = reached.resources.cache := by
  have shown : ((small.run? rewrittenRun).bind fun reached => reached.processes[0]?.bind
      fun process => (process.space.directory.translate 0x9000000).map fun translation =>
        let outcome := perform 0 (.unmapCode .currentProcess 0x9000000 0x1000000000 0x1000) reached
        (translation.permission.isUserExecutable, outcome.ending,
          outcome.state?.map (decide <| ·.resources.cache = reached.resources.cache))) =
      some (true, .ok (), some true) := by
    decide +kernel
  obtain ⟨reached, ran, shown⟩ := Option.bind_eq_some_iff.mp shown
  obtain ⟨process, listed, shown⟩ := Option.bind_eq_some_iff.mp shown
  obtain ⟨translation, translated, shown⟩ := Option.map_eq_some_iff.mp shown
  simp only [Prod.mk.injEq] at shown
  obtain ⟨executable, ended, silent⟩ := shown
  obtain ⟨result, after, done⟩ := Outcome.ending_eq_ok.mp ended
  rw [done] at silent
  exact ⟨reached, process, translation, result, after, by decide +kernel, ran, listed, translated,
    executable, done, of_decide_eq_true (Option.some.inj silent)⟩

end Kernel

end GuestMemory
