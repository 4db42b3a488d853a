import GuestMemory.Proofs.Kernel.Aliasing
import GuestMemory.Proofs.Kernel.Invalidations
import GuestMemory.Proofs.Kernel.Withdrawals

/-!
Taking code aliases away, from the arguments of the call to the pages: what is required of them, in
which order, and what becomes of the memory where nothing is missing.
-/

namespace GuestMemory

open GuestMemory.Action Verdict

namespace Properties

variable {properties : Properties}

/-- The memory is ordinary and lent out, so that it can be taken back. -/
def MayReclaim (properties : Properties) : Prop :=
  properties.state = .normal ∧ properties.attributes = .locked

instance : DecidablePred MayReclaim := fun properties =>
  inferInstanceAs (Decidable (properties.state = .normal ∧ properties.attributes = .locked))

/-- The memory is a code alias that can be taken away. -/
def MayErase (properties : Properties) : Prop :=
  properties.state.IsAlias ∧ properties.attributes = .empty

instance : DecidablePred MayErase := fun properties =>
  inferInstanceAs (Decidable (properties.state.IsAlias ∧ properties.attributes = .empty))

theorem MayReclaim.used (lent : properties.MayReclaim) : properties.state ≠ .free := by
  rw [lent.1]
  decide

theorem MayErase.used (erased : properties.MayErase) : properties.state ≠ .free := by
  intro free
  have aliased := erased.1
  rw [free] at aliased
  exact absurd aliased (by decide)

theorem Orderly.meets_lent_iff (orderly : properties.Orderly) :
    ((Check.exactly .normal).withAttributes .all .locked).Meets properties ↔
      properties.MayReclaim :=
  (Check.meets_withAttributes_iff orderly).trans (and_congr_left' decide_eq_true_iff)

theorem Orderly.meets_alias_iff (orderly : properties.Orderly) :
    (Check.hasFlags .canCodeAlias).Meets properties ↔ properties.MayErase :=
  (Check.meets_ofState_iff orderly).trans (and_congr_left' MemoryState.has_canCodeAlias_iff)

theorem Orderly.eq_lent_of_mayReclaim (orderly : properties.Orderly)
    (lent : properties.MayReclaim) : properties = .lent :=
  orderly.eq_lent (orderly.attributes_known.trans lent.2)

end Properties

namespace Kernel

variable {config : Config} {kernel after : Kernel} {task : Task}
variable {current destination source size : Nat} {handle : Handle}

theorem OrdinaryInvariant.judge_unmapCode (inv : OrdinaryInvariant config kernel)
    (ends : kernel.extent.stop < wordLimit)
    (work : task.work = .unmapCode) :
    task.judge kernel.view = (do
      demand (∀ key ∈ task.range .source, (kernel.page key).properties.MayReclaim)
        (.refused .invalidCurrentMemory)
      demand (∀ key ∈ task.range .destination, (kernel.page key).properties.MayErase)
        (.refused .invalidCurrentMemory)
      demand ((Run.contiguous (kernel.framesBehind (task.range .source))).length ≤
        kernel.resources.descriptors.free.length) (.refused .outOfResource)
      demand (∀ offset < task.pages, (kernel.page (task.destination.page offset)).frame =
        (kernel.page (task.source.page offset)).frame) (.refused .invalidCurrentMemory)) :=
  inv.judge_withdrawal ends (congrArg Work.demands work) (by decide)
    ⟨Properties.Orderly.meets_lent_iff, Properties.MayReclaim.used⟩
    ⟨Properties.Orderly.meets_alias_iff, Properties.MayErase.used⟩

/-- What is required of a request to take a code alias away, in the order in which it is looked
at. -/
def reclaimingRequirements (kernel : Kernel) (current : Nat) (handle : Handle)
    (destination source size : Nat) : List Requirement :=
  let owner := kernel.named? current handle
  let target := fun index => Place.mk index destination
  let origin := fun index => Place.mk index source
  let count := size / pageSize
  ⟨destination % pageSize = 0, .invalidAddress⟩ :: ⟨source % pageSize = 0, .invalidAddress⟩ ::
    (kernel.aliasRequirements current handle destination source size ++ [
      ⟨∀ index ∈ owner, ∀ key ∈ (origin index).pages count,
        (kernel.page key).properties.MayReclaim, .invalidCurrentMemory⟩,
      ⟨∀ index ∈ owner, ∀ key ∈ (target index).pages count,
        (kernel.page key).properties.MayErase, .invalidCurrentMemory⟩,
      ⟨∀ index ∈ owner, (Run.contiguous (kernel.framesBehind ((origin index).pages count))).length ≤
        kernel.resources.descriptors.free.length, .outOfResource⟩,
      ⟨∀ index ∈ owner, ∀ offset < count, (kernel.page ((target index).page offset)).frame =
        (kernel.page ((origin index).page offset)).frame, .invalidCurrentMemory⟩])

theorem judge_reclaimingRequirements (inv : OrdinaryInvariant config kernel) (names : kernel.Named)
    (present : current < kernel.processes.length) (ends : kernel.extent.stop < wordLimit) :
    (do
      let task ← kernel.setting.codeTask .unmapCode current handle destination source size
      kernel.setting.requirePlaces task
      task.judge kernel.view) =
        Requirement.judge
          (kernel.reclaimingRequirements current handle destination source size) := by
  refine judge_codeTask inv.layouts names present rfl fun owner named => ?_
  rw [inv.judge_unmapCode ends rfl]
  simp only [Requirement.judge_cons, Requirement.judge_nil, bind_unit, named, Option.mem_def,
    Option.some.injEq, forall_eq']
  rfl

/-- A page that was lent out to a code alias is again the process's own, and the alias is gone. -/
structure Reclaims (before after : Kernel) (origin target : Nat × Nat) (frame : Nat) : Prop where
  lent : before.page origin = ⟨.lent, some frame⟩
  shown : (before.page target).frame = some frame
  owned : after.page origin = ⟨.plain .normal .userReadWrite, some frame⟩
  translated : after.translation? origin = some ⟨frame * pageSize, .userReadWrite⟩
  vacant : after.Vacant target

theorem reclaims_of_leads (leads : task.Leads kernel after) (inv : OrdinaryInvariant config kernel)
    (afterInv : OrdinaryInvariant config after) (work : task.work = .unmapCode)
    (judged : task.judge kernel.view = .ok ())
    (reclaimed : ∀ key ∈ task.range .source, (kernel.page key).properties.MayReclaim)
    (same : ∀ offset < task.pages, (kernel.page (task.destination.page offset)).frame =
      (kernel.page (task.source.page offset)).frame) (offset : Nat)
    (bounded : offset < task.pages) : ∃ frame,
      Reclaims kernel after (task.source.page offset) (task.destination.page offset) frame := by
  have reclaimed := reclaimed (task.source.page offset) (Place.page_mem_pages.mpr bounded)
  obtain ⟨frame, backed⟩ := (inv.regular _).exists_frame reclaimed.used
  have lent : kernel.page (task.source.page offset) = ⟨.lent, some frame⟩ :=
    Page.ext ((inv.regular _).orderly.eq_lent_of_mayReclaim reclaimed) backed
  have owned : after.page (task.source.page offset) =
      ⟨.plain .normal .userReadWrite, some frame⟩ := by
    rw [page_source_of_leads leads judged (by simp [work]) bounded, work, lent]
    rfl
  refine ⟨frame, lent, (same offset bounded).trans backed, owned, ?_, ?_⟩
  · rw [afterInv.translation?_eq, owned]
    rfl
  · exact vacant_of_leads leads (by simp [work, Work.onDestination]) afterInv
      (Place.page_mem_pages.mpr bounded)

variable {cache : InstructionCache} {initial reached : Kernel} {steps : List Step}

/-- In every state that a kernel can reach whose frames lie before the last address, a request to
take a code alias away ends in the error of the first requirement that is violated and is done if
none is. The pages of the alias are then free, those of the source are the process's own again, each
frame has as many references less as it was behind the alias but never none, and nothing else is
another but for what the instruction cache forgets: the alias, if some page of it is still code. -/
theorem unmapCode_is_exact (fits : config.frameBase + config.framePages * pageSize < wordLimit)
    (created : create config cache = .ok initial) (ordinary : ∀ step ∈ steps, step.Ordinary)
    (knows : initial.Knows steps) (ran : initial.run? steps = some reached)
    (present : current < reached.processes.length) (handle : Handle)
    (destination source size : UInt64) :
    let outcome := perform current (.unmapCode handle destination source size) reached
    outcome.ending = Requirement.judge (reached.reclaimingRequirements current handle
      destination.toNat source.toNat size.toNat) ∧
    ∀ result after, outcome = .done result after →
      ∃ owner, reached.named? current handle = some owner ∧
        let target : Place := ⟨owner, destination.toNat⟩
        let origin : Place := ⟨owner, source.toNat⟩
        let count := size.toNat / pageSize
        (∀ offset < count,
          ∃ frame, Reclaims reached after (origin.page offset) (target.page offset) frame) ∧
        reached.ChangesOnly (target.pages count ++ origin.pages count) after ∧
        (∀ frame, after.resources.frames.held frame +
          (reached.framesBehind (target.pages count)).count frame =
            reached.resources.frames.held frame) ∧
        (∀ frame, after.resources.frames.held frame = 0 ↔
          reached.resources.frames.held frame = 0) ∧
        after.resources.cache = reached.resources.cache.told
          (if ∃ key ∈ target.pages count, (reached.page key).properties.state = .aliasCode then
            some (reached.config.invalidation.request destination.toNat size.toNat)
          else none) := by
  intro outcome
  have inv := ordinaryInvariant_run created ordinary ran
  have names := (Named.of_create created).run knows ordinary ran
  have ends := inv.stop_lt fits
  refine ⟨(ending_perform_eq_judge inv).trans
    (judge_reclaimingRequirements inv names present ends), fun result after done => ?_⟩
  obtain ⟨task, judged, leads, afterInv⟩ := leads_of_perform inv done
  obtain ⟨came, _, judged⟩ := Setting.judge_eq_ok.mp judged
  obtain ⟨owner, named, bytes, rfl⟩ := eq_of_came_to_codeTask names present came
  have demands := judged
  rw [inv.judge_unmapCode ends rfl] at demands
  simp only [Verdict.bind_eq_ok, demand_eq_ok] at demands
  obtain ⟨_, reclaimed, _, erased, _, _, same⟩ := demands
  have clears (page other : Page) : Work.unmapCode.onDestination page other = .blank := rfl
  -- What the instruction cache is told goes by the states that the alias had before.
  have told := leads.cache_eq
  rw [Task.invalidation?_unmapCode rfl fun key inside => (erased key inside).1, bytes] at told
  exact ⟨owner, named, reclaims_of_leads leads inv afterInv rfl judged reclaimed same,
    changesOnly_of_both leads inv afterInv, held_add_of_leads leads clears inv afterInv,
    held_eq_zero_iff_of_leads leads inv afterInv, told⟩

/-- A process has lent out two pages as code, and one of them has been made data. -/
def writtenRun : List Step := compactRun ++ [
  .call 0 (.mapCode ⟨0x8000⟩ 0x8004000 0x8001000 0x2000),
  .call 0 (.setPermission ⟨0x8000⟩ 0x8005000 0x1000 3)]

/-- Both pages are taken back at once. Since one of them is still code, the instruction cache is
told to forget. -/
theorem unmapCode_is_exact_of_written_alias :
    ∃ reached result after, small.run? writtenRun = some reached ∧
      perform 0 (.unmapCode ⟨0x8000⟩ 0x8004000 0x8001000 0x2000) reached = .done result after ∧
      Reclaims reached after (1, 0x8002) (1, 0x8005) 0x80002 ∧
      reached.resources.frames.held 0x80002 = 2 ∧ after.resources.frames.held 0x80002 = 1 ∧
      after.resources.cache = reached.resources.cache.request .all := by
  have shown : ((small.run? writtenRun).map fun reached =>
      (decide (0 < reached.processes.length ∧ reached.named? 0 ⟨0x8000⟩ = some 1 ∧
          reached.resources.frames.held 0x80002 = 2 ∧ reached.config.invalidation = .all ∧
          (reached.page (1, 0x8004)).properties.state = .aliasCode),
        Requirement.judge (reached.reclaimingRequirements 0 ⟨0x8000⟩ 0x8004000 0x8001000 0x2000),
        (reached.page (1, 0x8005)).frame,
        reached.framesBehind (Place.pages ⟨1, 0x8004000⟩ 2))) =
      some (true, .ok (), some 0x80002, [0x80001, 0x80002]) := by
    decide +kernel
  obtain ⟨reached, ran, shown⟩ := Option.map_eq_some_iff.mp shown
  obtain ⟨ready, met, backed, behind⟩ : _ ∧ _ ∧ _ ∧ _ := by simpa only [Prod.mk.injEq] using shown
  obtain ⟨present, named, twice, strategy, code⟩ := of_decide_eq_true ready
  obtain ⟨ending, exact⟩ := unmapCode_is_exact (show _ < wordLimit by decide +kernel) create_small
    (show ∀ step ∈ writtenRun, step.Ordinary by decide +kernel)
    (show small.Knows writtenRun by decide +kernel) ran present ⟨0x8000⟩
    0x8004000 0x8001000 0x2000
  obtain ⟨result, after, done⟩ := Outcome.ending_eq_ok.mp (ending.trans met)
  obtain ⟨owner, found, reclaims, _, held, _, told⟩ := exact result after done
  obtain rfl := Option.some.inj (named.symm.trans found)
  obtain ⟨frame, taken⟩ := reclaims 1 (by decide +kernel)
  obtain rfl : 0x80002 = frame := Option.some.inj (backed.symm.trans taken.shown)
  have less : after.resources.frames.held 0x80002 +
      (reached.framesBehind (Place.pages ⟨1, 0x8004000⟩ 2)).count 0x80002 =
        reached.resources.frames.held 0x80002 := held 0x80002
  rw [behind, twice] at less
  rw [if_pos ⟨(1, 0x8004), by decide +kernel, code⟩, strategy] at told
  exact ⟨reached, result, after, ran, done, taken, twice, Nat.succ.inj less, told⟩

/-- Where a frame is the last there is, a request is stopped that meets all requirements, even if
its pages have been lent out one by one. -/
theorem reclaiming_the_last_frame_stops :
    let run : List Step := [.createProcess compact, .mapPages 0 0x8001000 1 .normal .readWrite,
      .mapPages 0 0x8000000 1 .normal .readWrite,
      .call 0 (.mapCode .currentProcess 0x8004000 0x8000000 0x1000),
      .call 0 (.mapCode .currentProcess 0x8005000 0x8001000 0x1000)]
    create topmost.config topmost.resources.cache = .ok topmost ∧
    (∀ step ∈ run, step.Ordinary) ∧ topmost.Knows run ∧
    ∃ reached, topmost.run? run = some reached ∧ 0 < reached.processes.length ∧
      Requirement.judge
        (reached.reclaimingRequirements 0 .currentProcess 0x8004000 0x8000000 0x2000) = .ok () ∧
      perform 0 (.unmapCode .currentProcess 0x8004000 0x8000000 0x2000) reached =
        .fault .overflow := by
  intro run
  obtain ⟨reached, ran, _, stops⟩ := topmost_overflows run 0
    (.unmapCode .currentProcess 0x8004000 0x8000000 0x2000)
    (·.reclaimingRequirements 0 .currentProcess 0x8004000 0x8000000 0x2000) (by decide +kernel)
  exact ⟨rfl, by decide +kernel, by decide +kernel, reached, ran, stops⟩

end Kernel

end GuestMemory
