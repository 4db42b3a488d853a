import GuestMemory.Proofs.Kernel.Lending

/-!
Making code aliases, from the arguments of the call to the pages: what is required of them, in which
order, and what becomes of the memory where nothing is missing.
-/

namespace GuestMemory

open GuestMemory.Action Verdict

namespace Properties

variable {properties : Properties}

/-- The process has the memory to itself and may read and write it, so that it can be lent out as
code. -/
def MayAlias (properties : Properties) : Prop :=
  properties.state = .normal ∧ properties.permission = .userReadWrite ∧
    properties.attributes = .empty

instance : DecidablePred MayAlias := fun properties =>
  inferInstanceAs (Decidable (properties.state = .normal ∧
    properties.permission = .userReadWrite ∧ properties.attributes = .empty))

theorem MayAlias.used (owned : properties.MayAlias) : properties.state ≠ .free := by
  rw [owned.1]
  decide

theorem Orderly.meets_owned_iff (orderly : properties.Orderly) :
    ((Check.exactly .normal).withPermission .all .userReadWrite).Meets properties ↔
      properties.MayAlias := by
  rw [Check.exactly, Check.meets_withPermission_iff orderly, orderly.known]
  exact and_congr_left' decide_eq_true_iff

theorem Orderly.eq_plain_of_mayAlias (orderly : properties.Orderly)
    (owned : properties.MayAlias) : properties = .plain .normal .userReadWrite := by
  obtain ⟨state, permission, unmarked⟩ := owned
  rw [orderly.eq_plain (orderly.attributes_known.trans unmarked), state, permission]

end Properties

namespace Kernel

variable {config : Config} {kernel after : Kernel} {task : Task}
variable {current destination source size : Nat} {handle : Handle}

theorem OrdinaryInvariant.judge_mapCode (inv : OrdinaryInvariant config kernel)
    (ends : kernel.extent.stop < wordLimit)
    (roomy : kernel.Roomy) (work : task.work = .mapCode) :
    task.judge kernel.view = (do
      demand (∀ key ∈ task.range .source, (kernel.page key).properties.MayAlias)
        (.refused .invalidCurrentMemory)
      demand (∀ key ∈ task.range .destination, (kernel.page key).properties.state = .free)
        (.refused .invalidCurrentMemory)
      demand ((Run.contiguous (kernel.framesBehind (task.range .source))).length ≤
        kernel.resources.descriptors.free.length) (.refused .outOfResource)) := by
  -- The last demand is for references, which there is always room for.
  have retainable : task.judgeDemand kernel.view (.retainable 1) = .ok () :=
    inv.judgeDemand_retainable roomy (by simp [work, Work.demands])
  rw [Task.judge, work]
  simp only [Work.demands, List.forM_cons, List.forM_nil]
  refine demand_bind_eq (forall₂_congr fun key _ =>
    (inv.regular key).orderly.meets_owned_iff) fun owned => ?_
  refine demand_bind_eq (forall₂_congr fun key _ =>
    (inv.regular key).orderly.meets_free_iff) fun _ => ?_
  rw [retainable, inv.judgeDemand_described ends fun key member =>
    (inv.regular key).frame_ne_none (owned key member).used]
  exact bind_unit _

/-- What is required of a request to make a code alias, in the order in which it is looked at. -/
def aliasingRequirements (kernel : Kernel) (current : Nat) (handle : Handle)
    (destination source size : Nat) : List Requirement :=
  let owner := kernel.named? current handle
  let target := fun index => Place.pages ⟨index, destination⟩ (size / pageSize)
  let origin := fun index => Place.pages ⟨index, source⟩ (size / pageSize)
  ⟨source % pageSize = 0, .invalidAddress⟩ :: ⟨destination % pageSize = 0, .invalidAddress⟩ ::
    (kernel.aliasRequirements current handle destination source size ++ [
      ⟨∀ index ∈ owner, ∀ key ∈ origin index, (kernel.page key).properties.MayAlias,
        .invalidCurrentMemory⟩,
      ⟨∀ index ∈ owner, ∀ key ∈ target index, (kernel.page key).properties.state = .free,
        .invalidCurrentMemory⟩,
      ⟨∀ index ∈ owner, (Run.contiguous (kernel.framesBehind (origin index))).length ≤
        kernel.resources.descriptors.free.length, .outOfResource⟩])

theorem judge_aliasingRequirements (inv : OrdinaryInvariant config kernel) (names : kernel.Named)
    (present : current < kernel.processes.length) (ends : kernel.extent.stop < wordLimit)
    (roomy : kernel.Roomy) :
    (do
      let task ← kernel.setting.codeTask .mapCode current handle destination source size
      kernel.setting.requirePlaces task
      task.judge kernel.view) =
        Requirement.judge
          (kernel.aliasingRequirements current handle destination source size) := by
  -- The source is the first of the two addresses here, unlike where an alias is taken away.
  rw [aliasingRequirements, Requirement.judge_swap]
  refine judge_codeTask inv.layouts names present rfl fun owner named => ?_
  rw [inv.judge_mapCode ends roomy rfl]
  simp only [Requirement.judge_cons, Requirement.judge_nil, bind_unit, named, Option.mem_def,
    Option.some.injEq, forall_eq']
  rfl

/-- A page is lent out, and another one is a code alias of it. Neither may be used by the guest. -/
structure Aliases (before after : Kernel) (origin target : Nat × Nat) (frame : Nat) : Prop where
  owned : before.page origin = ⟨.plain .normal .userReadWrite, some frame⟩
  lent : after.page origin = ⟨.lent, some frame⟩
  hidden : after.translation? origin = some ⟨frame * pageSize, .hidden⟩
  shown : after.page target = ⟨.plain .aliasCode .hidden, some frame⟩
  translated : after.translation? target = some ⟨frame * pageSize, .hidden⟩

theorem aliases_of_leads (leads : task.Leads kernel after) (inv : OrdinaryInvariant config kernel)
    (afterInv : OrdinaryInvariant config after) (work : task.work = .mapCode)
    (judged : task.judge kernel.view = .ok ())
    (owned : ∀ key ∈ task.range .source, (kernel.page key).properties.MayAlias) (offset : Nat)
    (bounded : offset < task.pages) : ∃ frame,
      Aliases kernel after (task.source.page offset) (task.destination.page offset) frame := by
  have owned := owned (task.source.page offset) (Place.page_mem_pages.mpr bounded)
  obtain ⟨frame, backed⟩ := (inv.regular _).exists_frame owned.used
  have before : kernel.page (task.source.page offset) =
      ⟨.plain .normal .userReadWrite, some frame⟩ :=
    Page.ext ((inv.regular _).orderly.eq_plain_of_mayAlias owned) backed
  have lent : after.page (task.source.page offset) = ⟨.lent, some frame⟩ := by
    rw [page_source_of_leads leads judged (by simp [work]) bounded, work, before]
    rfl
  have shown : after.page (task.destination.page offset) =
      ⟨.plain .aliasCode .hidden, some frame⟩ := by
    rw [leads.page_eq, Task.effect_destination bounded, work, before]
    rfl
  refine ⟨frame, before, lent, ?_, shown, ?_⟩
  · rw [afterInv.translation?_eq, lent]
    rfl
  · rw [afterInv.translation?_eq, shown]
    rfl

variable {cache : InstructionCache} {initial reached : Kernel} {steps : List Step}

/-- In every state that a kernel can reach whose frames lie before the last address, and have fewer
than 2^30 references each, a request to make a code alias ends in the error of the first requirement
that is violated and is done if none is. Each page of the source is then lent out to the page at the
same offset of the alias, the frames have as many references more as they are behind the source, and
nothing else is another. -/
theorem mapCode_is_exact (fits : config.frameBase + config.framePages * pageSize < wordLimit)
    (created : create config cache = .ok initial) (ordinary : ∀ step ∈ steps, step.Ordinary)
    (knows : initial.Knows steps) (ran : initial.run? steps = some reached)
    (few : ∀ frame, reached.resources.frames.held frame < 2 ^ 30)
    (present : current < reached.processes.length) (handle : Handle)
    (destination source size : UInt64) :
    let outcome := perform current (.mapCode handle destination source size) reached
    outcome.ending = Requirement.judge (reached.aliasingRequirements current handle
      destination.toNat source.toNat size.toNat) ∧
    ∀ result after, outcome = .done result after →
      ∃ owner, reached.named? current handle = some owner ∧
        let target : Place := ⟨owner, destination.toNat⟩
        let origin : Place := ⟨owner, source.toNat⟩
        let count := size.toNat / pageSize
        (∀ offset < count,
          ∃ frame, Aliases reached after (origin.page offset) (target.page offset) frame) ∧
        reached.ChangesOnly (target.pages count ++ origin.pages count) after ∧
        (∀ frame, after.resources.frames.held frame = reached.resources.frames.held frame +
          (reached.framesBehind (origin.pages count)).count frame) ∧
        after.resources.cache = reached.resources.cache := by
  intro outcome
  have inv := ordinaryInvariant_run created ordinary ran
  have names := (Named.of_create created).run knows ordinary ran
  have ends := inv.stop_lt fits
  have roomy := inv.roomy few
  refine ⟨(ending_perform_eq_judge inv).trans
    (judge_aliasingRequirements inv names present ends roomy), fun result after done => ?_⟩
  obtain ⟨task, judged, leads, afterInv⟩ := leads_of_perform inv done
  obtain ⟨came, _, judged⟩ := Setting.judge_eq_ok.mp judged
  obtain ⟨owner, named, _, rfl⟩ := eq_of_came_to_codeTask names present came
  have demands := judged
  rw [inv.judge_mapCode ends roomy rfl] at demands
  simp only [Verdict.bind_eq_ok, demand_eq_ok] at demands
  obtain ⟨_, owned, _, free, _⟩ := demands
  exact ⟨owner, named, aliases_of_leads leads inv afterInv rfl judged owned,
    changesOnly_of_both leads inv afterInv,
    held_of_leads leads inv afterInv (fun _ _ => rfl) free, leads.cache_eq⟩

/-- An address space of eight pages: four of heap, and four for code aliases. -/
def compact : Layout where
  addressSpace := ⟨0x8000000, 0x8000⟩
  code := ⟨0x8000000, 0⟩
  aliasCode := ⟨0x8004000, 0x4000⟩
  heap := ⟨0x8000000, 0x4000⟩
  ipcAlias := ⟨0x8000000, 0⟩
  stack := ⟨0x8000000, 0⟩

/-- A process has memory, and another one has a handle to it. -/
def compactRun : List Step := [
  .createProcess {}, .createProcess compact, .openHandle 0 (.process 1),
  .mapPages 1 0x8000000 3 .normal .readWrite]

/-- Two pages of another process are lent out as code, and the one before them stays. -/
theorem mapCode_is_exact_of_two_pages :
    ∃ reached result after, small.run? compactRun = some reached ∧
      perform 0 (.mapCode ⟨0x8000⟩ 0x8004000 0x8001000 0x2000) reached = .done result after ∧
      Aliases reached after (1, 0x8002) (1, 0x8005) 0x80002 ∧
      after.page (1, 0x8000) = reached.page (1, 0x8000) ∧
      reached.resources.frames.held 0x80002 = 1 ∧ after.resources.frames.held 0x80002 = 2 := by
  have shown : ((small.run? compactRun).map fun reached =>
      (decide (reached.mappedPages < 2 ^ 30 ∧ 0 < reached.processes.length ∧
          reached.named? 0 ⟨0x8000⟩ = some 1 ∧ reached.resources.frames.held 0x80002 = 1),
        Requirement.judge (reached.aliasingRequirements 0 ⟨0x8000⟩ 0x8004000 0x8001000 0x2000),
        (reached.page (1, 0x8002)).frame,
        reached.framesBehind (Place.pages ⟨1, 0x8001000⟩ 2))) =
      some (true, .ok (), some 0x80002, [0x80001, 0x80002]) := by
    decide +kernel
  obtain ⟨reached, ran, shown⟩ := Option.map_eq_some_iff.mp shown
  obtain ⟨ready, met, backed, behind⟩ : _ ∧ _ ∧ _ ∧ _ := by simpa only [Prod.mk.injEq] using shown
  obtain ⟨mapped, present, named, once⟩ := of_decide_eq_true ready
  have ordinary : ∀ step ∈ compactRun, step.Ordinary := by decide +kernel
  have inv := ordinaryInvariant_run create_small ordinary ran
  have few (frame : Nat) : reached.resources.frames.held frame < 2 ^ 30 :=
    Nat.lt_of_le_of_lt (inv.held_le_mappedPages frame) mapped
  obtain ⟨ending, exact⟩ := mapCode_is_exact (show _ < wordLimit by decide +kernel) create_small
    ordinary (show small.Knows compactRun by decide +kernel) ran few present ⟨0x8000⟩
    0x8004000 0x8001000 0x2000
  obtain ⟨result, after, done⟩ := Outcome.ending_eq_ok.mp (ending.trans met)
  obtain ⟨owner, found, aliases, changes, held, _⟩ := exact result after done
  obtain rfl := Option.some.inj (named.symm.trans found)
  obtain ⟨frame, made⟩ := aliases 1 (by decide +kernel)
  obtain rfl : 0x80002 = frame :=
    Option.some.inj (backed.symm.trans (congrArg Page.frame made.owned))
  have more : after.resources.frames.held 0x80002 = reached.resources.frames.held 0x80002 +
      (reached.framesBehind (Place.pages ⟨1, 0x8001000⟩ 2)).count 0x80002 := held 0x80002
  rw [behind, once] at more
  exact ⟨reached, result, after, ran, done, made,
    changes.page_eq (1, 0x8000) (by decide +kernel), once, more⟩

/-- Where a frame is the last there is, a request is stopped that meets all requirements. -/
theorem aliasing_the_last_frame_stops :
    let run : List Step := [.createProcess compact, .mapPages 0 0x8001000 1 .normal .readWrite,
      .mapPages 0 0x8000000 1 .normal .readWrite]
    create topmost.config topmost.resources.cache = .ok topmost ∧
    (∀ step ∈ run, step.Ordinary) ∧ topmost.Knows run ∧
    ∃ reached, topmost.run? run = some reached ∧
      (∀ frame, reached.resources.frames.held frame < 2 ^ 30) ∧ 0 < reached.processes.length ∧
      Requirement.judge
        (reached.aliasingRequirements 0 .currentProcess 0x8004000 0x8000000 0x2000) = .ok () ∧
      perform 0 (.mapCode .currentProcess 0x8004000 0x8000000 0x2000) reached =
        .fault .overflow := by
  intro run
  have created : create topmost.config topmost.resources.cache = .ok topmost := rfl
  have ordinary : ∀ step ∈ run, step.Ordinary := by decide +kernel
  obtain ⟨reached, ran, mapped, stops⟩ := topmost_overflows run 0
    (.mapCode .currentProcess 0x8004000 0x8000000 0x2000)
    (·.aliasingRequirements 0 .currentProcess 0x8004000 0x8000000 0x2000) (by decide +kernel)
  have inv := ordinaryInvariant_run created ordinary ran
  have few (frame : Nat) : reached.resources.frames.held frame < 2 ^ 30 :=
    Nat.lt_of_le_of_lt (inv.held_le_mappedPages frame) mapped
  exact ⟨created, ordinary, by decide +kernel, reached, ran, few, stops⟩

end Kernel

end GuestMemory
