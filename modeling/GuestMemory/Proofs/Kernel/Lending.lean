import GuestMemory.Proofs.Kernel.ArgumentRequirements
import GuestMemory.Proofs.Kernel.Independence
import GuestMemory.Proofs.Kernel.Translations

/-!
Mapping memory of another process, from the arguments of the call to the pages: what is required of
them, in which order, and what becomes of the memory where nothing is missing.
-/

namespace GuestMemory

open GuestMemory.Action Verdict

namespace Properties

variable {properties : Properties}

/-- Another process may map such memory. -/
def MayLend (properties : Properties) : Prop :=
  properties.state.has .canMapProcess = true ∧ properties.attributes = .empty

instance : DecidablePred MayLend := fun properties =>
  inferInstanceAs (Decidable
    (properties.state.has .canMapProcess = true ∧ properties.attributes = .empty))

theorem MayLend.used (lends : properties.MayLend) : properties.state ≠ .free := by
  intro free
  have permits := lends.1
  rw [free] at permits
  exact absurd permits (by decide)

theorem Orderly.meets_free_iff (orderly : properties.Orderly) :
    (Check.exactly .free).Meets properties ↔ properties.state = .free := by
  refine (Check.meets_ofState_iff orderly).trans ⟨fun meets => of_decide_eq_true meets.1,
    fun unused => ⟨decide_eq_true unused, ?_⟩⟩
  rw [orderly.eq_free unused]
  rfl

end Properties

namespace Kernel

variable {config : Config} {kernel : Kernel} {task : Task} {range : List (Nat × Nat)}
variable {current destination source size : Nat} {handle : Handle} {key : Nat × Nat}

/-- The frames behind pages, as far as there are any. -/
def framesBehind (kernel : Kernel) (range : List (Nat × Nat)) : List Nat :=
  range.filterMap fun key => (kernel.page key).frame

theorem frames_eq_framesBehind :
    task.frames kernel.page = kernel.framesBehind (task.range .source) := by
  rw [Task.frames, Task.behind, Pages.behind, List.reduceOption, List.filterMap_map]
  rfl

theorem behind_eq_framesBehind (backed : ∀ key ∈ range, (kernel.page key).frame ≠ none) :
    Pages.behind kernel.page range = (kernel.framesBehind range).map some := by
  induction range with
  | nil => rfl
  | cons key rest ih =>
      obtain ⟨here, others⟩ := List.forall_mem_cons.mp backed
      obtain ⟨frame, shown⟩ := Option.ne_none_iff_exists'.mp here
      have same := ih others
      simp only [Pages.behind, framesBehind] at same ⊢
      rw [List.map_cons, List.filterMap_cons, shown, same, List.map_cons]

theorem OrdinaryInvariant.lies_of_frame (inv : OrdinaryInvariant config kernel) {frame : Nat}
    (backed : (kernel.page key).frame = some frame) :
    Run.Lies kernel.extent.stop ⟨frame * pageSize, 1⟩ := by
  have translated := inv.translation?_eq key
  rw [backed, Option.map_some] at translated
  obtain ⟨process, listed, found⟩ := Option.bind_eq_some_iff.mp translated
  have guarded : FaultGuarded (fun _ => True) config kernel := inv.guarded trivial trivial
  exact (guarded.space listed).lies key.2 _ found

theorem OrdinaryInvariant.roomy (inv : OrdinaryInvariant config kernel)
    (few : ∀ frame, kernel.resources.frames.held frame < 2 ^ 30) : kernel.Roomy := by
  intro frame
  have bounded : kernel.shown frame < 2 ^ 30 := inv.held_eq frame ▸ few frame
  simp only [References.limit]
  omega

theorem OrdinaryInvariant.held_le_mappedPages (inv : OrdinaryInvariant config kernel)
    (frame : Nat) :
    kernel.resources.frames.held frame ≤ kernel.mappedPages :=
  (inv.held_eq frame).le.trans (kernel.shown_le_mappedPages frame)

/-- Frames that lie before the last address are gathered into the maximal runs of them. -/
theorem OrdinaryInvariant.gather_exists (inv : OrdinaryInvariant config kernel)
    (fits : kernel.extent.stop < wordLimit)
    (backed : ∀ key ∈ range, (kernel.page key).frame ≠ none) :
    ∃ runs, Run.gather (Pages.behind kernel.page range) [] = .ok (some runs) ∧
      runs.length = (Run.contiguous (kernel.framesBehind range)).length := by
  rw [behind_eq_framesBehind backed]
  apply Run.gather_eq fits
  intro frame member
  obtain ⟨key, _, shown⟩ := List.mem_filterMap.mp member
  exact inv.lies_of_frame shown

/-- Such frames can be described where there are as many free descriptors as maximal runs of
them. -/
theorem OrdinaryInvariant.judgeDemand_described (inv : OrdinaryInvariant config kernel)
    (fits : kernel.extent.stop < wordLimit)
    (backed : ∀ key ∈ task.range .source, (kernel.page key).frame ≠ none) :
    task.judgeDemand kernel.view .described =
      demand ((Run.contiguous (kernel.framesBehind (task.range .source))).length ≤
        kernel.resources.descriptors.free.length) (.refused .outOfResource) := by
  obtain ⟨runs, gathered, length⟩ := inv.gather_exists fits backed
  rw [← length, Task.judgeDemand_described, describe, Task.behind, view_pages, gathered]
  simp only [Checked.verdict_ok, ok_bind, bind_assoc, Verdict.pure_eq, bind_unit]
  rfl

/-- How a task ends that maps memory, once it has its place. -/
theorem OrdinaryInvariant.judge_mapMemory (inv : OrdinaryInvariant config kernel)
    (ends : kernel.extent.stop < wordLimit)
    (roomy : kernel.Roomy) (work : task.work = .mapMemory) :
    task.judge kernel.view = (do
      demand (∀ key ∈ task.range .source, (kernel.page key).properties.MayLend)
        (.refused .invalidCurrentMemory)
      demand ((Run.contiguous (kernel.framesBehind (task.range .source))).length ≤
        kernel.resources.descriptors.free.length) (.refused .outOfResource)
      demand (∀ key ∈ task.range .destination, (kernel.page key).properties.state = .free)
        (.refused .invalidCurrentMemory)) := by
  have retainable (times : Nat) (asked : .retainable times ∈ Work.mapMemory.demands) :
      task.judgeDemand kernel.view (.retainable times) = .ok () :=
    inv.judgeDemand_retainable roomy (work ▸ asked)
  rw [Task.judge, work]
  simp only [Work.demands, List.forM_cons, List.forM_nil] at retainable ⊢
  refine demand_bind_eq (forall₂_congr fun key _ =>
    Check.meets_ofState_iff (inv.regular key).orderly) fun lends => ?_
  rw [inv.judgeDemand_described ends fun key member =>
    (inv.regular key).frame_ne_none (lends key member).used]
  refine demand_bind_eq Iff.rfl fun _ => ?_
  rw [retainable 1 (by simp), ok_bind, retainable 2 (by simp)]
  exact (bind_unit _).trans (demand_congr (forall₂_congr fun key _ =>
    (inv.regular key).orderly.meets_free_iff))

/-- What is required of a request to map memory of another process, in the order in which it is
looked at. -/
def lendingRequirements (kernel : Kernel) (current destination : Nat) (handle : Handle)
    (source size : Nat) : List Requirement :=
  let owner := kernel.opened? current handle
  let lent := fun index => Place.pages ⟨index, source⟩ (size / pageSize)
  kernel.sharingRequirements current destination handle source size ++ [
    ⟨∀ index ∈ owner, ∀ key ∈ lent index, (kernel.page key).properties.MayLend,
      .invalidCurrentMemory⟩,
    ⟨∀ index ∈ owner, (Run.contiguous (kernel.framesBehind (lent index))).length ≤
      kernel.resources.descriptors.free.length, .outOfResource⟩,
    ⟨∀ key ∈ Place.pages ⟨current, destination⟩ (size / pageSize),
      (kernel.page key).properties.state = .free, .invalidCurrentMemory⟩]

theorem judge_lendingRequirements (inv : OrdinaryInvariant config kernel) (names : kernel.Named)
    (present : current < kernel.processes.length) (ends : kernel.extent.stop < wordLimit)
    (roomy : kernel.Roomy) :
    (do
      let task ← kernel.setting.memoryTask .mapMemory current destination handle source size
      kernel.setting.requirePlaces task
      task.judge kernel.view) =
        Requirement.judge (kernel.lendingRequirements current destination handle source size) := by
  refine judge_memoryTask inv.layouts names present rfl fun owner opened => ?_
  rw [inv.judge_mapMemory ends roomy rfl]
  simp only [Requirement.judge_cons, Requirement.judge_nil, bind_unit]
  refine demand_bind_eq (by simp [opened, Task.range, Task.place]) fun _ => ?_
  exact demand_bind_eq (by simp [opened, Task.range, Task.place]) fun _ => rfl

/-- A page has got the frame behind another one, as shared memory that the guest may read and
write. -/
structure Shares (before after : Kernel) (origin key : Nat × Nat) (frame : Nat) : Prop where
  lent : (before.page origin).frame = some frame
  properties : (after.page key).properties = .plain .sharedCode .userReadWrite
  shown : (after.page key).frame = some frame
  translated : after.translation? key = some ⟨frame * pageSize, .userReadWrite⟩

variable {after : Kernel} {cache : InstructionCache} {initial reached : Kernel} {steps : List Step}

theorem shares_of_leads (leads : task.Leads kernel after) (inv : OrdinaryInvariant config kernel)
    (afterInv : OrdinaryInvariant config after) (work : task.work = .mapMemory)
    (lends : ∀ key ∈ task.range .source, (kernel.page key).properties.MayLend) (offset : Nat)
    (bounded : offset < task.pages) : ∃ frame,
      Shares kernel after (task.source.page offset) (task.destination.page offset) frame := by
  have lends := lends (task.source.page offset) (Place.page_mem_pages.mpr bounded)
  obtain ⟨frame, backed⟩ := (inv.regular _).exists_frame lends.used
  have page : after.page (task.destination.page offset) =
      ⟨.plain .sharedCode .userReadWrite, some frame⟩ := by
    rw [leads.page_eq, Task.effect_destination bounded, work, ← backed]
    rfl
  refine ⟨frame, backed, by rw [page], by rw [page], ?_⟩
  rw [afterInv.translation?_eq, page, Option.map_some]
  rfl

/-- References follow the pages: where frames are mapped that were not mapped there before, each
has as many more as pages of the source show it. -/
theorem held_of_leads (leads : task.Leads kernel after) (inv : OrdinaryInvariant config kernel)
    (afterInv : OrdinaryInvariant config after)
    (shows : ∀ page source, (task.work.onDestination page source).frame = source.frame)
    (free : ∀ key ∈ task.range .destination, (kernel.page key).properties.state = .free)
    (frame : Nat) :
    after.resources.frames.held frame = kernel.resources.frames.held frame +
      (kernel.framesBehind (task.range .source)).count frame := by
  have shown := leads.shown_eq (fun key member => (inv.regular key).backed.mpr (free key member))
    shows frame
  rw [← frames_eq_framesBehind]
  exact (afterInv.held_eq frame).trans (shown.trans (congrArg (· + _) (inv.held_eq frame).symm))

/-- In every state that a kernel can reach whose frames lie before the last address, and have fewer
than 2^30 references each, a request to map memory of a process ends in the error of the first
requirement that is violated and is done if none is. Each page of the destination then shows the
frame behind the page at the same offset of the source, the frames have as many references more as
they are behind the source, and nothing else is another. -/
theorem mapMemory_is_exact (fits : config.frameBase + config.framePages * pageSize < wordLimit)
    (created : create config cache = .ok initial) (ordinary : ∀ step ∈ steps, step.Ordinary)
    (knows : initial.Knows steps) (ran : initial.run? steps = some reached)
    (few : ∀ frame, reached.resources.frames.held frame < 2 ^ 30)
    (present : current < reached.processes.length) (destination : UInt64) (handle : Handle)
    (source size : UInt64) :
    let outcome := perform current (.mapMemory destination handle source size) reached
    outcome.ending = Requirement.judge (reached.lendingRequirements current destination.toNat
      handle source.toNat size.toNat) ∧
    ∀ result after, outcome = .done result after →
      ∃ owner, reached.opened? current handle = some owner ∧
        let target : Place := ⟨current, destination.toNat⟩
        let origin : Place := ⟨owner, source.toNat⟩
        let count := size.toNat / pageSize
        (∀ offset < count,
          ∃ frame, Shares reached after (origin.page offset) (target.page offset) frame) ∧
        reached.ChangesOnly (target.pages count) after ∧
        (∀ frame, after.resources.frames.held frame = reached.resources.frames.held frame +
          (reached.framesBehind (origin.pages count)).count frame) ∧
        after.resources.cache = reached.resources.cache := by
  intro outcome
  have inv := ordinaryInvariant_run created ordinary ran
  have names := (Named.of_create created).run knows ordinary ran
  have ends := inv.stop_lt fits
  have roomy := inv.roomy few
  refine ⟨(ending_perform_eq_judge inv).trans
    (judge_lendingRequirements inv names present ends roomy), fun result after done => ?_⟩
  obtain ⟨task, judged, leads, afterInv⟩ := leads_of_perform inv done
  obtain ⟨came, _, judged⟩ := Setting.judge_eq_ok.mp judged
  obtain ⟨owner, opened, rfl⟩ := eq_of_came_to_memoryTask names present came
  rw [inv.judge_mapMemory ends roomy rfl] at judged
  simp only [Verdict.bind_eq_ok, demand_eq_ok] at judged
  obtain ⟨_, lends, _, _, free⟩ := judged
  exact ⟨owner, opened, shares_of_leads leads inv afterInv rfl lends,
    changesOnly_of_leads leads inv afterInv rfl,
    held_of_leads leads inv afterInv (fun _ _ => rfl) free, leads.cache_eq⟩

/-- Two pages of code of one process are lent to another: their frames have a reference more. -/
theorem mapMemory_is_exact_of_lent_code :
    ∃ reached result after, small.run? (smallRun.take 4) = some reached ∧
      perform 0 (.mapMemory 0x8002000 ⟨0x8000⟩ 0x8000000 0x2000) reached = .done result after ∧
      (after.page (0, 0x8003)).properties = .plain .sharedCode .userReadWrite ∧
      after.translation? (1, 0x8001) = reached.translation? (1, 0x8001) ∧
      reached.resources.frames.held 0x80001 = 1 ∧ after.resources.frames.held 0x80001 = 2 := by
  have shown : ((small.run? (smallRun.take 4)).map fun reached =>
      (decide (reached.mappedPages < 2 ^ 30 ∧ 0 < reached.processes.length),
        Requirement.judge (reached.lendingRequirements 0 0x8002000 ⟨0x8000⟩ 0x8000000 0x2000),
        reached.opened? 0 ⟨0x8000⟩, reached.resources.frames.held 0x80001,
        reached.framesBehind (Place.pages ⟨1, 0x8000000⟩ 2))) =
      some (true, .ok (), some 1, 1, [0x80000, 0x80001]) := by
    decide +kernel
  obtain ⟨reached, ran, shown⟩ := Option.map_eq_some_iff.mp shown
  obtain ⟨ready, met, opened, once, behind⟩ : _ ∧ _ ∧ _ ∧ _ ∧ _ := by
    simpa only [Prod.mk.injEq] using shown
  obtain ⟨mapped, present⟩ := of_decide_eq_true ready
  have ordinary : ∀ step ∈ smallRun.take 4, step.Ordinary := by decide +kernel
  have few (frame : Nat) : reached.resources.frames.held frame < 2 ^ 30 :=
    Nat.lt_of_le_of_lt
      ((ordinaryInvariant_run create_small ordinary ran).held_le_mappedPages frame) mapped
  obtain ⟨ending, exact⟩ := mapMemory_is_exact (show _ < wordLimit by decide +kernel) create_small
    ordinary (show small.Knows (smallRun.take 4) by decide +kernel) ran few present 0x8002000
    ⟨0x8000⟩ 0x8000000 0x2000
  obtain ⟨result, after, done⟩ := Outcome.ending_eq_ok.mp (ending.trans met)
  obtain ⟨owner, found, shares, changes, held, _⟩ := exact result after done
  obtain rfl := Option.some.inj (opened.symm.trans found)
  obtain ⟨frame, shared⟩ := shares 1 (by decide +kernel)
  refine ⟨reached, result, after, ran, done, shared.properties,
    changes.translation?_eq (1, 0x8001) (by decide +kernel), once, ?_⟩
  have more : (reached.framesBehind (Place.pages ⟨1, UInt64.toNat 0x8000000⟩
      (UInt64.toNat 0x2000 / pageSize))).count 0x80001 = 1 := by
    rw [show Place.pages ⟨1, UInt64.toNat 0x8000000⟩ (UInt64.toNat 0x2000 / pageSize) =
      Place.pages ⟨1, 0x8000000⟩ 2 from by decide +kernel, behind]
    decide +kernel
  rw [held, once, more]

/-- A kernel whose two frames are the last before the end of physical memory. -/
def topmost : Kernel :=
  ⟨{ descriptorCapacity := 4, frameBase := 0xFFFFFFFFFFFFE000, framePages := 2 }, [],
    ⟨.ofCapacity 4, ⟨0xFFFFFFFFFFFFE000, 2, [⟨0xFFFFFFFFFFFFE000, 2⟩], ∅⟩, .recording []⟩⟩

/-- The first of two pages gets the last frame, and the second the frame before. -/
def topmostRun : List Step := [
  .createProcess {}, .createProcess {}, .openHandle 0 (.process 1),
  .mapPages 1 0x8001000 1 .code .readExecute, .mapPages 1 0x8000000 1 .code .readExecute]

/-- What a run of this kernel shows when it is evaluated. -/
theorem topmost_overflows (steps : List Step) (current : Nat) (request : Call)
    (requirements : Kernel → List Requirement)
    (shown : ((topmost.run? steps).map fun reached =>
      (decide (reached.mappedPages < 2 ^ 30 ∧ current < reached.processes.length),
        Requirement.judge (requirements reached), (perform current request reached).fault?)) =
      some (true, .ok (), some .overflow)) :
    ∃ reached, topmost.run? steps = some reached ∧ reached.mappedPages < 2 ^ 30 ∧
      current < reached.processes.length ∧ Requirement.judge (requirements reached) = .ok () ∧
      perform current request reached = .fault .overflow := by
  obtain ⟨reached, ran, shown⟩ := Option.map_eq_some_iff.mp shown
  obtain ⟨ready, met, stopped⟩ : _ ∧ _ ∧ _ := by simpa only [Prod.mk.injEq] using shown
  obtain ⟨mapped, present⟩ := of_decide_eq_true ready
  exact ⟨reached, ran, mapped, present, met, Outcome.fault?_eq_some.mp stopped⟩

/-- Where a frame is the last there is, a request is stopped that meets all requirements: whether
another frame follows is asked by the address after it. -/
theorem lending_the_last_frame_stops :
    create topmost.config topmost.resources.cache = .ok topmost ∧
    (∀ step ∈ topmostRun, step.Ordinary) ∧ topmost.Knows topmostRun ∧
    ∃ reached, topmost.run? topmostRun = some reached ∧
      (∀ frame, reached.resources.frames.held frame < 2 ^ 30) ∧ 0 < reached.processes.length ∧
      Requirement.judge (reached.lendingRequirements 0 0x8002000 ⟨0x8000⟩ 0x8000000 0x2000) =
        .ok () ∧
      perform 0 (.mapMemory 0x8002000 ⟨0x8000⟩ 0x8000000 0x2000) reached = .fault .overflow := by
  have created : create topmost.config topmost.resources.cache = .ok topmost := rfl
  have ordinary : ∀ step ∈ topmostRun, step.Ordinary := by decide +kernel
  obtain ⟨reached, ran, mapped, stops⟩ := topmost_overflows topmostRun 0
    (.mapMemory 0x8002000 ⟨0x8000⟩ 0x8000000 0x2000)
    (·.lendingRequirements 0 0x8002000 ⟨0x8000⟩ 0x8000000 0x2000) (by decide +kernel)
  have inv := ordinaryInvariant_run created ordinary ran
  exact ⟨created, ordinary, by decide +kernel, reached, ran,
    fun frame => Nat.lt_of_le_of_lt (inv.held_le_mappedPages frame) mapped, stops⟩

end Kernel

end GuestMemory
