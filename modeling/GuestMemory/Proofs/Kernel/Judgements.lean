import GuestMemory.Proofs.AddressSpace.Verdicts
import GuestMemory.Proofs.Kernel.Arguments
import GuestMemory.Proofs.Kernel.Ownership
import GuestMemory.Proofs.Kernel.Safety

/-!
Judgements: a task ends as its demands have it. They see the number of free descriptors, the
references to each frame and the pages, and of these only the pages that the task names.
-/

namespace GuestMemory

open GuestMemory.Action Verdict

/-- What decides on tasks, given the pages. -/
def Resources.view (resources : Resources) (pages : Pages) : View :=
  ⟨resources.descriptors.free.length, resources.frames.held, pages⟩

/-- A range of the task is in an address space that has the pages of the process. -/
structure Task.Covered (task : Task) (role : RangeRole) (pages : Pages) (space : AddressSpace) :
    Prop where
  among : space.Among pages (task.place role).process
  coherent : space.Coherent
  aligned : (task.place role).address % pageSize = 0
  positive : 0 < task.pages
  covers : space.blocks.region.Covers (task.place role).address task.pages

section Tasks

variable {α : Type} {allowed : Fault → Prop} {attached made : AttachedSpace} {extent : Run}
variable {task : Task} {role : RangeRole} {pages : Pages} {view : View} {check : Check}
variable {group : PageGroup} {runs : List Run} {place : Place} {frames : List Nat}
variable {space : AddressSpace}

namespace Task

theorem frames_of_behind (behind : task.behind pages .source = frames.map some) :
    task.frames pages = frames := by
  rw [Task.frames, behind, List.reduceOption]
  simp

theorem behind_of_described
    (described : describe view.capacity (task.behind view.pages .source) = .ok runs) :
    task.behind view.pages .source = (Run.framesOf runs).map some :=
  (Run.framesOf_gathered (describe_eq_ok.mp described).1).symm

theorem judgeDemand_described :
    task.judgeDemand view .described =
      describe view.capacity (task.behind view.pages .source) >>= fun _ => .ok () :=
  rfl

/-- Frames that can be described can be compared with themselves. -/
theorem judgeDemand_backed_of_described (described : task.judgeDemand view .described = .ok ())
    (same : task.behind view.pages .destination = task.behind view.pages .source) :
    task.judgeDemand view .backed = .ok () := by
  rw [judgeDemand_described, Verdict.bind_eq_ok] at described
  obtain ⟨runs, described, _⟩ := described
  obtain ⟨gathered, _⟩ := describe_eq_ok.mp described
  simp only [judgeDemand, same, gathered, Checked.verdict_ok, Verdict.ok_bind, demand_eq_ok]

/-- Whether the references of a pool have room, in terms of those that the view counts. -/
theorem judgeDemand_retainable {pool : FramePool} {times : Nat}
    (behind : task.behind view.pages .source = frames.map some)
    (balance : ∀ frame, pool.held frame + frames.count frame =
      view.held frame + times * frames.count frame) :
    task.judgeDemand view (.retainable times) = demand (pool.HasRoom frames) .faulted := by
  apply demand_congr
  simp only [frames_of_behind behind, FramePool.HasRoom, balance]

/-- Descriptions of frames are the same where the frames are. -/
theorem same_of_gathered {found : Option (List Run)} {frames others : List (Option Nat)}
    (gathered : Run.gather frames [] = .ok found)
    (described : Run.gather others [] = .ok (some runs)) :
    found = some runs ↔ frames = others := by
  constructor
  · rintro rfl
    rw [← Run.framesOf_gathered gathered, Run.framesOf_gathered described]
  · rintro rfl
    exact Except.ok.inj (gathered.symm.trans described)

namespace Covered

theorem ending_check (covered : task.Covered role view.pages attached.space)
    (placed : task.place role = place) :
    (AddressSpace.checkRange place.address (task.pages * pageSize) check attached).ending =
      task.judgeDemand view (.meets role check) := by
  subst placed
  rw [Outcome.ending, bind_unit, AddressSpace.verdict_checkRange covered.among covered.coherent
    covered.aligned covered.positive covered.covers]
  rfl

/-- A check comes first, and then what follows it where it has passed. -/
theorem ending_checkRange {next : Unit → SpaceAction α} {rest : Verdict Unit}
    (covered : task.Covered role view.pages attached.space) (placed : task.place role = place)
    (follows : AddressSpace.checkRange place.address (task.pages * pageSize) check attached =
      .done () attached → (next () attached).ending = rest) :
    ((AddressSpace.checkRange place.address (task.pages * pageSize) check >>= next)
      attached).ending = task.judgeDemand view (.meets role check) >>= fun _ => rest := by
  rw [← covered.ending_check placed]
  apply ending_bind_eq
  intro _ after checked
  obtain rfl := AddressSpace.steady_checkRange.of_done checked
  exact follows checked

theorem few (covered : task.Covered role pages attached.space) : task.pages < wordLimit :=
  (covered.coherent.pages_fit covered.covers).2

theorem behind_of_backs (covered : task.Covered role pages space)
    (backs : space.directory.Backs (pageOf (task.place role).address) frames)
    (length : frames.length = task.pages) : task.behind pages role = frames.map some := by
  rw [behind, range, covered.among.behind_eq, ← length]
  exact backs

theorem ending_makeGroup (covered : task.Covered .source pages attached.space)
    (sound : AddressSpace.Sound attached) :
    (AddressSpace.makeGroup task.source.address task.pages attached).ending =
      task.judgeDemand (attached.resources.view pages) .described :=
  AddressSpace.ending_makeGroup covered.among covered.coherent sound

theorem makeGroup_eq_done (covered : task.Covered .source pages attached.space)
    (sound : AddressSpace.Sound attached)
    (done : AddressSpace.makeGroup task.source.address task.pages attached = .done group made) :
    group.holds = 0 ∧ made.resources.frames = attached.resources.frames ∧
      ∃ runs, describe (attached.resources.view pages).capacity (task.behind pages .source) =
          .ok runs ∧
        AddressSpace.Groups attached task.source.address task.pages group runs made := by
  obtain ⟨unheld, frames, runs, gathered, groups⟩ :=
    AddressSpace.makeGroup_eq_gathered covered.among covered.coherent sound done
  refine ⟨unheld, frames, runs, ?_, groups⟩
  have judged := (covered.ending_makeGroup sound).symm.trans (ending_of_done done)
  rw [judgeDemand_described, Verdict.bind_eq_ok] at judged
  obtain ⟨found, described, _⟩ := judged
  obtain ⟨same, _⟩ := describe_eq_ok.mp described
  cases gathered.symm.trans same
  exact described

/-- A group is made, used by what follows and given up again. -/
theorem ending_withGroup {action : PageGroup → SpaceAction α} {rest : Verdict Unit}
    (covered : task.Covered .source pages attached.space) (sound : AddressSpace.Sound attached)
    (keeps : ∀ group descriptors, Keeps (AddressSpace.Described descriptors) (action group))
    (follows : ∀ group made runs, made.resources.frames = attached.resources.frames →
      describe (attached.resources.view pages).capacity (task.behind pages .source) = .ok runs →
      AddressSpace.Groups attached task.source.address task.pages group runs made →
      (action group made).ending = rest) :
    Outcome.ending ((do
      let group ← AddressSpace.makeGroup task.source.address task.pages
      .ensuring (AddressSpace.discard group) (action group) : SpaceAction α) attached) =
        task.judgeDemand (attached.resources.view pages) .described >>= fun _ => rest := by
  rw [← covered.ending_makeGroup sound]
  apply ending_bind_eq
  intro group made done
  obtain ⟨unheld, frames, runs, described, groups⟩ := covered.makeGroup_eq_done sound done
  rw [ending_ensuring, follows group made runs frames described groups]
  intro middle ended
  have occupies := groups.occupies
  have descriptors : middle.resources.descriptors = made.resources.descriptors :=
    keeps group _ made middle rfl ended
  rw [← descriptors] at occupies
  obtain ⟨resources, given⟩ := occupies.discard_exists (.inl unheld)
  exact ⟨_, by rw [AddressSpace.discard, given]; rfl⟩

/-- A range is compared with the frames of a group, and then comes what follows where they are the
same. -/
theorem ending_isBackedBy {next : SpaceAction α} {rest : Verdict Unit}
    (covered : task.Covered .destination view.pages attached.space)
    (described : describe view.capacity (task.behind view.pages .source) = .ok runs)
    (held : group.runs attached.resources.descriptors = .ok runs)
    (length : (Run.framesOf runs).length = task.pages)
    (follows : AddressSpace.isBackedBy group task.destination.address task.pages attached =
      .done true attached → (next attached).ending = rest) :
    Outcome.ending ((do
      let same ← AddressSpace.isBackedBy group task.destination.address task.pages
      .require same (.plain .invalidCurrentMemory)
      next : SpaceAction α) attached) =
        task.judgeDemand view .backed >>= fun _ => rest := by
  have compared := AddressSpace.verdict_isBackedBy covered.among covered.coherent covered.few held
    length
  rw [ending_bind AddressSpace.steady_isBackedBy]
  have required (same : Bool) (answered : (AddressSpace.isBackedBy group task.destination.address
      task.pages attached).verdict = .ok same) :
      Outcome.ending ((do
        .require same (.plain .invalidCurrentMemory)
        next : SpaceAction α) attached) =
          demand same (.refused .invalidCurrentMemory) >>= fun _ => rest := by
    rw [ending_bind (Steady.require _ _), verdict_require]
    apply bind_congr_of_ok
    intro _ holds
    rw [demand_eq_ok.mp holds] at answered
    exact follows (done_of_verdict AddressSpace.steady_isBackedBy answered)
  refine (bind_congr_of_ok required).trans ?_
  rw [show (AddressSpace.isBackedBy group task.destination.address task.pages attached).verdict =
    _ from compared, judgeDemand, bind_assoc, bind_assoc]
  apply bind_congr_of_ok
  intro found gathered
  have same := same_of_gathered (Checked.verdict_eq_ok.mp gathered) (describe_eq_ok.mp described).1
  rw [Verdict.pure_eq, ok_bind]
  exact congrArg (· >>= fun _ => rest) (demand_congr (decide_eq_true_iff.trans same))

end Covered

variable (guarded : AddressSpace.FaultGuarded allowed extent attached)
variable (source : task.Covered .source pages attached.space)
variable (destination : task.Covered .destination pages attached.space)

include guarded

omit source in
include destination in
theorem ending_setPermission {permission : UserPermission}
    (fits : task.destination.address + task.pages * pageSize < wordLimit)
    (inside : attached.space.layout.contains task.destination.address (task.pages * pageSize) =
      .ok true) :
    (AddressSpace.setPermission task.destination.address task.pages permission attached).ending =
      task.judgeDemand (attached.resources.view pages) (.meets .destination
        (.ofState .reprotectable)) := by
  rw [AddressSpace.setPermission, ending_bind_of_done (AddressSpace.rangeSize_of_fits fits),
    ending_bind_of_done (AddressSpace.requireInside_of_contains inside)]
  refine .trans (destination.ending_checkRange rfl fun _ => ?_) (bind_unit _)
  obtain ⟨result, after, done⟩ := AddressSpace.reprotect_exists guarded.coherent destination.aligned
    destination.positive destination.covers permission
  exact ending_of_done done

include source destination

theorem ending_mapCode (work : task.work = .mapCode)
    (placed : AddressSpace.requireAliasRanges task.destination.address task.source.address
      (task.pages * pageSize) attached = .done () attached) :
    (AddressSpace.mapCode task.destination.address task.source.address (task.pages * pageSize)
      attached).ending = task.judge (attached.resources.view pages) := by
  rw [judge, work, AddressSpace.mapCode, Nat.mul_div_cancel _ (by decide),
    ending_bind_of_done placed]
  simp only [Work.demands, List.forM_cons, List.forM_nil]
  refine source.ending_checkRange rfl fun owned => ?_
  refine destination.ending_checkRange rfl fun free => ?_
  refine source.ending_withGroup guarded.sound ?_ ?_
  · intro group descriptors
    exact AddressSpace.described_changeBlocks.bind fun _ =>
      AddressSpace.described_changeDirectory.bind fun _ =>
        AddressSpace.described_placeGroup.bind fun _ => AddressSpace.steady_commit.keeps
  · intro group made runs frames described groups
    have coherent := guarded.coherent
    have covers := destination.covers
    have sourceCovers := source.covers
    have shows := (AddressSpace.Shows.unmarked_of_checked owned coherent guarded.orderly
      source.aligned sourceCovers groups.backs groups.length_eq rfl rfl).normal_of_unmarked
    have vacant := AddressSpace.blank_of_checked free coherent guarded.orderly destination.aligned
    have retainable := (guarded.retainable_of_backs groups.backs).left
    have nonempty := destination.positive
    have balance (frame : Nat) :
        made.resources.frames.held frame + (Run.framesOf runs).count frame =
          attached.resources.frames.held frame + 1 * (Run.framesOf runs).count frame := by
      rw [frames, Nat.one_mul]
    rw [judgeDemand_retainable (behind_of_described described) balance]
    rw [← frames] at retainable
    rw [← groups.space_eq] at coherent covers sourceCovers shows vacant
    rw [← groups.length_eq] at covers sourceCovers vacant nonempty ⊢
    exact (AddressSpace.ending_lend coherent destination.aligned source.aligned nonempty covers
      sourceCovers shows vacant groups.occupies.held (groups.lies _ guarded.lies) retainable).trans
        (bind_unit _).symm

theorem ending_unmapCode (work : task.work = .unmapCode) {strategy : InvalidationStrategy}
    (placed : AddressSpace.requireAliasRanges task.destination.address task.source.address
      (task.pages * pageSize) attached = .done () attached) :
    (AddressSpace.unmapCode task.destination.address task.source.address (task.pages * pageSize)
      strategy attached).ending = task.judge (attached.resources.view pages) := by
  rw [judge, work, AddressSpace.unmapCode, Nat.mul_div_cancel _ (by decide),
    ending_bind_of_done placed]
  simp only [Work.demands, List.forM_cons, List.forM_nil]
  refine source.ending_checkRange rfl fun lent => ?_
  refine destination.ending_checkRange rfl fun marked => ?_
  refine source.ending_withGroup guarded.sound ?_ ?_
  · intro group descriptors
    exact AddressSpace.steady_isBackedBy.keeps.bind fun _ => (Steady.require _ _).keeps.bind
      fun _ => (Steady.inspect _).keeps.bind fun _ => AddressSpace.described_reclaim
  · intro group made runs frames described groups
    have space := groups.space_eq
    have covered := destination
    rw [← space] at covered
    refine covered.ending_isBackedBy described groups.occupies.held groups.length_eq
      fun compared => ?_
    obtain ⟨found, held, behind⟩ := AddressSpace.isBackedBy_eq_done compared
    obtain rfl := Except.ok.inj (held.symm.trans groups.occupies.held)
    obtain ⟨length, backs⟩ := Directory.runs_eq_some behind
    have coherent := guarded.coherent
    have covers := destination.covers
    have sourceCovers := source.covers
    have nonempty := destination.positive
    have shows := AddressSpace.Shows.lent_of_checked lent coherent guarded.orderly source.aligned
      sourceCovers groups.backs groups.length_eq rfl rfl
    rw [space] at backs
    have aliased := (AddressSpace.Shows.unmarked_of_checked marked coherent guarded.orderly
      destination.aligned covers backs length rfl rfl).alias_of_unmarked
    have spares := guarded.spares_of_lent backs aliased shows
    obtain ⟨met, overlapping, _⟩ := coherent.wellFormed.overlapping_eq_ok task.destination.address
      (task.pages * pageSize)
    rw [← frames] at spares
    rw [← space] at coherent covers sourceCovers shows aliased overlapping
    rw [← length] at covers sourceCovers nonempty behind
    obtain ⟨result, after, done⟩ := AddressSpace.reclaim_exists coherent destination.aligned
      source.aligned nonempty covers sourceCovers shows aliased behind spares .userReadWrite
      (met.any (·.state.has .code) = true)
      (strategy.request task.destination.address (task.pages * pageSize))
    rw [length] at done
    have inspected : Action.inspect (·.space.blocks.overlapping task.destination.address
        (task.pages * pageSize)) made = .done met made := by
      rw [inspect_apply, overlapping]
      rfl
    rw [ending_bind_of_done inspected]
    exact ending_of_done done

omit destination in
theorem ending_makeHeldGroup (check : Check)
    (fits : task.source.address + task.pages * pageSize < wordLimit) :
    (AddressSpace.makeHeldGroup task.source.address task.pages check attached).ending = (do
      task.judgeDemand (attached.resources.view pages) (.meets .source check)
      task.judgeDemand (attached.resources.view pages) .described
      task.judgeDemand (attached.resources.view pages) (.retainable 1)) := by
  rw [AddressSpace.makeHeldGroup, ending_bind_of_done (AddressSpace.rangeSize_of_fits fits)]
  refine source.ending_checkRange rfl fun _ => ?_
  rw [← source.ending_makeGroup guarded.sound]
  apply ending_bind_eq
  intro group made done
  obtain ⟨unheld, frames, runs, described, groups⟩ := source.makeGroup_eq_done guarded.sound done
  have retainable := (guarded.retainable_of_backs groups.backs).left
  rw [← frames] at retainable
  rw [AddressSpace.ending_retainGroup groups.occupies.held unheld retainable]
  refine (judgeDemand_retainable (behind_of_described described) fun frame => ?_).symm
  rw [frames, Nat.one_mul]
  rfl

omit guarded source in
/-- A group is mapped where nothing is yet, if its frames have room for the references. -/
theorem ending_mapGroup {state : MemoryState} {permission : KernelPermission} {limit : Nat}
    (orderly : attached.space.Orderly) (viewed : view.pages = pages)
    (fits : task.destination.address + task.pages * pageSize < wordLimit)
    (placed : attached.space.layout.canContain task.destination.address (task.pages * pageSize)
      state = .ok true)
    (used : state.has .mapped = true)
    (held : group.runs attached.resources.descriptors = .ok runs)
    (length : (Run.framesOf runs).length = task.pages) (lie : ∀ run ∈ runs, run.Lies limit)
    (retainable : attached.resources.frames.Retainable allowed (Run.framesOf runs)) :
    (AddressSpace.mapGroup task.destination.address group state permission attached).ending = (do
      task.judgeDemand view (.meets .destination (.exactly .free))
      demand (attached.resources.frames.HasRoom (Run.framesOf runs)) .faulted) := by
  subst viewed
  obtain ⟨total, counted⟩ :=
    (PageGroup.safe_pages held (.inr (length ▸ destination.few))).exists_of_none
  obtain rfl : total = task.pages := (PageGroup.pages_eq_ok held counted).trans length
  have inspected : Action.inspect (group.pages ·.resources.descriptors) attached =
      .done task.pages attached := by
    rw [inspect_apply, counted]
    rfl
  rw [AddressSpace.mapGroup, ending_bind_of_done inspected,
    ending_bind_of_done (AddressSpace.rangeSize_of_fits fits),
    ending_bind_of_done (AddressSpace.requirePlace_of_canContain placed)]
  refine destination.ending_checkRange rfl fun free => ?_
  have vacant := AddressSpace.blank_of_checked free destination.coherent orderly
    destination.aligned
  have covers := destination.covers
  have nonempty := destination.positive
  rw [← length] at covers vacant nonempty
  exact AddressSpace.ending_placeGroup destination.coherent used destination.aligned held lie
    nonempty covers vacant retainable _ _ _

end Task

end Tasks

namespace Kernel

variable {config : Config} {kernel : Kernel} {task : Task} {target origin : Process}

/-- What decides on tasks in the kernel. -/
def view (kernel : Kernel) : View :=
  kernel.resources.view kernel.page

theorem view_pages (kernel : Kernel) : kernel.view.pages = kernel.page :=
  rfl

theorem among_of_listed {index : Nat} {process : Process}
    (listed : kernel.processes[index]? = some process) : process.space.Among kernel.page index :=
  page_of_listed (spaces_listed listed)

/-- A check in the address space of a process, and then what follows it where it has passed. -/
theorem ending_checkRange {α : Type} {place : Place} {process : Process} {role : RangeRole}
    {check : Check} {next : Unit → Action Kernel α} {rest : Verdict Unit}
    (listed : kernel.processes[place.process]? = some process)
    (covered : task.Covered role kernel.page process.space) (placed : task.place role = place)
    (follows : AddressSpace.checkRange place.address (task.pages * pageSize) check
      ⟨process.space, kernel.resources⟩ = .done () ⟨process.space, kernel.resources⟩ →
      (next () kernel).ending = rest) :
    ((onSpace place.process (AddressSpace.checkRange place.address (task.pages * pageSize) check)
      >>= next) kernel).ending =
        task.judgeDemand kernel.view (.meets role check) >>= fun _ => rest := by
  have checking : (onSpace place.process (AddressSpace.checkRange place.address
      (task.pages * pageSize) check) kernel).ending =
        task.judgeDemand kernel.view (.meets role check) :=
    (ending_onSpace listed).trans (Task.Covered.ending_check covered placed)
  rw [← checking]
  apply ending_bind_eq
  intro _ after done
  obtain rfl := (steady_onSpace AddressSpace.steady_checkRange).of_done done
  exact follows (onSpace_of_steady AddressSpace.steady_checkRange listed done)

namespace Hosts

variable (hosts : kernel.Hosts task target origin)

include hosts

theorem source_covered (coherent : kernel.Coherent) :
    task.Covered .source kernel.page origin.space where
  among := among_of_listed hosts.origin_listed
  coherent := coherent origin (List.mem_of_getElem? hosts.origin_listed)
  aligned := hosts.source_aligned
  positive := hosts.positive
  covers := hosts.origin_covers

theorem destination_covered (coherent : kernel.Coherent) :
    task.Covered .destination kernel.page target.space where
  among := among_of_listed hosts.target_listed
  coherent := coherent target (List.mem_of_getElem? hosts.target_listed)
  aligned := hosts.destination_aligned
  positive := hosts.positive
  covers := hosts.target_covers

/-- The source is inside the address space of its process. -/
theorem contained : origin.space.layout.contains task.source.address (task.pages * pageSize) =
    .ok true := by
  obtain ⟨_, inside, _⟩ := Verdict.bind_eq_ok.mp hosts.admitted
  obtain ⟨process, listed, contained⟩ := inside_of_requireInside inside
  rwa [Option.some.inj (listed.symm.trans hosts.origin_listed)] at contained

/-- The destination is where memory in its state may be. -/
theorem placed {state : MemoryState} (asked : task.work.state? = some state) :
    target.space.layout.canContain task.destination.address (task.pages * pageSize) state =
      .ok true := by
  obtain ⟨_, _, placed⟩ := Verdict.bind_eq_ok.mp hosts.admitted
  rw [asked] at placed
  obtain ⟨process, listed, placed⟩ := placed_of_requirePlace placed
  rwa [Option.some.inj (listed.symm.trans hosts.target_listed)] at placed

theorem same_of_within (within : task.source.process = task.destination.process) :
    origin = target := by
  have listed := hosts.origin_listed
  rw [within] at listed
  exact Option.some.inj (listed.symm.trans hosts.target_listed)

theorem requireAliasRanges (asked : task.work.state? = some .aliasCode)
    (within : task.source.process = task.destination.process) :
    AddressSpace.requireAliasRanges task.destination.address task.source.address
      (task.pages * pageSize) ⟨target.space, kernel.resources⟩ =
        .done () ⟨target.space, kernel.resources⟩ := by
  have contained := hosts.contained
  rw [hosts.same_of_within within] at contained
  exact bind_eq_done.mpr ⟨(), _, AddressSpace.requireInside_of_contains contained,
    AddressSpace.requirePlace_of_canContain (hosts.placed asked)⟩

theorem ending_mapShared (inv : OrdinaryInvariant config kernel) (work : task.work = .mapMemory) :
    (mapShared task.destination task.source task.pages kernel).ending = task.judge kernel.view := by
  have guarded : FaultGuarded (fun _ => True) config kernel := inv.guarded trivial trivial
  have source := hosts.source_covered inv.coherent
  have destination := hosts.destination_covered inv.coherent
  have space := guarded.space hosts.origin_listed
  have making := (ending_onSpace hosts.origin_listed).trans
    (Task.ending_makeHeldGroup space source (.hasFlags .canMapProcess) hosts.source_fits)
  have judged : task.judge kernel.view =
      (onSpace task.source.process (AddressSpace.makeHeldGroup task.source.address task.pages
        (.hasFlags .canMapProcess)) kernel).ending >>= fun _ => (do
          task.judgeDemand kernel.view (.meets .destination (.exactly .free))
          task.judgeDemand kernel.view (.retainable 2)) := by
    rw [making, Task.judge, work]
    simp only [Work.demands, List.forM_cons, List.forM_nil, bind_assoc, Verdict.pure_eq, bind_unit]
    rfl
  rw [judged, mapShared]
  apply ending_bind_eq
  intro group held done
  obtain ⟨owner, made, ownerListed, making, rfl⟩ := onSpace_eq_done.mp done
  obtain rfl : origin = owner := Option.some.inj (hosts.origin_listed.symm.trans ownerListed)
  obtain ⟨_, once, runs, groups, retained⟩ :=
    AddressSpace.makeHeldGroup_eq_done (guarded.sound.attach origin) making
  have retains := FramePool.retains_of_retainAll retained
  have spaceMade := withSpace_processes ownerListed groups.space_eq
  have targetListed := hosts.target_listed
  rw [← spaceMade] at targetListed
  rw [ending_ensuring, ending_onSpace targetListed]
  · have covered : task.Covered .destination kernel.page
        (AttachedSpace.mk target.space made.resources).space := destination
    refine (Task.ending_mapGroup covered (inv.orderly _ (space_mem hosts.target_listed))
      (show kernel.view.pages = kernel.page from rfl) hosts.destination_fits
      (hosts.placed (by rw [work]; rfl)) (by decide) groups.occupies.held groups.length_eq
      (groups.lies _ space.lies) ((space.retainable_of_backs groups.backs).right retains)).trans ?_
    refine congrArg _ (funext fun _ => ?_)
    have behind := source.behind_of_backs groups.backs groups.length_eq
    refine (Task.judgeDemand_retainable behind fun frame => ?_).symm
    rw [retains.held_eq, Nat.add_assoc, ← Nat.two_mul]
    rfl
  · intro middle ended
    have spares := retains.spares guarded.sound.frames
    obtain ⟨heldFrames, _⟩ := guarded.accounts.frames.retainAll retained
    obtain ⟨(descriptors : middle.resources.descriptors = made.resources.descriptors), spares⟩ :=
      spares_of_mapGroup heldFrames groups.occupies.held spares ended
    have occupies := groups.occupies
    rw [← descriptors] at occupies
    obtain ⟨resources, given⟩ := occupies.discard_exists (.inr ⟨once, spares⟩)
    exact ⟨{ middle with resources }, by rw [changeResources, given]; rfl⟩

theorem ending_unmapShared (inv : OrdinaryInvariant config kernel)
    (work : task.work = .unmapMemory) :
    (unmapShared task.destination task.source (task.pages * pageSize) kernel).ending =
      task.judge kernel.view := by
  have guarded : FaultGuarded (fun _ => True) config kernel := inv.guarded trivial trivial
  have source := hosts.source_covered inv.coherent
  have destination := hosts.destination_covered inv.coherent
  have space := guarded.space hosts.origin_listed
  rw [Task.judge, work, unmapShared, Nat.mul_div_cancel _ (by decide)]
  simp only [Work.demands, List.forM_cons, List.forM_nil]
  refine ending_checkRange hosts.target_listed destination rfl fun checked => ?_
  refine ending_checkRange hosts.origin_listed source rfl fun lent => ?_
  have making : (onSpace task.source.process
      (AddressSpace.makeGroup task.source.address task.pages) kernel).ending =
        task.judgeDemand kernel.view .described :=
    (ending_onSpace hosts.origin_listed).trans
      (AddressSpace.ending_makeGroup source.among source.coherent space.sound)
  rw [← making]
  apply ending_bind_eq
  intro group grown done
  obtain ⟨owner, made, ownerListed, making, rfl⟩ := onSpace_eq_done.mp done
  obtain rfl : origin = owner := Option.some.inj (hosts.origin_listed.symm.trans ownerListed)
  have covered : task.Covered .source kernel.page
    (AttachedSpace.mk origin.space kernel.resources).space := source
  obtain ⟨unheld, unchanged, runs, described, groups⟩ :=
    covered.makeGroup_eq_done space.sound making
  have targetListed := hosts.target_listed
  rw [← withSpace_processes ownerListed groups.space_eq] at targetListed
  rw [ending_ensuring, ending_onSpace targetListed]
  · have shown : task.Covered .destination kernel.view.pages
      (AttachedSpace.mk target.space made.resources).space := destination
    refine shown.ending_isBackedBy described groups.occupies.held groups.length_eq
      fun compared => ?_
    obtain ⟨found, held, behind⟩ := AddressSpace.isBackedBy_eq_done compared
    obtain rfl := Except.ok.inj (held.symm.trans groups.occupies.held)
    obtain ⟨length, backs⟩ := Directory.runs_eq_some behind
    have spares := guarded.spares_of_checked hosts.target_listed hosts.origin_listed
      hosts.destination_aligned hosts.source_aligned (fun state => by cases state <;> decide)
      checked lent backs groups.backs groups.length_eq
    rw [← unchanged] at spares
    obtain ⟨removed, erased⟩ := AddressSpace.unmapRange_exists shown.coherent
      hosts.destination_aligned hosts.positive hosts.target_covers behind spares
    obtain ⟨result, committed⟩ := AddressSpace.commit_exists
      (shown.coherent.unmapRange erased).wellFormed .unmapShared
    rw [ending_bind_of_done erased]
    exact ending_of_done committed
  · intro middle ended
    have same : middle.resources.descriptors = made.resources.descriptors :=
      keeps_resources (·.descriptors = made.resources.descriptors)
        AddressSpace.described_unmapBacked _ _ rfl ended
    have occupies := groups.occupies
    rw [← same] at occupies
    obtain ⟨resources, given⟩ := occupies.discard_exists (.inl unheld)
    exact ⟨{ middle with resources }, by rw [changeResources, given]; rfl⟩

theorem ending_setPermission (inv : OrdinaryInvariant config kernel) {permission : UserPermission}
    (work : task.work = .setPermission permission) :
    (onSpace task.destination.process (AddressSpace.setPermission task.destination.address
      task.pages permission) kernel).ending = task.judge kernel.view := by
  have guarded : FaultGuarded (fun _ => True) config kernel := inv.guarded trivial trivial
  have alone := hosts.alone permission work
  have inside := hosts.contained
  rw [hosts.same_of_within (congrArg Place.process alone), alone] at inside
  rw [ending_onSpace hosts.target_listed, Task.ending_setPermission
    (guarded.space hosts.target_listed) (hosts.destination_covered inv.coherent)
    hosts.destination_fits inside, Task.judge, work]
  exact (bind_unit _).symm

/-- A task about a code alias has both ranges in one address space, and ends as it does there. -/
theorem ending_alias {α : Type} {action : SpaceAction α} (inv : OrdinaryInvariant config kernel)
    (aliased : task.work.state? = some .aliasCode) (changes : task.work.changesSource = true)
    (ends :
      AddressSpace.FaultGuarded (fun _ => True) kernel.extent ⟨target.space, kernel.resources⟩ →
      task.Covered .source kernel.page target.space →
      task.Covered .destination kernel.page target.space →
      AddressSpace.requireAliasRanges task.destination.address task.source.address
        (task.pages * pageSize) ⟨target.space, kernel.resources⟩ =
          .done () ⟨target.space, kernel.resources⟩ →
      (action ⟨target.space, kernel.resources⟩).ending = task.judge kernel.view) :
    (onSpace task.destination.process action kernel).ending = task.judge kernel.view := by
  have guarded : FaultGuarded (fun _ => True) config kernel := inv.guarded trivial trivial
  have within := hosts.within changes
  have source := hosts.source_covered inv.coherent
  rw [hosts.same_of_within within] at source
  exact (ending_onSpace hosts.target_listed).trans (ends (guarded.space hosts.target_listed) source
    (hosts.destination_covered inv.coherent) (hosts.requireAliasRanges aliased within))

theorem ending_mapCode (inv : OrdinaryInvariant config kernel) (work : task.work = .mapCode) :
    (onSpace task.destination.process (AddressSpace.mapCode task.destination.address
      task.source.address (task.pages * pageSize)) kernel).ending = task.judge kernel.view :=
  hosts.ending_alias inv (by rw [work]; rfl) (by rw [work]; rfl)
    fun guarded source destination placed =>
      Task.ending_mapCode guarded source destination work placed

theorem ending_unmapCode (inv : OrdinaryInvariant config kernel) (work : task.work = .unmapCode)
    {strategy : InvalidationStrategy} :
    (onSpace task.destination.process (AddressSpace.unmapCode task.destination.address
      task.source.address (task.pages * pageSize) strategy) kernel).ending =
        task.judge kernel.view :=
  hosts.ending_alias inv (by rw [work]; rfl) (by rw [work]; rfl)
    fun guarded source destination placed =>
      Task.ending_unmapCode guarded source destination work placed

/-- A task that has its place ends as its demands have it. -/
theorem ending_act (inv : OrdinaryInvariant config kernel) :
    (task.act kernel).ending = task.judge kernel.view := by
  obtain ⟨work, target, origin, pages⟩ := task
  cases work with
  | setPermission permission => exact hosts.ending_setPermission inv rfl
  | mapMemory => exact hosts.ending_mapShared inv rfl
  | unmapMemory => exact hosts.ending_unmapShared inv rfl
  | mapCode => exact hosts.ending_mapCode inv rfl
  | unmapCode => exact hosts.ending_unmapCode inv rfl

end Hosts

/-- How a call ends is settled by its arguments, by what no call changes and by what the view shows
of the pages that it names. -/
theorem ending_perform_eq_judge (inv : OrdinaryInvariant config kernel) {current : Nat}
    {request : Call} :
    (perform current request kernel).ending = (do
      let task ← kernel.setting.task current request
      kernel.setting.requirePlaces task
      task.judge kernel.view) := by
  rw [ending_perform inv.layouts]
  apply bind_congr_of_ok
  intro task came
  apply bind_congr_of_ok
  intro _ admitted
  obtain ⟨target, origin, hosts⟩ :=
    hosts_of_requirePlaces inv.coherent inv.layouts (Setting.valid_of_task came) admitted
  exact hosts.ending_act inv

end Kernel

end GuestMemory
