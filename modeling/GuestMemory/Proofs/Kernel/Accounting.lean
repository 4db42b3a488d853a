import GuestMemory.Proofs.AddressSpace.Accounting
import GuestMemory.Proofs.Kernel.Coherence
import Mathlib.Algebra.Order.BigOperators.Group.List
import Mathlib.Algebra.Order.Group.Nat

/-!
Frame accounting for a kernel: the references to a frame are as many as the pages, in all processes,
behind which it stands, and the frames of the pool that stand behind no page are free.
-/

namespace GuestMemory.Kernel

open GuestMemory.Action

variable {kernel after : Kernel} {index current frame page : Nat} {process : Process}
variable {attached : AttachedSpace} {borrowed : List Nat} {result : Commit}

theorem sum_map_set {α : Type} {values : List α} {old : α} (new : α) (weight : α → Nat)
    (listed : values[index]? = some old) :
    ((values.set index new).map weight).sum + weight old =
      (values.map weight).sum + weight new := by
  induction values generalizing index with
  | nil => cases listed
  | cons value rest ih =>
      cases index with
      | zero =>
          obtain rfl : value = old := Option.some.inj listed
          simp only [List.set_cons_zero, List.map_cons, List.sum_cons]
          omega
      | succ index =>
          have others := ih listed
          simp only [List.set_cons_succ, List.map_cons, List.sum_cons]
          omega

/-- The number of pages, in all processes, behind which a frame stands. -/
def shown (kernel : Kernel) (frame : Nat) : Nat :=
  (kernel.processes.map fun process => (process.space.directory.pagesOn frame).card).sum

theorem shown_pos (listed : kernel.processes[index]? = some process)
    (backed : process.space.directory.frameAt? page = some frame) : 0 < kernel.shown frame := by
  have member : page ∈ process.space.directory.pagesOn frame := Directory.mem_pagesOn.mpr backed
  have positive := Finset.card_pos.mpr ⟨page, member⟩
  have part := List.le_sum_of_mem (List.mem_map_of_mem
    (f := fun process : Process => (process.space.directory.pagesOn frame).card)
    (List.mem_of_getElem? listed))
  exact Nat.lt_of_lt_of_le positive part

/-- A page shows its frame still after another process has changed, or its own, but not the page. -/
theorem shown_pos_withSpace {other : Nat} {changed : Process}
    (listed : kernel.processes[index]? = some process)
    (changedListed : kernel.processes[other]? = some changed)
    (backed : process.space.directory.frameAt? page = some frame)
    (kept : other = index → attached.space.directory.frameAt? page = some frame) :
    0 < (kernel.withSpace other changed attached).shown frame := by
  by_cases own : other = index
  · have bounded := (List.getElem?_eq_some_iff.mp changedListed).1
    exact shown_pos (List.getElem?_set_self bounded) (kept own)
  · exact shown_pos ((List.getElem?_set_ne own).trans listed) backed

def extent (kernel : Kernel) : Run :=
  ⟨kernel.config.frameBase, kernel.config.framePages⟩

/-- The references to a frame are those of the pages behind which it stands, and the borrowed
ones. -/
structure Accounts (kernel : Kernel) (borrowed : List Nat) : Prop where
  frames : kernel.resources.frames.WellFormed kernel.extent
  held_eq : ∀ frame : Nat,
    kernel.resources.frames.held frame = kernel.shown frame + borrowed.count frame

theorem Accounts.withSpace (accounts : kernel.Accounts borrowed)
    (listed : kernel.processes[index]? = some process)
    (balanced : AddressSpace.Balanced kernel.extent ⟨process.space, kernel.resources⟩ attached) :
    (kernel.withSpace index process attached).Accounts borrowed := by
  refine ⟨balanced.wellFormed, fun frame => ?_⟩
  have balance := balanced.balance frame
  have held := accounts.held_eq frame
  have moved := sum_map_set { process with space := attached.space }
    (fun process => (process.space.directory.pagesOn frame).card) listed
  simp only [Kernel.withSpace, setProcess, shown] at *
  omega

/-- Frames that are borrowed or given back have other references, but behind no other pages. -/
theorem Accounts.reborrow {other : List Nat} (accounts : kernel.Accounts borrowed)
    (processes : after.processes = kernel.processes)
    (frames : after.resources.frames.WellFormed after.extent)
    (moved : ∀ frame, after.resources.frames.held frame + borrowed.count frame =
      kernel.resources.frames.held frame + other.count frame) : after.Accounts other := by
  refine ⟨frames, fun frame => ?_⟩
  have held := accounts.held_eq frame
  have difference := moved frame
  simp only [shown, processes] at *
  omega

theorem Accounts.congr (accounts : kernel.Accounts borrowed)
    (processes : after.processes = kernel.processes) (config : after.config = kernel.config)
    (frames : after.resources.frames = kernel.resources.frames) : after.Accounts borrowed := by
  refine accounts.reborrow processes ?_ fun frame => by rw [frames]
  rw [frames, extent, config]
  exact accounts.frames

theorem Accounts.withResources {resources : Resources} (accounts : kernel.Accounts borrowed)
    (frames : resources.frames = kernel.resources.frames) :
    Accounts { kernel with resources } borrowed :=
  accounts.congr rfl rfl frames

/-- What a call does for the accounts: they stay in order, the descriptors stay, and so does
the set of allocated frames. -/
structure Settles (before after : Kernel) : Prop where
  config_eq : after.config = before.config
  accounts : after.Accounts []
  contents_eq : after.resources.descriptors.contents = before.resources.descriptors.contents
  allocation : ∀ frame : Nat,
    after.resources.frames.held frame = 0 ↔ before.resources.frames.held frame = 0

theorem allocation_of_gained {before after : FramePool} {frames : List Nat}
    (gained : ∀ frame, after.held frame = before.held frame + frames.count frame)
    (allocated : ∀ frame ∈ frames, before.held frame ≠ 0) (frame : Nat) :
    after.held frame = 0 ↔ before.held frame = 0 := by
  rw [gained]
  refine ⟨fun none => by omega, fun none => ?_⟩
  have absent : frame ∉ frames := fun member => allocated frame member none
  rw [none, List.count_eq_zero_of_not_mem absent]

/-- A frame that still stands behind a page has kept a reference. -/
theorem allocation_of_dropped {frames : List Nat} (accounts : after.Accounts [])
    (dropped : ∀ frame, after.resources.frames.held frame + frames.count frame =
      kernel.resources.frames.held frame)
    (shown : ∀ frame ∈ frames, 0 < after.shown frame) (frame : Nat) :
    after.resources.frames.held frame = 0 ↔ kernel.resources.frames.held frame = 0 := by
  have held := accounts.held_eq frame
  rw [← dropped]
  refine ⟨fun none => ?_, fun none => by omega⟩
  have absent : frame ∉ frames := fun member => by
    have page := shown frame member
    omega
  rw [none, List.count_eq_zero_of_not_mem absent]

namespace Accounts

theorem setPermission (accounts : kernel.Accounts []) {address pages : Nat}
    {permission : UserPermission}
    (done : onSpace index (AddressSpace.setPermission address pages permission) kernel =
      .done result after) : kernel.Settles after := by
  obtain ⟨process, attached, listed, acted, rfl⟩ := onSpace_eq_done.mp done
  obtain ⟨balanced, frames⟩ := AddressSpace.balanced_setPermission accounts.frames acted
  refine ⟨rfl, accounts.withSpace listed balanced, balanced.contents_eq, fun frame => ?_⟩
  simp only [Kernel.withSpace, frames]

theorem mapCode (accounts : kernel.Accounts []) (sound : kernel.Sound)
    {destination source size : Nat}
    (done : onSpace index (AddressSpace.mapCode destination source size) kernel =
      .done result after) : kernel.Settles after := by
  obtain ⟨process, attached, listed, acted, rfl⟩ := onSpace_eq_done.mp done
  obtain ⟨balanced, frames, gained, allocated⟩ :=
    AddressSpace.mapCode_accounts (sound.attach process) accounts.frames acted
  exact ⟨rfl, accounts.withSpace listed balanced, balanced.contents_eq,
    allocation_of_gained gained allocated⟩

theorem unmapCode (accounts : kernel.Accounts []) (sound : kernel.Sound)
    (coherent : kernel.Coherent) {destination source size : Nat} {strategy : InvalidationStrategy}
    (first : destination % pageSize = 0) (second : source % pageSize = 0)
    (whole : WholePages size)
    (done : onSpace index (AddressSpace.unmapCode destination source size strategy) kernel =
      .done result after) : kernel.Settles after := by
  obtain ⟨process, attached, listed, acted, rfl⟩ := onSpace_eq_done.mp done
  have space := coherent process (List.mem_of_getElem? listed)
  obtain ⟨balanced, frames, dropped, backed⟩ := AddressSpace.unmapCode_accounts
    (sound.attach process) space accounts.frames first second whole.mul_eq acted
  have settled := accounts.withSpace listed balanced
  refine ⟨rfl, settled, balanced.contents_eq,
    allocation_of_dropped settled dropped fun frame member => ?_⟩
  obtain ⟨page, shown⟩ := backed frame member
  have bounded := (List.getElem?_eq_some_iff.mp listed).1
  exact shown_pos (List.getElem?_set_self bounded) shown

theorem mapShared (accounts : kernel.Accounts []) (sound : kernel.Sound) {target origin : Place}
    {pages : Nat} (done : mapShared target origin pages kernel = .done result after) :
    kernel.Settles after := by
  obtain ⟨group, held, mapped, grouped, acted, discarded⟩ := mapShared_eq_done done
  obtain ⟨owner, made, listed, making, rfl⟩ := onSpace_eq_done.mp grouped
  obtain ⟨_, once, runs, groups, retained⟩ :=
    AddressSpace.makeHeldGroup_eq_done (sound.attach owner) making
  obtain ⟨heldFrames, gained⟩ := accounts.frames.retainAll retained
  -- While the group is held, its references are borrowed.
  have holding : (kernel.withSpace origin.process owner made).Accounts (Run.framesOf runs) :=
    accounts.reborrow (withSpace_processes listed groups.space_eq) heldFrames fun frame =>
      gained frame
  obtain ⟨shower, final, showerListed, mapping, rfl⟩ := onSpace_eq_done.mp acted
  obtain ⟨_, _, _, placed⟩ := AddressSpace.mapGroup_eq_done mapping
  obtain ⟨balanced, descriptors, more, _⟩ :=
    AddressSpace.placeGroup_accounts placed heldFrames groups.occupies.held
  have showing := holding.withSpace showerListed balanced
  obtain ⟨resources, given, rfl⟩ := changeResources_eq_ok discarded
  obtain ⟨contents, _, remaining⟩ := groups.of_discard_held once descriptors given
  obtain ⟨kept, dropped⟩ := showing.frames.releaseAll remaining
  have settled : Accounts { kernel.withSpace origin.process owner made |>.withSpace target.process
      shower final with resources } [] :=
    showing.reborrow rfl kept dropped
  have total (frame : Nat) : resources.frames.held frame =
      kernel.resources.frames.held frame + (Run.framesOf runs).count frame := by
    have once := gained frame
    have twice := more frame
    have less := dropped frame
    simp only [Kernel.withSpace] at *
    omega
  refine ⟨rfl, settled, contents, allocation_of_gained total fun frame member => ?_⟩
  rw [Ne, accounts.frames.positive.held_eq_zero_iff]
  exact (FramePool.retains_of_retainAll retained).gains.allocated frame member

theorem unmapShared (accounts : kernel.Accounts []) (sound : kernel.Sound)
    (coherent : kernel.Coherent) {target origin : Place} {size : Nat}
    (first : target.address % pageSize = 0) (second : origin.address % pageSize = 0)
    (whole : WholePages size)
    (done : unmapShared target origin size kernel = .done result after) :
    kernel.Settles after := by
  obtain ⟨group, made, removed, checked, lent, grouped, acted, discarded⟩ :=
    unmapShared_eq_done done
  obtain ⟨owner, grown, listed, making, rfl⟩ := onSpace_eq_done.mp grouped
  obtain ⟨unheld, unchanged, runs, groups⟩ :=
    AddressSpace.makeGroup_eq_done (sound.attach owner) making
  have processes := withSpace_processes listed groups.space_eq
  have borrowing := accounts.congr processes rfl unchanged
  obtain ⟨holder, last, holderListed, taking, rfl⟩ := onSpace_eq_done.mp acted
  simp only [bind_eq_done, require_eq_done] at taking
  obtain ⟨_, _, compared, _, _, ⟨rfl, rfl⟩, erased⟩ := taking
  obtain rfl := AddressSpace.steady_isBackedBy.of_done compared
  obtain ⟨shownRuns, held, behind⟩ := AddressSpace.isBackedBy_eq_done compared
  obtain rfl := Except.ok.inj (held.symm.trans groups.occupies.held)
  obtain ⟨balanced, same, dropped, gone⟩ :=
    AddressSpace.unmapRange_accounts erased borrowing.frames behind
  have settled := borrowing.withSpace holderListed balanced
  obtain ⟨resources, given, rfl⟩ := changeResources_eq_ok discarded
  obtain ⟨contents, _, frames⟩ := groups.of_discard_unheld unheld same given
  have final := settled.withResources frames
  have less (frame : Nat) : resources.frames.held frame + (Run.framesOf shownRuns).count frame =
      kernel.resources.frames.held frame := by
    rw [frames, dropped]
    simp only [Kernel.withSpace, unchanged]
  refine ⟨rfl, final, contents, allocation_of_dropped final less fun frame member => ?_⟩
  obtain ⟨page, lower, upper, backed⟩ := AddressSpace.exists_page_of_backs groups.backs member
  rw [groups.length_eq] at upper
  rw [← processes] at listed
  refine shown_pos_withSpace listed holderListed backed fun own => ?_
  -- In one and the same process the source is apart from the range that has been taken away.
  obtain rfl : holder = owner := Option.some.inj
    (holderListed.symm.trans (by rw [own]; exact listed))
  rw [processes] at listed holderListed
  have viewing := onSpace_of_steady AddressSpace.steady_checkRange holderListed checked
  have lending := onSpace_of_steady AddressSpace.steady_checkRange listed lent
  rw [← whole.mul_eq] at viewing lending
  have space := coherent holder (List.mem_of_getElem? listed)
  have apart := AddressSpace.Coherent.apart space first second viewing lending
    (fun state => by cases state <;> decide) (by rw [backed]; exact Option.some_ne_none _) lower
    upper
  rw [gone, if_neg apart]
  exact backed

/-- A call settles the accounts and allocates no frame and frees none. -/
theorem perform (accounts : kernel.Accounts []) (sound : kernel.Sound)
    (coherent : kernel.Coherent) {request : Call}
    (done : perform current request kernel = .done result after) : kernel.Settles after := by
  cases request with
  | setPermission handle address size permission =>
      obtain ⟨_, _, target, granted, acted⟩ := setPermission_eq_done done
      exact accounts.setPermission acted
  | mapMemory destination handle source size =>
      obtain ⟨_, _, _, owner, shared⟩ := mapMemory_eq_done done
      exact accounts.mapShared sound shared
  | unmapMemory destination handle source size =>
      obtain ⟨first, second, whole, owner, shared⟩ := unmapMemory_eq_done done
      exact accounts.unmapShared sound coherent first second whole shared
  | mapCode handle destination source size =>
      obtain ⟨_, _, _, target, acted⟩ := mapCode_eq_done done
      exact accounts.mapCode sound acted
  | unmapCode handle destination source size =>
      obtain ⟨first, second, whole, target, strategy, acted⟩ := unmapCode_eq_done done
      exact accounts.unmapCode sound coherent first second whole acted

theorem onHandles {α : Type} {act : Action (HandleTable KernelObject) α} {value : α}
    (accounts : kernel.Accounts []) (done : onHandles index act kernel = .done value after) :
    after.Accounts [] := by
  obtain ⟨process, handles, listed, _, rfl⟩ := onHandles_eq_done done
  refine ⟨accounts.frames, fun frame => ?_⟩
  have held := accounts.held_eq frame
  have same := sum_map_set { process with handles }
    (fun process => (process.space.directory.pagesOn frame).card) listed
  simp only [setProcess, shown] at *
  omega

theorem createProcess (accounts : kernel.Accounts []) {layout : Layout} {position : Nat}
    (created : createProcess layout kernel = .done position after) : after.Accounts [] := by
  obtain ⟨handles, rfl⟩ := createProcess_eq_done created
  refine ⟨accounts.frames, fun frame => ?_⟩
  have held := accounts.held_eq frame
  have none : (AddressSpace.create kernel.nextId layout).directory.pagesOn frame = ∅ := by
    ext page
    simp [Directory.mem_pagesOn, Directory.frameAt?, AddressSpace.create, Directory.empty]
  simp only [shown, List.map_append, List.sum_append, List.map_singleton, List.sum_singleton, none,
    Finset.card_empty, Nat.add_zero] at *
  exact held

theorem onSpace {α : Type} {action : SpaceAction α} {value : α} (accounts : kernel.Accounts [])
    (coherent : kernel.Coherent)
    (balances : ∀ attached after, attached.space.Coherent →
      attached.resources.frames.WellFormed kernel.extent → action attached = .done value after →
      AddressSpace.Balanced kernel.extent attached after)
    (done : onSpace index action kernel = .done value after) :
    after.config = kernel.config ∧ after.Accounts [] ∧
      after.resources.descriptors.contents = kernel.resources.descriptors.contents := by
  obtain ⟨process, attached, listed, acted, rfl⟩ := onSpace_eq_done.mp done
  have space := coherent process (List.mem_of_getElem? listed)
  have balanced := balances ⟨process.space, kernel.resources⟩ attached space accounts.frames acted
  exact ⟨rfl, accounts.withSpace listed balanced, balanced.contents_eq⟩

theorem step {step : Step} (accounts : kernel.Accounts []) (sound : kernel.Sound)
    (coherent : kernel.Coherent) {legal : Layout → Prop} (allowed : step.Allowed legal)
    (done : step.perform kernel = .done () after) :
    after.config = kernel.config ∧ after.Accounts [] ∧
      after.resources.descriptors.contents = kernel.resources.descriptors.contents := by
  cases step with
  | createProcess layout =>
      obtain ⟨position, done⟩ := silent_eq_done.mp done
      have settled := accounts.createProcess done
      obtain ⟨handles, rfl⟩ := createProcess_eq_done done
      exact ⟨rfl, settled, rfl⟩
  | openHandle index object =>
      obtain ⟨handle, done⟩ := silent_eq_done.mp done
      have settled := accounts.onHandles done
      obtain ⟨process, handles, _, _, rfl⟩ := onHandles_eq_done done
      exact ⟨rfl, settled, rfl⟩
  | closeHandle index handle =>
      obtain ⟨closed, done⟩ := silent_eq_done.mp done
      have settled := accounts.onHandles done
      obtain ⟨process, handles, _, _, rfl⟩ := onHandles_eq_done done
      exact ⟨rfl, settled, rfl⟩
  | mapPages index address pages state permission =>
      obtain ⟨result, done⟩ := silent_eq_done.mp done
      exact accounts.onSpace coherent (fun _ _ _ frames mapped =>
        AddressSpace.balanced_mapPages frames mapped) done
  | unmapPages index address pages state =>
      obtain ⟨result, done⟩ := silent_eq_done.mp done
      exact accounts.onSpace coherent (fun _ _ space frames unmapped =>
        AddressSpace.balanced_unmapPages space frames unmapped) done
  | call index request =>
      obtain ⟨result, done⟩ := silent_eq_done.mp done
      have settled := accounts.perform sound coherent done
      exact ⟨settled.config_eq, settled.accounts, settled.contents_eq⟩
  | _ => exact allowed.elim

end Accounts

/-- The frames have the references that the pages of all processes account for, and the descriptors
are those of a new pool. -/
structure ResourcesAccounted (config : Config) (kernel : Kernel) : Prop where
  config_eq : kernel.config = config
  sound : kernel.Sound
  coherent : kernel.Coherent
  accounts : kernel.Accounts []
  contents_eq : kernel.resources.descriptors.contents =
    (DescriptorPool.ofCapacity config.descriptorCapacity).contents

variable {config : Config} {cache : InstructionCache} {initial reached : Kernel} {steps : List Step}

namespace ResourcesAccounted

theorem of_create (created : create config cache = .ok kernel) :
    ResourcesAccounted config kernel := by
  have sound := sound_create created
  have coherent := Coherent.of_create created
  obtain ⟨frames, made, built⟩ := Checked.bind_eq_ok.mp created
  cases built
  refine ⟨rfl, sound, coherent, ⟨FramePool.wellFormed_create made, fun frame => ?_⟩, rfl⟩
  rw [FramePool.create] at made
  split at made <;> cases made
  rw [FramePool.held, Std.ExtTreeMap.getElem?_empty]
  rfl

theorem of_restored (accounted : ResourcesAccounted config kernel)
    (restored : kernel.Restored after) (sound : after.Sound) : ResourcesAccounted config after where
  config_eq := restored.config_eq.trans accounted.config_eq
  sound := sound
  coherent := by
    rw [Coherent, restored.processes_eq]
    exact accounted.coherent
  accounts := accounted.accounts.congr restored.processes_eq restored.config_eq
    restored.resources.frames_eq
  contents_eq := restored.resources.contents_eq.trans accounted.contents_eq

theorem kept {step : Step} (allowed : step.Allowed Layout.Paged) :
    Keeps (ResourcesAccounted config) step.perform := by
  intro kernel after accounted ended
  obtain ⟨sound, coherent⟩ := Coherent.kept allowed kernel after
    ⟨accounted.sound, accounted.coherent⟩ ended
  rcases Outcome.state?_eq_some.mp ended with ⟨_, done⟩ | ⟨cause, refused⟩
  · obtain ⟨same, accounts, contents⟩ :=
      accounted.accounts.step accounted.sound accounted.coherent allowed done
    exact ⟨same.trans accounted.config_eq, sound, coherent, accounts,
      contents.trans accounted.contents_eq⟩
  · exact accounted.of_restored
      ((transactional_perform_step step).restores _ _ _ accounted.sound refused) sound

theorem length_free (accounted : ResourcesAccounted config kernel) :
    kernel.resources.descriptors.free.length =
      config.descriptorCapacity % DescriptorPool.idLimit := by
  obtain ⟨_, _, free⟩ := DescriptorPool.contents_eq_iff.mp accounted.contents_eq
  exact free.length_eq.trans (DescriptorPool.length_free_ofCapacity _)

/-- Kernels with one configuration have their frames in one place. -/
theorem extent_eq (accounted : ResourcesAccounted config kernel)
    (other : ResourcesAccounted config after) : after.extent = kernel.extent := by
  rw [extent, extent, accounted.config_eq, other.config_eq]

theorem stop_lt (accounted : ResourcesAccounted config kernel)
    (fits : config.frameBase + config.framePages * pageSize < wordLimit) :
    kernel.extent.stop < wordLimit := by
  rw [extent, accounted.config_eq]
  exact fits

/-- However a call ends, it allocates no frame and frees none. -/
theorem allocation_of_call (accounted : ResourcesAccounted config kernel) {request : Call}
    (ended : ((Step.call current request).perform kernel).state? = some after) (frame : Nat) :
    after.resources.frames.held frame = 0 ↔ kernel.resources.frames.held frame = 0 := by
  rcases Outcome.state?_eq_some.mp ended with ⟨_, done⟩ | ⟨cause, refused⟩
  · obtain ⟨result, done⟩ := silent_eq_done.mp done
    exact (accounted.accounts.perform accounted.sound accounted.coherent done).allocation frame
  · have restored := (transactional_perform_step _).restores _ _ _ accounted.sound refused
    rw [restored.resources.frames_eq]

end ResourcesAccounted

theorem resourcesAccounted_run (created : create config cache = .ok initial)
    (ordinary : ∀ step ∈ steps, step.Ordinary) (ran : initial.run? steps = some reached) :
    ResourcesAccounted config reached :=
  run?_keeps (fun _ ordinary => ResourcesAccounted.kept ordinary.paged) ordinary
    (.of_create created) ran

end GuestMemory.Kernel
