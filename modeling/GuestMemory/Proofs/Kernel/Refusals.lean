import GuestMemory.Proofs.AddressSpace.Refusals
import GuestMemory.Proofs.Kernel.Spaces
import GuestMemory.Proofs.Kernel.Steps

/-!
Refused requests: whatever a request had done before it was refused has been undone, for every
process and for what all processes share.
-/

namespace GuestMemory

open GuestMemory.Action

namespace Kernel

/-- All is as it was, but for the order in which free descriptors are handed out. -/
structure Restored (before after : Kernel) : Prop where
  config_eq : after.config = before.config
  processes_eq : after.processes = before.processes
  resources : before.resources.Restored after.resources

theorem Restored.refl (kernel : Kernel) : kernel.Restored kernel :=
  ⟨rfl, rfl, .refl _⟩

def Sound (kernel : Kernel) : Prop :=
  kernel.resources.Sound

theorem Sound.attach {kernel : Kernel} (sound : kernel.Sound) (process : Process) :
    AddressSpace.Sound ⟨process.space, kernel.resources⟩ :=
  sound

instance : Recoverable Kernel where
  valid := Sound
  same := Restored
  refl := Restored.refl

variable {α : Type} {kernel after : Kernel} {index current size pages : Nat} {process : Process}
variable {action : SpaceAction α} {making : SpaceAction PageGroup} {attached : AttachedSpace}
variable {handle : Handle} {source destination : Place} {group : PageGroup}

theorem restored_withSpace (listed : kernel.processes[index]? = some process)
    (restored : AttachedSpace.Restored ⟨process.space, kernel.resources⟩ attached) :
    kernel.Restored (kernel.withSpace index process attached) :=
  ⟨rfl, withSpace_processes listed restored.space_eq, restored.resources⟩

/-- What an operation keeps of the resources is kept by the kernel. -/
theorem keeps_resources (valid : Resources → Prop)
    (keeps : Keeps (fun attached : AttachedSpace => valid attached.resources) action) :
    Keeps (fun kernel : Kernel => valid kernel.resources) (onSpace index action) := by
  intro kernel after holds ended
  rcases Outcome.state?_eq_some.mp ended with ⟨value, done⟩ | ⟨cause, refused⟩
  · obtain ⟨process, attached, _, acted, rfl⟩ := onSpace_eq_done.mp done
    exact keeps ⟨process.space, kernel.resources⟩ attached holds (by rw [acted]; rfl)
  · obtain ⟨process, attached, _, acted, rfl⟩ := onSpace_eq_refused refused
    exact keeps ⟨process.space, kernel.resources⟩ attached holds (by rw [acted]; rfl)

theorem keeps_onSpace (keeps : Keeps AddressSpace.Sound action) :
    Keeps Sound (onSpace index action) :=
  keeps_resources Resources.Sound keeps

theorem transactional_onSpace (transactional : Transactional action) :
    Transactional (onSpace index action) := by
  refine ⟨fun kernel cause after sound refused => ?_, keeps_onSpace transactional.keeps⟩
  obtain ⟨process, attached, listed, acted, rfl⟩ := onSpace_eq_refused refused
  exact restored_withSpace listed (transactional.restores _ _ _ sound acted)

theorem refusesFirst_onSpace (first : RefusesFirst action) :
    RefusesFirst (onSpace index action) := by
  intro kernel cause after _ refused
  obtain ⟨process, attached, listed, acted, rfl⟩ := onSpace_eq_refused refused
  rw [first _ _ _ trivial acted, withSpace_self listed]

theorem changeResources_eq_ok {change : Resources → Checked Resources}
    (changed : changeResources change kernel = .ok after) :
    ∃ resources, change kernel.resources = .ok resources ∧ after = { kernel with resources } := by
  obtain ⟨resources, made, built⟩ := Checked.bind_eq_ok.mp changed
  cases built
  exact ⟨resources, made, rfl⟩

theorem sound_of_discard (sound : kernel.Sound)
    (discarded : changeResources group.discard kernel = .ok after) : after.Sound := by
  obtain ⟨resources, given, rfl⟩ := changeResources_eq_ok discarded
  exact PageGroup.sound_of_discard sound given

/-- A group of one process stands while another process uses it: what is refused in between has
changed nothing of its own. -/
theorem transactional_withGroup {lend : PageGroup → Action Kernel α}
    (transactional : Transactional making) (discardable : AddressSpace.Discardable making)
    (first : ∀ group, RefusesFirst (lend group)) (keeps : ∀ group, Keeps Sound (lend group)) :
    Transactional (do
      let group ← onSpace index making
      .ensuring (changeResources group.discard) (lend group)) := by
  refine (transactional_onSpace transactional).ensuring ?_ ?_ first keeps
  · intro kernel made group after sound grouped discarded
    obtain ⟨process, attached, listed, acted, rfl⟩ := onSpace_eq_done.mp grouped
    obtain ⟨resources, given, rfl⟩ := changeResources_eq_ok discarded
    exact restored_withSpace listed (discardable _ _ _ _ sound acted given)
  · exact fun group _ _ sound discarded => sound_of_discard sound discarded

theorem transactional_mapShared : Transactional (mapShared destination source pages) :=
  transactional_withGroup AddressSpace.transactional_makeHeldGroup
    AddressSpace.discardable_makeHeldGroup
    (fun _ => refusesFirst_onSpace AddressSpace.refusesFirst_mapGroup)
    fun _ => keeps_onSpace AddressSpace.transactional_mapGroup.keeps

theorem transactional_unmapShared : Transactional (unmapShared destination source size) := by
  refine .after_steady (steady_onSpace AddressSpace.steady_checkRange) fun _ =>
    .after_steady (steady_onSpace AddressSpace.steady_checkRange) fun _ =>
      transactional_withGroup AddressSpace.transactional_makeGroup
        AddressSpace.discardable_makeGroup (fun group => refusesFirst_onSpace ?_)
        fun group => keeps_onSpace ?_
  · exact .after_steady AddressSpace.steady_isBackedBy (fun _ => rfl) fun _ =>
      .after_steady (Steady.require _ _) (fun _ => rfl) fun _ =>
        Accepts.restores (AddressSpace.accepts_unmapRange.bind fun _ => AddressSpace.accepts_commit)
  · exact AddressSpace.steady_isBackedBy.keeps.bind fun _ =>
      (Steady.require _ _).keeps.bind fun _ => AddressSpace.keeps_unmapRange.bind fun _ =>
        AddressSpace.steady_commit.keeps

theorem steady_resolveHandle : Steady (resolveHandle current handle) :=
  steady_process.bind fun _ => Steady.pure _

theorem steady_resolve : Steady (resolve current handle) :=
  (Steady.pure _).ite steady_resolveHandle

theorem steady_checkMemoryArguments {destination source : Nat} :
    Steady (checkMemoryArguments current destination handle source size) :=
  (Steady.require _ _).bind fun _ => (Steady.require _ _).bind fun _ =>
    (Steady.require _ _).bind fun _ => (Steady.require _ _).bind fun _ =>
      (Steady.require _ _).bind fun _ => steady_resolveHandle.bind fun _ =>
        (Steady.expect _ _).bind fun _ =>
          (steady_onSpace AddressSpace.steady_requireInside).bind fun _ =>
            (steady_onSpace AddressSpace.steady_requirePlace).bind fun _ => Steady.pure _

theorem steady_requireBothAligned {request : CodeRequest} {destination source : Nat} :
    Steady (requireBothAligned request destination source) := by
  cases request <;> exact (Steady.require _ _).bind fun _ => Steady.require _ _

theorem steady_checkCodeArguments {request : CodeRequest} {destination source : Nat} :
    Steady (checkCodeArguments request current handle destination source size) :=
  steady_requireBothAligned.bind fun _ => (Steady.require _ _).bind fun _ =>
    (Steady.require _ _).bind fun _ => (Steady.require _ _).bind fun _ =>
      steady_resolve.bind fun _ => (Steady.expect _ _).bind fun _ => steady_process.bind fun _ =>
        (Steady.check _).bind fun _ => (Steady.require _ _).bind fun _ =>
          (Steady.check _).bind fun _ => (Steady.require _ _).bind fun _ => Steady.pure _

theorem transactional_perform {request : Call} : Transactional (perform current request) := by
  cases request with
  | setPermission handle address size permission =>
      exact .after_steady (Steady.require _ _) fun _ => .after_steady (Steady.require _ _) fun _ =>
        .after_steady (Steady.require _ _) fun _ => .after_steady (Steady.expect _ _) fun _ =>
          .after_steady steady_resolve fun _ => .after_steady (Steady.expect _ _) fun _ =>
            transactional_onSpace (.after_steady AddressSpace.steady_requireInside fun _ =>
              AddressSpace.transactional_setPermission)
  | mapMemory destination handle source size =>
      exact .after_steady steady_checkMemoryArguments fun _ => transactional_mapShared
  | unmapMemory destination handle source size =>
      exact .after_steady steady_checkMemoryArguments fun _ => transactional_unmapShared
  | mapCode handle destination source size =>
      exact .after_steady steady_checkCodeArguments fun _ =>
        transactional_onSpace AddressSpace.transactional_mapCode
  | unmapCode handle destination source size =>
      exact .after_steady steady_checkCodeArguments fun _ => .after_steady (Steady.read _) fun _ =>
        transactional_onSpace AddressSpace.transactional_unmapCode

theorem transactional_createProcess {layout : Layout} : Transactional (createProcess layout) := by
  constructor
  · intro kernel cause after _ refused
    rw [createProcess] at refused
    split at refused <;> cases refused
  · intro kernel after sound ended
    rw [createProcess] at ended
    split at ended <;> cases ended
    exact sound

theorem keeps_onHandles {act : Action (HandleTable KernelObject) α} : Keeps Sound
    (onHandles index act) :=
  steady_process.keeps.bind fun _ =>
    (show Keeps (fun _ => True) act from fun _ _ _ _ => trivial).focus (fun _ _ => trivial)
      fun _ _ sound _ => sound

theorem add_eq_refused {object : KernelObject} {table full : HandleTable KernelObject}
    {cause : Refusal}
    (refused : HandleTable.add object table = .refused cause full) : full = table := by
  rw [HandleTable.add] at refused
  split at refused
  · cases refused
  · split at refused <;> cases refused
    rfl

theorem transactional_openHandle {object : KernelObject} :
    Transactional (openHandle index object) := by
  refine ⟨fun kernel cause after _ refused => ?_, keeps_onHandles⟩
  obtain ⟨process, handles, listed, full, rfl⟩ := onHandles_eq_refused refused
  rw [add_eq_refused full]
  exact restored_withSpace listed (.refl _)

theorem transactional_closeHandle : Transactional (closeHandle index handle) := by
  refine .of_accepts ((Accepts.inspect _).bind fun process => ?_) keeps_onHandles
  intro kernel cause after refused
  cases refused

theorem transactional_perform_step (step : Step) : Transactional step.perform := by
  cases step with
  | createProcess layout => exact transactional_createProcess.silent
  | openHandle process object => exact transactional_openHandle.silent
  | closeHandle process handle => exact transactional_closeHandle.silent
  | mapPages process address pages state permission =>
      exact (transactional_onSpace AddressSpace.transactional_mapPages).silent
  | unmapPages process address pages state =>
      exact (transactional_onSpace AddressSpace.transactional_unmapPages).silent
  | call process request => exact transactional_perform.silent
  | setPermission process address pages permission =>
      exact (transactional_onSpace AddressSpace.transactional_setPermission).silent
  | mapCode process destination source size =>
      exact (transactional_onSpace AddressSpace.transactional_mapCode).silent
  | unmapCode process destination source size strategy =>
      exact (transactional_onSpace AddressSpace.transactional_unmapCode).silent
  | makeGroup process address pages =>
      exact (transactional_onSpace AddressSpace.transactional_makeGroup).silent
  | makeHeldGroup process address pages check =>
      exact (transactional_onSpace AddressSpace.transactional_makeHeldGroup).silent
  | mapGroup process address group state permission =>
      exact (transactional_onSpace AddressSpace.transactional_mapGroup).silent
  | discardGroup group =>
      exact .of_accepts (Accepts.update _) (Keeps.update fun _ _ sound discarded =>
        sound_of_discard sound discarded)
  | unmapShared destination source size => exact transactional_unmapShared.silent

theorem processes_create {config : Config} {cache : InstructionCache}
    (created : create config cache = .ok kernel) : kernel.processes = [] := by
  obtain ⟨frames, _, built⟩ := Checked.bind_eq_ok.mp created
  cases built
  rfl

theorem sound_create {config : Config} {cache : InstructionCache}
    (created : create config cache = .ok kernel) : kernel.Sound := by
  obtain ⟨frames, made, built⟩ := Checked.bind_eq_ok.mp created
  cases built
  exact ⟨DescriptorPool.sound_ofCapacity _, .of_create made⟩

theorem sound_run {steps : List Step} (sound : kernel.Sound)
    (ran : kernel.run? steps = some after) : after.Sound :=
  run?_keeps (fun step (_ : True) => (transactional_perform_step step).keeps) (fun _ _ => trivial)
    sound ran

/-- Whatever is asked of a kernel in any state that a run can reach: if it is refused, the address
spaces and handles of all processes, the frames and their references, the descriptors, in use and
free, and the instruction cache are as they were. Only the order in which free descriptors are
handed out can be another. -/
theorem refused_changes_nothing {config : Config} {cache : InstructionCache}
    {initial reached : Kernel} {steps : List Step} {step : Step} {cause : Refusal}
    (created : create config cache = .ok initial) (ran : initial.run? steps = some reached)
    (refused : step.perform reached = .refused cause after) :
    after.processes = reached.processes ∧
      after.resources.frames = reached.resources.frames ∧
      after.resources.descriptors.nodes = reached.resources.descriptors.nodes ∧
      after.resources.descriptors.free.Perm reached.resources.descriptors.free ∧
      after.resources.descriptors.inUse = reached.resources.descriptors.inUse ∧
      after.resources.cache = reached.resources.cache := by
  have sound := sound_run (sound_create created) ran
  have restored := (transactional_perform_step step).restores _ _ _ sound refused
  have contents := restored.resources.contents_eq
  obtain ⟨_, nodes, free⟩ := DescriptorPool.contents_eq_iff.mp contents
  exact ⟨restored.processes_eq, restored.resources.frames_eq, nodes, free,
    DescriptorPool.inUse_of_contents contents, restored.resources.cache_eq⟩

/-- That the destination is taken is noticed when the frames of the source are already held. -/
theorem refused_changes_nothing_of_taken_destination :
    ∃ reached after cause, small.run? (smallRun.take 5) = some reached ∧
      lendCode.perform reached = .refused cause after ∧
      after.processes = reached.processes ∧ after.resources.frames = reached.resources.frames := by
  have refuses : ((small.run? (smallRun.take 5)).bind fun reached =>
      (lendCode.perform reached).refusal?.map (·.error)) = some .invalidCurrentMemory := by
    decide +kernel
  obtain ⟨reached, ran, refuses⟩ := Option.bind_eq_some_iff.mp refuses
  obtain ⟨cause, refused, _⟩ := Option.map_eq_some_iff.mp refuses
  obtain ⟨after, refused⟩ := Outcome.refusal?_eq_some.mp refused
  obtain ⟨processes, frames, _⟩ := refused_changes_nothing create_small ran refused
  exact ⟨reached, after, cause, ran, refused, processes, frames⟩

end Kernel

end GuestMemory
