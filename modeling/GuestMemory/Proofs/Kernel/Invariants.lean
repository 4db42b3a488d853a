import GuestMemory.Proofs.Kernel.Calls

/-!
Invariants of address spaces: what the operations on one address space keep, the steps of a kernel
keep in all processes.
-/

namespace GuestMemory

open GuestMemory.Action

namespace Step

/-- The step gives processes legal layouts only, and maps groups as memory in use. The operations
that do not look at the alignment of their addresses themselves get those of pages. -/
def Aligned (legal : Layout → Prop) : Step → Prop
  | createProcess layout => legal layout
  | setPermission _ address _ _ => address % pageSize = 0
  | mapCode _ destination source _ | unmapCode _ destination source _ _ =>
    destination % pageSize = 0 ∧ source % pageSize = 0
  | mapGroup _ address _ state _ => state.has .mapped = true ∧ address % pageSize = 0
  | openHandle .. | closeHandle .. | mapPages .. | unmapPages .. | call .. | makeGroup ..
  | makeHeldGroup .. | discardGroup .. | unmapShared .. => True

instance (legal : Layout → Prop) [DecidablePred legal] : DecidablePred (Aligned legal)
  | createProcess layout => inferInstanceAs (Decidable (legal layout))
  | setPermission _ address _ _ => inferInstanceAs (Decidable (address % pageSize = 0))
  | mapCode _ destination source _ | unmapCode _ destination source _ _ =>
    inferInstanceAs (Decidable (destination % pageSize = 0 ∧ source % pageSize = 0))
  | mapGroup _ address _ state _ =>
    inferInstanceAs (Decidable (state.has .mapped = true ∧ address % pageSize = 0))
  | openHandle .. | closeHandle .. | mapPages .. | unmapPages .. | call .. | makeGroup ..
  | makeHeldGroup .. | discardGroup .. | unmapShared .. => inferInstanceAs (Decidable True)

theorem Allowed.aligned {legal : Layout → Prop} {step : Step} (allowed : step.Allowed legal) :
    step.Aligned legal := by
  cases step <;> first | exact allowed | trivial

end Step

namespace AddressSpace

/-- Address spaces with legal layouts have the property at first, and every operation keeps it. -/
structure Invariant (legal : Layout → Prop) (valid : AddressSpace → Prop) : Prop where
  create {layout : Layout} (allowed : legal layout) (id : Nat) : valid (.create id layout)
  mapPages {attached after : AttachedSpace} {address pages : Nat} {state : MemoryState}
    {permission : UserPermission} {result : Commit} (before : valid attached.space)
    (done : mapPages address pages state permission attached = .done result after) :
    valid after.space
  unmapRange {attached after : AttachedSpace} {address pages : Nat}
    (before : valid attached.space)
    (done : unmapRange address pages attached = .done () after) : valid after.space
  setPermission {attached after : AttachedSpace} {address pages : Nat}
    {permission : UserPermission} {result : Commit} (before : valid attached.space)
    (aligned : address % pageSize = 0)
    (done : setPermission address pages permission attached = .done result after) :
    valid after.space
  mapGroup {attached after : AttachedSpace} {address : Nat} {group : PageGroup}
    {state : MemoryState} {permission : KernelPermission} {result : Commit}
    (before : valid attached.space) (mapped : state.has .mapped = true)
    (aligned : address % pageSize = 0)
    (done : mapGroup address group state permission attached = .done result after) :
    valid after.space
  mapCode {attached after : AttachedSpace} {destination source size : Nat} {result : Commit}
    (before : valid attached.space) (sound : Sound attached) (first : destination % pageSize = 0)
    (second : source % pageSize = 0)
    (done : mapCode destination source size attached = .done result after) : valid after.space
  unmapCode {attached after : AttachedSpace} {destination source size : Nat}
    {strategy : InvalidationStrategy} {result : Commit} (before : valid attached.space)
    (sound : Sound attached) (first : destination % pageSize = 0) (second : source % pageSize = 0)
    (done : unmapCode destination source size strategy attached = .done result after) :
    valid after.space

end AddressSpace

namespace Kernel

variable {α : Type} {kernel after initial reached : Kernel} {index current : Nat} {value : α}
variable {process : Process} {attached : AttachedSpace} {action : SpaceAction α} {result : Commit}
variable {config : Config} {cache : InstructionCache} {steps : List Step}
variable {legal : Layout → Prop} {valid : AddressSpace → Prop}

/-- The address spaces of all processes have the property. -/
def All (valid : AddressSpace → Prop) (kernel : Kernel) : Prop :=
  ∀ process ∈ kernel.processes, valid process.space

namespace All

theorem withSpace (all : kernel.All valid) (space : valid attached.space) :
    (kernel.withSpace index process attached).All valid := by
  intro other member
  rcases List.mem_or_eq_of_mem_set member with before | rfl
  · exact all other before
  · exact space

theorem onSpace (all : kernel.All valid) (sound : kernel.Sound)
    (kept : ∀ attached after, AddressSpace.Sound attached → valid attached.space →
      action attached = .done value after → valid after.space)
    (done : onSpace index action kernel = .done value after) : after.All valid := by
  obtain ⟨process, attached, listed, acted, rfl⟩ := onSpace_eq_done.mp done
  have before := all process (List.mem_of_getElem? listed)
  exact all.withSpace (kept ⟨process.space, kernel.resources⟩ attached sound before acted)

theorem onHandles (all : kernel.All valid) {act : Action (HandleTable KernelObject) α}
    (done : onHandles index act kernel = .done value after) : after.All valid := by
  obtain ⟨process, handles, listed, _, rfl⟩ := onHandles_eq_done done
  intro other member
  rcases List.mem_or_eq_of_mem_set member with before | rfl
  · exact all other before
  · exact all process (List.mem_of_getElem? listed)

theorem changeResources (all : kernel.All valid) {change : Resources → Checked Resources}
    (changed : changeResources change kernel = .ok after) : after.All valid := by
  obtain ⟨resources, _, rfl⟩ := changeResources_eq_ok changed
  exact all

/-- What only takes descriptors and references changes no address space. -/
theorem of_making {making : SpaceAction PageGroup} {group : PageGroup}
    (all : kernel.All valid) (sound : kernel.Sound)
    (same : ∀ attached after, AddressSpace.Sound attached →
      making attached = .done group after → after.space = attached.space)
    (made : Kernel.onSpace index making kernel = .done group after) : after.All valid :=
  all.onSpace sound (fun attached after sound space done => by
    rw [same attached after sound done]
    exact space) made

theorem makeGroup (all : kernel.All valid) (sound : kernel.Sound) {address pages : Nat}
    {group : PageGroup}
    (made : Kernel.onSpace index (AddressSpace.makeGroup address pages) kernel =
      .done group after) : after.All valid :=
  all.of_making sound (fun attached after sound made => by
    obtain ⟨_, _, runs, groups⟩ := AddressSpace.makeGroup_eq_done sound made
    exact groups.space_eq) made

theorem makeHeldGroup (all : kernel.All valid) (sound : kernel.Sound) {address pages : Nat}
    {check : Check} {group : PageGroup}
    (made : Kernel.onSpace index (AddressSpace.makeHeldGroup address pages check) kernel =
      .done group after) : after.All valid :=
  all.of_making sound (fun attached after sound made => by
    obtain ⟨_, _, runs, groups, _⟩ := AddressSpace.makeHeldGroup_eq_done sound made
    exact groups.space_eq) made

variable (invariant : AddressSpace.Invariant legal valid)

include invariant

theorem mapShared (all : kernel.All valid) (sound : kernel.Sound) {pages : Nat}
    {target origin : Place} (aligned : target.address % pageSize = 0)
    (done : mapShared target origin pages kernel = .done result after) : after.All valid := by
  obtain ⟨group, held, mapped, grouped, acted, discarded⟩ := mapShared_eq_done done
  have heldSound := keeps_onSpace AddressSpace.transactional_makeHeldGroup.keeps kernel held sound
    (by rw [grouped]; rfl)
  have mappedAll : mapped.All valid := (all.makeHeldGroup sound grouped).onSpace heldSound
    (fun _ _ _ space mapped => invariant.mapGroup space (by decide) aligned mapped) acted
  exact mappedAll.changeResources discarded

theorem unmapShared (all : kernel.All valid) (sound : kernel.Sound) {size : Nat}
    {target origin : Place} (done : unmapShared target origin size kernel = .done result after) :
    after.All valid := by
  obtain ⟨group, made, removed, _, _, grouped, acted, discarded⟩ := unmapShared_eq_done done
  have madeSound := keeps_onSpace AddressSpace.transactional_makeGroup.keeps kernel made sound
    (by rw [grouped]; rfl)
  have removedAll : removed.All valid := (all.makeGroup sound grouped).onSpace madeSound
    (fun _ _ _ space ended => by
      simp only [bind_eq_done, require_eq_done] at ended
      obtain ⟨_, _, compared, _, _, ⟨_, rfl⟩, erased⟩ := ended
      obtain rfl := AddressSpace.steady_isBackedBy.of_done compared
      exact invariant.unmapRange space erased) acted
  exact removedAll.changeResources discarded

theorem perform (all : kernel.All valid) (sound : kernel.Sound) {request : Call}
    (done : perform current request kernel = .done result after) : after.All valid := by
  cases request with
  | setPermission handle address size permission =>
      obtain ⟨aligned, _, target, granted, acted⟩ := setPermission_eq_done done
      exact all.onSpace sound (fun _ _ _ space set => invariant.setPermission space aligned set)
        acted
  | mapMemory destination handle source size =>
      obtain ⟨aligned, _, _, owner, shared⟩ := mapMemory_eq_done done
      exact all.mapShared invariant sound aligned shared
  | unmapMemory destination handle source size =>
      obtain ⟨_, _, _, owner, shared⟩ := unmapMemory_eq_done done
      exact all.unmapShared invariant sound shared
  | mapCode handle destination source size =>
      obtain ⟨first, second, _, target, acted⟩ := mapCode_eq_done done
      exact all.onSpace sound (fun _ _ sound space mapped =>
        invariant.mapCode space sound first second mapped) acted
  | unmapCode handle destination source size =>
      obtain ⟨first, second, _, target, strategy, acted⟩ := unmapCode_eq_done done
      exact all.onSpace sound (fun _ _ sound space unmapped =>
        invariant.unmapCode space sound first second unmapped) acted

theorem step {step : Step} (all : kernel.All valid) (sound : kernel.Sound)
    (aligned : step.Aligned legal) (done : step.perform kernel = .done () after) :
    after.All valid := by
  cases step with
  | createProcess layout =>
      obtain ⟨position, done⟩ := silent_eq_done.mp done
      obtain ⟨handles, rfl⟩ := createProcess_eq_done done
      intro process member
      rcases List.mem_append.mp member with before | new
      · exact all process before
      · obtain rfl := List.mem_singleton.mp new
        exact invariant.create aligned _
  | openHandle index object =>
      obtain ⟨handle, done⟩ := silent_eq_done.mp done
      exact all.onHandles done
  | closeHandle index handle =>
      obtain ⟨closed, done⟩ := silent_eq_done.mp done
      exact all.onHandles done
  | mapPages process address pages state permission =>
      obtain ⟨result, done⟩ := silent_eq_done.mp done
      exact all.onSpace sound (fun _ _ _ space mapped => invariant.mapPages space mapped) done
  | unmapPages process address pages state =>
      obtain ⟨result, done⟩ := silent_eq_done.mp done
      exact all.onSpace sound (fun _ _ _ space unmapped =>
        invariant.unmapRange space (AddressSpace.unmapPages_eq_done unmapped).2) done
  | call process request =>
      obtain ⟨result, done⟩ := silent_eq_done.mp done
      exact all.perform invariant sound done
  | setPermission process address pages permission =>
      obtain ⟨result, done⟩ := silent_eq_done.mp done
      exact all.onSpace sound (fun _ _ _ space set => invariant.setPermission space aligned set)
        done
  | mapCode process destination source size =>
      obtain ⟨result, done⟩ := silent_eq_done.mp done
      exact all.onSpace sound (fun _ _ sound space mapped =>
        invariant.mapCode space sound aligned.1 aligned.2 mapped) done
  | unmapCode process destination source size strategy =>
      obtain ⟨result, done⟩ := silent_eq_done.mp done
      exact all.onSpace sound (fun _ _ sound space unmapped =>
        invariant.unmapCode space sound aligned.1 aligned.2 unmapped) done
  | makeGroup process address pages =>
      obtain ⟨group, done⟩ := silent_eq_done.mp done
      exact all.makeGroup sound done
  | makeHeldGroup process address pages check =>
      obtain ⟨group, done⟩ := silent_eq_done.mp done
      exact all.makeHeldGroup sound done
  | mapGroup process address group state permission =>
      obtain ⟨result, done⟩ := silent_eq_done.mp done
      exact all.onSpace sound (fun _ _ _ space mapped =>
        invariant.mapGroup space aligned.1 aligned.2 mapped) done
  | discardGroup group => exact all.changeResources (update_eq_done.mp done)
  | unmapShared destination source size =>
      obtain ⟨result, done⟩ := silent_eq_done.mp done
      exact all.unmapShared invariant sound done

end All

theorem keeps_all {step : Step} (invariant : AddressSpace.Invariant legal valid)
    (aligned : step.Aligned legal) :
    Keeps (fun kernel => kernel.Sound ∧ kernel.All valid) step.perform := by
  intro kernel after before ended
  obtain ⟨sound, all⟩ := before
  refine ⟨(transactional_perform_step step).keeps _ _ sound ended, ?_⟩
  rcases Outcome.state?_eq_some.mp ended with ⟨_, done⟩ | ⟨cause, refused⟩
  · exact all.step invariant sound aligned done
  · have restored := (transactional_perform_step step).restores _ _ _ sound refused
    rw [All, restored.processes_eq]
    exact all

theorem all_of_create (created : create config cache = .ok kernel) : kernel.All valid := by
  rw [All, processes_create created]
  exact fun process member => absurd member List.not_mem_nil

/-- An invariant holds in all processes of every state that a kernel can reach. -/
theorem all_run (invariant : AddressSpace.Invariant legal valid)
    (created : create config cache = .ok initial) (aligned : ∀ step ∈ steps, step.Aligned legal)
    (ran : initial.run? steps = some reached) : reached.All valid :=
  (run?_keeps (fun _ => keeps_all invariant) aligned
    ⟨sound_create created, all_of_create created⟩ ran).2

end Kernel

end GuestMemory
