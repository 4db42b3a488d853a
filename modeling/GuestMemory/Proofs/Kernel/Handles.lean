import GuestMemory.Proofs.HandleTable.Entries
import GuestMemory.Proofs.Kernel.Refusals

/-!
Handles that stand for processes: as long as they are opened for processes that are there, no handle
ever names a process that is not.
-/

namespace GuestMemory

open GuestMemory.Action

namespace HandleTable

variable {table after : HandleTable KernelObject} {count more : Nat} {object : KernelObject}
variable {handle : Handle}

/-- The objects that are processes are some of the first `count`. -/
def Names (count : Nat) (table : HandleTable KernelObject) : Prop :=
  ∀ (index : Nat) slot target, table.slots[index]? = some slot →
    slot.object = some (.process target) → target < count

namespace Names

theorem mono (names : table.Names count) (fewer : count ≤ more) : table.Names more :=
  fun index slot target listed process =>
    Nat.lt_of_lt_of_le (names index slot target listed process) fewer

theorem of_create {capacity : Nat} (created : create capacity = .ok table) : table.Names count := by
  rw [create] at created
  split at created <;> cases created
  intro index slot target listed
  simp at listed

/-- Slots that are put into a table name only processes that are there. -/
theorem set (names : table.Names count) {slot : Slot KernelObject}
    (there : ∀ target, slot.object = some (.process target) → target < count) (place : Nat)
    (free : List Nat) (nextGeneration : Nat) :
    Names count ⟨table.capacity, table.slots.setIfInBounds place slot, free, nextGeneration⟩ := by
  intro index found target listed process
  rw [Array.getElem?_setIfInBounds] at listed
  split at listed
  · split at listed <;> cases listed
    exact there target process
  · exact names index found target listed process

theorem push (names : table.Names count) {slot : Slot KernelObject}
    (there : ∀ target, slot.object = some (.process target) → target < count)
    (nextGeneration : Nat) :
    Names count ⟨table.capacity, table.slots.push slot, table.free, nextGeneration⟩ := by
  intro index found target listed process
  rw [Array.getElem?_push] at listed
  split at listed
  · cases listed
    exact there target process
  · exact names index found target listed process

theorem remove (names : table.Names count) (handle : Handle) :
    (table.remove handle).2.Names count := by
  rw [HandleTable.remove]
  split
  · exact names
  · exact names.set (fun target none => by cases none) _ _ _

theorem process? {target : Nat} (names : table.Names count)
    (named : table.process? handle = some target) : target < count := by
  obtain ⟨object, found, same⟩ := Option.bind_eq_some_iff.mp named
  cases object with
  | process index =>
      cases same
      exact names _ _ target (get?_eq_some.mp found).2 rfl
  | other number => cases same

end Names

theorem keeps_add (there : ∀ target, object = .process target → target < count) :
    Keeps (Names count) (add object) := by
  intro table after names ended
  have known (target : Nat) (process : some object = some (.process target)) : target < count :=
    there target (Option.some.inj process)
  rw [add] at ended
  split at ended
  · cases ended
    exact names.set known _ _ _
  · split at ended <;> cases ended
    · exact names.push known _
    · exact names

end HandleTable

namespace Step

/-- Handles are opened for some of the first `count` processes only. -/
def Names (count : Nat) : Step → Prop
  | openHandle _ (.process target) => target < count
  | _ => True

instance (count : Nat) : DecidablePred (Names count) := fun step => by
  unfold Names
  split <;> infer_instance

end Step

namespace Kernel

variable {α : Type} {kernel after : Kernel} {index current size pages : Nat} {handle : Handle}
variable {action : SpaceAction α} {making : SpaceAction PageGroup} {process : Process}
variable {tables : List (HandleTable KernelObject)} {destination source : Place}
variable {legal : Layout → Prop}

def Handles (tables : List (HandleTable KernelObject)) (kernel : Kernel) : Prop :=
  kernel.processes.map (·.handles) = tables

/-- Every handle that stands for a process stands for one that is there. -/
def Named (kernel : Kernel) : Prop :=
  ∀ process ∈ kernel.processes, process.handles.Names kernel.processes.length

theorem Named.of_handles (named : kernel.Named)
    (same : Handles (kernel.processes.map (·.handles)) after) : after.Named := by
  intro process member
  have length := congrArg List.length same
  simp only [List.length_map] at length
  have listed := List.mem_map_of_mem (f := fun process : Process => process.handles) member
  rw [same, List.mem_map] at listed
  obtain ⟨other, included, handles⟩ := listed
  rw [← handles, length]
  exact named other included

theorem keeps_handles_onSpace : Keeps (Handles tables) (onSpace index action) := by
  have changed (kernel : Kernel) (process : Process) (attached : AttachedSpace)
      (listed : kernel.processes[index]? = some process) (same : kernel.Handles tables) :
      (kernel.withSpace index process attached).Handles tables := by
    have set (attached : AttachedSpace) :
        (kernel.withSpace index process attached).processes.map (·.handles) =
          (kernel.processes.map (·.handles)).set index process.handles :=
      List.map_set
    have self := congrArg (fun kernel : Kernel => kernel.processes.map (·.handles))
      (withSpace_self listed)
    exact ((set attached).trans ((set _).symm.trans self)).trans same
  intro kernel after same ended
  rcases Outcome.state?_eq_some.mp ended with ⟨value, done⟩ | ⟨cause, refused⟩
  · obtain ⟨process, attached, listed, _, rfl⟩ := onSpace_eq_done.mp done
    exact changed _ _ _ listed same
  · obtain ⟨process, attached, listed, _, rfl⟩ := onSpace_eq_refused refused
    exact changed _ _ _ listed same

theorem keeps_handles_withGroup {lend : PageGroup → Action Kernel α}
    (keeps : ∀ group, Keeps (Handles tables) (lend group)) :
    Keeps (Handles tables) (do
      let group ← onSpace index making
      .ensuring (changeResources group.discard) (lend group)) :=
  keeps_handles_onSpace.bind fun group => (keeps group).ensuring fun _ _ same discarded => by
    obtain ⟨resources, _, rfl⟩ := changeResources_eq_ok discarded
    exact same

theorem keeps_handles_perform {request : Call} :
    Keeps (Handles tables) (perform current request) := by
  cases request with
  | setPermission handle address size permission =>
      exact (Steady.require _ _).keeps.bind fun _ => (Steady.require _ _).keeps.bind fun _ =>
        (Steady.require _ _).keeps.bind fun _ => (Steady.expect _ _).keeps.bind fun _ =>
          steady_resolve.keeps.bind fun _ => (Steady.expect _ _).keeps.bind fun _ =>
            keeps_handles_onSpace
  | mapMemory destination handle source size =>
      exact steady_checkMemoryArguments.keeps.bind fun _ =>
        keeps_handles_withGroup fun _ => keeps_handles_onSpace
  | unmapMemory destination handle source size =>
      exact steady_checkMemoryArguments.keeps.bind fun _ => keeps_handles_onSpace.bind fun _ =>
        keeps_handles_onSpace.bind fun _ => keeps_handles_withGroup fun _ => keeps_handles_onSpace
  | mapCode handle destination source size =>
      exact steady_checkCodeArguments.keeps.bind fun _ => keeps_handles_onSpace
  | unmapCode handle destination source size =>
      exact steady_checkCodeArguments.keeps.bind fun _ => (Steady.read _).keeps.bind fun _ =>
        keeps_handles_onSpace

theorem Named.onHandles {act : Action (HandleTable KernelObject) α} (named : kernel.Named)
    (keeps : Keeps (HandleTable.Names kernel.processes.length) act)
    (ended : (onHandles index act kernel).state? = some after) : after.Named := by
  have changed (process : Process) (handles : HandleTable KernelObject)
      (listed : kernel.processes[index]? = some process)
      (acted : (act process.handles).state? = some handles) :
      (kernel.setProcess index { process with handles }).Named := by
    have names := keeps _ _ (named process (List.mem_of_getElem? listed)) acted
    intro other member
    rw [setProcess, List.length_set]
    rcases List.mem_or_eq_of_mem_set member with before | rfl
    · exact named other before
    · exact names
  rcases Outcome.state?_eq_some.mp ended with ⟨value, done⟩ | ⟨cause, refused⟩
  · obtain ⟨process, handles, listed, acted, rfl⟩ := onHandles_eq_done done
    exact changed process handles listed (by rw [acted]; rfl)
  · obtain ⟨process, handles, listed, acted, rfl⟩ := onHandles_eq_refused refused
    exact changed process handles listed (by rw [acted]; rfl)

theorem Named.createProcess {layout : Layout} {position : Nat} (named : kernel.Named)
    (created : createProcess layout kernel = .done position after) : after.Named := by
  rw [Kernel.createProcess] at created
  split at created <;> cases created
  rename_i handles empty
  intro process member
  rw [List.length_append]
  rcases List.mem_append.mp member with before | new
  · exact (named process before).mono (Nat.le_add_right _ _)
  · obtain rfl := List.mem_singleton.mp new
    exact .of_create empty

theorem Named.step {step : Step} (named : kernel.Named) (allowed : step.Allowed legal)
    (there : step.Names kernel.processes.length)
    (ended : (step.perform kernel).state? = some after) : after.Named := by
  cases step with
  | createProcess layout =>
      rw [Step.perform, state?_silent] at ended
      rcases Outcome.state?_eq_some.mp ended with ⟨position, done⟩ | ⟨cause, refused⟩
      · exact named.createProcess done
      · rw [Kernel.createProcess] at refused
        split at refused <;> cases refused
  | openHandle index object =>
      rw [Step.perform, state?_silent] at ended
      exact named.onHandles (HandleTable.keeps_add fun target same => by
        subst same
        exact there) ended
  | closeHandle index handle =>
      rw [Step.perform, state?_silent] at ended
      refine named.onHandles (fun table after names ended => ?_) ended
      cases ended
      exact names.remove handle
  | mapPages index address pages state permission =>
      rw [Step.perform, state?_silent] at ended
      exact named.of_handles (keeps_handles_onSpace _ _ rfl ended)
  | unmapPages index address pages state =>
      rw [Step.perform, state?_silent] at ended
      exact named.of_handles (keeps_handles_onSpace _ _ rfl ended)
  | call index request =>
      rw [Step.perform, state?_silent] at ended
      exact named.of_handles (keeps_handles_perform _ _ rfl ended)
  | _ => exact allowed.elim

/-- Every step of a run opens handles for processes only that are there by then. -/
def Knows : Kernel → List Step → Prop
  | _, [] => True
  | kernel, step :: rest =>
    step.Names kernel.processes.length ∧
      ∀ after ∈ (step.perform kernel).state?, after.Knows rest

instance decidableKnows : (kernel : Kernel) → (steps : List Step) → Decidable (kernel.Knows steps)
  | _, [] => inferInstanceAs (Decidable True)
  | kernel, step :: rest =>
    have : ∀ after : Kernel, Decidable (after.Knows rest) := fun after => decidableKnows after rest
    inferInstanceAs (Decidable (step.Names kernel.processes.length ∧
      ∀ after ∈ (step.perform kernel).state?, after.Knows rest))

theorem Named.run {steps : List Step} (named : kernel.Named)
    (knows : kernel.Knows steps) (allowed : ∀ step ∈ steps, step.Allowed legal)
    (ran : kernel.run? steps = some after) : after.Named := by
  induction steps generalizing kernel with
  | nil =>
      cases ran
      exact named
  | cons step rest ih =>
      obtain ⟨there, later⟩ := knows
      obtain ⟨first, others⟩ := List.forall_mem_cons.mp allowed
      obtain ⟨middle, ended, remaining⟩ := Option.bind_eq_some_iff.mp ran
      exact ih (named.step first there ended) (later middle ended) others remaining

end Kernel

end GuestMemory
