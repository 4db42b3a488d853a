import GuestMemory.Kernel.Calls
import GuestMemory.Proofs.Action.Effects

/-!
Acting on one process: only its own address space and what all share can change.
-/

namespace GuestMemory.Kernel

open GuestMemory.Action

variable {α : Type} {kernel after : Kernel} {index current : Nat} {value : α} {cause : Refusal}
variable {action : SpaceAction α} {process : Process}

/-- The kernel after the address space of a process and the shared resources have changed. -/
def withSpace (kernel : Kernel) (index : Nat) (process : Process) (attached : AttachedSpace) :
    Kernel :=
  { kernel.setProcess index { process with space := attached.space } with
    resources := attached.resources }

theorem process_eq_done (found : Kernel.process index kernel = .done process after) :
    kernel.processes[index]? = some process ∧ after = kernel := by
  rw [Kernel.process, inspect_eq_done] at found
  obtain ⟨found, rfl⟩ := found
  split at found
  · rename_i process listed
    cases found
    exact ⟨listed, rfl⟩
  · cases found

theorem steady_process : Steady (Kernel.process index) :=
  Steady.inspect _

theorem onSpace_eq_done :
    onSpace index action kernel = .done value after ↔
      ∃ process attached, kernel.processes[index]? = some process ∧
        action ⟨process.space, kernel.resources⟩ = .done value attached ∧
        after = kernel.withSpace index process attached := by
  rw [onSpace, bind_eq_done]
  constructor
  · rintro ⟨process, _, found, acted⟩
    obtain ⟨listed, rfl⟩ := process_eq_done found
    obtain ⟨attached, done, rfl⟩ := focus_eq_done.mp acted
    exact ⟨process, attached, listed, done, rfl⟩
  · rintro ⟨process, attached, listed, done, rfl⟩
    refine ⟨process, kernel, ?_, focus_eq_done.mpr ⟨attached, done, rfl⟩⟩
    rw [Kernel.process, inspect_eq_done, listed]
    exact ⟨rfl, rfl⟩

/-- A process that is missing is a fault, so what is refused is so by what is done with it. -/
theorem process_bind_eq_refused {next : Process → Action Kernel α}
    (refused : (Kernel.process index >>= next) kernel = .refused cause after) :
    ∃ process, kernel.processes[index]? = some process ∧
      next process kernel = .refused cause after := by
  rcases bind_eq_refused.mp refused with early | ⟨process, middle, found, late⟩
  · exact absurd early (Accepts.inspect _ _ _ _)
  · obtain ⟨listed, rfl⟩ := process_eq_done found
    exact ⟨process, listed, late⟩

theorem onSpace_eq_refused (refused : onSpace index action kernel = .refused cause after) :
    ∃ process attached, kernel.processes[index]? = some process ∧
      action ⟨process.space, kernel.resources⟩ = .refused cause attached ∧
      after = kernel.withSpace index process attached := by
  obtain ⟨process, listed, refused⟩ := process_bind_eq_refused refused
  obtain ⟨attached, inside, rfl⟩ := focus_eq_refused.mp refused
  exact ⟨process, attached, listed, inside, rfl⟩

theorem withSpace_self (listed : kernel.processes[index]? = some process) :
    kernel.withSpace index process ⟨process.space, kernel.resources⟩ = kernel := by
  obtain ⟨bounded, rfl⟩ := List.getElem?_eq_some_iff.mp listed
  change { kernel with processes := kernel.processes.set index kernel.processes[index] } = kernel
  rw [List.set_getElem_self]

theorem withSpace_withSpace (kernel : Kernel) (index : Nat) (process : Process)
    (first second : AttachedSpace) :
    (kernel.withSpace index process first).withSpace index { process with space := first.space }
      second = kernel.withSpace index process second := by
  simp only [withSpace, setProcess, List.set_set]

theorem withSpace_processes (listed : kernel.processes[index]? = some process)
    {attached : AttachedSpace} (same : attached.space = process.space) :
    (kernel.withSpace index process attached).processes = kernel.processes := by
  have self := congrArg Kernel.processes (withSpace_self listed)
  simpa only [withSpace, setProcess, same] using self

theorem steady_onSpace (steady : Steady action) : Steady (onSpace index action) := by
  intro kernel after ended
  rcases Outcome.state?_eq_some.mp ended with ⟨value, done⟩ | ⟨cause, refused⟩
  · obtain ⟨process, attached, listed, acted, rfl⟩ := onSpace_eq_done.mp done
    rw [steady.of_done acted, withSpace_self listed]
  · obtain ⟨process, attached, listed, acted, rfl⟩ := onSpace_eq_refused refused
    rw [steady.of_refused acted, withSpace_self listed]

/-- What is known of a guard that a process has passed. -/
theorem onSpace_of_steady (steady : Steady action)
    (listed : kernel.processes[index]? = some process)
    (passed : onSpace index action kernel = .done value after) :
    action ⟨process.space, kernel.resources⟩ =
      .done value ⟨process.space, kernel.resources⟩ := by
  obtain ⟨viewed, attached, viewedListed, acted, _⟩ := onSpace_eq_done.mp passed
  obtain rfl := Option.some.inj (viewedListed.symm.trans listed)
  obtain rfl := steady.of_done acted
  exact acted

theorem onHandles_eq_done {act : Action (HandleTable KernelObject) α}
    (done : onHandles index act kernel = .done value after) :
    ∃ process handles, kernel.processes[index]? = some process ∧
      act process.handles = .done value handles ∧
      after = kernel.setProcess index { process with handles } := by
  obtain ⟨process, _, found, acted⟩ := bind_eq_done.mp done
  obtain ⟨listed, rfl⟩ := process_eq_done found
  obtain ⟨handles, changed, rfl⟩ := focus_eq_done.mp acted
  exact ⟨process, handles, listed, changed, rfl⟩

theorem onHandles_eq_refused {act : Action (HandleTable KernelObject) α}
    (refused : onHandles index act kernel = .refused cause after) :
    ∃ process handles, kernel.processes[index]? = some process ∧
      act process.handles = .refused cause handles ∧
      after = kernel.setProcess index { process with handles } := by
  obtain ⟨process, listed, refused⟩ := process_bind_eq_refused refused
  obtain ⟨handles, changed, rfl⟩ := focus_eq_refused.mp refused
  exact ⟨process, handles, listed, changed, rfl⟩

theorem createProcess_eq_done {layout : Layout} {position : Nat}
    (created : createProcess layout kernel = .done position after) :
    ∃ handles, after = { kernel with
      processes := kernel.processes ++ [⟨.create kernel.nextId layout, handles⟩] } := by
  rw [createProcess] at created
  split at created <;> cases created
  exact ⟨_, rfl⟩

end GuestMemory.Kernel
