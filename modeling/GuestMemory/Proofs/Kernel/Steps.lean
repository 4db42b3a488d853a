import GuestMemory.AddressSpace.Pages
import GuestMemory.Kernel.Calls
import GuestMemory.Proofs.Action.Effects
import GuestMemory.Proofs.Layout

/-!
Runs of a kernel: sequences of the requests that can be made of it, each of which may be answered
or refused. A fault ends a run without a state.
-/

namespace GuestMemory

/-- What can be asked of a kernel: first what guests and their creator ask for, then what is asked
of single address spaces and their groups. -/
inductive Step where
  | createProcess (layout : Layout)
  | openHandle (process : Nat) (object : KernelObject)
  | closeHandle (process : Nat) (handle : Handle)
  | mapPages (process address pages : Nat) (state : MemoryState) (permission : UserPermission)
  | unmapPages (process address pages : Nat) (state : MemoryState)
  | call (process : Nat) (request : Call)
  | setPermission (process address pages : Nat) (permission : UserPermission)
  | mapCode (process destination source size : Nat)
  | unmapCode (process destination source size : Nat) (strategy : InvalidationStrategy)
  | makeGroup (process address pages : Nat)
  | makeHeldGroup (process address pages : Nat) (check : Check)
  | mapGroup (process address : Nat) (group : PageGroup) (state : MemoryState)
    (permission : KernelPermission)
  | discardGroup (group : PageGroup)
  | unmapShared (destination source : Place) (size : Nat)

/-- An action without its answer. -/
def Action.silent {σ α : Type} (action : Action σ α) : Action σ Unit := do
  let _ ← action
  return ()

namespace Step

def perform : Step → Action Kernel Unit
  | createProcess layout => (Kernel.createProcess layout).silent
  | openHandle process object => (Kernel.openHandle process object).silent
  | closeHandle process handle => (Kernel.closeHandle process handle).silent
  | mapPages process address pages state permission =>
    (Kernel.onSpace process (AddressSpace.mapPages address pages state permission)).silent
  | unmapPages process address pages state =>
    (Kernel.onSpace process (AddressSpace.unmapPages address pages state)).silent
  | call process request => (Kernel.perform process request).silent
  | setPermission process address pages permission =>
    (Kernel.onSpace process (AddressSpace.setPermission address pages permission)).silent
  | mapCode process destination source size =>
    (Kernel.onSpace process (AddressSpace.mapCode destination source size)).silent
  | unmapCode process destination source size strategy =>
    (Kernel.onSpace process (AddressSpace.unmapCode destination source size strategy)).silent
  | makeGroup process address pages =>
    (Kernel.onSpace process (AddressSpace.makeGroup address pages)).silent
  | makeHeldGroup process address pages check =>
    (Kernel.onSpace process (AddressSpace.makeHeldGroup address pages check)).silent
  | mapGroup process address group state permission =>
    (Kernel.onSpace process (AddressSpace.mapGroup address group state permission)).silent
  | discardGroup group => .update (Kernel.changeResources group.discard)
  | unmapShared destination source size => (Kernel.unmapShared destination source size).silent

/-- The steps of guests and their creator, who gives processes legal layouts. -/
def Allowed (legal : Layout → Prop) : Step → Prop
  | createProcess layout => legal layout
  | openHandle .. | closeHandle .. | mapPages .. | unmapPages .. | call .. => True
  | _ => False

instance (legal : Layout → Prop) [DecidablePred legal] : DecidablePred (Allowed legal)
  | createProcess layout => inferInstanceAs (Decidable (legal layout))
  | openHandle .. | closeHandle .. | mapPages .. | unmapPages .. | call .. =>
    inferInstanceAs (Decidable True)
  | setPermission .. | mapCode .. | unmapCode .. | makeGroup .. | makeHeldGroup .. | mapGroup ..
  | discardGroup .. | unmapShared .. => inferInstanceAs (Decidable False)

theorem Allowed.imp {legal other : Layout → Prop} {step : Step} (allowed : step.Allowed legal)
    (weaker : ∀ layout, legal layout → other layout) : step.Allowed other := by
  cases step <;> first | exact weaker _ allowed | exact allowed

/-- The steps of guests and their creator, who gives processes well-formed layouts. -/
abbrev Ordinary : Step → Prop :=
  Allowed Layout.WellFormed

theorem Ordinary.paged {step : Step} (ordinary : step.Ordinary) : step.Allowed Layout.Paged :=
  ordinary.imp fun _ wellFormed => wellFormed.paged

theorem Ordinary.regular {step : Step} (ordinary : step.Ordinary) : step.Allowed Layout.Regular :=
  ordinary.imp fun _ wellFormed => wellFormed.regular

end Step

/-- The state that a run of steps leaves, each of them answered or refused. -/
def Kernel.run? (kernel : Kernel) : List Step → Option Kernel
  | [] => some kernel
  | step :: rest => do
    let after ← (step.perform kernel).state?
    after.run? rest

namespace Action

variable {σ α : Type} {action : Action σ α} {state after : σ} {cause : Refusal}

theorem silent_eq_done : action.silent state = .done () after ↔
    ∃ value, action state = .done value after := by
  rw [silent, bind_apply]
  cases action state <;> simp

theorem state?_silent : (action.silent state).state? = (action state).state? := by
  rw [silent, bind_apply]
  cases action state <;> rfl

theorem Transactional.silent [Recoverable σ] (transactional : Transactional action) :
    Transactional action.silent :=
  transactional.then_accepts (fun _ => Accepts.pure _) fun _ => (Steady.pure _).keeps

end Action

namespace Kernel

open GuestMemory.Action

variable {kernel after : Kernel} {steps : List Step} {valid : Kernel → Prop} {allowed : Step → Prop}

/-- What holds at first and is kept by every step of a run holds after it. -/
theorem run?_keeps (kept : ∀ step, allowed step → Keeps valid step.perform)
    (among : ∀ step ∈ steps, allowed step) (initial : valid kernel)
    (ran : kernel.run? steps = some after) : valid after := by
  induction steps generalizing kernel with
  | nil =>
      cases ran
      exact initial
  | cons step rest ih =>
      obtain ⟨middle, ended, remaining⟩ := Option.bind_eq_some_iff.mp ran
      have next := kept step (among step List.mem_cons_self) kernel middle initial ended
      exact ih (fun other member => among other (List.mem_cons_of_mem _ member)) next remaining

/-- A kernel with eight frames and four descriptors, which records what its instruction cache is
asked. -/
def small : Kernel :=
  ⟨{ descriptorCapacity := 4, framePages := 8 }, [],
    ⟨.ofCapacity 4, ⟨0x80000000, 8, [⟨0x80000000, 8⟩], ∅⟩, .recording []⟩⟩

/-- Puts code of the second process into the memory of the first. -/
def lendCode : Step :=
  .call 0 (.mapMemory 0x9000000 ⟨0x8000⟩ 0x8000000 0x2000)

/-- One process maps memory of another, which makes a code alias of its own and gives back a page
that the first still shows. The second attempt to lend the code is refused. -/
def smallRun : List Step := [
  .createProcess {}, .createProcess {}, .openHandle 0 (.process 1),
  .mapPages 1 0x8000000 2 .code .readExecute, lendCode, lendCode,
  .mapPages 1 0x1000000000 3 .normal .readWrite,
  .call 0 (.mapCode ⟨0x8000⟩ 0x9000000 0x1000001000 0x1000),
  .call 0 (.setPermission ⟨0x8000⟩ 0x9000000 0x1000 5),
  .unmapPages 1 0x8000000 1 .code]

theorem create_small : create small.config small.resources.cache = .ok small :=
  rfl

end Kernel

end GuestMemory
