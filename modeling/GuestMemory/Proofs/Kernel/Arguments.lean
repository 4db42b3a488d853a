import GuestMemory.Kernel.Calls
import GuestMemory.Proofs.Kernel.Moves
import GuestMemory.Proofs.Kernel.Tasks

/-!
Arguments: what a call asks for, by its arguments and by what no call changes. A call is turned down
for the first argument that is wrong; one that is not has come to a task, which can still be for
ranges where it has no place.
-/

namespace GuestMemory

open GuestMemory.Action Verdict

/-- What no call changes of a process. -/
structure Resident where
  id : Nat
  layout : Layout
  handles : HandleTable KernelObject

/-- What no call changes of a kernel. -/
structure Setting where
  config : Config
  residents : List Resident

def Process.resident (process : Process) : Resident :=
  ⟨process.id, process.space.layout, process.handles⟩

def Kernel.setting (kernel : Kernel) : Setting :=
  ⟨kernel.config, kernel.processes.map Process.resident⟩

/-- The state that memory at the destination of such work is to have, if it gets another. -/
def Work.state? : Work → Option MemoryState
  | setPermission _ => none
  | mapMemory | unmapMemory => some .sharedCode
  | mapCode | unmapCode => some .aliasCode

namespace Setting

variable (setting : Setting)

def resident (index : Nat) : Verdict Resident :=
  match setting.residents[index]? with
  | some resident => .ok resident
  | none => .error .faulted

def named (found : Option Nat) : Verdict Nat :=
  match found with
  | some index => do
    let _ ← setting.resident index
    return index
  | none => .error (.refused .invalidHandle)

/-- The process that a handle of the current process names. -/
def resolveHandle (current : Nat) (handle : Handle) : Verdict Nat := do
  let process ← setting.resident current
  setting.named (process.handles.process? handle)

/-- The process that a handle of the current process names, or the current process itself. -/
def resolve (current : Nat) (handle : Handle) : Verdict Nat :=
  if handle = .currentProcess then
    setting.named (some current)
  else
    setting.resolveHandle current handle

/-- The arguments of a call about shared memory, in the order in which they are looked at. -/
def memoryTask (work : Work) (current destination : Nat) (handle : Handle)
    (source size : Nat) : Verdict Task := do
  demand (isPageAligned destination) (.refused .invalidAddress)
  demand (isPageAligned source) (.refused .invalidAddress)
  demand (isPageAligned size && size ≠ 0) (.refused .invalidSize)
  demand (Kernel.rangeFits destination size) (.refused .invalidCurrentMemory)
  demand (Kernel.rangeFits source size) (.refused .invalidCurrentMemory)
  let owner ← setting.resolveHandle current handle
  return ⟨work, ⟨current, destination⟩, ⟨owner, source⟩, size / pageSize⟩

/-- The arguments of a call about code memory. -/
def codeTask (work : Work) (current : Nat) (handle : Handle)
    (destination source size : Nat) : Verdict Task := do
  demand (isPageAligned destination && isPageAligned source) (.refused .invalidAddress)
  demand (isPageAligned size && size ≠ 0) (.refused .invalidSize)
  demand (Kernel.rangeFits destination size) (.refused .invalidCurrentMemory)
  demand (Kernel.rangeFits source size) (.refused .invalidCurrentMemory)
  let target ← setting.resolve current handle
  return ⟨work, ⟨target, destination⟩, ⟨target, source⟩, size / pageSize⟩

def permissionTask (current : Nat) (handle : Handle) (address size permission : Nat) :
    Verdict Task := do
  demand (isPageAligned address) (.refused .invalidAddress)
  demand (isPageAligned size && size ≠ 0) (.refused .invalidSize)
  demand (Kernel.rangeFits address size) (.refused .invalidCurrentMemory)
  match UserPermission.ofRaw? permission with
  | none => .error (.refused .invalidNewMemoryPermission)
  | some granted =>
    let target ← setting.resolve current handle
    return ⟨.setPermission granted, ⟨target, address⟩, ⟨target, address⟩, size / pageSize⟩

/-- What a call of the current process comes to. -/
def task (current : Nat) : Call → Verdict Task
  | .setPermission handle address size permission =>
    setting.permissionTask current handle address.toNat size.toNat permission.toNat
  | .mapMemory destination handle source size =>
    setting.memoryTask .mapMemory current destination.toNat handle source.toNat size.toNat
  | .unmapMemory destination handle source size =>
    setting.memoryTask .unmapMemory current destination.toNat handle source.toNat size.toNat
  | .mapCode handle destination source size =>
    setting.codeTask .mapCode current handle destination.toNat source.toNat size.toNat
  | .unmapCode handle destination source size =>
    setting.codeTask .unmapCode current handle destination.toNat source.toNat size.toNat

def requireInside (place : Place) (size : Nat) : Verdict Unit := do
  let resident ← setting.resident place.process
  let inside ← (resident.layout.contains place.address size).verdict
  demand inside (.refused .invalidCurrentMemory)

def requirePlace (place : Place) (size : Nat) (state : MemoryState) : Verdict Unit := do
  let resident ← setting.resident place.process
  let fits ← (resident.layout.canContain place.address size state).verdict
  demand fits (.refused .invalidMemoryRegion)

/-- The ranges of a task have to be where its memory may be. -/
def requirePlaces (task : Task) : Verdict Unit := do
  setting.requireInside task.source (task.pages * pageSize)
  match task.work.state? with
  | none => return ()
  | some state => setting.requirePlace task.destination (task.pages * pageSize) state

end Setting

/-- Does what is left of a call. -/
def Task.act : Task → Action Kernel Commit
  | ⟨.setPermission permission, destination, _, pages⟩ =>
    Kernel.onSpace destination.process
      (AddressSpace.setPermission destination.address pages permission)
  | ⟨.mapMemory, destination, source, pages⟩ => Kernel.mapShared destination source pages
  | ⟨.unmapMemory, destination, source, pages⟩ =>
    Kernel.unmapShared destination source (pages * pageSize)
  | ⟨.mapCode, destination, source, pages⟩ =>
    Kernel.onSpace destination.process
      (AddressSpace.mapCode destination.address source.address (pages * pageSize))
  | ⟨.unmapCode, destination, source, pages⟩ => do
    let config ← .read (·.config)
    Kernel.onSpace destination.process
      (AddressSpace.unmapCode destination.address source.address (pages * pageSize)
        config.invalidation)

namespace Kernel

/-- Looks at the arguments of a request to change a permission. -/
def examinePermission (current : Nat) (handle : Handle) (address size permission : Nat) :
    Action Kernel Task := do
  .require (isPageAligned address) (.plain .invalidAddress)
  .require (isPageAligned size && size ≠ 0) (.plain .invalidSize)
  .require (rangeFits address size) (.plain .invalidCurrentMemory)
  let permission ← .expect (UserPermission.ofRaw? permission) (.plain .invalidNewMemoryPermission)
  let target ← .expect (← resolve current handle) (.plain .invalidHandle)
  onSpace target (AddressSpace.requireInside address size)
  return ⟨.setPermission permission, ⟨target, address⟩, ⟨target, address⟩, size / pageSize⟩

def examineMemory (work : Work) (current destination : Nat) (handle : Handle)
    (source size : Nat) : Action Kernel Task := do
  let owner ← checkMemoryArguments current destination handle source size
  return ⟨work, ⟨current, destination⟩, ⟨owner, source⟩, size / pageSize⟩

def examineCode (request : CodeRequest) (work : Work) (current : Nat) (handle : Handle)
    (destination source size : Nat) : Action Kernel Task := do
  let target ← checkCodeArguments request current handle destination source size
  onSpace target (AddressSpace.requireAliasRanges destination source size)
  return ⟨work, ⟨target, destination⟩, ⟨target, source⟩, size / pageSize⟩

/-- Everything about a call that comes before the memory itself is looked at. -/
def examine (current : Nat) : Call → Action Kernel Task
  | .setPermission handle address size permission =>
    examinePermission current handle address.toNat size.toNat permission.toNat
  | .mapMemory destination handle source size =>
    examineMemory .mapMemory current destination.toNat handle source.toNat size.toNat
  | .unmapMemory destination handle source size =>
    examineMemory .unmapMemory current destination.toNat handle source.toNat size.toNat
  | .mapCode handle destination source size =>
    examineCode .map .mapCode current handle destination.toNat source.toNat size.toNat
  | .unmapCode handle destination source size =>
    examineCode .unmap .unmapCode current handle destination.toNat source.toNat size.toNat

variable {α : Type} {kernel : Kernel} {current index destination source size : Nat}
variable {handle : Handle} {process : Process} {action : SpaceAction α} {place : Place}
variable {state : MemoryState}

theorem resident_of_listed (listed : kernel.processes[index]? = some process) :
    kernel.setting.resident index = .ok process.resident := by
  rw [Setting.resident, setting, List.getElem?_map, listed]
  rfl

theorem resident_of_missing (missing : kernel.processes[index]? = none) :
    kernel.setting.resident index = .error .faulted := by
  rw [Setting.resident, setting, List.getElem?_map, missing]
  rfl

theorem onSpace_of_listed (listed : kernel.processes[index]? = some process) :
    onSpace index action kernel = action.focus (fun kernel => ⟨process.space, kernel.resources⟩)
      (fun kernel => kernel.withSpace index process) kernel := by
  rw [onSpace, bind_apply, Kernel.process, inspect_apply, listed, check_ok, pure_apply]
  rfl

theorem verdict_onSpace (listed : kernel.processes[index]? = some process) :
    (onSpace index action kernel).verdict =
      (action ⟨process.space, kernel.resources⟩).verdict := by
  rw [onSpace_of_listed listed, verdict_focus]

theorem ending_onSpace (listed : kernel.processes[index]? = some process) :
    (onSpace index action kernel).ending = (action ⟨process.space, kernel.resources⟩).ending := by
  rw [Outcome.ending, verdict_onSpace listed, Outcome.ending]

theorem onSpace_of_missing (missing : kernel.processes[index]? = none) :
    onSpace index action kernel = .fault .processMissing := by
  rw [onSpace, bind_apply, Kernel.process, inspect_apply, missing]
  rfl

theorem onSpace_bind {β : Type} {guard : SpaceAction α} {next : α → SpaceAction β}
    (steady : Steady guard) :
    onSpace index (guard >>= next) = onSpace index guard >>= fun value =>
      onSpace index (next value) := by
  funext kernel
  cases listed : kernel.processes[index]? with
  | none => rw [onSpace_of_missing listed, bind_apply, onSpace_of_missing listed]
  | some process =>
      rw [bind_apply, onSpace_of_listed listed, onSpace_of_listed listed, focus, focus, bind_apply]
      cases guarded : guard ⟨process.space, kernel.resources⟩ with
      | done value attached =>
          obtain rfl := steady.of_done guarded
          change _ = onSpace index (next value) (kernel.withSpace index process _)
          rw [withSpace_self listed, onSpace_of_listed listed, focus]
      | refused cause attached => rfl
      | fault fault => rfl

/-- What is judged in an address space by its layout is judged by that of the resident. -/
theorem verdict_onSpace_eq {judge : Resident → Verdict α}
    (judged : ∀ process : Process,
      (action ⟨process.space, kernel.resources⟩).verdict = judge process.resident) :
    (onSpace index action kernel).verdict = kernel.setting.resident index >>= judge := by
  cases listed : kernel.processes[index]? with
  | none =>
      rw [resident_of_missing listed, onSpace_of_missing listed]
      rfl
  | some process => rw [verdict_onSpace listed, resident_of_listed listed, ok_bind, judged]

theorem verdict_requireInside (place : Place) :
    (onSpace place.process (AddressSpace.requireInside place.address size) kernel).verdict =
      kernel.setting.requireInside place size := by
  refine verdict_onSpace_eq fun process => ?_
  rw [AddressSpace.requireInside, verdict_bind (Steady.inspect _), verdict_inspect]
  simp only [verdict_require]
  rfl

theorem verdict_requirePlace (place : Place) :
    (onSpace place.process (AddressSpace.requirePlace place.address size state
      .invalidMemoryRegion) kernel).verdict = kernel.setting.requirePlace place size state := by
  refine verdict_onSpace_eq fun process => ?_
  rw [AddressSpace.requirePlace, verdict_bind (Steady.inspect _), verdict_inspect]
  simp only [verdict_require]
  rfl

section Handles

variable {β : Type} {found : Option Nat} {cause : Refusal} {next : Nat → Verdict β}

/-- What follows a look at a handle stops anyway where the process is not there. -/
def StopsWithout (kernel : Kernel) (next : Nat → Verdict β) : Prop :=
  ∀ index, (kernel.setting.resident index >>= fun _ => next index) = next index

theorem named_bind (stops : kernel.StopsWithout next) (invalid : cause.error = .invalidHandle) :
    ((expect found cause kernel).verdict >>= next) = kernel.setting.named found >>= next := by
  cases found with
  | none => rw [verdict_expect, Setting.named, invalid]
  | some index =>
      rw [verdict_expect, ok_bind, Setting.named, bind_assoc]
      exact (stops index).symm

theorem verdict_process : (Kernel.process index kernel).verdict =
    match kernel.processes[index]? with
    | some process => .ok process
    | none => .error .faulted := by
  rw [Kernel.process, verdict_inspect]
  cases kernel.processes[index]? <;> rfl

theorem resolveHandle_bind (stops : kernel.StopsWithout next)
    (invalid : cause.error = .invalidHandle) :
    ((resolveHandle current handle kernel).verdict >>= fun found =>
        (expect found cause kernel).verdict >>= next) =
      kernel.setting.resolveHandle current handle >>= next := by
  rw [resolveHandle, verdict_bind steady_process, verdict_process, Setting.resolveHandle]
  cases listed : kernel.processes[current]? with
  | none => rw [resident_of_missing listed]; rfl
  | some process =>
      rw [resident_of_listed listed, ok_bind, verdict_pure, ok_bind, ok_bind]
      exact named_bind stops invalid

theorem resolve_bind (stops : kernel.StopsWithout next)
    (invalid : cause.error = .invalidHandle) :
    ((resolve current handle kernel).verdict >>= fun found =>
        (expect found cause kernel).verdict >>= next) =
      kernel.setting.resolve current handle >>= next := by
  rw [resolve, Setting.resolve]
  split
  · rw [verdict_pure, ok_bind]
    exact named_bind stops invalid
  · exact resolveHandle_bind stops invalid

end Handles

variable {request : Call} {work : Work} {code : CodeRequest} {address permission : Nat}

theorem steady_examine : Steady (examine current request) := by
  cases request with
  | setPermission handle address size permission =>
      exact (Steady.require _ _).bind fun _ => (Steady.require _ _).bind fun _ =>
        (Steady.require _ _).bind fun _ => (Steady.expect _ _).bind fun _ =>
          steady_resolve.bind fun _ => (Steady.expect _ _).bind fun _ =>
            (steady_onSpace AddressSpace.steady_requireInside).bind fun _ => Steady.pure _
  | mapMemory | unmapMemory => exact steady_checkMemoryArguments.bind fun _ => Steady.pure _
  | mapCode | unmapCode =>
      exact steady_checkCodeArguments.bind fun _ =>
        (steady_onSpace AddressSpace.steady_requireAliasRanges).bind fun _ => Steady.pure _

theorem verdict_examinePermission :
    (examinePermission current handle address size permission kernel).verdict = (do
      let task ← kernel.setting.permissionTask current handle address size permission
      kernel.setting.requirePlaces task
      return task) := by
  simp only [examinePermission, verdict_bind (Steady.require _ _), verdict_require,
    verdict_bind (Steady.expect _ _), verdict_bind steady_resolve, Setting.permissionTask,
    verdict_bind (steady_onSpace AddressSpace.steady_requireInside), bind_assoc]
  apply demand_bind_congr
  intro _
  apply demand_bind_congr
  intro whole
  apply demand_bind_congr
  intro _
  cases UserPermission.ofRaw? permission with
  | none => rfl
  | some granted =>
      simp only [expect_some, verdict_pure, ok_bind, bind_assoc, Verdict.pure_eq]
      rw [resolve_bind _ rfl]
      · apply bind_congr
        intro target
        rw [Setting.requirePlaces, (wholePages_iff.mp whole).mul_eq, bind_assoc,
          verdict_requireInside ⟨target, address⟩]
        rfl
      · intro target
        simp only [verdict_requireInside ⟨target, address⟩, Setting.requireInside]
        cases kernel.setting.resident target <;> rfl

theorem verdict_examineMemory (placed : work.state? = some .sharedCode) :
    (examineMemory work current destination handle source size kernel).verdict = (do
      let task ← kernel.setting.memoryTask work current destination handle source size
      kernel.setting.requirePlaces task
      return task) := by
  simp only [examineMemory, checkMemoryArguments, bind_assoc, pure_bind,
    verdict_bind (Steady.require _ _), verdict_require, verdict_bind (Steady.expect _ _),
    verdict_bind steady_resolveHandle, Setting.memoryTask,
    verdict_bind (steady_onSpace AddressSpace.steady_requireInside),
    verdict_bind (steady_onSpace AddressSpace.steady_requirePlace)]
  apply demand_bind_congr
  intro _
  apply demand_bind_congr
  intro _
  apply demand_bind_congr
  intro whole
  apply demand_bind_congr
  intro _
  apply demand_bind_congr
  intro _
  rw [resolveHandle_bind _ rfl]
  · apply bind_congr
    intro owner
    rw [Setting.requirePlaces, placed, (wholePages_iff.mp whole).mul_eq, bind_assoc,
      verdict_requireInside ⟨owner, source⟩,
      verdict_requirePlace ⟨current, destination⟩]
    rfl
  · intro owner
    simp only [verdict_requireInside ⟨owner, source⟩, Setting.requireInside]
    cases kernel.setting.resident owner <;> rfl

theorem verdict_requireAliasRanges :
    (onSpace index (AddressSpace.requireAliasRanges destination source size) kernel).verdict =
      (do
        kernel.setting.requireInside ⟨index, source⟩ size
        kernel.setting.requirePlace ⟨index, destination⟩ size .aliasCode) := by
  rw [← verdict_requireInside, ← verdict_requirePlace]
  cases listed : kernel.processes[index]? with
  | none => simp only [onSpace_of_missing listed]; rfl
  | some process =>
      simp only [verdict_onSpace listed]
      exact verdict_bind AddressSpace.steady_requireInside

theorem verdict_requireBothAligned :
    (requireBothAligned code destination source kernel).verdict =
      demand (isPageAligned destination && isPageAligned source) (.refused .invalidAddress) := by
  cases code <;> cases first : isPageAligned destination <;>
    cases second : isPageAligned source <;>
      simp [requireBothAligned, requireAligned, first, second] <;> rfl

/-- What is said about the ranges along with the arguments is said again, and more, where the ranges
get their places. -/
theorem places_bind {β : Type} {next : Verdict β}
    (layouts : ∀ space ∈ kernel.spaces, space.layout.WellFormed) :
    (do
      let process ← (Kernel.process index kernel).verdict
      let inside ← (process.space.layout.contains source size).verdict
      demand inside (.refused .invalidCurrentMemory)
      let inside ← (process.space.layout.inAliasCode destination size).verdict
      demand inside (.refused .invalidMemoryRegion)
      kernel.setting.requireInside ⟨index, source⟩ size
      kernel.setting.requirePlace ⟨index, destination⟩ size .aliasCode
      next) = (do
      kernel.setting.requireInside ⟨index, source⟩ size
      kernel.setting.requirePlace ⟨index, destination⟩ size .aliasCode
      next) := by
  rw [verdict_process]
  cases listed : kernel.processes[index]? with
  | none =>
      rw [Setting.requireInside, resident_of_missing listed]
      rfl
  | some process =>
      simp only [Setting.requireInside, Setting.requirePlace, resident_of_listed listed,
        ok_bind, Process.resident]
      have layout := (layouts _ (space_mem listed)).regular
      obtain ⟨inside, contained⟩ := layout.contains_exists source size
      obtain ⟨inAlias, inAliasCode⟩ := layout.inAliasCode_exists destination size
      obtain ⟨fits, placed⟩ := layout.canContain_exists destination size .aliasCode
      simp only [contained, inAliasCode, placed, Checked.verdict_ok, ok_bind]
      cases inside with
      | false => rfl
      | true =>
          cases inAlias with
          | true => rfl
          | false =>
              have outside : fits = false := by
                by_contra fitting
                rw [Bool.not_eq_false] at fitting
                have region := Layout.canContain_eq_true (fitting ▸ placed)
                cases region.symm.trans inAliasCode
              rw [outside]
              rfl

theorem verdict_examineCode (layouts : ∀ space ∈ kernel.spaces, space.layout.WellFormed)
    (placed : work.state? = some .aliasCode) :
    (examineCode code work current handle destination source size kernel).verdict = (do
      let task ← kernel.setting.codeTask work current handle destination source size
      kernel.setting.requirePlaces task
      return task) := by
  simp only [examineCode, checkCodeArguments, bind_assoc, pure_bind,
    verdict_bind steady_requireBothAligned, verdict_requireBothAligned,
    verdict_bind (Steady.require _ _), verdict_require, verdict_bind (Steady.expect _ _),
    verdict_bind steady_resolve, verdict_bind steady_process, verdict_bind (Steady.check _),
    verdict_check, Setting.codeTask,
    verdict_bind (steady_onSpace AddressSpace.steady_requireAliasRanges)]
  apply demand_bind_congr
  intro _
  apply demand_bind_congr
  intro whole
  apply demand_bind_congr
  intro _
  apply demand_bind_congr
  intro _
  rw [resolve_bind _ rfl]
  · apply bind_congr
    intro target
    rw [verdict_requireAliasRanges, Setting.requirePlaces, placed, (wholePages_iff.mp whole).mul_eq]
    simp only [bind_assoc]
    exact places_bind layouts
  · intro owner
    simp only [verdict_process]
    cases listed : kernel.processes[owner]? with
    | none => rw [resident_of_missing listed]; rfl
    | some process => rw [resident_of_listed listed, ok_bind]

theorem verdict_examine (layouts : ∀ space ∈ kernel.spaces, space.layout.WellFormed) :
    (examine current request kernel).verdict = (do
      let task ← kernel.setting.task current request
      kernel.setting.requirePlaces task
      return task) := by
  cases request with
  | setPermission => exact verdict_examinePermission
  | mapMemory | unmapMemory => exact verdict_examineMemory rfl
  | mapCode | unmapCode => exact verdict_examineCode layouts rfl

/-- A call looks at what there is to look at and then does what is left of it. -/
theorem perform_eq_examine :
    perform current request kernel = (examine current request >>= Task.act) kernel := by
  cases request with
  | setPermission handle address size permission =>
      simp only [perform, setPermission, examine, examinePermission, bind_assoc, pure_bind,
        onSpace_bind AddressSpace.steady_requireInside, Task.act]
  | mapMemory destination handle source size =>
      simp only [perform, mapMemory, examine, examineMemory, bind_assoc, pure_bind, Task.act]
  | unmapMemory destination handle source size =>
      simp only [perform, unmapMemory, examine, examineMemory, bind_assoc, pure_bind, Task.act]
      apply bind_congr_of_steady steady_checkMemoryArguments
      intro owner checked
      rw [(checkMemoryArguments_eq_done checked).1.whole.mul_eq]
  | mapCode handle destination source size =>
      simp only [perform, mapCode, examine, examineCode, bind_assoc, pure_bind, Task.act]
      apply bind_congr_of_steady steady_checkCodeArguments
      intro target checked
      obtain ⟨_, _, whole, _, _⟩ := checkCodeArguments_eq_done checked
      simp only [whole.mul_eq, AddressSpace.mapCode,
        onSpace_bind AddressSpace.steady_requireAliasRanges,
        (steady_onSpace AddressSpace.steady_requireAliasRanges).bind_again]
  | unmapCode handle destination source size =>
      simp only [perform, unmapCode, examine, examineCode, bind_assoc, pure_bind, Task.act]
      apply bind_congr_of_steady steady_checkCodeArguments
      intro target checked
      obtain ⟨_, _, whole, _, _⟩ := checkCodeArguments_eq_done checked
      rw [whole.mul_eq]
      -- The strategy may be read before the guard as well.
      refine .trans ?_ (show (onSpace target (AddressSpace.requireAliasRanges destination.toNat
          source.toNat size.toNat) >>= fun _ => onSpace target (AddressSpace.unmapCode
            destination.toNat source.toNat size.toNat kernel.config.invalidation)) kernel = _ from
        bind_congr_of_steady (steady_onSpace AddressSpace.steady_requireAliasRanges)
          fun _ _ => rfl)
      simp only [bind_apply (Action.read _), read_apply, AddressSpace.unmapCode,
        onSpace_bind AddressSpace.steady_requireAliasRanges,
        (steady_onSpace AddressSpace.steady_requireAliasRanges).bind_again]

theorem ending_perform (layouts : ∀ space ∈ kernel.spaces, space.layout.WellFormed) :
    (perform current request kernel).ending = (do
      let task ← kernel.setting.task current request
      kernel.setting.requirePlaces task
      (task.act kernel).ending) := by
  rw [perform_eq_examine, ending_bind steady_examine, verdict_examine layouts, bind_assoc]
  simp only [bind_assoc, pure_bind]

variable {task : Task}

theorem perform_eq_act (layouts : ∀ space ∈ kernel.spaces, space.layout.WellFormed)
    (came : kernel.setting.task current request = .ok task)
    (admitted : kernel.setting.requirePlaces task = .ok ()) :
    perform current request kernel = task.act kernel := by
  have examined : (examine current request kernel).verdict = .ok task := by
    rw [verdict_examine layouts, came, ok_bind, admitted]
    rfl
  rw [perform_eq_examine, bind_apply, done_of_verdict steady_examine examined]

end Kernel

/-- What the arguments of a call guarantee of its task. -/
structure Task.Valid (task : Task) : Prop where
  destination_aligned : task.destination.address % pageSize = 0
  source_aligned : task.source.address % pageSize = 0
  positive : 0 < task.pages
  destination_fits : task.destination.address + task.pages * pageSize < wordLimit
  source_fits : task.source.address + task.pages * pageSize < wordLimit
  alone : ∀ permission, task.work = .setPermission permission → task.source = task.destination
  within : task.work.changesSource = true → task.source.process = task.destination.process

namespace Setting

variable {setting : Setting} {current index destination source size : Nat} {handle : Handle}
variable {work : Work} {task : Task} {request : Call} {resident : Resident} {place : Place}
variable {state : MemoryState}

theorem positive_of_whole (whole : Kernel.WholePages size) : 0 < size / pageSize := by
  have multiple := whole.mul_eq
  have positive := whole.positive
  by_contra none
  rw [Nat.eq_zero_of_not_pos none, Nat.zero_mul] at multiple
  omega

theorem fits_of_whole {address : Nat} (whole : Kernel.WholePages size)
    (fits : Kernel.rangeFits address size = true) :
    address + size / pageSize * pageSize < wordLimit := by
  rw [whole.mul_eq]
  exact of_decide_eq_true fits

theorem eq_of_memoryTask
    (came : setting.memoryTask work current destination handle source size = .ok task) :
    ∃ owner, setting.resolveHandle current handle = .ok owner ∧
      task = ⟨work, ⟨current, destination⟩, ⟨owner, source⟩, size / pageSize⟩ := by
  simp only [memoryTask, Verdict.bind_eq_ok] at came
  obtain ⟨_, _, _, _, _, _, _, _, _, _, owner, resolved, built⟩ := came
  exact ⟨owner, resolved, (Except.ok.inj built).symm⟩

theorem eq_of_codeTask
    (came : setting.codeTask work current handle destination source size = .ok task) :
    ∃ target, setting.resolve current handle = .ok target ∧ size / pageSize * pageSize = size ∧
      task = ⟨work, ⟨target, destination⟩, ⟨target, source⟩, size / pageSize⟩ := by
  simp only [codeTask, Verdict.bind_eq_ok, demand_eq_ok, Kernel.wholePages_iff] at came
  obtain ⟨_, _, _, whole, _, _, _, _, target, resolved, built⟩ := came
  exact ⟨target, resolved, whole.mul_eq, (Except.ok.inj built).symm⟩

theorem eq_of_permissionTask {address permission : Nat}
    (came : setting.permissionTask current handle address size permission = .ok task) :
    ∃ granted target, UserPermission.ofRaw? permission = some granted ∧
      setting.resolve current handle = .ok target ∧ size / pageSize * pageSize = size ∧
        task = ⟨.setPermission granted, ⟨target, address⟩, ⟨target, address⟩, size / pageSize⟩ := by
  simp only [permissionTask, Verdict.bind_eq_ok, demand_eq_ok, Kernel.wholePages_iff] at came
  obtain ⟨_, _, _, whole, _, _, came⟩ := came
  cases known : UserPermission.ofRaw? permission with
  | none =>
      rw [known] at came
      cases came
  | some granted =>
      rw [known] at came
      obtain ⟨target, resolved, built⟩ := Verdict.bind_eq_ok.mp came
      exact ⟨granted, target, rfl, resolved, whole.mul_eq, (Except.ok.inj built).symm⟩

theorem valid_of_memoryTask
    (came : setting.memoryTask work current destination handle source size = .ok task)
    (placed : work.state? = some .sharedCode) : task.Valid := by
  simp only [memoryTask, Verdict.bind_eq_ok, demand_eq_ok, isPageAligned_iff,
    Kernel.wholePages_iff] at came
  obtain ⟨_, first, _, second, _, whole, _, fits, _, sourceFits, owner, _, built⟩ := came
  cases built
  refine ⟨first, second, positive_of_whole whole, fits_of_whole whole fits,
    fits_of_whole whole sourceFits, ?_, ?_⟩
  · rintro permission rfl
    cases placed
  · intro changes
    cases work <;> cases placed <;> cases changes

theorem valid_of_codeTask
    (came : setting.codeTask work current handle destination source size = .ok task)
    (placed : work.state? = some .aliasCode) : task.Valid := by
  simp only [codeTask, Verdict.bind_eq_ok, demand_eq_ok, Kernel.wholePages_iff] at came
  obtain ⟨_, aligned, _, whole, _, fits, _, sourceFits, target, _, built⟩ := came
  rw [Bool.and_eq_true, isPageAligned_iff, isPageAligned_iff] at aligned
  cases built
  refine ⟨aligned.1, aligned.2, positive_of_whole whole, fits_of_whole whole fits,
    fits_of_whole whole sourceFits, ?_, fun _ => rfl⟩
  rintro permission rfl
  cases placed

theorem valid_of_permissionTask {address permission : Nat}
    (came : setting.permissionTask current handle address size permission = .ok task) :
    task.Valid := by
  simp only [permissionTask, Verdict.bind_eq_ok, demand_eq_ok, isPageAligned_iff,
    Kernel.wholePages_iff] at came
  obtain ⟨_, aligned, _, whole, _, fits, came⟩ := came
  split at came
  · cases came
  · obtain ⟨target, _, built⟩ := Verdict.bind_eq_ok.mp came
    cases built
    exact ⟨aligned, aligned, positive_of_whole whole, fits_of_whole whole fits,
      fits_of_whole whole fits, fun _ _ => rfl, fun _ => rfl⟩

theorem valid_of_task (came : setting.task current request = .ok task) : task.Valid := by
  cases request with
  | setPermission => exact valid_of_permissionTask came
  | mapMemory | unmapMemory => exact valid_of_memoryTask came rfl
  | mapCode | unmapCode => exact valid_of_codeTask came rfl

end Setting

/-- A task in a kernel where its ranges are in memory that two processes may map. -/
structure Kernel.Hosts (kernel : Kernel) (task : Task) (target origin : Process) : Prop
    extends task.Valid where
  target_listed : kernel.processes[task.destination.process]? = some target
  origin_listed : kernel.processes[task.source.process]? = some origin
  target_covers : target.space.blocks.region.Covers task.destination.address task.pages
  origin_covers : origin.space.blocks.region.Covers task.source.address task.pages
  admitted : kernel.setting.requirePlaces task = .ok ()

namespace Kernel

variable {kernel : Kernel} {task : Task} {place : Place} {size : Nat} {state : MemoryState}

/-- What the layout of a resident has been asked and has answered with yes. -/
theorem exists_of_resident_bind (ask : Layout → Checked Bool)
    (passed : (do
      let resident ← kernel.setting.resident index
      let answer ← (ask resident.layout).verdict
      demand answer halt) = .ok ()) :
    ∃ process, kernel.processes[index]? = some process ∧
      ask process.space.layout = .ok true := by
  cases listed : kernel.processes[index]? with
  | none =>
      rw [resident_of_missing listed] at passed
      cases passed
  | some process =>
      rw [resident_of_listed listed, ok_bind, Verdict.bind_eq_ok] at passed
      obtain ⟨answer, answered, holds⟩ := passed
      rw [demand_eq_ok] at holds
      exact ⟨process, rfl, Checked.verdict_eq_ok.mp (holds ▸ answered)⟩

theorem inside_of_requireInside (passed : kernel.setting.requireInside place size = .ok ()) :
    ∃ process, kernel.processes[place.process]? = some process ∧
      process.space.layout.contains place.address size = .ok true :=
  exists_of_resident_bind (·.contains place.address size) passed

theorem placed_of_requirePlace (passed : kernel.setting.requirePlace place size state = .ok ()) :
    ∃ process, kernel.processes[place.process]? = some process ∧
      process.space.layout.canContain place.address size state = .ok true :=
  exists_of_resident_bind (·.canContain place.address size state) passed

theorem hosts_of_requirePlaces (coherent : kernel.Coherent)
    (layouts : ∀ space ∈ kernel.spaces, space.layout.WellFormed) (valid : task.Valid)
    (admitted : kernel.setting.requirePlaces task = .ok ()) :
    ∃ target origin, kernel.Hosts task target origin := by
  obtain ⟨_, inside, placed⟩ := Verdict.bind_eq_ok.mp admitted
  obtain ⟨origin, originListed, contained⟩ := inside_of_requireInside inside
  have covers : origin.space.blocks.region.Covers task.source.address task.pages := by
    obtain ⟨_, _, lower, upper⟩ := Region.contains_eq_true contained
    rw [(coherent origin (List.mem_of_getElem? originListed)).region_eq]
    exact ⟨lower, upper⟩
  cases work : task.work with
  | setPermission permission =>
      have alone := valid.alone permission work
      exact ⟨origin, origin, valid, alone ▸ originListed, originListed, alone ▸ covers, covers,
        admitted⟩
  | _ =>
      simp only [work, Work.state?] at placed
      obtain ⟨target, targetListed, fits⟩ := placed_of_requirePlace placed
      obtain ⟨_, lower, upper⟩ :=
        (layouts _ (space_mem targetListed)).within_of_canContain fits
      refine ⟨target, origin, valid, targetListed, originListed, ?_, covers, admitted⟩
      rw [(coherent target (List.mem_of_getElem? targetListed)).region_eq]
      exact ⟨lower, upper⟩

end Kernel

end GuestMemory
