import GuestMemory.Proofs.Kernel.Enclosure
import GuestMemory.Proofs.Kernel.Transitions
import GuestMemory.Proofs.Layout.Bytes

/-!
Requirements: what a call asks for, one thing after another, each with the error that a guest is
answered where it is the first that is missing.
-/

namespace GuestMemory

open Verdict

/-- A condition on a call, and the error that the call ends in where it does not hold. -/
structure Requirement where
  met : Prop
  error : Error
  [decidable : Decidable met]

namespace Requirement

instance (requirement : Requirement) : Decidable requirement.met :=
  requirement.decidable

/-- The error of the first requirement that is violated. -/
def judge (requirements : List Requirement) : Verdict Unit :=
  match requirements.find? fun requirement => ¬ requirement.met with
  | none => .ok ()
  | some violated => .error (.refused violated.error)

variable {requirement : Requirement} {rest : List Requirement}

@[simp]
theorem judge_nil : judge [] = .ok () :=
  rfl

theorem judge_cons : judge (requirement :: rest) =
    demand requirement.met (.refused requirement.error) >>= fun _ => judge rest := by
  by_cases met : requirement.met
  · rw [judge, List.find?_cons_of_neg (by simpa using met), demand_of_true met]
    rfl
  · rw [judge, List.find?_cons_of_pos (by simpa using met), demand_of_false met]
    rfl

/-- A call is let through exactly when no requirement is violated. -/
theorem judge_eq_ok {requirements : List Requirement} :
    judge requirements = .ok () ↔ ∀ requirement ∈ requirements, requirement.met := by
  induction requirements with
  | nil => simp
  | cons requirement rest ih =>
      rw [judge_cons, Verdict.bind_eq_ok, List.forall_mem_cons, ← ih]
      simp

end Requirement

namespace Verdict

variable {β : Type} {condition other : Prop} [Decidable condition] [Decidable other]
variable {halt : Halt} {next following : Unit → Verdict β} {found : Option Nat}

/-- The same condition in other words, and what follows it where it holds. -/
theorem demand_bind_eq (same : condition ↔ other) (follows : other → next () = following ()) :
    (demand condition halt >>= next) = demand other halt >>= following := by
  rw [demand_congr same]
  exact demand_bind_congr follows

theorem demand_and : demand (condition ∧ other) halt =
    demand condition halt >>= fun _ => demand other halt := by
  by_cases holds : condition
  · rw [demand_of_true holds, ok_bind]
    exact demand_congr (and_iff_right holds)
  · rw [demand_of_false holds, error_bind]
    exact demand_of_false fun both => holds both.1

/-- A condition that another one implies may be looked at before that. -/
theorem demand_of_imp (implied : other → condition) : demand other halt =
    demand condition halt >>= fun _ => demand other halt := by
  rw [← demand_and]
  exact demand_congr (and_iff_right_of_imp implied).symm

theorem demand_whole {size : Nat} : demand (isPageAligned size && size ≠ 0) halt =
    demand (size % pageSize = 0) halt >>= fun _ => demand (size ≠ 0) halt := by
  rw [← demand_and]
  exact demand_congr (by simp [isPageAligned])

theorem named_eq_ok {index : Nat} :
    (found.elim (.error halt) .ok : Verdict Nat) = .ok index ↔ found = some index := by
  cases found <;> simp

/-- What is found is all that what follows depends on. -/
theorem named_bind_eq {rest : Verdict β} {follow : Nat → Verdict β}
    (follows : ∀ index, found = some index → follow index = rest) :
    (found.elim (.error halt) .ok >>= follow) = demand found.isSome halt >>= fun _ => rest := by
  cases found with
  | none => rfl
  | some index => exact follows index rfl

end Verdict

namespace Requirement

variable {condition other : Prop} [Decidable condition] [Decidable other] {error : Error}
variable {rest : List Requirement}

/-- Two conditions with the same error are one. -/
theorem judge_both : judge (⟨condition, error⟩ :: ⟨other, error⟩ :: rest) =
    judge (⟨condition ∧ other, error⟩ :: rest) := by
  rw [judge_cons, judge_cons, judge_cons, demand_and, bind_assoc]

/-- It makes no difference which of two conditions with the same error is looked at first. -/
theorem judge_swap : judge (⟨condition, error⟩ :: ⟨other, error⟩ :: rest) =
    judge (⟨other, error⟩ :: ⟨condition, error⟩ :: rest) := by
  rw [judge_both, judge_both, judge_cons, judge_cons, demand_congr and_comm]

end Requirement

namespace Check

variable {properties : Properties} {required : StateRequirement} {mask value : KernelPermission}

/-- What a check for a permission asks of orderly memory. -/
theorem meets_withPermission_iff (orderly : properties.Orderly) :
    ((ofState required).withPermission mask value).Meets properties ↔
      required.accepts properties.state = true ∧ properties.permission &&& mask = value ∧
        properties.attributes = .empty := by
  constructor
  · rintro ⟨state, permission, attributes⟩
    exact ⟨state, permission, orderly.attributes_known ▸ attributes⟩
  · rintro ⟨state, permission, attributes⟩
    exact ⟨state, permission, orderly.attributes_known.trans attributes⟩

/-- What a check for a mark asks of orderly memory. -/
theorem meets_withAttributes_iff {marks : Attributes} (orderly : properties.Orderly) :
    ((ofState required).withAttributes .all marks).Meets properties ↔
      required.accepts properties.state = true ∧ properties.attributes = marks := by
  constructor
  · rintro ⟨state, _, attributes⟩
    exact ⟨state, orderly.attributes_known ▸ attributes⟩
  · rintro ⟨state, attributes⟩
    exact ⟨state, congrArg KernelPermission.mk UInt8.and_zero,
      orderly.attributes_known.trans attributes⟩

theorem meets_ofState_iff (orderly : properties.Orderly) :
    (ofState required).Meets properties ↔
      required.accepts properties.state = true ∧ properties.attributes = .empty :=
  meets_withAttributes_iff orderly

end Check

namespace Layout

variable {layout : Layout} {address size : Nat}

instance : Decidable (layout.Encloses address size) :=
  inferInstanceAs (Decidable (layout.addressSpace.Encloses address size))

/-- Memory that processes share may be on the range, which is where code aliases may be, off the
heap and off the region of messages. -/
def MayShare (layout : Layout) (address size : Nat) : Prop :=
  layout.aliasCode.Encloses address size ∧ ¬ layout.heap.Touches address size ∧
    ¬ layout.ipcAlias.Touches address size

instance : Decidable (layout.MayShare address size) :=
  inferInstanceAs (Decidable (layout.aliasCode.Encloses address size ∧
    ¬ layout.heap.Touches address size ∧ ¬ layout.ipcAlias.Touches address size))

variable (regular : layout.Regular)

include regular

theorem Regular.contains_eq (positive : 0 < size) (fits : address + size < wordLimit) :
    layout.contains address size = .ok (decide (layout.Encloses address size)) := by
  rw [Layout.contains, Region.contains_of_fits regular.fits]
  exact congrArg Except.ok (decide_eq_decide.mpr
    ⟨fun within => within.2.2, fun inside => ⟨positive, fits, inside⟩⟩)

theorem Regular.canContain_eq {state : MemoryState} (fits : address + size < wordLimit) :
    layout.canContain address size state = .ok (decide (layout.MayHold state address size)) := by
  rw [Layout.canContain_eq regular.bounded]
  exact congrArg Except.ok (decide_eq_decide.mpr (and_iff_right fits))

theorem Regular.canContain_sharedCode (positive : 0 < size) (fits : address + size < wordLimit) :
    layout.canContain address size .sharedCode = .ok (decide (layout.MayShare address size)) := by
  rw [regular.canContain_eq fits]
  refine congrArg Except.ok (decide_eq_decide.mpr ?_)
  simp [MayHold, MayShare, regionFor, positive, and_comm]

end Layout

namespace Kernel

variable {kernel : Kernel} {current size : Nat} {handle : Handle} {place : Place}

/-- The process that a handle of the current process stands for in its table. -/
def opened? (kernel : Kernel) (current : Nat) (handle : Handle) : Option Nat :=
  kernel.processes[current]?.bind fun process => process.handles.process? handle

/-- The process that a handle of the current process names, which is the current process itself for
one handle that no table holds. -/
def named? (kernel : Kernel) (current : Nat) (handle : Handle) : Option Nat :=
  if handle = .currentProcess then some current else kernel.opened? current handle

instance : Decidable (kernel.Encloses place size) :=
  inferInstanceAs (Decidable (∀ process ∈ kernel.processes[place.process]?,
    process.space.layout.Encloses place.address size))

/-- Shared memory may be on the range in its process, if that is there. -/
def MayShare (kernel : Kernel) (place : Place) (size : Nat) : Prop :=
  ∀ process ∈ kernel.processes[place.process]?,
    process.space.layout.MayShare place.address size

instance : Decidable (kernel.MayShare place size) :=
  inferInstanceAs (Decidable (∀ process ∈ kernel.processes[place.process]?,
    process.space.layout.MayShare place.address size))

theorem setting_named {found : Option Nat}
    (there : ∀ target, found = some target → target < kernel.processes.length) :
    kernel.setting.named found = found.elim (.error (.refused .invalidHandle)) .ok := by
  cases found with
  | none => rfl
  | some target =>
      have listed := List.getElem?_eq_getElem (there target rfl)
      rw [Setting.named, resident_of_listed listed]
      rfl

section Names

variable (names : kernel.Named)

include names

theorem opened?_lt {target : Nat} (opened : kernel.opened? current handle = some target) :
    target < kernel.processes.length := by
  obtain ⟨process, listed, named⟩ := Option.bind_eq_some_iff.mp opened
  exact (names process (List.mem_of_getElem? listed)).process? named

variable (present : current < kernel.processes.length)

include present

theorem named?_lt {target : Nat} (named : kernel.named? current handle = some target) :
    target < kernel.processes.length := by
  rw [named?] at named
  split at named
  · exact Option.some.inj named ▸ present
  · exact opened?_lt names named

theorem resolveHandle_eq : kernel.setting.resolveHandle current handle =
    (kernel.opened? current handle).elim (.error (.refused .invalidHandle)) .ok := by
  have listed := List.getElem?_eq_getElem present
  rw [← setting_named fun _ => opened?_lt names, Setting.resolveHandle, resident_of_listed listed,
    opened?, listed]
  rfl

theorem resolve_eq : kernel.setting.resolve current handle =
    (kernel.named? current handle).elim (.error (.refused .invalidHandle)) .ok := by
  rw [Setting.resolve, named?]
  split
  · exact setting_named fun _ same => Option.some.inj same ▸ present
  · exact resolveHandle_eq names present

end Names

section Places

variable (layouts : ∀ space ∈ kernel.spaces, space.layout.WellFormed)
variable (there : place.process < kernel.processes.length) (positive : 0 < size)
variable (fits : place.address + size < wordLimit)

include layouts there positive fits

theorem requireInside_eq : kernel.setting.requireInside place size =
    demand (kernel.Encloses place size) (.refused .invalidCurrentMemory) := by
  have listed := List.getElem?_eq_getElem there
  have layout := (layouts _ (space_mem listed)).regular
  rw [Setting.requireInside, resident_of_listed listed, ok_bind, Process.resident,
    layout.contains_eq positive fits, Checked.verdict_ok, ok_bind]
  apply demand_congr
  simp [Encloses, listed]

theorem requirePlace_eq : kernel.setting.requirePlace place size .sharedCode =
    demand (kernel.MayShare place size) (.refused .invalidMemoryRegion) := by
  have listed := List.getElem?_eq_getElem there
  have layout := (layouts _ (space_mem listed)).regular
  rw [Setting.requirePlace, resident_of_listed listed, ok_bind, Process.resident,
    layout.canContain_sharedCode positive fits, Checked.verdict_ok, ok_bind]
  apply demand_congr
  simp [MayShare, listed]

end Places

end Kernel

end GuestMemory
