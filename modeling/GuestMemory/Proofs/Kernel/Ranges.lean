import GuestMemory.Proofs.Kernel.Requirements
import GuestMemory.Proofs.Kernel.Translations

/-!
Ranges of one process: what is looked at before pages are mapped there or unmapped, and what is as
it was when that has been done.
-/

namespace GuestMemory

open GuestMemory.Action Verdict

section Guards

variable {σ α : Type} {rest : Verdict Unit} {halt : Halt} {condition : Prop} [Decidable condition]

/-- What follows a guard is judged where the guard lets it. -/
theorem Action.ending_guard {guard : Action σ Unit} {next : Unit → Action σ α} {state : σ}
    (steady : Steady guard) (judged : (guard state).verdict = demand condition halt)
    (follows : condition → (next () state).ending = rest) :
    ((guard >>= next) state).ending = demand condition halt >>= fun _ => rest := by
  rw [ending_bind steady, judged]
  exact demand_bind_congr follows

namespace AddressSpace

variable {attached : AttachedSpace} {address count size : Nat} {state : MemoryState}
variable {error : Error}

theorem ending_rangeSize {before : σ} {next : Nat → Action σ α}
    (follows : address + count * pageSize < wordLimit →
      (next (count * pageSize) before).ending = rest) :
    ((rangeSize address count >>= next) before).ending =
      demand (address + count * pageSize < wordLimit) (.refused .invalidCurrentMemory) >>=
        fun _ => rest := by
  rw [rangeSize, bind_assoc]
  refine ending_guard (Steady.require _ _) ?_ follows
  rw [verdict_require]
  exact demand_congr decide_eq_true_iff

variable (layout : attached.space.layout.Regular) (fits : address + size < wordLimit)

include layout fits

theorem verdict_requireInside : (requireInside address size attached).verdict =
    demand (0 < size ∧ attached.space.layout.Encloses address size)
      (.refused .invalidCurrentMemory) := by
  rw [requireInside, verdict_bind (Steady.inspect _), verdict_inspect, Layout.contains,
    Region.contains_of_fits layout.fits, Checked.verdict_ok, ok_bind, verdict_require]
  refine demand_congr (decide_eq_true_iff.trans ?_)
  exact and_congr_right fun _ => and_iff_right fits

theorem verdict_requirePlace : (requirePlace address size state error attached).verdict =
    demand (attached.space.layout.MayHold state address size) (.refused error) := by
  rw [requirePlace, verdict_bind (Steady.inspect _), verdict_inspect, layout.canContain_eq fits,
    Checked.verdict_ok, ok_bind, verdict_require]
  exact demand_congr decide_eq_true_iff

end AddressSpace

end Guards

namespace Kernel

variable {config : Config} {kernel : Kernel} {place : Place} {count size index : Nat}
variable {state : MemoryState} {process : Process} {attached : AttachedSpace}

/-- Memory in the state may be on the range in its process, if that is there. -/
def MayHold (kernel : Kernel) (place : Place) (size : Nat) (state : MemoryState) : Prop :=
  ∀ process ∈ kernel.processes[place.process]?,
    process.space.layout.MayHold state place.address size

instance : Decidable (kernel.MayHold place size state) :=
  inferInstanceAs (Decidable (∀ process ∈ kernel.processes[place.process]?,
    process.space.layout.MayHold state place.address size))

theorem mayHold_of_listed (listed : kernel.processes[place.process]? = some process) :
    kernel.MayHold place size state ↔ process.space.layout.MayHold state place.address size := by
  simp [MayHold, listed]

theorem encloses_of_listed (listed : kernel.processes[place.process]? = some process) :
    kernel.Encloses place size ↔ process.space.layout.Encloses place.address size := by
  simp [Encloses, listed]

section Guarded

variable (inv : OrdinaryInvariant config kernel)
variable (listed : kernel.processes[place.process]? = some process)

include inv listed

theorem OrdinaryInvariant.verdict_requirePlace {error : Error}
    (fits : place.address + size < wordLimit) :
    (AddressSpace.requirePlace place.address size state error
      ⟨process.space, kernel.resources⟩).verdict =
        demand (kernel.MayHold place size state) (.refused error) := by
  have layout := (inv.layouts _ (space_mem listed)).regular
  rw [demand_congr (mayHold_of_listed listed)]
  exact AddressSpace.verdict_requirePlace layout fits

theorem OrdinaryInvariant.verdict_requireInside (fits : place.address + size < wordLimit) :
    (AddressSpace.requireInside place.address size ⟨process.space, kernel.resources⟩).verdict =
      demand (0 < size ∧ kernel.Encloses place size) (.refused .invalidCurrentMemory) := by
  have layout := (inv.layouts _ (space_mem listed)).regular
  rw [demand_congr (and_congr_right fun _ => encloses_of_listed listed)]
  exact AddressSpace.verdict_requireInside layout fits

theorem OrdinaryInvariant.verdict_checkRange {check : Check}
    (aligned : place.address % pageSize = 0)
    (nonempty : 0 < count) (covers : process.space.blocks.region.Covers place.address count) :
    (AddressSpace.checkRange place.address (count * pageSize) check
      ⟨process.space, kernel.resources⟩).verdict =
        demand (∀ key ∈ place.pages count, check.Meets (kernel.page key).properties)
          (.refused .invalidCurrentMemory) :=
  AddressSpace.verdict_checkRange (among_of_listed listed)
    (inv.coherent process (List.mem_of_getElem? listed)) aligned nonempty covers

end Guarded

/-- Of what processes have, nothing has changed but some pages of one of them, with their
translations; of what they share, nothing but frames. -/
structure TouchesOnly (place : Place) (count : Nat) (before after : Kernel) : Prop where
  setting_eq : after.setting = before.setting
  page_eq : ∀ key ∉ place.pages count, after.page key = before.page key
  translation?_eq : ∀ key ∉ place.pages count, after.translation? key = before.translation? key
  process_eq : ∀ index, index ≠ place.process → after.processes[index]? = before.processes[index]?
  resources_eq : after.resources =
    { before.resources with frames := after.resources.frames }

section Acting

variable (listed : kernel.processes[place.process]? = some process)

include listed

theorem page_withSpace (offset : Nat) :
    (kernel.withSpace place.process process attached).page (place.page offset) =
      attached.space.page (pageOf place.address + offset) :=
  (differ_of_set (spaces_listed listed) spaces_withSpace).now _

theorem touchesOnly_withSpace (inv : OrdinaryInvariant config kernel)
    (afterInv : OrdinaryInvariant config (kernel.withSpace place.process process attached))
    (rebuilt : process.space.Rebuilt attached.space)
    (same : ∀ number, ¬ AddressSpace.Within (pageOf place.address) count number →
      attached.space.page number = process.space.page number)
    (resources : attached.resources =
      { kernel.resources with frames := attached.resources.frames }) :
    kernel.TouchesOnly place count (kernel.withSpace place.process process attached) := by
  have differ : Differ kernel (kernel.withSpace place.process process attached) place.process _ _ :=
    differ_of_set (spaces_listed listed) spaces_withSpace
  have page (key : Nat × Nat) (outside : key ∉ place.pages count) :
      (kernel.withSpace place.process process attached).page key = kernel.page key := by
    obtain ⟨index, number⟩ := key
    by_cases own : index = place.process
    · subst own
      rw [differ.now, differ.was, same]
      exact fun inside => outside (Place.mem_pages_iff.mpr ⟨rfl, inside⟩)
    · exact differ.others _ own
  refine ⟨setting_withSpace listed rebuilt, page, fun key outside => ?_, fun index other => ?_,
    resources⟩
  · rw [afterInv.translation?_eq, inv.translation?_eq, page key outside]
  · exact List.getElem?_set_ne (Ne.symm other)

end Acting

end Kernel

end GuestMemory
