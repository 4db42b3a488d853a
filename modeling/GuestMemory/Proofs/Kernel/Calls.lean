import GuestMemory.Proofs.AddressSpace.Operations
import GuestMemory.Proofs.Kernel.Refusals

/-!
Answered calls: the alignment of their arguments, and the operation that they come to.
-/

namespace GuestMemory.Kernel

open GuestMemory.Action

variable {kernel after : Kernel} {current owner address size destination source : Nat}
variable {handle : Handle} {result : Commit}

structure WholePages (size : Nat) : Prop where
  aligned : size % pageSize = 0
  positive : 0 < size

theorem WholePages.mul_eq (whole : WholePages size) : size / pageSize * pageSize = size :=
  Nat.div_mul_cancel (Nat.dvd_of_mod_eq_zero whole.aligned)

theorem wholePages_iff : (isPageAligned size && decide (size ≠ 0)) = true ↔ WholePages size := by
  rw [Bool.and_eq_true, isPageAligned_iff, decide_eq_true_eq]
  exact ⟨fun ⟨aligned, nonzero⟩ => ⟨aligned, Nat.pos_of_ne_zero nonzero⟩,
    fun whole => ⟨whole.aligned, Nat.ne_of_gt whole.positive⟩⟩

theorem setPermission_eq_done {permission : Nat}
    (done : setPermission current handle address size permission kernel = .done result after) :
    address % pageSize = 0 ∧ WholePages size ∧ ∃ target granted,
      onSpace target (AddressSpace.setPermission address (size / pageSize) granted) kernel =
        .done result after := by
  simp only [setPermission, bind_eq_done, require_eq_done, expect_eq_done] at done
  obtain ⟨_, _, ⟨aligned, rfl⟩, _, _, ⟨whole, rfl⟩, _, _, ⟨_, rfl⟩, granted, _, ⟨_, rfl⟩, _, _,
    resolved, target, _, ⟨_, rfl⟩, acted⟩ := done
  obtain rfl := steady_resolve.of_done resolved
  obtain ⟨process, attached, listed, changed, rfl⟩ := onSpace_eq_done.mp acted
  obtain ⟨_, _, inside, changed⟩ := bind_eq_done.mp changed
  obtain rfl := AddressSpace.steady_requireInside.of_done inside
  exact ⟨isPageAligned_iff.mp aligned, wholePages_iff.mp whole, target, granted,
    onSpace_eq_done.mpr ⟨process, attached, listed, changed, rfl⟩⟩

/-- What is known of the arguments of a call about shared memory that have been looked at. -/
structure MemoryArguments (kernel : Kernel) (current destination : Nat) (handle : Handle)
    (source size owner : Nat) : Prop where
  destination_aligned : destination % pageSize = 0
  source_aligned : source % pageSize = 0
  whole : WholePages size
  resolved : resolveHandle current handle kernel = .done (some owner) kernel
  inside : onSpace owner (AddressSpace.requireInside source size) kernel = .done () kernel
  placed : onSpace current
    (AddressSpace.requirePlace destination size .sharedCode .invalidMemoryRegion) kernel =
      .done () kernel

theorem checkMemoryArguments_eq_done
    (checked : checkMemoryArguments current destination handle source size kernel =
      .done owner after) :
    MemoryArguments kernel current destination handle source size owner ∧ after = kernel := by
  have same := steady_checkMemoryArguments.of_done checked
  simp only [checkMemoryArguments, bind_eq_done, require_eq_done, expect_eq_done,
    pure_eq_done] at checked
  obtain ⟨_, _, ⟨first, rfl⟩, _, _, ⟨second, rfl⟩, _, _, ⟨whole, rfl⟩, _, _, ⟨_, rfl⟩, _, _,
    ⟨_, rfl⟩, found, _, resolved, _, _, ⟨rfl, rfl⟩, _, _, inside, _, _, placed, rfl, _⟩ := checked
  obtain rfl := steady_resolveHandle.of_done resolved
  obtain rfl := (steady_onSpace AddressSpace.steady_requireInside).of_done inside
  obtain rfl := (steady_onSpace AddressSpace.steady_requirePlace).of_done placed
  exact ⟨⟨isPageAligned_iff.mp first, isPageAligned_iff.mp second, wholePages_iff.mp whole,
    resolved, inside, placed⟩, same⟩

theorem mapMemory_eq_done
    (done : mapMemory current destination handle source size kernel = .done result after) :
    destination % pageSize = 0 ∧ source % pageSize = 0 ∧ WholePages size ∧ ∃ owner,
      mapShared ⟨current, destination⟩ ⟨owner, source⟩ (size / pageSize) kernel =
        .done result after := by
  obtain ⟨owner, _, checked, shared⟩ := bind_eq_done.mp done
  obtain ⟨arguments, rfl⟩ := checkMemoryArguments_eq_done checked
  exact ⟨arguments.destination_aligned, arguments.source_aligned, arguments.whole, owner, shared⟩

theorem unmapMemory_eq_done
    (done : unmapMemory current destination handle source size kernel = .done result after) :
    destination % pageSize = 0 ∧ source % pageSize = 0 ∧ WholePages size ∧ ∃ owner,
      unmapShared ⟨current, destination⟩ ⟨owner, source⟩ size kernel = .done result after := by
  obtain ⟨owner, _, checked, shared⟩ := bind_eq_done.mp done
  obtain ⟨arguments, rfl⟩ := checkMemoryArguments_eq_done checked
  exact ⟨arguments.destination_aligned, arguments.source_aligned, arguments.whole, owner, shared⟩

theorem requireBothAligned_eq_done {request : CodeRequest}
    (checked : requireBothAligned request destination source kernel = .done () after) :
    destination % pageSize = 0 ∧ source % pageSize = 0 := by
  cases request <;>
    simp only [requireBothAligned, requireAligned, bind_eq_done, require_eq_done] at checked
  · obtain ⟨_, _, ⟨second, rfl⟩, first, _⟩ := checked
    exact ⟨isPageAligned_iff.mp first, isPageAligned_iff.mp second⟩
  · obtain ⟨_, _, ⟨first, rfl⟩, second, _⟩ := checked
    exact ⟨isPageAligned_iff.mp first, isPageAligned_iff.mp second⟩

theorem checkCodeArguments_eq_done {request : CodeRequest}
    (checked : checkCodeArguments request current handle destination source size kernel =
      .done owner after) :
    destination % pageSize = 0 ∧ source % pageSize = 0 ∧ WholePages size ∧
      resolve current handle kernel = .done (some owner) kernel ∧ after = kernel := by
  have same := steady_checkCodeArguments.of_done checked
  simp only [checkCodeArguments, bind_eq_done, require_eq_done, expect_eq_done,
    pure_eq_done] at checked
  obtain ⟨_, _, aligned, _, _, ⟨whole, rfl⟩, _, _, ⟨_, rfl⟩, _, _, ⟨_, rfl⟩, found, _, resolved,
    target, _, ⟨rfl, rfl⟩, _, _, _, _, _, _, _, _, _, _, _, _, _, _, _, rfl, _⟩ := checked
  obtain ⟨first, second⟩ := requireBothAligned_eq_done aligned
  obtain rfl := steady_requireBothAligned.of_done aligned
  obtain rfl := steady_resolve.of_done resolved
  exact ⟨first, second, wholePages_iff.mp whole, resolved, same⟩

theorem mapCode_eq_done
    (done : mapCode current handle destination source size kernel = .done result after) :
    destination % pageSize = 0 ∧ source % pageSize = 0 ∧ WholePages size ∧ ∃ target,
      onSpace target (AddressSpace.mapCode destination source size) kernel =
        .done result after := by
  obtain ⟨target, _, checked, acted⟩ := bind_eq_done.mp done
  obtain ⟨first, second, whole, _, rfl⟩ := checkCodeArguments_eq_done checked
  exact ⟨first, second, whole, target, acted⟩

theorem unmapCode_eq_done
    (done : unmapCode current handle destination source size kernel = .done result after) :
    destination % pageSize = 0 ∧ source % pageSize = 0 ∧ WholePages size ∧ ∃ target strategy,
      onSpace target (AddressSpace.unmapCode destination source size strategy) kernel =
        .done result after := by
  obtain ⟨target, _, checked, acted⟩ := bind_eq_done.mp done
  obtain ⟨first, second, whole, _, rfl⟩ := checkCodeArguments_eq_done checked
  obtain ⟨config, _, viewed, acted⟩ := bind_eq_done.mp acted
  obtain ⟨_, rfl⟩ := read_eq_done.mp viewed
  exact ⟨first, second, whole, target, _, acted⟩

theorem mapShared_eq_done {target origin : Place} {pages : Nat}
    (done : mapShared target origin pages kernel = .done result after) :
    ∃ group held mapped,
      onSpace origin.process (AddressSpace.makeHeldGroup origin.address pages
        (.hasFlags .canMapProcess)) kernel = .done group held ∧
      onSpace target.process
        (AddressSpace.mapGroup target.address group .sharedCode .userReadWrite) held =
        .done result mapped ∧
      changeResources group.discard mapped = .ok after := by
  obtain ⟨group, held, grouped, ended⟩ := bind_eq_done.mp done
  obtain ⟨mapped, acted, discarded⟩ := ensuring_eq_done.mp ended
  exact ⟨group, held, mapped, grouped, acted, discarded⟩

theorem unmapShared_eq_done {target origin : Place}
    (done : unmapShared target origin size kernel = .done result after) :
    ∃ group made removed,
      onSpace target.process (AddressSpace.checkRange target.address size
        ((Check.exactly .sharedCode).withPermission .userReadWrite .userReadWrite)) kernel =
        .done () kernel ∧
      onSpace origin.process (AddressSpace.checkRange origin.address size
        (.hasFlags .canMapProcess)) kernel = .done () kernel ∧
      onSpace origin.process (AddressSpace.makeGroup origin.address (size / pageSize)) kernel =
        .done group made ∧
      onSpace target.process (do
        let same ← AddressSpace.isBackedBy group target.address (size / pageSize)
        Action.require same (.plain .invalidCurrentMemory)
        AddressSpace.unmapRange target.address (size / pageSize)) made = .done () removed ∧
      changeResources group.discard removed = .ok after := by
  simp only [unmapShared, bind_eq_done, ensuring_eq_done] at done
  obtain ⟨_, _, checked, _, _, lent, group, made, grouped, removed, acted, discarded⟩ := done
  obtain rfl := (steady_onSpace AddressSpace.steady_checkRange).of_done checked
  obtain rfl := (steady_onSpace AddressSpace.steady_checkRange).of_done lent
  obtain ⟨process, attached, listed, ended, rfl⟩ := onSpace_eq_done.mp acted
  simp only [bind_eq_done] at ended
  obtain ⟨same, _, compared, _, _, required, _, _, erased, committed⟩ := ended
  obtain rfl := AddressSpace.steady_commit.of_done committed
  refine ⟨group, made, _, checked, lent, grouped, onSpace_eq_done.mpr ⟨process, _, listed, ?_, rfl⟩,
    discarded⟩
  simp only [bind_eq_done]
  exact ⟨same, _, compared, _, _, required, erased⟩

end GuestMemory.Kernel
