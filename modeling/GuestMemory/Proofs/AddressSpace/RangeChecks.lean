import GuestMemory.Proofs.AddressSpace.Views
import GuestMemory.Proofs.Layout.Bytes
import GuestMemory.Proofs.Partition.Encoding

/-!
Checks of ranges, whatever the range: a range meets the blocks that have a byte in it, and a check
lets it pass exactly if it meets the region at all and every page with a byte in it passes. Ranges
need not start at pages, nor lie in the region, nor end before the last address.
-/

namespace GuestMemory

open GuestMemory.Action GuestMemory.Block

variable {address size number : Nat} {block : Block} {blocks met : List Block}

/-- The bytes of a block. -/
def Block.bytes (block : Block) : Region :=
  ⟨block.start, block.size⟩

/-- The bytes of a page. -/
def Region.ofPage (number : Nat) : Region :=
  ⟨number * pageSize, pageSize⟩

theorem Region.has_ofPage_iff : (ofPage number).Has address ↔ pageOf address = number := by
  simp only [Has, stop, ofPage, pageOf, pageSize_eq]
  omega

namespace Partition.WellFormed

variable {partition : Partition} (wellFormed : partition.WellFormed)

include wellFormed

/-- Which blocks a range with a byte meets. -/
theorem overlapping_eq_meets (positive : 0 < size) :
    partition.overlapping address size =
      .ok (partition.blocks.filter fun block => (⟨address, size⟩ : Region).Meets block.bytes) := by
  rw [wellFormed.overlapping_eq]
  refine congrArg Except.ok (List.filter_congr fun block member => decide_eq_decide.mpr ?_)
  have pages := wellFormed.tiles.pages_pos member
  rw [Region.meets_iff]
  simp only [Block.bytes, Region.stop, Block.stop, Block.size, pageSize_eq]
  omega

section Met

variable (positive : 0 < size) (answered : partition.overlapping address size = .ok met)

include positive answered

theorem mem_met_iff :
    block ∈ met ↔ block ∈ partition.blocks ∧ (⟨address, size⟩ : Region).Meets block.bytes := by
  obtain rfl := Except.ok.inj ((wellFormed.overlapping_eq_meets positive).symm.trans answered)
  rw [List.mem_filter, decide_eq_true_eq]

theorem met_rises : met.Pairwise fun block next => block.start < next.start := by
  obtain rfl := Except.ok.inj ((wellFormed.overlapping_eq_meets positive).symm.trans answered)
  exact wellFormed.tiles.starts_increase.filter _

/-- A range meets a block exactly if it shares a byte with the region. -/
theorem met_ne_nil_iff : met ≠ [] ↔ (⟨address, size⟩ : Region).Meets partition.region := by
  constructor
  · intro some
    obtain ⟨block, member⟩ := List.exists_mem_of_ne_nil met some
    obtain ⟨member, byte, inRange, lower, upper⟩ :=
      (wellFormed.mem_met_iff positive answered).mp member
    obtain ⟨first, _, last⟩ := wellFormed.bounds_of_mem member
    exact ⟨byte, inRange, Nat.le_trans first lower, Nat.lt_of_lt_of_le upper last⟩
  · rintro ⟨byte, inRange, lower, upper⟩
    obtain ⟨block, member, _, holds⟩ := wellFormed.find_eq_some lower upper
    exact List.ne_nil_of_mem
      ((wellFormed.mem_met_iff positive answered).mpr ⟨member, byte, inRange, holds⟩)

/-- Something holds of all blocks that a range meets exactly if it holds of all pages of the region
that the range meets. -/
theorem forall_met_iff (property : Properties → Prop) :
    (∀ block ∈ met, property block.properties) ↔
      ∀ number, partition.region.Has (number * pageSize) →
        (⟨address, size⟩ : Region).Meets (.ofPage number) →
        ∃ properties, partition.at? number = some properties ∧ property properties := by
  constructor
  · rintro holds number inside ⟨byte, inRange, onPage⟩
    obtain rfl := Region.has_ofPage_iff.mp onPage
    obtain ⟨properties, here⟩ := Option.isSome_iff_exists.mp (wellFormed.isSome_at?.mpr inside)
    obtain ⟨block, member, page, rfl⟩ := wellFormed.at?_eq_some_iff.mp here
    have inBlock := (wellFormed.holds_pageOf_iff member).mp page
    exact ⟨_, here, holds block ((wellFormed.mem_met_iff positive answered).mpr
      ⟨member, byte, inRange, inBlock⟩)⟩
  · intro holds block member
    obtain ⟨member, byte, inRange, inBlock⟩ :=
      (wellFormed.mem_met_iff positive answered).mp member
    have here := wellFormed.at?_of_holds member ((wellFormed.holds_pageOf_iff member).mpr inBlock)
    have inside := wellFormed.isSome_at?.mp (Option.isSome_of_eq_some here)
    obtain ⟨properties, found, passes⟩ :=
      holds (pageOf byte) inside ⟨byte, inRange, Region.has_ofPage_iff.mpr rfl⟩
    cases here.symm.trans found
    exact passes

end Met

end Partition.WellFormed

namespace AddressSpace

variable {attached : AttachedSpace} {check : Check}

/-- How a check ends is settled by the blocks that the range meets. -/
theorem checkRange_eq (answered : attached.space.blocks.overlapping address size = .ok met) :
    checkRange address size check attached =
      if met = [] then .refused (.plain .invalidCurrentMemory) attached
      else match met.find? fun block => !check.accepts block with
        | none => .done () attached
        | some block => .refused (.failedCheck attached.space.id block check) attached := by
  by_cases none : met = []
  · simp [checkRange, answered, none]
  · cases failing : met.find? fun block => !check.accepts block <;>
      simp [checkRange, answered, none, failing]

theorem checkRange_of_accepted
    (answered : attached.space.blocks.overlapping address size = .ok met)
    (accepted : met ≠ [] ∧ ∀ block ∈ met, check.Meets block.properties) :
    checkRange address size check attached = .done () attached := by
  obtain ⟨some, accepted⟩ := accepted
  have passing : met.find? (fun block => !check.accepts block) = none :=
    List.find?_eq_none.mpr fun block member => by
      simpa using Check.accepts_iff.mpr (accepted block member)
  rw [checkRange_eq answered, if_neg some, passing]

theorem checkRange_of_rejected
    (answered : attached.space.blocks.overlapping address size = .ok met)
    (rejected : ¬ (met ≠ [] ∧ ∀ block ∈ met, check.Meets block.properties)) :
    ∃ cause, checkRange address size check attached = .refused cause attached ∧
      cause.error = .invalidCurrentMemory := by
  rw [checkRange_eq answered]
  by_cases none : met = []
  · exact ⟨_, if_pos none, rfl⟩
  · cases failing : met.find? fun block => !check.accepts block with
    | some block => exact ⟨_, if_neg none, rfl⟩
    | none =>
        refine absurd ⟨none, fun block member => Check.accepts_iff.mp ?_⟩ rejected
        simpa using List.find?_eq_none.mp failing block member

open GuestMemory.Partition in
/-- In every partition that operations on ranges of pages can lead to, a range that is not empty
meets exactly the blocks that share a byte with it, listed once each by rising start. A check lets
the range pass if the range shares a byte with the region and all pages of the region that share one
with the range meet the check; otherwise the request is refused. -/
theorem range_checks_are_exact {region : Region} {operations : List RangeOperation}
    {after : Partition} (aligned : region.base % pageSize = 0)
    (whole : region.size % pageSize = 0) (nonempty : 0 < region.size)
    (fits : region.stop < wordLimit)
    (ranges : ∀ operation ∈ operations, operation.address % pageSize = 0)
    (ran : operations.foldlM (fun partition operation => operation.onBlocks partition)
      (ofRegion region) = .ok after)
    (address size : Nat) (positive : 0 < size) :
    let range : Region := ⟨address, size⟩
    (∃ met, after.overlapping address size = .ok met ∧
      met.Pairwise (fun block next => block.start < next.start) ∧
      ∀ block, block ∈ met ↔ block ∈ after.blocks ∧ range.Meets block.bytes) ∧
    ∀ (attached : AttachedSpace) (check : Check), attached.space.blocks = after →
      let passes := range.Meets region ∧
        ∀ number, region.Has (number * pageSize) → range.Meets (.ofPage number) →
          ∃ properties, after.at? number = some properties ∧ check.Meets properties
      (passes → checkRange address size check attached = .done () attached) ∧
      (¬ passes → ∃ cause, checkRange address size check attached = .refused cause attached ∧
        cause.error = .invalidCurrentMemory) := by
  intro range
  have initial := ofRegion_wellFormed aligned whole nonempty fits
  obtain ⟨same, wellFormed, _⟩ := initial.array_of_operations ranges ran
  have same : after.region = region := same
  have answered : after.overlapping address size = .ok _ :=
    wellFormed.overlapping_eq_meets positive
  refine ⟨⟨_, answered, wellFormed.met_rises positive answered,
    fun block => wellFormed.mem_met_iff positive answered⟩, ?_⟩
  rintro attached check rfl
  have passes_iff := and_congr (wellFormed.met_ne_nil_iff positive answered)
    (wellFormed.forall_met_iff positive answered check.Meets)
  rw [same] at passes_iff
  exact ⟨fun passes => checkRange_of_accepted answered (passes_iff.mpr passes),
    fun fails => checkRange_of_rejected answered fun accepted => fails (passes_iff.mp accepted)⟩

open GuestMemory.Partition in
/-- The last byte of an ordinary page passes a check for ordinary memory, but not together with all
the bytes after it, which go past the last address. -/
theorem range_checks_are_exact_past_the_end :
    ∃ after, sampleOperations.foldlM (fun partition operation => operation.onBlocks partition)
        (ofRegion ⟨0x100000, 0x10000⟩) = .ok after ∧
      (∃ met, after.overlapping 0x105FFF 0xFFFFFFFFFFFFFFFF = .ok met ∧
        ∀ block, block ∈ met ↔ block ∈ after.blocks ∧
          (⟨0x105FFF, 0xFFFFFFFFFFFFFFFF⟩ : Region).Meets block.bytes) ∧
      ∀ attached : AttachedSpace, attached.space.blocks = after →
        checkRange 0x105FFF 1 (.exactly .normal) attached = .done () attached ∧
        ∃ cause, checkRange 0x105FFF 0xFFFFFFFFFFFFFFFF (.exactly .normal) attached =
          .refused cause attached := by
  obtain ⟨after, ran, used, unused⟩ : ∃ after,
      sampleOperations.foldlM (fun partition operation => operation.onBlocks partition)
        (ofRegion ⟨0x100000, 0x10000⟩) = .ok after ∧
      after.at? 0x105 = some ⟨.normal, .userReadWrite, .empty, 0⟩ ∧
      after.at? 0x106 = some .free := by
    have shown : (do
        let after ← sampleOperations.foldlM (fun partition operation =>
          operation.onBlocks partition) (ofRegion ⟨0x100000, 0x10000⟩)
        return (after.at? 0x105, after.at? 0x106) : Checked _) =
        .ok (some ⟨.normal, .userReadWrite, .empty, 0⟩, some .free) := by
      decide +kernel
    obtain ⟨after, ran, shown⟩ := Checked.bind_eq_ok.mp shown
    exact ⟨after, ran, Prod.mk.inj (Except.ok.inj shown)⟩
  have exact (address size : Nat) (positive : 0 < size) :=
    range_checks_are_exact (by decide) (by decide) (by decide) (by decide) (by decide) ran address
      size positive
  obtain ⟨_, byte⟩ := exact 0x105FFF 1 (by decide)
  obtain ⟨⟨met, answered, _, members⟩, rest⟩ := exact 0x105FFF 0xFFFFFFFFFFFFFFFF (by decide)
  refine ⟨after, ran, ⟨met, answered, members⟩, fun attached same => ⟨?_, ?_⟩⟩
  · refine (byte attached (.exactly .normal) same).1 ⟨by decide, ?_⟩
    rintro number _ ⟨address, inRange, onPage⟩
    obtain rfl : number = 0x105 := by
      rw [← Region.has_ofPage_iff.mp onPage]
      obtain ⟨lower, upper⟩ := inRange
      simp only [Region.stop, pageOf, pageSize_eq] at *
      omega
    exact ⟨_, used, by decide, by decide, by decide⟩
  · obtain ⟨cause, refused, _⟩ := (rest attached (.exactly .normal) same).2 (by
      rintro ⟨_, passes⟩
      obtain ⟨properties, found, meets⟩ := passes 0x106 (by decide) (by decide)
      cases unused.symm.trans found
      exact absurd meets.state (by decide))
    exact ⟨cause, refused⟩

end AddressSpace

end GuestMemory
