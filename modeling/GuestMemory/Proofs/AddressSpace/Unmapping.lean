import GuestMemory.Proofs.FramePool.Returning
import GuestMemory.Proofs.Kernel.Canonicity

/-!
Unmapping: pages that pass the check are always unmapped, even if the last references to the frames
behind them go. Pages that have just been mapped are such pages, and then are what they were.
-/

namespace GuestMemory.AddressSpace

open GuestMemory.Action

variable {allowed : Fault → Prop} {attached middle : AttachedSpace} {extent : Run}
variable {address pages : Nat} {state : MemoryState} {permission : UserPermission}
variable {result : Commit}

theorem meets_exactly (state : MemoryState) (permission : KernelPermission) :
    (Check.exactly state).Meets (.plain state permission) :=
  ⟨decide_eq_true rfl, congrArg KernelPermission.mk UInt8.and_zero,
    show Attributes.empty &&& .all = .empty by decide⟩

namespace FaultGuarded

variable (guarded : FaultGuarded allowed extent attached)
variable (spaced : Run.Spaced attached.resources.frames.free) (fits : extent.stop < wordLimit)

include guarded

/-- The references to the frames behind a range are there to be dropped. -/
theorem holds_of_runs {found : Option (List Run)}
    (listed : attached.space.directory.runs address pages = .ok found) :
    attached.resources.frames.Holds (Run.framesOf (found.getD [])) := by
  intro frame
  cases found with
  | none => exact Nat.zero_le _
  | some runs =>
      have backs := (Directory.runs_eq_some listed).2
      exact (Directory.count_le_card_pagesOn backs frame).trans (guarded.shown_le frame)

include spaced fits

theorem unmapRange_exists (aligned : address % pageSize = 0) (nonempty : 0 < pages)
    (covers : attached.space.blocks.region.Covers address pages) :
    ∃ after, unmapRange address pages attached = .done () after := by
  obtain ⟨found, listed⟩ := (Directory.safe_runs (.inr fits) guarded.lies).exists_of_none
  obtain ⟨frames, released⟩ :=
    guarded.frames.releaseAll_exists spaced fits (guarded.holds_of_runs listed)
  exact unmapRange_of_releaseAll guarded.coherent aligned nonempty covers listed released

/-- Pages inside the address space that are all in the state and unmarked can be unmapped. -/
theorem unmapPages_exists (aligned : address % pageSize = 0)
    (inside : attached.space.layout.contains address (pages * pageSize) = .ok true)
    (meets : ∀ number, Within (pageOf address) pages number →
      (Check.exactly state).Meets (attached.space.page number).properties) :
    ∃ result after, unmapPages address pages state attached = .done result after := by
  have coherent := guarded.coherent
  obtain ⟨bounded, _, _, upper⟩ := Region.contains_eq_true inside
  obtain ⟨nonempty, covers⟩ := covers_of_contains coherent inside
  obtain ⟨final, removed⟩ := guarded.unmapRange_exists spaced fits aligned nonempty covers
  obtain ⟨result, committed⟩ :
      ∃ result, commit .unmapPages address pages final = .done result final :=
    commit_exists (coherent.unmapRange removed).wellFormed .unmapPages
  refine ⟨result, bind_exists (rangeSize_of_fits (Nat.lt_of_le_of_lt upper bounded))
    (bind_exists (requireInside_of_contains inside) (bind_exists
      (checkRange_of_meets coherent aligned nonempty covers meets) (bind_exists removed
        ⟨final, committed⟩)))⟩

end FaultGuarded

theorem resources_of_mapPages
    (mapped : mapPages address pages state permission attached = .done result middle) :
    middle.resources = { attached.resources with frames := middle.resources.frames } := by
  obtain ⟨_, _, _, _, _, _, _, _, _, rfl⟩ := mapPages_eq_done mapped
  rfl

theorem resources_of_unmapPages
    (unmapped : unmapPages address pages state attached = .done result middle) :
    middle.resources = { attached.resources with frames := middle.resources.frames } := by
  obtain ⟨_, _, _, _, _, _, _, _, rfl⟩ := unmapRange_eq_done (unmapPages_eq_done unmapped).2
  rfl

/-- Pages that have just been mapped can be unmapped, and then the address space is what it was. -/
theorem unmapPages_of_mapPages (coherent : attached.space.Coherent)
    (orderly : attached.space.Orderly) (layout : attached.space.layout.WellFormed)
    (mapped : mapPages address pages state permission attached = .done result middle)
    (guarded : FaultGuarded allowed extent middle)
    (spaced : Run.Spaced middle.resources.frames.free) (fits : extent.stop < wordLimit) :
    ∃ answer final, unmapPages address pages state middle = .done answer final ∧
      final.space = attached.space := by
  obtain ⟨used, rebuilt, physical, _, vacant, shown, same⟩ :=
    shows_of_mapPages coherent orderly mapped
  have aligned : address % pageSize = 0 := by
    obtain ⟨_, _, _, _, _, _, _, translated, _⟩ := mapPages_eq_done mapped
    exact Directory.aligned_of_map translated
  have inside : middle.space.layout.contains address (pages * pageSize) = .ok true := by
    have placed := canContain_of_mapPages mapped
    obtain ⟨nonempty, lower, upper⟩ := layout.within_of_canContain placed
    rw [rebuilt.layout_eq, Layout.contains, Region.contains_of_fits layout.fits, decide_eq_true]
    exact ⟨nonempty, Nat.lt_of_le_of_lt upper layout.fits, lower, upper⟩
  simp only [Run.length_frames] at vacant same
  have plain (number : Nat) (inside : Within (pageOf address) pages number) :
      (middle.space.page number).properties = .plain state permission.toKernel :=
    shown.kind_of_within (by rwa [Run.length_frames])
  have meets (number : Nat) (inside : Within (pageOf address) pages number) :
      (Check.exactly state).Meets (middle.space.page number).properties :=
    plain number inside ▸ meets_exactly state _
  obtain ⟨answer, final, unmapped⟩ := guarded.unmapPages_exists spaced fits aligned inside meets
  obtain ⟨_, removed⟩ := unmapPages_eq_done unmapped
  have unmarked (number : Nat) (inside : Within (pageOf address) pages number) :
      Unmarked (· = state) (middle.space.page number).properties :=
    ⟨state, _, rfl, plain number inside⟩
  obtain ⟨blank, untouched⟩ := blank_of_unmapRange guarded.coherent unmarked removed
  obtain ⟨blocks, directory, moved⟩ := rebuilt.trans (rebuilt_of_unmapRange removed)
  refine ⟨answer, final, unmapped, coherent.ext (guarded.coherent.unmapRange removed)
    (by rw [moved]) (by rw [moved]) fun number => ?_⟩
  by_cases inside : Within (pageOf address) pages number
  · rw [blank number inside, vacant number inside]
  · rw [untouched number inside, same number inside]

end GuestMemory.AddressSpace
