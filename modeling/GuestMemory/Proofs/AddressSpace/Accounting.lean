import GuestMemory.Proofs.AddressSpace.Views
import GuestMemory.Proofs.FramePool.Allocation

/-!
Frame accounting for one address space: an operation adds and drops as many references to a frame
as it adds and removes translations to it.
-/

namespace GuestMemory.AddressSpace

open GuestMemory.Action

variable {attached made after : AttachedSpace} {space : AddressSpace} {properties : Properties}
variable {address pages page destination source size frame : Nat} {state : MemoryState}
variable {permission : KernelPermission} {group : PageGroup} {runs : List Run} {check : Check}
variable {result : Commit} {directory : Directory} {blocks : Partition} {extent : Run}

/-- The references to each frame have changed by as much as the translations to it, and the
descriptors are those from before. -/
structure Balanced (extent : Run) (before after : AttachedSpace) : Prop where
  wellFormed : after.resources.frames.WellFormed extent
  contents_eq : after.resources.descriptors.contents = before.resources.descriptors.contents
  balance : ∀ frame : Nat,
    after.resources.frames.held frame + (before.space.directory.pagesOn frame).card =
      before.resources.frames.held frame + (after.space.directory.pagesOn frame).card

theorem balanced_mapPages (wellFormed : attached.resources.frames.WellFormed extent)
    {permission : UserPermission}
    (mapped : mapPages address pages state permission attached = .done result after) :
    Balanced extent attached after := by
  obtain ⟨_, _, physical, blocks, directory, frames, allocated, translated, _, rfl⟩ :=
    mapPages_eq_done mapped
  obtain ⟨kept, gained⟩ := wellFormed.allocate allocated (Directory.addressable_of_map translated)
  refine ⟨kept, rfl, fun frame => ?_⟩
  have shown := (Directory.gains_of_map translated).card_pagesOn frame
  have held := gained frame
  simp only [changed, Run.frames] at *
  omega

/-- Placing a group adds a reference to each of its frames for each page that shows it. -/
theorem placeGroup_accounts
    (placed : placeGroup address group state permission attached = .done () after)
    (wellFormed : attached.resources.frames.WellFormed extent)
    (held : group.runs attached.resources.descriptors = .ok runs) :
    Balanced extent attached after ∧
      after.resources.descriptors = attached.resources.descriptors ∧
      (∀ frame, after.resources.frames.held frame =
        attached.resources.frames.held frame + (Run.framesOf runs).count frame) ∧
      ∀ frame ∈ Run.framesOf runs, attached.resources.frames.held frame ≠ 0 := by
  obtain ⟨listed, blocks, directory, frames, found, retained, gains, _, rfl⟩ :=
    placeGroup_eq_done placed
  obtain rfl := Except.ok.inj (found.symm.trans held)
  obtain ⟨kept, gained⟩ := wellFormed.retainAll retained
  refine ⟨⟨kept, rfl, fun frame => ?_⟩, rfl, gained, fun frame member => ?_⟩
  · have shown := gains.card_pagesOn frame
    have held := gained frame
    simp only [changed] at *
    omega
  · rw [Ne, wellFormed.positive.held_eq_zero_iff]
    exact (FramePool.retains_of_retainAll retained).gains.allocated frame member

/-- Unmapping drops a reference to each frame behind the range for each page that showed it. -/
theorem unmapRange_accounts (unmapped : unmapRange address pages attached = .done () after)
    (wellFormed : attached.resources.frames.WellFormed extent)
    (listed : attached.space.directory.runs address pages = .ok (some runs)) :
    Balanced extent attached after ∧
      after.resources.descriptors = attached.resources.descriptors ∧
      (∀ frame, after.resources.frames.held frame + (Run.framesOf runs).count frame =
        attached.resources.frames.held frame) ∧
      ∀ page, after.space.directory.frameAt? page =
        if pageOf address ≤ page ∧ page < pageOf address + pages then none
        else attached.space.directory.frameAt? page := by
  obtain ⟨found, blocks, directory, frames, same, erased, released, _, rfl⟩ :=
    unmapRange_eq_done unmapped
  obtain rfl := Except.ok.inj (same.symm.trans listed)
  obtain ⟨kept, dropped⟩ := wellFormed.releaseAll released
  obtain ⟨length, backs⟩ := Directory.runs_eq_some listed
  have gone := Directory.frameAt?_unmap erased
  refine ⟨⟨kept, rfl, fun frame => ?_⟩, rfl, dropped, gone⟩
  rw [← length] at gone
  have shown := Directory.card_pagesOn_of_erased backs gone frame
  have held := dropped frame
  simp only [changed, Option.getD_some] at *
  omega

/-- A range in one state has translations for all of its pages or for none. -/
theorem Coherent.uniform (coherent : attached.space.Coherent)
    {change : Properties → Checked Properties} (aligned : address % pageSize = 0)
    (updates : attached.space.blocks.Updates address pages change blocks)
    (checked : checkRange address (pages * pageSize) (.exactly state) attached = .done () attached)
    (lower : pageOf address ≤ page) (upper : page < pageOf address + pages) :
    attached.space.directory.frameAt? page = none ↔ ¬ state.has .mapped = true := by
  obtain ⟨properties, _, here, _⟩ := updates.at?_inside coherent.wellFormed aligned lower upper
  have accepted := coherent.accepted aligned checked lower upper here
  obtain rfl : properties.state = state := of_decide_eq_true accepted.state
  exact coherent.frameAt?_eq_none_iff here

theorem balanced_unmapPages (coherent : attached.space.Coherent)
    (wellFormed : attached.resources.frames.WellFormed extent)
    (unmapped : unmapPages address pages state attached = .done result after) :
    Balanced extent attached after := by
  obtain ⟨checked, removed⟩ := unmapPages_eq_done unmapped
  obtain ⟨found, blocks, directory, frames, listed, erased, released, assigned, same⟩ :=
    unmapRange_eq_done removed
  cases found with
  | some runs => exact (unmapRange_accounts removed wellFormed listed).1
  | none =>
      -- One page without a translation is enough for nothing to be released.
      have aligned := Directory.aligned_of_unmap erased
      have updates := coherent.wellFormed.updates aligned assigned
      obtain ⟨missing, lower, upper, absent⟩ := Directory.collectRuns_eq_none listed
      have unmappedState := (coherent.uniform aligned updates checked lower upper).mp
        (by rw [Directory.frameAt?, absent]; rfl)
      have gone (page : Nat) :
          directory.frameAt? page = attached.space.directory.frameAt? page := by
        rw [Directory.frameAt?_unmap erased]
        split
        · rename_i inside
          have none := coherent.uniform aligned updates checked inside.1 inside.2
          exact (none.mpr unmappedState).symm
        · rfl
      cases released
      subst same
      refine ⟨wellFormed, rfl, fun frame => ?_⟩
      have shown : directory.pagesOn frame = attached.space.directory.pagesOn frame := by
        ext page
        rw [Directory.mem_pagesOn, Directory.mem_pagesOn, gone]
      simp only [changed, shown]

theorem pagesOn_protect
    (reprotected : space.directory.protect address pages permission = .ok directory) (frame : Nat) :
    directory.pagesOn frame = space.directory.pagesOn frame := by
  ext page
  rw [Directory.mem_pagesOn, Directory.mem_pagesOn, Directory.frameAt?_protect reprotected]

theorem balanced_setPermission (wellFormed : attached.resources.frames.WellFormed extent)
    {permission : UserPermission}
    (done : setPermission address pages permission attached = .done result after) :
    Balanced extent attached after ∧ after.resources.frames = attached.resources.frames := by
  obtain ⟨blocks, directory, _, _, reprotected, space, frames, descriptors, _⟩ :=
    setPermission_eq_done done
  refine ⟨⟨by rw [frames]; exact wellFormed, by rw [descriptors], fun frame => ?_⟩, frames⟩
  rw [frames, space, pagesOn_protect reprotected]

/-- A code alias adds references only to frames that have some. -/
theorem mapCode_accounts (sound : Sound attached)
    (wellFormed : attached.resources.frames.WellFormed extent)
    (done : mapCode destination source size attached = .done result after) :
    Balanced extent attached after ∧ ∃ frames : List Nat,
      (∀ frame, after.resources.frames.held frame =
        attached.resources.frames.held frame + frames.count frame) ∧
      ∀ frame ∈ frames, attached.resources.frames.held frame ≠ 0 := by
  obtain ⟨group, made, blocks, directory, placed, _, _, _, grouped, locked, hidden, mapped,
    discarded⟩ := mapCode_eq_done done
  obtain ⟨unheld, frames, runs, groups⟩ := makeGroup_eq_done sound grouped
  obtain ⟨resources, given, rfl⟩ := discard_eq_ok discarded
  rw [groups.space_eq] at hidden
  have lent :
      (changed made blocks directory made.resources.frames).resources.frames.WellFormed extent := by
    simp only [changed, frames]
    exact wellFormed
  obtain ⟨balanced, descriptors, gained, held⟩ :=
    placeGroup_accounts mapped lent groups.occupies.held
  obtain ⟨contents, _, same⟩ := groups.of_discard_unheld unheld descriptors given
  simp only [changed, frames] at balanced gained held
  refine ⟨⟨by rw [same]; exact balanced.wellFormed, contents, fun frame => ?_⟩, Run.framesOf runs,
    fun frame => ?_, held⟩
  · have balance := balanced.balance frame
    rw [pagesOn_protect hidden] at balance
    rw [same]
    exact balance
  · rw [same]
    exact gained frame

/-- A page of a range has the frame that stands at its place in the list behind the range. -/
theorem exists_page_of_backs {frames : List Nat} {first : Nat}
    (backs : space.directory.Backs first frames) (member : frame ∈ frames) :
    ∃ page, first ≤ page ∧ page < first + frames.length ∧
      space.directory.frameAt? page = some frame := by
  have listed : some frame ∈ frames.map some := List.mem_map_of_mem member
  rw [← backs, List.mem_map] at listed
  obtain ⟨page, within, shown⟩ := listed
  rw [List.mem_range'_1] at within
  exact ⟨page, within.1, within.2, shown⟩

/-- Taking an alias away leaves its frames behind the source. -/
theorem unmapCode_accounts (sound : Sound attached) (coherent : attached.space.Coherent)
    (wellFormed : attached.resources.frames.WellFormed extent) (first : destination % pageSize = 0)
    (second : source % pageSize = 0) (whole : size / pageSize * pageSize = size)
    {strategy : InvalidationStrategy}
    (done : unmapCode destination source size strategy attached = .done result after) :
    Balanced extent attached after ∧ ∃ frames : List Nat,
      (∀ frame, after.resources.frames.held frame + frames.count frame =
        attached.resources.frames.held frame) ∧
      ∀ frame ∈ frames, ∃ page, after.space.directory.frameAt? page = some frame := by
  obtain ⟨group, made, _, removed, blocks, directory, last, checked, lent, grouped, compared, _,
    erased, _, shown, space, frames, descriptors, _, discarded⟩ := unmapCode_eq_done done
  obtain ⟨unheld, unchanged, runs, groups⟩ := makeGroup_eq_done sound grouped
  obtain ⟨resources, given, rfl⟩ := discard_eq_ok discarded
  obtain ⟨listed, held, behind⟩ := isBackedBy_eq_done compared
  obtain rfl := Except.ok.inj (held.symm.trans groups.occupies.held)
  obtain ⟨balanced, same, dropped, gone⟩ :=
    unmapRange_accounts erased (by rw [unchanged]; exact wellFormed) behind
  obtain ⟨contents, _, kept⟩ := groups.of_discard_unheld unheld (descriptors.trans same) given
  have final : resources.frames = removed.resources.frames := kept.trans frames
  have last (frame : Nat) : last.space.directory.pagesOn frame =
      removed.space.directory.pagesOn frame := by
    rw [space, pagesOn_protect shown]
  rw [unchanged] at dropped
  refine ⟨⟨by rw [final]; exact balanced.wellFormed, contents, fun frame => ?_⟩,
    Run.framesOf listed, fun frame => ?_, fun frame member => ?_⟩
  · have balance := balanced.balance frame
    rw [groups.space_eq, unchanged] at balance
    rw [final, last]
    exact balance
  · rw [final]
    exact dropped frame
  · obtain ⟨page, lower, upper, backed⟩ := exists_page_of_backs groups.backs member
    rw [groups.length_eq] at upper
    rw [← whole] at checked lent
    have apart := coherent.apart first second lent checked
      (fun state => by cases state <;> decide) (by rw [backed]; exact Option.some_ne_none _) lower
      upper
    refine ⟨page, ?_⟩
    rw [← Directory.mem_pagesOn, last, Directory.mem_pagesOn, gone, if_neg apart, groups.space_eq]
    exact backed

end GuestMemory.AddressSpace
