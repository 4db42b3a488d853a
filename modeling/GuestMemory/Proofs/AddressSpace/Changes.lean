import GuestMemory.AddressSpace.Pages
import GuestMemory.Proofs.AddressSpace.Guards
import GuestMemory.Proofs.PageGroup

/-!
What the parts of the operations on an address space change: blocks, translations and frames are
each changed by one operation of their own.
-/

namespace GuestMemory.AddressSpace

open GuestMemory.Action

variable {attached after : AttachedSpace} {address pages : Nat} {state : MemoryState}
variable {permission : KernelPermission} {group : PageGroup} {runs : List Run} {answer : Unit}

def changed (attached : AttachedSpace) (blocks : Partition) (directory : Directory)
    (frames : FramePool) : AttachedSpace :=
  ⟨{ attached.space with blocks, directory }, { attached.resources with frames }⟩

theorem changeBlocks_eq_done {change : Partition → Checked Partition} :
    changeBlocks change attached = .done answer after ↔
      ∃ blocks, change attached.space.blocks = .ok blocks ∧
        changed attached blocks attached.space.directory attached.resources.frames = after := by
  simp only [changeBlocks, update_eq_done, Checked.bind_eq_ok, Checked.pure_eq_ok]
  rfl

theorem changeDirectory_eq_done {change : Directory → Checked Directory} :
    changeDirectory change attached = .done answer after ↔
      ∃ directory, change attached.space.directory = .ok directory ∧
        changed attached attached.space.blocks directory attached.resources.frames = after := by
  simp only [changeDirectory, update_eq_done, Checked.bind_eq_ok, Checked.pure_eq_ok]
  rfl

theorem changeFrames_eq_done {change : FramePool → Checked FramePool} :
    changeFrames change attached = .done answer after ↔
      ∃ frames, change attached.resources.frames = .ok frames ∧
        changed attached attached.space.blocks attached.space.directory frames = after := by
  simp only [changeFrames, update_eq_done, Checked.bind_eq_ok, Checked.pure_eq_ok]
  rfl

theorem onFrames_eq_done {α : Type} {action : Action FramePool α} {value : α} :
    onFrames action attached = .done value after ↔
      ∃ frames, action attached.resources.frames = .done value frames ∧
        changed attached attached.space.blocks attached.space.directory frames = after := by
  rw [onFrames, focus_eq_done]
  rfl

/-- Mapping runs retains each of their frames once and puts them behind the pages in their order. -/
theorem mapRuns_eq_done (mapped : mapRuns permission address runs attached = .done () after) :
    ∃ directory frames, attached.resources.frames.retainAll runs = .ok frames ∧
      attached.space.directory.Gains (pageOf address) (Run.framesOf runs) permission directory ∧
      changed attached attached.space.blocks directory frames = after := by
  induction runs generalizing address attached with
  | nil =>
      cases mapped
      exact ⟨_, _, rfl, .refl _ _ _, rfl⟩
  | cons run rest ih =>
      simp only [mapRuns, bind_eq_done, changeFrames_eq_done, changeDirectory_eq_done,
        check_eq_done] at mapped
      obtain ⟨_, _, ⟨frames, retained, rfl⟩, _, _, ⟨directory, gained, rfl⟩, next, _,
        ⟨fits, rfl⟩, mapped⟩ := mapped
      obtain ⟨_, rfl⟩ := word_eq_ok_iff.mp fits
      obtain ⟨final, counted, retainedAll, more, rfl⟩ := ih mapped
      have gains := Directory.gains_of_map gained
      have start : pageOf (address + run.size) = pageOf address + run.frames.length := by
        rw [Run.size, pageOf_add_mul_pageSize, Run.length_frames]
      rw [start] at more
      refine ⟨final, counted, ?_, gains.trans more, rfl⟩
      rw [FramePool.retainAll, List.foldlM_cons, retained]
      exact retainedAll

/-- Placing a group maps its frames and gives the pages their new use. -/
theorem placeGroup_eq_done
    (placed : placeGroup address group state permission attached = .done () after) :
    ∃ runs blocks directory frames, group.runs attached.resources.descriptors = .ok runs ∧
      attached.resources.frames.retainAll runs = .ok frames ∧
      attached.space.directory.Gains (pageOf address) (Run.framesOf runs) permission directory ∧
      attached.space.blocks.assign address (Run.framesOf runs).length state permission .empty =
        .ok blocks ∧
      changed attached blocks directory frames = after := by
  simp only [placeGroup, bind_eq_done, inspect_eq_done, changeBlocks_eq_done] at placed
  obtain ⟨runs, _, ⟨held, rfl⟩, _, _, mapped, pages, _, ⟨counted, rfl⟩, blocks, assigned, rfl⟩ :=
    placed
  obtain ⟨directory, frames, retained, gains, rfl⟩ := mapRuns_eq_done mapped
  obtain rfl := PageGroup.pages_eq_ok held counted
  exact ⟨runs, blocks, directory, frames, held, retained, gains, assigned, rfl⟩

/-- Unmapping a range drops the references of the frames behind it, forgets its translations and
makes its pages free. -/
theorem unmapRange_eq_done (unmapped : unmapRange address pages attached = .done () after) :
    ∃ found blocks directory frames, attached.space.directory.runs address pages = .ok found ∧
      attached.space.directory.unmap address pages = .ok directory ∧
      attached.resources.frames.releaseAll (found.getD []) = .ok frames ∧
      attached.space.blocks.assign address pages .free .empty .empty = .ok blocks ∧
      changed attached blocks directory frames = after := by
  simp only [unmapRange, bind_eq_done, inspect_eq_done, changeBlocks_eq_done,
    changeDirectory_eq_done, changeFrames_eq_done] at unmapped
  obtain ⟨found, _, ⟨listed, rfl⟩, _, _, ⟨directory, erased, rfl⟩, _, _, ⟨frames, released, rfl⟩,
    blocks, assigned, rfl⟩ := unmapped
  exact ⟨found, blocks, directory, frames, listed, erased, released, assigned, rfl⟩

theorem mapPages_of_mapped {permission : UserPermission} (mapped : state.has .mapped = true) :
    mapPages address pages state permission = (do
      let size ← rangeSize address pages
      requirePlace address size state .invalidMemoryRegion
      checkRange address size (.exactly .free)
      let physical ← onFrames (FramePool.allocate pages)
      changeDirectory (·.map address ⟨physical, pages⟩ permission.toKernel)
      changeBlocks (·.assign address pages state permission.toKernel .empty)
      commit .mapPages address pages) := by
  rw [mapPages, mapped]
  rfl

end GuestMemory.AddressSpace
