import GuestMemory.Proofs.Kernel.Effects
import GuestMemory.Proofs.Partition.Encoding

/-!
Canonicity: the memory of a kernel is determined by its pages, by its free frames and by what no
call changes. Blocks are the maximal runs of pages with the same properties, translations follow
the pages, and there are as many references to a frame as pages that show it.
-/

namespace GuestMemory

namespace Partition

variable {partition other : Partition}

/-- Partitions of one region are the same if their pages have the same properties. -/
theorem WellFormed.ext (wellFormed : partition.WellFormed) (otherWellFormed : other.WellFormed)
    (region : other.region = partition.region)
    (same : ∀ number, other.propertiesOf number = partition.propertiesOf number) :
    other = partition := by
  have ends := wellFormed.length_pages
  have otherEnds := otherWellFormed.length_pages
  rw [region, ends] at otherEnds
  have length : other.pages.length = partition.pages.length := by
    simp only [pageSize_eq] at otherEnds
    omega
  have array : other.pages = partition.pages := by
    apply List.ext_getElem length
    intro index here there
    have entry := same (pageOf partition.region.base + index)
    simpa only [propertiesOf, at?, region, Nat.le_add_right, if_true, Nat.add_sub_cancel_left,
      List.getElem?_eq_getElem here, List.getElem?_eq_getElem there, Option.getD_some] using entry
  have blocks := wellFormed.tiles.eq_maximalRuns wellFormed.apart
  have otherBlocks := otherWellFormed.tiles.eq_maximalRuns otherWellFormed.apart
  rw [region, ← pages, array, pages, ← blocks] at otherBlocks
  cases other
  cases region
  cases otherBlocks
  rfl

end Partition

/-- A translation to a whole frame is determined by the frame and the permission. -/
theorem Translation.eq_of_map {translation other : Option Translation}
    (aligned : ∀ found, translation = some found → found.address % pageSize = 0)
    (otherAligned : ∀ found, other = some found → found.address % pageSize = 0)
    (frame : other.map (fun found => pageOf found.address) =
      translation.map fun found => pageOf found.address)
    (permission : other.map (·.permission) = translation.map (·.permission)) :
    other = translation := by
  cases translation with
  | none => simpa using frame
  | some found =>
      obtain ⟨also, rfl, permission⟩ := Option.map_eq_some_iff.mp permission
      have frame := Option.some.inj frame
      have here := aligned found rfl
      have there := otherAligned also rfl
      have address : also.address = found.address := by
        simp only [pageOf, pageSize_eq] at *
        omega
      cases also
      cases address
      cases permission
      rfl

/-- Address spaces with the same identity are the same if their pages are. -/
theorem AddressSpace.Coherent.ext {space other : AddressSpace} (coherent : space.Coherent)
    (otherCoherent : other.Coherent) (id : other.id = space.id)
    (layout : other.layout = space.layout)
    (same : ∀ number, other.page number = space.page number) : other = space := by
  have region : other.blocks.region = space.blocks.region := by
    rw [otherCoherent.region_eq, coherent.region_eq, layout]
  have blocks : other.blocks = space.blocks :=
    coherent.wellFormed.ext otherCoherent.wellFormed region fun number =>
      congrArg Page.properties (same number)
  have entries : other.directory.entries = space.directory.entries := by
    refine Std.ExtTreeMap.ext_getElem? fun number => ?_
    apply Translation.eq_of_map (coherent.aligned number) (otherCoherent.aligned number)
    · exact congrArg Page.frame (same number)
    · rw [otherCoherent.agree, coherent.agree, blocks]
  have directory : other.directory = space.directory := congrArg Directory.mk entries
  cases other
  cases id
  cases layout
  cases blocks
  cases directory
  rfl

namespace FramePool

variable {pool other : FramePool}

theorem Recounted.symm (recounted : pool.Recounted other) : other.Recounted pool := by
  rw [Recounted] at *
  rw [recounted]

/-- Pools that differ in their references only are the same if as many are held to each frame. -/
theorem Recounted.eq_of_held (recounted : pool.Recounted other) (positive : pool.Positive)
    (otherPositive : other.Positive) (same : ∀ frame : Nat, other.held frame = pool.held frame) :
    other = pool := by
  rw [recounted, references_eq_of_held positive otherPositive same]

end FramePool

namespace Kernel

variable {config : Config} {kernel other middle : Kernel}

/-- The memory of all processes is the same, and so are the frames, with the references to each and
the runs that are free, and the descriptors in use with their number. -/
structure SameMemory (before after : Kernel) : Prop where
  processes_eq : after.processes = before.processes
  frames_eq : after.resources.frames = before.resources.frames
  nodes_eq : after.resources.descriptors.nodes = before.resources.descriptors.nodes
  inUse_eq : after.resources.descriptors.inUse = before.resources.descriptors.inUse

/-- Kernels whose pages are the same, and all that calls leave alone, have the same memory. -/
theorem OrdinaryInvariant.sameMemory (inv : OrdinaryInvariant config kernel)
    (otherInv : OrdinaryInvariant config other)
    (setting : other.setting = kernel.setting) (page : other.page = kernel.page)
    (frames : kernel.resources.frames.Recounted other.resources.frames) :
    kernel.SameMemory other := by
  have residents : other.processes.map Process.resident = kernel.processes.map Process.resident :=
    congrArg Setting.residents setting
  have processes : other.processes = kernel.processes := by
    apply List.ext_getElem
    · simpa using congrArg List.length residents
    intro index here there
    have listed := List.getElem?_eq_getElem there
    have otherListed := List.getElem?_eq_getElem here
    have resident : (other.processes[index]).resident = (kernel.processes[index]).resident := by
      have both := congrArg (·[index]?) residents
      simpa [listed, otherListed] using both
    have space : (other.processes[index]).space = (kernel.processes[index]).space := by
      apply (inv.coherent _ (List.getElem_mem there)).ext
        (otherInv.coherent _ (List.getElem_mem here))
      · exact congrArg Resident.id resident
      · exact congrArg Resident.layout resident
      · intro number
        rw [← page_of_listed (spaces_listed listed), ← page,
          page_of_listed (spaces_listed otherListed)]
    have handles := congrArg Resident.handles resident
    cases first : kernel.processes[index]
    cases second : other.processes[index]
    simp_all [Process.resident]
  have contents := otherInv.contents_eq.trans inv.contents_eq.symm
  refine ⟨processes, ?_, DescriptorPool.nodes_eq_of_contents contents,
    DescriptorPool.inUse_of_contents contents⟩
  apply frames.eq_of_held inv.accounts.frames.positive otherInv.accounts.frames.positive
  intro frame
  rw [inv.accounts.held_eq, otherInv.accounts.held_eq, shown, shown, processes]

end Kernel

end GuestMemory
