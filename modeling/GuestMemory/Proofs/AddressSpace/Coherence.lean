import GuestMemory.Proofs.AddressSpace.Operations
import GuestMemory.Proofs.AddressSpace.Refusals
import GuestMemory.Proofs.Layout
import GuestMemory.Proofs.Partition.Lookup

/-!
Blocks and translations of an address space say the same: a page has a translation exactly when its
block is mapped, with the permission of the block.
-/

namespace GuestMemory

open GuestMemory.Action

theorem has_mapped_iff (state : MemoryState) : state.has .mapped = true ↔ state ≠ .free := by
  cases state <;> decide

/-- The permission with which a page of these properties is mapped. -/
def Properties.mapped? (properties : Properties) : Option KernelPermission :=
  if properties.state.has .mapped then some properties.permission else none

namespace AddressSpace

/-- Blocks and translations agree on every page. -/
structure Coherent (space : AddressSpace) : Prop where
  region_eq : space.blocks.region = space.layout.addressSpace
  wellFormed : space.blocks.WellFormed
  aligned : ∀ (page : Nat) translation, space.directory.entries[page]? = some translation →
    translation.address % pageSize = 0
  agree : ∀ page : Nat, (space.directory.entries[page]?).map (·.permission) =
    (space.blocks.at? page).bind (·.mapped?)

variable {space : AddressSpace} {blocks : Partition} {directory : Directory}
variable {address pages destination source size : Nat} {frames : List Nat} {state : MemoryState}
variable {permission : KernelPermission} {change : Properties → Checked Properties}
variable {attached after : AttachedSpace} {result : Commit} {group : PageGroup}

theorem mapped?_of_has {properties : Properties} (mapped : properties.state.has .mapped = true) :
    properties.mapped? = some properties.permission := by
  rw [Properties.mapped?, if_pos mapped]

theorem has_mapped_afterReprotect (state : MemoryState) (permission : KernelPermission) :
    (state.afterReprotect permission).has .mapped = state.has .mapped := by
  unfold MemoryState.afterReprotect
  split
  · cases state <;> rfl
  · rfl

namespace Coherent

/-- New translations go with blocks in a mapped state. -/
theorem map (coherent : space.Coherent)
    (gains : space.directory.Gains (pageOf address) frames permission directory)
    (assigned : space.blocks.assign address frames.length state permission .empty = .ok blocks)
    (mapped : state.has .mapped = true) (aligned : address % pageSize = 0) :
    Coherent { space with blocks, directory } := by
  have updates := coherent.wellFormed.updates aligned assigned
  refine ⟨updates.region_eq.trans coherent.region_eq, updates.wellFormed,
    fun page translation found => ?_, fun page => ?_⟩
  all_goals by_cases inside : pageOf address ≤ page ∧ page < pageOf address + frames.length
  · simp only [gains.inside page inside.1 inside.2, Option.map_eq_some_iff] at found
    obtain ⟨frame, _, rfl⟩ := found
    exact Nat.mul_mod_left frame pageSize
  · rw [gains.outside page (by omega)] at found
    exact coherent.aligned page translation found
  · obtain ⟨old, new, _, made, now⟩ := updates.at?_inside coherent.wellFormed aligned inside.1
      inside.2
    cases made
    have assignment : (old.assign state permission .empty).mapped? = some permission :=
      mapped?_of_has mapped
    have member : page - pageOf address < frames.length := by omega
    simp only [gains.inside page inside.1 inside.2, now, Option.bind_some, assignment,
      List.getElem?_eq_getElem member, Option.map_some]
  · have outside : page < pageOf address ∨ pageOf address + frames.length ≤ page := by omega
    simp only [gains.outside page outside,
      updates.at?_outside coherent.wellFormed aligned outside, coherent.agree]

/-- Where translations are forgotten, blocks are free. -/
theorem unmap (coherent : space.Coherent)
    (unmapped : space.directory.unmap address pages = .ok directory)
    (assigned : space.blocks.assign address pages .free .empty .empty = .ok blocks) :
    Coherent { space with blocks, directory } := by
  have aligned : address % pageSize = 0 := Directory.aligned_of_unmap unmapped
  have updates := coherent.wellFormed.updates aligned assigned
  have erased := Directory.getElem?_unmap unmapped
  refine ⟨updates.region_eq.trans coherent.region_eq, updates.wellFormed,
    fun page translation found => ?_, fun page => ?_⟩
  · rw [erased] at found
    split at found
    · cases found
    · exact coherent.aligned page translation found
  · rw [erased]
    split
    · rename_i inside
      obtain ⟨old, new, _, made, now⟩ := updates.at?_inside coherent.wellFormed aligned inside.1
        inside.2
      cases made
      have unmappedState : (old.assign .free .empty .empty).mapped? = none :=
        if_neg (show ¬ MemoryState.free.has .mapped = true by decide)
      rw [now, Option.bind_some, unmappedState]
      rfl
    · rename_i inside
      have outside : page < pageOf address ∨ pageOf address + pages ≤ page := by omega
      simp only [updates.at?_outside coherent.wellFormed aligned outside, coherent.agree]

/-- A new permission is given to blocks and to translations alike. -/
theorem reprotect (coherent : space.Coherent)
    (reprotected : space.directory.protect address pages permission = .ok directory)
    (updated : space.blocks.updateWith address pages change = .ok blocks)
    (sets : ∀ old new, change old = .ok new → new.mapped? = old.mapped?.map fun _ => permission)
    (aligned : address % pageSize = 0) : Coherent { space with blocks, directory } := by
  have updates := coherent.wellFormed.updates aligned updated
  have entries := Directory.getElem?_protect reprotected
  refine ⟨updates.region_eq.trans coherent.region_eq, updates.wellFormed,
    fun page translation found => ?_, fun page => ?_⟩
  · rw [entries, Option.map_eq_some_iff] at found
    obtain ⟨before, found, rfl⟩ := found
    split <;> exact coherent.aligned page before found
  · rw [entries, Option.map_map]
    by_cases inside : pageOf address ≤ page ∧ page < pageOf address + pages
    · obtain ⟨old, new, before, made, now⟩ := updates.at?_inside coherent.wellFormed aligned
        inside.1 inside.2
      have agree := coherent.agree page
      rw [before, Option.bind_some] at agree
      rw [now, Option.bind_some, sets old new made, ← agree, Option.map_map]
      simp only [Function.comp_def, if_pos inside]
    · have outside : page < pageOf address ∨ pageOf address + pages ≤ page := by omega
      simp only [updates.at?_outside coherent.wellFormed aligned outside, ← coherent.agree,
        Function.comp_def, if_neg inside]

theorem placeGroup (coherent : attached.space.Coherent) (mapped : state.has .mapped = true)
    (aligned : address % pageSize = 0)
    (placed : AddressSpace.placeGroup address group state permission attached = .done () after) :
    after.space.Coherent := by
  obtain ⟨runs, blocks, directory, frames, _, _, gains, assigned, rfl⟩ := placeGroup_eq_done placed
  exact coherent.map gains assigned mapped aligned

theorem unmapRange (coherent : attached.space.Coherent)
    (unmapped : AddressSpace.unmapRange address pages attached = .done () after) :
    after.space.Coherent := by
  obtain ⟨found, blocks, directory, frames, _, erased, _, assigned, rfl⟩ :=
    unmapRange_eq_done unmapped
  exact coherent.unmap erased assigned

theorem mapPages (coherent : attached.space.Coherent) {permission : UserPermission}
    (mapped : AddressSpace.mapPages address pages state permission attached = .done result after) :
    after.space.Coherent := by
  obtain ⟨usable, _, physical, blocks, directory, frames, _, translated, assigned, rfl⟩ :=
    mapPages_eq_done mapped
  have length : (⟨physical, pages⟩ : Run).frames.length = pages := Run.length_frames _
  rw [← length] at assigned
  exact coherent.map (Directory.gains_of_map translated) assigned usable
    (Directory.aligned_of_map translated)

theorem setPermission (coherent : attached.space.Coherent) (aligned : address % pageSize = 0)
    {permission : UserPermission}
    (done : AddressSpace.setPermission address pages permission attached = .done result after) :
    after.space.Coherent := by
  obtain ⟨blocks, directory, _, updated, reprotected, space, _⟩ := setPermission_eq_done done
  rw [space]
  refine coherent.reprotect reprotected updated (fun old new made => ?_) aligned
  cases made
  simp only [Properties.mapped?, Properties.reprotect, has_mapped_afterReprotect]
  split <;> rfl

theorem mapGroup (coherent : attached.space.Coherent) (mapped : state.has .mapped = true)
    (aligned : address % pageSize = 0)
    (done : AddressSpace.mapGroup address group state permission attached = .done result after) :
    after.space.Coherent := by
  obtain ⟨_, _, _, placed⟩ := mapGroup_eq_done done
  exact coherent.placeGroup mapped aligned placed

theorem lock (coherent : space.Coherent) (aligned : address % pageSize = 0)
    (locked : space.blocks.lock address pages permission = .ok blocks)
    (reprotected : space.directory.protect address pages permission = .ok directory) :
    Coherent { space with blocks, directory } := by
  refine coherent.reprotect reprotected locked (fun old new made => ?_) aligned
  obtain ⟨locks, _, built⟩ := Checked.bind_eq_ok.mp made
  cases built
  simp only [Properties.mapped?]
  split <;> rfl

theorem unlock (coherent : space.Coherent) (aligned : address % pageSize = 0)
    (unlocked : space.blocks.unlock address pages permission = .ok blocks)
    (reprotected : space.directory.protect address pages permission = .ok directory) :
    Coherent { space with blocks, directory } := by
  refine coherent.reprotect reprotected unlocked (fun old new made => ?_) aligned
  rw [Properties.unlock] at made
  split at made <;> cases made
  simp only [Properties.mapped?]
  split <;> rfl

theorem mapCode (coherent : attached.space.Coherent) (sound : Sound attached)
    (first : destination % pageSize = 0) (second : source % pageSize = 0)
    (done : AddressSpace.mapCode destination source size attached = .done result after) :
    after.space.Coherent := by
  obtain ⟨group, made, blocks, directory, placed, _, _, _, grouped, locked, hidden, mapped,
    discarded⟩ := mapCode_eq_done done
  obtain ⟨_, _, runs, groups⟩ := makeGroup_eq_done sound grouped
  obtain ⟨resources, _, rfl⟩ := discard_eq_ok discarded
  rw [← groups.space_eq] at coherent
  have lent : (changed made blocks directory made.resources.frames).space.Coherent :=
    coherent.lock second locked hidden
  have usable : MemoryState.aliasCode.has .mapped = true := by decide
  have placedSpace := lent.placeGroup usable first mapped
  exact placedSpace

theorem unmapCode (coherent : attached.space.Coherent) (sound : Sound attached)
    (second : source % pageSize = 0) {strategy : InvalidationStrategy}
    (done : AddressSpace.unmapCode destination source size strategy attached = .done result after) :
    after.space.Coherent := by
  obtain ⟨group, made, _, removed, blocks, directory, last, _, _, grouped, _, _, erased, unlocked,
    shown, space, _, _, _, discarded⟩ := unmapCode_eq_done done
  obtain ⟨_, _, runs, groups⟩ := makeGroup_eq_done sound grouped
  obtain ⟨resources, _, rfl⟩ := discard_eq_ok discarded
  rw [← groups.space_eq] at coherent
  rw [space]
  exact (coherent.unmapRange erased).unlock second unlocked shown

theorem create {layout : Layout} (paged : layout.Paged) (id : Nat) :
    (create id layout).Coherent where
  region_eq := rfl
  wellFormed := Partition.ofRegion_wellFormed paged.aligned paged.whole paged.nonempty paged.fits
  aligned := by
    intro page translation found
    simp only [AddressSpace.create, Directory.empty, Std.ExtTreeMap.getElem?_empty] at found
    cases found
  agree := by
    intro page
    have blocks := Partition.ofRegion_wellFormed paged.aligned paged.whole paged.nonempty paged.fits
    simp only [AddressSpace.create, Directory.empty, Std.ExtTreeMap.getElem?_empty, Option.map_none]
    refine Eq.symm (Option.bind_eq_none_iff.mpr fun properties found => ?_)
    obtain ⟨block, member, _, rfl⟩ := blocks.at?_eq_some_iff.mp found
    obtain rfl := List.mem_singleton.mp member
    exact if_neg (show ¬ MemoryState.free.has .mapped = true by decide)

end Coherent

end AddressSpace

end GuestMemory
