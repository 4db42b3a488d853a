import GuestMemory.Proofs.AddressSpace.Moves

/-!
Placement: memory in use is where the layout lets memory of its state be. That is looked at only
when the memory is mapped; whatever turns it into another state leaves it where that may be as well.
-/

namespace GuestMemory

/-- The states that a change of permission leads to are placed alike. -/
theorem Layout.canContain_afterReprotect (layout : Layout) (address size : Nat)
    (state : MemoryState) (permission : KernelPermission) :
    layout.canContain address size (state.afterReprotect permission) =
      layout.canContain address size state := by
  unfold MemoryState.afterReprotect
  split
  · cases state <;> rfl
  · rfl

namespace AddressSpace

variable {attached after : AttachedSpace} {space : AddressSpace} {group : PageGroup}
variable {address pages number destination source size : Nat} {state : MemoryState}
variable {permission : KernelPermission} {blocks : Partition} {directory : Directory}
variable {change : Properties → Checked Properties} {result : Commit} {runs : List Run}

/-- The layout lets memory in the state be on the page. -/
def Fits (space : AddressSpace) (number : Nat) (state : MemoryState) : Prop :=
  space.layout.canContain (number * pageSize) pageSize state = .ok true

/-- Memory in use is where the layout lets it be. -/
def Placed (space : AddressSpace) : Prop :=
  ∀ number, (space.page number).properties.state ≠ .free →
    space.Fits number (space.page number).properties.state

namespace Placed

theorem of_create {layout : Layout} (paged : layout.Paged) (id : Nat) :
    (create id layout).Placed := by
  intro number used
  rw [page_create paged] at used
  exact absurd rfl used

/-- A change of pages keeps memory placed if it leaves each of them free or in a state that fits. -/
theorem updateWith (placed : space.Placed) (coherent : space.Coherent)
    (aligned : address % pageSize = 0)
    (updated : space.blocks.updateWith address pages change = .ok blocks)
    (fits : ∀ number new, Within (pageOf address) pages number →
      change (space.page number).properties = .ok new → new.state ≠ .free →
        space.Fits number new.state) :
    Placed { space with blocks, directory } := by
  have updates := coherent.wellFormed.updates aligned updated
  intro number used
  by_cases inside : Within (pageOf address) pages number
  · exact fits number _ inside
      (updates.propertiesOf_inside coherent.wellFormed aligned inside) used
  · have same : blocks.propertiesOf number = space.blocks.propertiesOf number :=
      updates.propertiesOf_outside coherent.wellFormed aligned inside
    simp only [page, same] at used ⊢
    exact placed number used

/-- Memory that stays in its state stays placed. -/
theorem of_states (placed : space.Placed) (coherent : space.Coherent)
    (aligned : address % pageSize = 0)
    (updated : space.blocks.updateWith address pages change = .ok blocks)
    (states : ∀ old new, change old = .ok new → new.state = old.state) :
    Placed { space with blocks, directory } :=
  placed.updateWith coherent aligned updated fun number new _ made used => by
    have same := states _ _ made
    rw [same] at used ⊢
    exact placed number used

theorem lock (placed : space.Placed) (coherent : space.Coherent) (aligned : address % pageSize = 0)
    (locked : space.blocks.lock address pages permission = .ok blocks) :
    Placed { space with blocks, directory } :=
  placed.of_states coherent aligned locked fun old new made => by
    obtain ⟨locks, _, built⟩ := Checked.bind_eq_ok.mp made
    cases built
    rfl

theorem unlock (placed : space.Placed) (coherent : space.Coherent)
    (aligned : address % pageSize = 0)
    (unlocked : space.blocks.unlock address pages permission = .ok blocks) :
    Placed { space with blocks, directory } :=
  placed.of_states coherent aligned unlocked fun old new made => by
    rw [Properties.unlock] at made
    split at made <;> cases made
    rfl

theorem reprotect (placed : space.Placed) (coherent : space.Coherent)
    (aligned : address % pageSize = 0)
    (updated : space.blocks.reprotect address pages permission = .ok blocks) :
    Placed { space with blocks, directory } :=
  placed.updateWith coherent aligned updated fun number new _ made used => by
    cases made
    rw [Fits, Properties.reprotect, Layout.canContain_afterReprotect]
    refine placed number fun free => used ?_
    rw [Properties.reprotect, free]
    exact ite_self _

theorem assign (placed : space.Placed) (coherent : space.Coherent)
    (aligned : address % pageSize = 0)
    (assigned : space.blocks.assign address pages state permission .empty = .ok blocks)
    (fits : ∀ number, Within (pageOf address) pages number → space.Fits number state) :
    Placed { space with blocks, directory } :=
  placed.updateWith coherent aligned assigned fun number new inside made _ => by
    cases made
    exact fits number inside

theorem free (placed : space.Placed) (coherent : space.Coherent) (aligned : address % pageSize = 0)
    (assigned : space.blocks.assign address pages .free .empty .empty = .ok blocks) :
    Placed { space with blocks, directory } :=
  placed.updateWith coherent aligned assigned fun number new _ made used => by
    cases made
    exact absurd rfl used

theorem mapPages (placed : attached.space.Placed) (coherent : attached.space.Coherent)
    {permission : UserPermission}
    (done : AddressSpace.mapPages address pages state permission attached = .done result after) :
    after.space.Placed := by
  have room := canContain_of_mapPages done
  obtain ⟨_, _, physical, blocks, directory, frames, _, translated, assigned, rfl⟩ :=
    mapPages_eq_done done
  have aligned := Directory.aligned_of_map translated
  exact placed.assign coherent aligned assigned fun number inside =>
    canContain_of_within aligned room (Nat.le_refl _) inside

theorem unmapRange (placed : attached.space.Placed) (coherent : attached.space.Coherent)
    (done : AddressSpace.unmapRange address pages attached = .done () after) :
    after.space.Placed := by
  obtain ⟨found, blocks, directory, frames, _, erased, _, assigned, rfl⟩ := unmapRange_eq_done done
  exact placed.free coherent (Directory.aligned_of_unmap erased) assigned

theorem setPermission (placed : attached.space.Placed) (coherent : attached.space.Coherent)
    (aligned : address % pageSize = 0) {permission : UserPermission}
    (done : AddressSpace.setPermission address pages permission attached = .done result after) :
    after.space.Placed := by
  obtain ⟨blocks, directory, _, updated, _, space, _⟩ := setPermission_eq_done done
  rw [space]
  exact placed.reprotect coherent aligned updated

theorem placeGroup (placed : attached.space.Placed) (coherent : attached.space.Coherent)
    (aligned : address % pageSize = 0)
    (held : group.runs attached.resources.descriptors = .ok runs)
    (fits : ∀ number, Within (pageOf address) (Run.framesOf runs).length number →
      attached.space.Fits number state)
    (done : AddressSpace.placeGroup address group state permission attached = .done () after) :
    after.space.Placed := by
  obtain ⟨listed, blocks, directory, frames, found, _, _, assigned, rfl⟩ := placeGroup_eq_done done
  obtain rfl := Except.ok.inj (found.symm.trans held)
  exact placed.assign coherent aligned assigned fits

theorem mapGroup (placed : attached.space.Placed) (coherent : attached.space.Coherent)
    (aligned : address % pageSize = 0)
    (done : AddressSpace.mapGroup address group state permission attached = .done result after) :
    after.space.Placed := by
  obtain ⟨pages, counted, room⟩ := canContain_of_mapGroup done
  obtain ⟨_, _, _, placing⟩ := mapGroup_eq_done done
  obtain ⟨runs, _, _, _, held, _⟩ := placeGroup_eq_done placing
  obtain rfl := PageGroup.pages_eq_ok held counted
  exact placed.placeGroup coherent aligned held
    (fun number inside => canContain_of_within aligned room (Nat.le_refl _) inside) placing

theorem mapCode (placed : attached.space.Placed) (coherent : attached.space.Coherent)
    (sound : Sound attached) (first : destination % pageSize = 0) (second : source % pageSize = 0)
    (done : AddressSpace.mapCode destination source size attached = .done result after) :
    after.space.Placed := by
  obtain ⟨group, made, blocks, directory, last, placing, _, _, grouped, locked, hidden, mapped,
    discarded⟩ := mapCode_eq_done done
  obtain ⟨_, _, runs, groups⟩ := makeGroup_eq_done sound grouped
  obtain ⟨resources, _, rfl⟩ := discard_eq_ok discarded
  have room := (requireAliasRanges_eq_done placing).2
  rw [← groups.space_eq] at placed coherent room
  let lent : AttachedSpace := changed made blocks directory made.resources.frames
  have lentPlaced : lent.space.Placed := placed.lock coherent second locked
  have lentCoherent : lent.space.Coherent := coherent.lock second locked hidden
  have lastPlaced : last.space.Placed :=
    lentPlaced.placeGroup lentCoherent first groups.occupies.held (fun number inside => by
      rw [groups.length_eq] at inside
      exact canContain_of_within first room (Nat.div_mul_le_self _ _) inside) mapped
  exact lastPlaced

theorem unmapCode (placed : attached.space.Placed) (coherent : attached.space.Coherent)
    (sound : Sound attached) (second : source % pageSize = 0) {strategy : InvalidationStrategy}
    (done : AddressSpace.unmapCode destination source size strategy attached = .done result after) :
    after.space.Placed := by
  obtain ⟨group, made, _, removed, blocks, directory, last, _, _, grouped, _, _, erased, unlocked,
    _, space, _, _, _, discarded⟩ := unmapCode_eq_done done
  obtain ⟨_, _, runs, groups⟩ := makeGroup_eq_done sound grouped
  obtain ⟨resources, _, rfl⟩ := discard_eq_ok discarded
  rw [← groups.space_eq] at placed coherent
  rw [space]
  exact (placed.unmapRange coherent erased).unlock (coherent.unmapRange erased) second unlocked

end Placed

end AddressSpace

end GuestMemory
