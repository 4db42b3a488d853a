import GuestMemory.Proofs.AddressSpace.Coherence

/-!
Address spaces page by page: the properties of a page and the frame behind it, what a passed check
says of the pages of its range, and what each kind of change makes of them.
-/

namespace GuestMemory

variable {partition after : Partition} {directory changed : Directory}
variable {address pages number index frame first : Nat} {frames : List Nat} {state : MemoryState}
variable {permission : KernelPermission} {attributes : Attributes} {properties : Properties}
variable {change : Properties → Checked Properties} {check : Check} {block : Block}

/-- What a check asks of the properties of a page. -/
structure Check.Meets (check : Check) (properties : Properties) : Prop where
  state : check.state.accepts properties.state = true
  permission : properties.permission &&& check.permissionMask = check.permission
  attributes : properties.attributes &&& check.attributesMask = check.attributes

theorem Check.accepts_iff : check.accepts block = true ↔ check.Meets block.properties := by
  simp only [Check.accepts, Bool.and_eq_true, beq_iff_eq]
  exact ⟨fun ⟨⟨state, permission⟩, attributes⟩ => ⟨state, permission, attributes⟩,
    fun meets => ⟨⟨meets.state, meets.permission⟩, meets.attributes⟩⟩

namespace Partition

/-- The properties of a page, which are those of free memory outside the region. -/
def propertiesOf (partition : Partition) (number : Nat) : Properties :=
  (partition.at? number).getD .free

theorem WellFormed.at?_of_covers (wellFormed : partition.WellFormed)
    (aligned : address % pageSize = 0) (covers : partition.region.Covers address pages)
    (inside : pageOf address ≤ number ∧ number < pageOf address + pages) :
    partition.at? number = some (partition.propertiesOf number) := by
  have region := wellFormed.isSome_of_covers aligned covers inside.1 inside.2
  rw [propertiesOf, ← Option.some_get region, Option.getD_some]

theorem Updates.propertiesOf_outside (updates : partition.Updates address pages change after)
    (wellFormed : partition.WellFormed) (aligned : address % pageSize = 0)
    (outside : ¬ (pageOf address ≤ number ∧ number < pageOf address + pages)) :
    after.propertiesOf number = partition.propertiesOf number := by
  rw [propertiesOf, propertiesOf, updates.at?_outside wellFormed aligned (by omega)]

theorem Updates.propertiesOf_inside (updates : partition.Updates address pages change after)
    (wellFormed : partition.WellFormed) (aligned : address % pageSize = 0)
    (inside : pageOf address ≤ number ∧ number < pageOf address + pages) :
    change (partition.propertiesOf number) = .ok (after.propertiesOf number) := by
  obtain ⟨old, new, before, made, now⟩ :=
    updates.at?_inside wellFormed aligned inside.1 inside.2
  simp only [propertiesOf, before, now, Option.getD_some, made]

end Partition

namespace Directory

theorem Backs.frameAt? (backs : directory.Backs first frames)
    (listed : frames[index]? = some frame) :
    directory.frameAt? (first + index) = some frame := by
  have bounded := (List.getElem?_eq_some_iff.mp listed).1
  have same := congrArg (·[index]?) backs
  simpa [List.getElem?_map, List.getElem?_range' bounded, listed] using same

theorem frameAt?_unmap (unmapped : directory.unmap address pages = .ok changed) (number : Nat) :
    changed.frameAt? number =
      if pageOf address ≤ number ∧ number < pageOf address + pages then none
      else directory.frameAt? number := by
  rw [frameAt?, getElem?_unmap unmapped]
  split <;> rfl

theorem frameAt?_protect (reprotected : directory.protect address pages permission = .ok changed)
    (number : Nat) : changed.frameAt? number = directory.frameAt? number := by
  rw [frameAt?, frameAt?, getElem?_protect reprotected, Option.map_map]
  congr 1
  funext translation
  simp only [Function.comp_apply]
  split <;> rfl

end Directory

/-- What is known of a page: its properties and the frame behind it. -/
@[ext]
structure Page where
  properties : Properties
  frame : Option Nat

namespace AddressSpace

variable {space : AddressSpace} {blocks : Partition} {attached : AttachedSpace}
variable {destination source : Nat}

def page (space : AddressSpace) (number : Nat) : Page :=
  ⟨space.blocks.propertiesOf number, space.directory.frameAt? number⟩

namespace Coherent

theorem exists_of_frameAt? (coherent : space.Coherent)
    (backed : space.directory.frameAt? number ≠ none) :
    ∃ properties, space.blocks.at? number = some properties ∧
      properties.state.has .mapped = true := by
  have agree := coherent.agree number
  cases found : space.directory.entries[number]? with
  | none => exact absurd (by rw [Directory.frameAt?, found]; rfl) backed
  | some translation =>
      rw [found, Option.map_some] at agree
      obtain ⟨properties, here, mapped⟩ := Option.bind_eq_some_iff.mp agree.symm
      refine ⟨properties, here, ?_⟩
      by_contra unmapped
      rw [Properties.mapped?, if_neg unmapped] at mapped
      cases mapped

theorem frameAt?_eq_none_iff (coherent : space.Coherent)
    (found : space.blocks.at? number = some properties) :
    space.directory.frameAt? number = none ↔ ¬ properties.state.has .mapped = true := by
  have agree := coherent.agree number
  rw [found, Option.bind_some, Properties.mapped?] at agree
  rw [Directory.frameAt?, Option.map_eq_none_iff, ← Option.map_eq_none_iff, agree]
  split <;> simp [*]

theorem frame_eq_none_iff (coherent : space.Coherent) :
    (space.page number).frame = none ↔
      ¬ (space.page number).properties.state.has .mapped = true := by
  simp only [page, Partition.propertiesOf]
  cases found : space.blocks.at? number with
  | some properties => exact coherent.frameAt?_eq_none_iff found
  | none =>
      refine iff_of_true ?_ (show ¬ MemoryState.free.has .mapped = true by decide)
      by_contra backed
      obtain ⟨properties, here, _⟩ := coherent.exists_of_frameAt? backed
      rw [found] at here
      cases here

section Shown

variable (coherent : space.Coherent) (shown : space.directory.frameAt? number = some frame)

include coherent shown

/-- The region of an address space covers a page with a frame. -/
theorem covers_of_frameAt? : space.blocks.region.Covers (number * pageSize) 1 := by
  obtain ⟨properties, here, _⟩ :=
    coherent.exists_of_frameAt? (by rw [shown]; exact Option.some_ne_none frame)
  obtain ⟨lower, upper⟩ := coherent.wellFormed.isSome_at?.mp (Option.isSome_of_eq_some here)
  have base := coherent.wellFormed.aligned
  have ends := coherent.wellFormed.length_pages
  refine ⟨lower, ?_⟩
  simp only [pageOf, pageSize_eq] at *
  omega

theorem contains_of_frameAt? : space.layout.contains (number * pageSize) pageSize = .ok true := by
  have covers := coherent.covers_of_frameAt? shown
  have fits := coherent.wellFormed.fits
  rw [coherent.region_eq] at covers fits
  obtain ⟨lower, upper⟩ := covers
  rw [Layout.contains, Region.contains_of_fits fits, decide_eq_true]
  simp only [pageSize_eq] at *
  omega

theorem address_lt_of_frameAt? : number * pageSize < wordLimit := by
  obtain ⟨_, upper⟩ := coherent.covers_of_frameAt? shown
  have fits := coherent.wellFormed.fits
  simp only [pageSize_eq] at *
  omega

end Shown

/-- The region of an address space covers a range with frames behind it. -/
theorem covers_of_backs (coherent : space.Coherent) (aligned : address % pageSize = 0)
    (backs : space.directory.Backs (pageOf address) frames) (nonempty : 0 < frames.length) :
    space.blocks.region.Covers address frames.length := by
  have shown (index : Nat) (bounded : index < frames.length) :=
    coherent.covers_of_frameAt? (backs.frameAt? (List.getElem?_eq_getElem bounded))
  obtain ⟨lower, _⟩ := shown 0 nonempty
  obtain ⟨_, upper⟩ := shown (frames.length - 1) (by omega)
  refine ⟨?_, ?_⟩
  all_goals
    simp only [pageOf, pageSize_eq] at *
    omega

/-- Every page of a checked range meets the check. -/
theorem accepted (coherent : attached.space.Coherent) (aligned : address % pageSize = 0)
    (checked : checkRange address (pages * pageSize) check attached = .done () attached)
    (lower : pageOf address ≤ number) (upper : number < pageOf address + pages)
    (found : attached.space.blocks.at? number = some properties) : check.Meets properties := by
  obtain ⟨met, overlapping, _, accepts⟩ := checkRange_eq_done checked
  obtain ⟨block, member, holds, rfl⟩ := coherent.wellFormed.at?_eq_some_iff.mp found
  obtain ⟨blocks, same, meets⟩ := coherent.wellFormed.overlapping_eq_ok address (pages * pageSize)
  obtain rfl := Except.ok.inj (overlapping.symm.trans same)
  have within : address < block.stop ∧ block.start < address + pages * pageSize := by
    obtain ⟨before, past⟩ := holds
    simp only [pageOf, pageSize_eq] at *
    omega
  exact Check.accepts_iff.mp (accepts block ((meets block).mpr ⟨member, within⟩))

/-- Ranges that no state fits share no page with a translation. -/
theorem apart (coherent : attached.space.Coherent) {other : Check}
    (first : destination % pageSize = 0) (second : source % pageSize = 0)
    (checked : checkRange destination (pages * pageSize) check attached = .done () attached)
    (otherChecked : checkRange source (pages * pageSize) other attached = .done () attached)
    (exclusive : ∀ state, check.state.accepts state = true →
      other.state.accepts state = true → False)
    (backed : attached.space.directory.frameAt? number ≠ none)
    (lower : pageOf source ≤ number) (upper : number < pageOf source + pages) :
    ¬ (pageOf destination ≤ number ∧ number < pageOf destination + pages) := by
  obtain ⟨properties, found, _⟩ := coherent.exists_of_frameAt? backed
  intro inside
  exact exclusive properties.state
    (coherent.accepted first checked inside.1 inside.2 found).state
    (coherent.accepted second otherChecked lower upper found).state

variable (coherent : space.Coherent)

include coherent

theorem page_map (gains : space.directory.Gains (pageOf address) frames permission directory)
    (assigned : space.blocks.assign address frames.length state permission attributes =
      .ok blocks)
    (aligned : address % pageSize = 0) :
    (∀ index frame, frames[index]? = some frame →
      ({ space with blocks, directory } : AddressSpace).page (pageOf address + index) =
        ⟨(space.page (pageOf address + index)).properties.assign state permission attributes,
          some frame⟩) ∧
      ∀ number, ¬ (pageOf address ≤ number ∧ number < pageOf address + frames.length) →
        ({ space with blocks, directory } : AddressSpace).page number = space.page number := by
  have updates := coherent.wellFormed.updates aligned assigned
  refine ⟨fun index frame listed => ?_, fun number outside => ?_⟩
  · have bounded := (List.getElem?_eq_some_iff.mp listed).1
    have inside : pageOf address ≤ pageOf address + index ∧
        pageOf address + index < pageOf address + frames.length := by omega
    have made := updates.propertiesOf_inside coherent.wellFormed aligned inside
    simp only [page, ← Except.ok.inj made, gains.backs.frameAt? listed]
  · have same := gains.outside number (by omega)
    simp only [page, updates.propertiesOf_outside coherent.wellFormed aligned outside,
      Directory.frameAt?, same]

theorem page_unmap (unmapped : space.directory.unmap address pages = .ok directory)
    (assigned : space.blocks.assign address pages .free .empty .empty = .ok blocks) (number : Nat) :
    ({ space with blocks, directory } : AddressSpace).page number =
      if pageOf address ≤ number ∧ number < pageOf address + pages then
        ⟨(space.page number).properties.assign .free .empty .empty, none⟩
      else space.page number := by
  have aligned := Directory.aligned_of_unmap unmapped
  have updates := coherent.wellFormed.updates aligned assigned
  rw [page, Directory.frameAt?_unmap unmapped]
  split
  · rename_i inside
    have made := updates.propertiesOf_inside coherent.wellFormed aligned inside
    simp only [page, ← Except.ok.inj made]
  · rename_i outside
    rw [updates.propertiesOf_outside coherent.wellFormed aligned outside, page]

theorem page_reprotect
    (reprotected : space.directory.protect address pages permission = .ok directory)
    (updated : space.blocks.updateWith address pages change = .ok blocks)
    (aligned : address % pageSize = 0) :
    (∀ number, pageOf address ≤ number ∧ number < pageOf address + pages →
      ∃ new, change (space.page number).properties = .ok new ∧
        ({ space with blocks, directory } : AddressSpace).page number =
          ⟨new, (space.page number).frame⟩) ∧
      ∀ number, ¬ (pageOf address ≤ number ∧ number < pageOf address + pages) →
        ({ space with blocks, directory } : AddressSpace).page number = space.page number := by
  have updates := coherent.wellFormed.updates aligned updated
  refine ⟨fun number inside => ?_, fun number outside => ?_⟩
  · have made := updates.propertiesOf_inside coherent.wellFormed aligned inside
    exact ⟨_, made, by rw [page, Directory.frameAt?_protect reprotected]; rfl⟩
  · rw [page, updates.propertiesOf_outside coherent.wellFormed aligned outside,
      Directory.frameAt?_protect reprotected, page]

end Coherent

end AddressSpace

end GuestMemory
