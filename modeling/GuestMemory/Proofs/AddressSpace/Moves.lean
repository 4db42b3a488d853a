import GuestMemory.Proofs.AddressSpace.Orderly
import GuestMemory.Proofs.FramePool.Allocation

/-!
Moves: what an answered operation makes of the pages of an address space, given that they were
orderly. Whatever else is to hold of pages is then looked at move by move.
-/

namespace GuestMemory

open GuestMemory.Action

/-- A page of free memory. -/
def Page.blank : Page :=
  ⟨.free, none⟩

namespace AddressSpace

variable {attached after : AttachedSpace} {space : AddressSpace} {group : PageGroup}
variable {address pages number first count destination source size index frame : Nat}
variable {state : MemoryState} {result : Commit} {frames : List Nat} {blocks : Partition}
variable {directory : Directory} {permission : KernelPermission} {check : Check} {runs : List Run}
variable {direct : MemoryState → Prop} {extent : Run}

/-- The page is one of the `count` pages from `first` on. -/
abbrev Within (first count number : Nat) : Prop :=
  first ≤ number ∧ number < first + count

def Orderly (space : AddressSpace) : Prop :=
  ∀ number, (space.page number).properties.Orderly

theorem exists_frame_of_within (inside : Within first frames.length number) :
    ∃ index frame, frames[index]? = some frame ∧ number = first + index := by
  obtain ⟨index, rfl⟩ := Nat.exists_eq_add_of_le inside.1
  have bounded : index < frames.length := by omega
  exact ⟨index, frames[index], List.getElem?_eq_getElem bounded, rfl⟩

def Blank (space : AddressSpace) (first count : Nat) : Prop :=
  ∀ number, Within first count number → space.page number = .blank

/-- The frames stand behind the pages from `first` on, which have properties of the given kind. -/
def Shows (space : AddressSpace) (first : Nat) (frames : List Nat) (kind : Properties → Prop) :
    Prop :=
  ∀ index frame, frames[index]? = some frame →
    kind (space.page (first + index)).properties ∧
      (space.page (first + index)).frame = some frame

/-- The memory has a use and carries no mark. -/
def Unmarked (allowed : MemoryState → Prop) (properties : Properties) : Prop :=
  ∃ state permission, allowed state ∧ properties = .plain state permission

/-- The two address spaces differ by a code alias, which only the second has. -/
structure Aliased (bare aliased : AddressSpace) (destination source : Nat) (frames : List Nat) :
    Prop where
  owned : bare.Shows source frames (Unmarked (· = .normal))
  vacant : bare.Blank destination frames.length
  lent : aliased.Shows source frames (· = .lent)
  shown : aliased.Shows destination frames (Unmarked MemoryState.IsAlias)
  same : ∀ number, ¬ Within source frames.length number →
    ¬ Within destination frames.length number → aliased.page number = bare.page number

/-- What an operation has done to the pages of an address space. The states in which pages can be
mapped or unmapped other than through shared memory are given. -/
inductive Move (direct : MemoryState → Prop) (before : AttachedSpace) (after : AddressSpace) : Prop
  /-- Pages have been mapped: to frames that nothing referred to, or as shared memory. -/
  | mapped {first : Nat} {frames : List Nat} {state : MemoryState} {permission : KernelPermission}
    (used : state ≠ .free) (known : permission.Known)
    (own : state = .sharedCode ∨ direct state ∧ frames.Nodup ∧
      ∀ frame ∈ frames, before.resources.frames.held frame = 0)
    (vacant : before.space.Blank first frames.length)
    (shown : after.Shows first frames (· = .plain state permission))
    (same : ∀ number, ¬ Within first frames.length number →
      after.page number = before.space.page number)
  | unmapped {first count : Nat}
    (plain : ∀ number, Within first count number →
      Unmarked (fun state => state = .sharedCode ∨ direct state)
        (before.space.page number).properties)
    (vacant : after.Blank first count)
    (same : ∀ number, ¬ Within first count number → after.page number = before.space.page number)
  | reprotected {first count : Nat} (permission : KernelPermission) (known : permission.Known)
    (changed : ∀ number, Within first count number → ∃ state old,
      state.isReprotectable = true ∧
        (before.space.page number).properties = .plain state old ∧
        after.page number =
          ⟨.plain (state.afterReprotect permission) permission, (before.space.page number).frame⟩)
    (same : ∀ number, ¬ Within first count number → after.page number = before.space.page number)
  /-- Memory has been lent out as code, which takes a descriptor for a while. -/
  | lent {destination source : Nat} {frames : List Nat}
    (described : before.resources.descriptors.free ≠ [])
    (placed : ∀ number, Within destination frames.length number →
      before.space.layout.canContain (number * pageSize) pageSize .aliasCode = .ok true)
    (aliased : Aliased before.space after destination source frames)
    (shown : after.Shows destination frames (· = .plain .aliasCode .hidden))
  | returned {destination source : Nat} {frames : List Nat}
    (aliased : Aliased after before.space destination source frames)
    (owned : after.Shows source frames (· = .plain .normal .userReadWrite))

section Checked

variable (checked : checkRange address (pages * pageSize) check attached = .done () attached)
variable (coherent : attached.space.Coherent) (orderly : attached.space.Orderly)
variable (aligned : address % pageSize = 0)
variable (covers : attached.space.blocks.region.Covers address pages)

include checked coherent aligned covers

theorem meets_of_checked (inside : Within (pageOf address) pages number) :
    check.Meets (attached.space.page number).properties :=
  coherent.accepted aligned checked inside.1 inside.2
    (coherent.wellFormed.at?_of_covers aligned covers inside)

include orderly

theorem plain_of_checked (mask : check.attributesMask = .all)
    (unmarked : check.attributes = .empty) (inside : Within (pageOf address) pages number) :
    Unmarked (fun state => check.state.accepts state = true)
      (attached.space.page number).properties := by
  have meets := meets_of_checked checked coherent aligned covers inside
  have same := meets.attributes
  rw [mask, unmarked] at same
  exact ⟨_, _, meets.state, (orderly number).eq_plain same⟩

theorem lent_of_checked (mask : check.attributesMask = .all) (marked : check.attributes = .locked)
    (inside : Within (pageOf address) pages number) :
    (attached.space.page number).properties = .lent := by
  have same := (meets_of_checked checked coherent aligned covers inside).attributes
  rw [mask, marked] at same
  exact (orderly number).eq_lent same

end Checked

/-- A range that is checked to be free is blank, also where it leaves the address space. -/
theorem blank_of_checked
    (checked : checkRange address (pages * pageSize) (.exactly .free) attached = .done () attached)
    (coherent : attached.space.Coherent) (orderly : attached.space.Orderly)
    (aligned : address % pageSize = 0) : attached.space.Blank (pageOf address) pages := by
  intro number inside
  have properties : (attached.space.page number).properties = .free := by
    simp only [page, Partition.propertiesOf]
    cases found : attached.space.blocks.at? number with
    | none => rfl
    | some properties =>
        have meets := coherent.accepted aligned checked inside.1 inside.2 found
        have ordered := orderly number
        rw [page, Partition.propertiesOf, found, Option.getD_some] at ordered
        exact ordered.eq_free (of_decide_eq_true meets.state)
  have frame : (attached.space.page number).frame = none :=
    coherent.frame_eq_none_iff.mpr (by rw [properties]; decide)
  exact congrArg₂ Page.mk properties frame

/-- Free pages that are mapped carry no mark. -/
theorem shows_of_map (coherent : space.Coherent)
    (gains : space.directory.Gains (pageOf address) frames permission directory)
    (assigned : space.blocks.assign address frames.length state permission .empty = .ok blocks)
    (aligned : address % pageSize = 0) (vacant : space.Blank (pageOf address) frames.length) :
    Shows { space with blocks, directory } (pageOf address) frames (· = .plain state permission) ∧
      ∀ number, ¬ Within (pageOf address) frames.length number →
        page { space with blocks, directory } number = space.page number := by
  obtain ⟨inside, outside⟩ := coherent.page_map gains assigned aligned
  refine ⟨fun index frame listed => ?_, outside⟩
  have bounded := (List.getElem?_eq_some_iff.mp listed).1
  rw [inside index frame listed, vacant (pageOf address + index) (by omega)]
  exact ⟨rfl, rfl⟩

theorem shows_of_placeGroup (coherent : attached.space.Coherent) (aligned : address % pageSize = 0)
    (held : group.runs attached.resources.descriptors = .ok runs)
    (vacant : attached.space.Blank (pageOf address) (Run.framesOf runs).length)
    (placed : placeGroup address group state permission attached = .done () after) :
    after.space.Shows (pageOf address) (Run.framesOf runs) (· = .plain state permission) ∧
      ∀ number, ¬ Within (pageOf address) (Run.framesOf runs).length number →
        after.space.page number = attached.space.page number := by
  obtain ⟨listed, blocks, directory, frames, found, _, gains, assigned, rfl⟩ :=
    placeGroup_eq_done placed
  obtain rfl := Except.ok.inj (found.symm.trans held)
  exact shows_of_map coherent gains assigned aligned vacant

/-- Unmarked pages that are unmapped are blank. -/
theorem blank_of_unmapRange {allowed : MemoryState → Prop} (coherent : attached.space.Coherent)
    (plain : ∀ number, Within (pageOf address) pages number →
      Unmarked allowed (attached.space.page number).properties)
    (unmapped : unmapRange address pages attached = .done () after) :
    after.space.Blank (pageOf address) pages ∧
      ∀ number, ¬ Within (pageOf address) pages number →
        after.space.page number = attached.space.page number := by
  obtain ⟨found, blocks, directory, frames, _, erased, _, assigned, rfl⟩ :=
    unmapRange_eq_done unmapped
  have pages := coherent.page_unmap erased assigned
  refine ⟨fun number inside => ?_, fun number outside => ?_⟩
  · obtain ⟨state, permission, _, properties⟩ := plain number inside
    simp only [changed, pages, if_pos inside, properties]
    rfl
  · simp only [changed, pages, if_neg outside]

theorem covers_of_unmapRange (unmapped : unmapRange address pages attached = .done () after)
    (coherent : attached.space.Coherent) :
    address % pageSize = 0 ∧ attached.space.blocks.region.Covers address pages ∧
      after.space.blocks.region = attached.space.blocks.region := by
  obtain ⟨found, blocks, directory, frames, _, erased, _, assigned, rfl⟩ :=
    unmapRange_eq_done unmapped
  have aligned := Directory.aligned_of_unmap erased
  have updates := coherent.wellFormed.updates aligned assigned
  exact ⟨aligned, updates.covers, updates.region_eq⟩

/-- Only the blocks and the translations of an address space change. -/
def Rebuilt (space moved : AddressSpace) : Prop :=
  ∃ blocks directory, moved = { space with blocks, directory }

theorem Rebuilt.layout_eq {moved : AddressSpace} (rebuilt : space.Rebuilt moved) :
    moved.layout = space.layout := by
  obtain ⟨_, _, rfl⟩ := rebuilt
  rfl

theorem Rebuilt.trans {middle moved : AddressSpace} (first : space.Rebuilt middle)
    (second : middle.Rebuilt moved) : space.Rebuilt moved := by
  obtain ⟨_, _, rfl⟩ := first
  obtain ⟨blocks, directory, rfl⟩ := second
  exact ⟨blocks, directory, rfl⟩

theorem rebuilt_of_placeGroup
    (placed : placeGroup address group state permission attached = .done () after) :
    attached.space.Rebuilt after.space := by
  obtain ⟨_, blocks, directory, _, _, _, _, _, rfl⟩ := placeGroup_eq_done placed
  exact ⟨blocks, directory, rfl⟩

theorem rebuilt_of_unmapRange (unmapped : unmapRange address pages attached = .done () after) :
    attached.space.Rebuilt after.space := by
  obtain ⟨_, blocks, directory, _, _, _, _, _, rfl⟩ := unmapRange_eq_done unmapped
  exact ⟨blocks, directory, rfl⟩

/-- Mapping pages shows frames that nothing referred to on pages that were blank. -/
theorem shows_of_mapPages (coherent : attached.space.Coherent) (orderly : attached.space.Orderly)
    {permission : UserPermission}
    (done : mapPages address pages state permission attached = .done result after) :
    state ≠ .free ∧ attached.space.Rebuilt after.space ∧ ∃ physical,
      FramePool.allocate pages attached.resources.frames = .done physical after.resources.frames ∧
      let frames := (⟨physical, pages⟩ : Run).frames
      attached.space.Blank (pageOf address) frames.length ∧
      after.space.Shows (pageOf address) frames (· = .plain state permission.toKernel) ∧
      ∀ number, ¬ Within (pageOf address) frames.length number →
        after.space.page number = attached.space.page number := by
  obtain ⟨usable, checked, physical, blocks, directory, pool, allocated, translated, assigned,
    rfl⟩ := mapPages_eq_done done
  have gains := Directory.gains_of_map translated
  have aligned := Directory.aligned_of_map translated
  have length : (⟨physical, pages⟩ : Run).frames.length = pages := Run.length_frames _
  rw [← length] at checked assigned
  have vacant := blank_of_checked checked coherent orderly aligned
  exact ⟨(has_mapped_iff state).mp usable, ⟨blocks, directory, rfl⟩, physical, allocated, vacant,
    shows_of_map coherent gains assigned aligned vacant⟩

theorem move_mapPages (coherent : attached.space.Coherent) (orderly : attached.space.Orderly)
    (wellFormed : attached.resources.frames.WellFormed extent) (allowed : direct state)
    {permission : UserPermission}
    (done : mapPages address pages state permission attached = .done result after) :
    after.space.layout = attached.space.layout ∧ Move direct attached after.space := by
  obtain ⟨used, rebuilt, physical, allocated, vacant, shown, same⟩ :=
    shows_of_mapPages coherent orderly done
  exact ⟨rebuilt.layout_eq, .mapped used permission.known_toKernel (.inr ⟨allowed,
    List.nodup_range', fun frame => wellFormed.held_of_allocate allocated⟩) vacant shown same⟩

/-- Mapping a group shows its frames on pages that were blank. -/
theorem shows_of_mapGroup
    (done : mapGroup address group state permission attached = .done result after)
    (coherent : attached.space.Coherent) (orderly : attached.space.Orderly)
    (aligned : address % pageSize = 0)
    (held : group.runs attached.resources.descriptors = .ok runs) :
    attached.space.Rebuilt after.space ∧
      attached.space.Blank (pageOf address) (Run.framesOf runs).length ∧
      after.space.Shows (pageOf address) (Run.framesOf runs) (· = .plain state permission) ∧
      ∀ number, ¬ Within (pageOf address) (Run.framesOf runs).length number →
        after.space.page number = attached.space.page number := by
  obtain ⟨pages, counted, checked, placed⟩ := mapGroup_eq_done done
  obtain rfl := PageGroup.pages_eq_ok held counted
  have vacant := blank_of_checked checked coherent orderly aligned
  exact ⟨rebuilt_of_placeGroup placed, vacant,
    shows_of_placeGroup coherent aligned held vacant placed⟩

theorem move_mapGroup (known : permission.Known)
    (done : mapGroup address group .sharedCode permission attached = .done result after)
    (coherent : attached.space.Coherent) (orderly : attached.space.Orderly)
    (aligned : address % pageSize = 0)
    (held : group.runs attached.resources.descriptors = .ok runs) (resources : Resources) :
    after.space.layout = attached.space.layout ∧
      Move direct ⟨attached.space, resources⟩ after.space := by
  obtain ⟨rebuilt, vacant, shown, same⟩ := shows_of_mapGroup done coherent orderly aligned held
  exact ⟨rebuilt.layout_eq, .mapped (by decide) known (.inl rfl) vacant shown same⟩

theorem move_unmapRange (done : unmapRange address pages attached = .done () after)
    (coherent : attached.space.Coherent)
    (plain : ∀ number, Within (pageOf address) pages number →
      Unmarked (fun state => state = .sharedCode ∨ direct state)
        (attached.space.page number).properties)
    (resources : Resources) :
    after.space.layout = attached.space.layout ∧
      Move direct ⟨attached.space, resources⟩ after.space := by
  obtain ⟨vacant, same⟩ := blank_of_unmapRange coherent plain done
  exact ⟨(rebuilt_of_unmapRange done).layout_eq, .unmapped plain vacant same⟩

theorem move_unmapPages (coherent : attached.space.Coherent) (orderly : attached.space.Orderly)
    (allowed : direct state)
    (done : unmapPages address pages state attached = .done result after) :
    after.space.layout = attached.space.layout ∧ Move direct attached after.space := by
  obtain ⟨checked, removed⟩ := unmapPages_eq_done done
  obtain ⟨aligned, covers, _⟩ := covers_of_unmapRange removed coherent
  refine move_unmapRange removed coherent (fun number inside => ?_) attached.resources
  obtain ⟨found, permission, accepted, properties⟩ :=
    plain_of_checked checked coherent orderly aligned covers rfl rfl inside
  obtain rfl : found = state := of_decide_eq_true accepted
  exact ⟨found, permission, .inr allowed, properties⟩

theorem move_setPermission (coherent : attached.space.Coherent) (orderly : attached.space.Orderly)
    (aligned : address % pageSize = 0) {permission : UserPermission}
    (done : setPermission address pages permission attached = .done result after) :
    after.space.layout = attached.space.layout ∧ Move direct attached after.space := by
  obtain ⟨blocks, directory, checked, updated, reprotected, space, _⟩ := setPermission_eq_done done
  have covers := (coherent.wellFormed.updates aligned updated).covers
  obtain ⟨inside, outside⟩ := coherent.page_reprotect reprotected updated aligned
  rw [space]
  have known := permission.known_toKernel
  refine ⟨rfl, .reprotected permission.toKernel known (fun number within => ?_) outside⟩
  obtain ⟨state, old, accepted, properties⟩ :=
    plain_of_checked checked coherent orderly aligned covers rfl rfl within
  obtain ⟨new, made, page⟩ := inside number within
  rw [properties] at made
  cases made
  exact ⟨state, old, accepted, properties, page⟩

namespace Shows

variable {other : AddressSpace} {kind wider : Properties → Prop}

theorem of_backs (backs : space.directory.Backs first frames)
    (properties : ∀ number, Within first frames.length number →
      kind (space.page number).properties) : space.Shows first frames kind := by
  intro index frame listed
  have bounded := (List.getElem?_eq_some_iff.mp listed).1
  exact ⟨properties (first + index) (by omega), backs.frameAt? listed⟩

theorem kind_of_within (shows : space.Shows first frames kind)
    (inside : Within first frames.length number) : kind (space.page number).properties := by
  obtain ⟨index, frame, listed, rfl⟩ := exists_frame_of_within inside
  exact (shows index frame listed).1

theorem congr (shows : space.Shows first frames kind)
    (same : ∀ number, Within first frames.length number → other.page number = space.page number) :
    other.Shows first frames kind := by
  intro index frame listed
  have bounded := (List.getElem?_eq_some_iff.mp listed).1
  rw [same (first + index) (by omega)]
  exact shows index frame listed

theorem weaken (shows : space.Shows first frames kind)
    (weaker : ∀ properties, kind properties → wider properties) :
    space.Shows first frames wider := fun index frame listed =>
  (shows index frame listed).imp_left (weaker _)

/-- Properties are changed in front of the same frames. -/
theorem reprotect (coherent : space.Coherent) {change : Properties → Checked Properties}
    (shows : space.Shows (pageOf address) frames kind)
    (changes : ∀ old new, kind old → change old = .ok new → wider new)
    (reprotected : space.directory.protect address frames.length permission = .ok directory)
    (updated : space.blocks.updateWith address frames.length change = .ok blocks)
    (aligned : address % pageSize = 0) :
    Shows { space with blocks, directory } (pageOf address) frames wider ∧
      ∀ number, ¬ Within (pageOf address) frames.length number →
        page { space with blocks, directory } number = space.page number := by
  obtain ⟨inside, outside⟩ := coherent.page_reprotect reprotected updated aligned
  refine ⟨fun index frame listed => ?_, outside⟩
  have bounded := (List.getElem?_eq_some_iff.mp listed).1
  obtain ⟨old, shown⟩ := shows index frame listed
  obtain ⟨new, made, page⟩ := inside (pageOf address + index) (by omega)
  rw [page]
  exact ⟨changes _ new old made, shown⟩

/-- Ordinary memory that is locked and hidden is lent out. -/
theorem lend (owned : space.Shows (pageOf address) frames (Unmarked (· = .normal)))
    (coherent : space.Coherent)
    (hidden : space.directory.protect address frames.length .hidden = .ok directory)
    (locked : space.blocks.lock address frames.length .hidden = .ok blocks)
    (aligned : address % pageSize = 0) :
    Shows { space with blocks, directory } (pageOf address) frames (· = .lent) ∧
      ∀ number, ¬ Within (pageOf address) frames.length number →
        page { space with blocks, directory } number = space.page number :=
  owned.reprotect coherent (fun old new unmarked made => by
    obtain ⟨_, permission, rfl, rfl⟩ := unmarked
    rw [Properties.lock_plain] at made
    exact (Except.ok.inj made).symm) hidden locked aligned

/-- Lent memory that is unlocked and shown again is ordinary. -/
theorem giveBack (lent : space.Shows (pageOf address) frames (· = .lent))
    (coherent : space.Coherent)
    (shown : space.directory.protect address frames.length permission = .ok directory)
    (unlocked : space.blocks.unlock address frames.length permission = .ok blocks)
    (aligned : address % pageSize = 0) :
    Shows { space with blocks, directory } (pageOf address) frames (· = .plain .normal permission) ∧
      ∀ number, ¬ Within (pageOf address) frames.length number →
        page { space with blocks, directory } number = space.page number :=
  lent.reprotect coherent (fun old new marked made => by
    obtain rfl := marked
    rw [Properties.unlock_lent] at made
    exact (Except.ok.inj made).symm) shown unlocked aligned

theorem apart_of_blank (owned : space.Shows first frames (Unmarked (· = .normal))) {second : Nat}
    (vacant : space.Blank second count) (inside : Within second count number) :
    ¬ Within first frames.length number := fun other => by
  obtain ⟨_, _, rfl, properties⟩ := owned.kind_of_within other
  rw [vacant number inside] at properties
  cases properties

theorem apart_of_lent {allowed : MemoryState → Prop} {second : Nat} {lentFrames : List Nat}
    (unmarked : space.Shows first frames (Unmarked allowed))
    (lent : space.Shows second lentFrames (· = .lent))
    (inside : Within second lentFrames.length number) : ¬ Within first frames.length number :=
  fun other => by
    obtain ⟨_, _, _, properties⟩ := unmarked.kind_of_within other
    rw [lent.kind_of_within inside] at properties
    cases properties

section Checked

variable (checked : checkRange address (pages * pageSize) check attached = .done () attached)
variable (coherent : attached.space.Coherent) (orderly : attached.space.Orderly)
variable (aligned : address % pageSize = 0)
variable (covers : attached.space.blocks.region.Covers address pages)
variable (backs : attached.space.directory.Backs (pageOf address) frames)
variable (length : frames.length = pages) (mask : check.attributesMask = .all)

include checked coherent orderly aligned covers backs length mask

theorem unmarked_of_checked (unmarked : check.attributes = .empty) :
    attached.space.Shows (pageOf address) frames
      (Unmarked fun state => check.state.accepts state = true) :=
  .of_backs backs fun _ inside =>
    plain_of_checked checked coherent orderly aligned covers mask unmarked (length ▸ inside)

theorem lent_of_checked (marked : check.attributes = .locked) :
    attached.space.Shows (pageOf address) frames (· = .lent) :=
  .of_backs backs fun _ inside =>
    AddressSpace.lent_of_checked checked coherent orderly aligned covers mask marked
      (length ▸ inside)

end Checked

theorem normal_of_unmarked
    (shows : space.Shows first frames (Unmarked fun state =>
      StateRequirement.accepts (.exactly .normal) state = true)) :
    space.Shows first frames (Unmarked (· = .normal)) :=
  shows.weaken fun _ ⟨state, permission, accepted, properties⟩ =>
    ⟨state, permission, of_decide_eq_true accepted, properties⟩

theorem alias_of_unmarked
    (shows : space.Shows first frames (Unmarked fun state =>
      StateRequirement.accepts (.hasFlags .canCodeAlias) state = true)) :
    space.Shows first frames (Unmarked MemoryState.IsAlias) :=
  shows.weaken fun _ ⟨state, permission, accepted, properties⟩ =>
    ⟨state, permission, MemoryState.has_canCodeAlias_iff.mp accepted, properties⟩

end Shows

theorem described_of_makeGroup (groups : Groups attached address pages group runs after)
    (nonempty : 0 < pages) : attached.resources.descriptors.free ≠ [] := by
  intro none
  have taken := groups.occupies.free_perm
  rw [none] at taken
  have held := groups.occupies.held
  rw [PageGroup.runs, (List.append_eq_nil_iff.mp taken.eq_nil).1, List.mapM_nil,
    Checked.pure_eq_ok] at held
  have length := groups.length_eq
  rw [← held] at length
  exact absurd length (Nat.ne_of_lt nonempty)

/-- Where memory is placed, each page of it is. -/
theorem canContain_of_within {layout : Layout} (aligned : address % pageSize = 0)
    (placed : layout.canContain address size state = .ok true)
    (bounded : pages * pageSize ≤ size) (inside : Within (pageOf address) pages number) :
    layout.canContain (number * pageSize) pageSize state = .ok true := by
  refine Layout.canContain_of_subrange placed (by decide) ?_
  simp only [pageOf, pageSize_eq] at *
  omega

theorem placed_of_requireAliasRanges (aligned : destination % pageSize = 0)
    (placing : requireAliasRanges destination source (pages * pageSize) attached =
      .done () attached)
    (inside : Within (pageOf destination) pages number) :
    attached.space.layout.canContain (number * pageSize) pageSize .aliasCode = .ok true :=
  canContain_of_within aligned (requireAliasRanges_eq_done placing).2 (Nat.le_refl _) inside

/-- Lending out memory adds an alias of it. -/
theorem aliased_of_mapCode (coherent : attached.space.Coherent)
    (orderly : attached.space.Orderly) (sound : Sound attached)
    (first : destination % pageSize = 0) (second : source % pageSize = 0)
    (whole : size / pageSize * pageSize = size)
    (done : mapCode destination source size attached = .done result after) :
    attached.space.Rebuilt after.space ∧ attached.resources.descriptors.free ≠ [] ∧
      (∀ number, Within (pageOf destination) (size / pageSize) number →
        attached.space.layout.canContain (number * pageSize) pageSize .aliasCode = .ok true) ∧
      ∃ frames, frames.length = size / pageSize ∧
        Aliased attached.space after.space (pageOf destination) (pageOf source) frames ∧
        after.space.Shows (pageOf destination) frames (· = .plain .aliasCode .hidden) := by
  obtain ⟨group, made, blocks, directory, placed, placing, checked, free, grouped, locked, hidden,
    mapped, discarded⟩ := mapCode_eq_done done
  obtain ⟨_, _, runs, groups⟩ := makeGroup_eq_done sound grouped
  obtain ⟨resources, _, rfl⟩ := discard_eq_ok discarded
  rw [groups.space_eq, ← groups.length_eq] at locked hidden
  rw [← whole, ← groups.length_eq] at placing checked free
  have updates := coherent.wellFormed.updates second locked
  have owned := (Shows.unmarked_of_checked checked coherent orderly second updates.covers
    groups.backs rfl rfl rfl).normal_of_unmarked
  -- First the source is locked and hidden, then the alias is placed.
  let lent : AttachedSpace := changed made blocks directory made.resources.frames
  have space : lent.space = { attached.space with blocks, directory } := by
    simp only [lent, changed, groups.space_eq]
  have lentCoherent : lent.space.Coherent := space ▸ coherent.lock second locked hidden
  obtain ⟨shows, untouched⟩ := owned.lend coherent hidden locked second
  rw [← space] at shows untouched
  have vacant := blank_of_checked free coherent orderly first
  obtain ⟨shown, same⟩ := shows_of_placeGroup lentCoherent first groups.occupies.held
    (fun number inside =>
      (untouched number (owned.apart_of_blank vacant inside)).trans (vacant number inside))
    mapped
  refine ⟨?_, described_of_makeGroup groups (groups.length_eq ▸ updates.nonempty), ?_,
    Run.framesOf runs, groups.length_eq, ⟨owned, vacant, ?_, ?_,
      fun number source destination => (same number destination).trans (untouched number source)⟩,
    shown⟩
  · have rebuilt : lent.space.Rebuilt placed.space := rebuilt_of_placeGroup mapped
    exact .trans ⟨blocks, directory, space⟩ rebuilt
  · rw [← groups.length_eq]
    exact fun number inside => placed_of_requireAliasRanges first placing inside
  · exact shows.congr fun number inside =>
      same number fun other => owned.apart_of_blank vacant other inside
  · exact shown.weaken fun properties plain => ⟨.aliasCode, .hidden, .inl rfl, plain⟩

theorem move_mapCode (coherent : attached.space.Coherent) (orderly : attached.space.Orderly)
    (sound : Sound attached) (first : destination % pageSize = 0) (second : source % pageSize = 0)
    (whole : size / pageSize * pageSize = size)
    (done : mapCode destination source size attached = .done result after) :
    after.space.layout = attached.space.layout ∧ Move direct attached after.space := by
  obtain ⟨rebuilt, described, placed, frames, length, aliased, shown⟩ :=
    aliased_of_mapCode coherent orderly sound first second whole done
  rw [← length] at placed
  exact ⟨rebuilt.layout_eq, .lent described placed aliased shown⟩

/-- Taking an alias away leaves the memory that it was an alias of. -/
theorem aliased_of_unmapCode (coherent : attached.space.Coherent)
    (orderly : attached.space.Orderly) (sound : Sound attached)
    (first : destination % pageSize = 0) (second : source % pageSize = 0)
    (whole : size / pageSize * pageSize = size) {strategy : InvalidationStrategy}
    (done : unmapCode destination source size strategy attached = .done result after) :
    attached.space.Rebuilt after.space ∧ ∃ frames, frames.length = size / pageSize ∧
      Aliased after.space attached.space (pageOf destination) (pageOf source) frames ∧
      after.space.Shows (pageOf source) frames (· = .plain .normal .userReadWrite) := by
  obtain ⟨group, made, _, removed, blocks, directory, last, checked, marked, grouped, compared, _,
    erased, unlocked, shown, space, _, _, _, discarded⟩ := unmapCode_eq_done done
  obtain ⟨_, _, runs, groups⟩ := makeGroup_eq_done sound grouped
  obtain ⟨resources, _, rfl⟩ := discard_eq_ok discarded
  obtain ⟨listed, held, behind⟩ := isBackedBy_eq_done compared
  obtain rfl := Except.ok.inj (held.symm.trans groups.occupies.held)
  obtain ⟨_, backs⟩ := Directory.runs_eq_some behind
  rw [← whole] at checked marked
  rw [← groups.length_eq] at checked marked erased unlocked shown
  rw [groups.space_eq] at backs
  have madeCoherent : made.space.Coherent := groups.space_eq ▸ coherent
  obtain ⟨_, covers, region⟩ := covers_of_unmapRange erased madeCoherent
  have removedCoherent := madeCoherent.unmapRange erased
  have updates := removedCoherent.wellFormed.updates second unlocked
  rw [groups.space_eq] at covers region
  have lent := Shows.lent_of_checked checked coherent orderly second (region ▸ updates.covers)
    groups.backs rfl rfl rfl
  have aliased := (Shows.unmarked_of_checked marked coherent orderly first covers backs rfl rfl
    rfl).alias_of_unmarked
  obtain ⟨vacant, untouched⟩ := blank_of_unmapRange madeCoherent (fun number inside => by
    rw [groups.space_eq]
    exact aliased.kind_of_within inside) erased
  rw [groups.space_eq] at untouched
  -- The source is apart from the alias, so it is still lent when the alias is gone.
  have shows := lent.congr fun number inside => untouched number (aliased.apart_of_lent lent inside)
  obtain ⟨owned, same⟩ := shows.giveBack removedCoherent shown unlocked second
  rw [← space] at owned same
  refine ⟨?_, Run.framesOf listed, groups.length_eq, ⟨?_, fun number inside => ?_, lent, aliased,
    fun number source destination =>
      ((same number source).trans (untouched number destination)).symm⟩, owned⟩
  · have rebuilt := rebuilt_of_unmapRange erased
    rw [groups.space_eq] at rebuilt
    exact rebuilt.trans ⟨blocks, directory, space⟩
  · exact owned.weaken fun properties plain => ⟨.normal, .userReadWrite, rfl, plain⟩
  · exact (same number fun other => aliased.apart_of_lent lent other inside).trans
      (vacant number inside)

theorem move_unmapCode (coherent : attached.space.Coherent) (orderly : attached.space.Orderly)
    (sound : Sound attached) (first : destination % pageSize = 0) (second : source % pageSize = 0)
    (whole : size / pageSize * pageSize = size) {strategy : InvalidationStrategy}
    (done : unmapCode destination source size strategy attached = .done result after) :
    after.space.layout = attached.space.layout ∧ Move direct attached after.space := by
  obtain ⟨rebuilt, frames, _, aliased, owned⟩ :=
    aliased_of_unmapCode coherent orderly sound first second whole done
  exact ⟨rebuilt.layout_eq, .returned aliased owned⟩

theorem page_create {layout : Layout} (paged : layout.Paged) (id number : Nat) :
    (create id layout).page number = .blank := by
  have blocks := Partition.ofRegion_wellFormed paged.aligned paged.whole paged.nonempty paged.fits
  have properties : (create id layout).blocks.propertiesOf number = .free := by
    cases found : (create id layout).blocks.at? number with
    | none => rw [Partition.propertiesOf, found, Option.getD_none]
    | some properties =>
        obtain ⟨block, member, _, rfl⟩ := blocks.at?_eq_some_iff.mp found
        obtain rfl := List.mem_singleton.mp member
        rw [Partition.propertiesOf, found, Option.getD_some]
  refine congrArg₂ Page.mk properties ?_
  simp only [create, Directory.frameAt?, Directory.empty, Std.ExtTreeMap.getElem?_empty,
    Option.map_none]

/-- Orderly code aliases carry no mark. -/
theorem unmarked_of_isAlias {properties : Properties} (orderly : properties.Orderly)
    (aliased : properties.state.IsAlias) : Unmarked MemoryState.IsAlias properties := by
  cases orderly with
  | free => exact absurd aliased (show ¬ MemoryState.free.IsAlias by decide)
  | inUse _ _ => exact ⟨_, _, aliased, rfl⟩
  | lent => exact absurd aliased (show ¬ MemoryState.normal.IsAlias by decide)

theorem Move.orderly (orderly : attached.space.Orderly) (move : Move direct attached space) :
    space.Orderly := by
  intro number
  cases move with
  | @mapped first frames state permission used known own vacant shown same =>
      by_cases inside : Within first frames.length number
      · rw [shown.kind_of_within inside]
        exact .inUse used known
      · exact same number inside ▸ orderly number
  | @unmapped first count plain vacant same =>
      by_cases inside : Within first count number
      · rw [vacant number inside]
        exact .free
      · exact same number inside ▸ orderly number
  | @reprotected first count permission known changed same =>
      by_cases inside : Within first count number
      · obtain ⟨state, old, reprotectable, _, page⟩ := changed number inside
        rw [page]
        exact .inUse (MemoryState.afterReprotect_ne_free permission reprotectable) known
      · exact same number inside ▸ orderly number
  | @lent destination source frames described placed aliased shown =>
      by_cases inSource : Within source frames.length number
      · rw [aliased.lent.kind_of_within inSource]
        exact .lent
      · by_cases inDestination : Within destination frames.length number
        · rw [shown.kind_of_within inDestination]
          exact .inUse (by decide) rfl
        · exact aliased.same number inSource inDestination ▸ orderly number
  | @returned destination source frames aliased owned =>
      by_cases inSource : Within source frames.length number
      · rw [owned.kind_of_within inSource]
        exact .inUse (by decide) rfl
      · by_cases inDestination : Within destination frames.length number
        · rw [aliased.vacant number inDestination]
          exact .free
        · exact aliased.same number inSource inDestination ▸ orderly number

end AddressSpace

end GuestMemory
