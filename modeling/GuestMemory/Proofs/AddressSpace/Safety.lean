import GuestMemory.Proofs.AddressSpace.Accounting
import GuestMemory.Proofs.AddressSpace.Moves
import GuestMemory.Proofs.Resources.Safety

/-!
Safety of the operations on an address space: what keeps faults from them is that blocks and
translations agree, that properties are orderly and that each frame has as many references as the
pages that show it. What remains is a number that leaves its width, where there is too much memory.
-/

namespace GuestMemory

open GuestMemory.Action Checked

variable {allowed : Fault → Prop} {limit address pages first count page frame physical : Nat}

namespace Directory

variable {directory : Directory} {collected : List Run} {permission : KernelPermission} {run : Run}

theorem safe_collectRuns (room : allowed .overflow ∨ limit < wordLimit)
    (lies : directory.Lies limit) (collectedLie : ∀ run ∈ collected, run.Lies limit) :
    (directory.collectRuns count first collected).Safe allowed := by
  induction count generalizing first collected with
  | zero => exact .ok _
  | succ count ih =>
      rw [collectRuns]
      split
      · exact .ok _
      · rename_i translation here
        have added := lies first translation here
        exact .bind (Run.safe_stack (room.imp_right fun fits =>
          ⟨fits, added, collectedLie⟩)) fun more stacked =>
          ih (Run.lies_of_stack stacked added collectedLie)

theorem safe_runs (room : allowed .overflow ∨ limit < wordLimit) (lies : directory.Lies limit) :
    (directory.runs address pages).Safe allowed :=
  safe_collectRuns room lies fun _ member => absurd member List.not_mem_nil

theorem protect_exists (fits : pageOf address + pages < wordLimit) :
    ∃ after, directory.protect address pages permission = .ok after := by
  rw [protect, word_of_lt fits]
  exact ⟨_, rfl⟩

theorem unmap_exists (aligned : address % pageSize = 0) :
    ∃ after, directory.unmap address pages = .ok after := by
  rw [unmap, if_pos (isPageAligned_iff.mpr aligned)]
  exact ⟨_, rfl⟩

theorem safe_insertPages (aligned : physical % pageSize = 0)
    (addressable : allowed .overflow ∨ ∀ frame ∈ List.range' (pageOf physical) count,
      frame * pageSize < wordLimit)
    (vacant : ∀ page, first ≤ page → page < first + count → directory.entries[page]? = none) :
    (insertPages permission count first physical directory).Safe allowed := by
  induction count generalizing first physical directory with
  | zero => exact .ok _
  | succ count ih =>
      have next : pageOf (physical + pageSize) = pageOf physical + 1 := by
        simpa using pageOf_add_mul_pageSize physical 1
      rw [List.range'_succ] at addressable
      have fresh : ¬ directory.entries.contains first = true := by
        rw [Std.ExtTreeMap.contains_eq_isSome_getElem?, vacant first (Nat.le_refl _) (by omega)]
        exact Bool.false_ne_true
      refine .bind (safe_word (addressable.imp_right fun fits => ?_)) fun _ _ =>
        .ite (fun taken => absurd taken fresh) fun _ =>
          ih (by rw [Nat.add_mod_right, aligned]) (addressable.imp_right fun fits => ?_)
            fun page lower upper => ?_
      · have here := (List.forall_mem_cons.mp fits).1
        simp only [pageOf, pageSize_eq] at aligned here
        omega
      · rw [next]
        exact (List.forall_mem_cons.mp fits).2
      · rw [getElem?_insert_of_nat, if_neg (by omega)]
        exact vacant page (by omega) (by omega)

/-- Frames that can be addressed can be mapped on pages without translations. -/
theorem safe_map (aligned : allowed .virtualUnaligned ∨ address % pageSize = 0)
    (runAligned : run.address % pageSize = 0)
    (addressable : allowed .overflow ∨ ∀ frame ∈ run.frames, frame * pageSize < wordLimit)
    (vacant : address % pageSize = 0 → ∀ page, pageOf address ≤ page →
      page < pageOf address + run.pages → directory.entries[page]? = none) :
    (directory.map address run permission).Safe allowed := by
  have runUsable := isPageAligned_iff.mpr runAligned
  refine .ite (fun unaligned => .error (aligned.resolve_right fun usable => ?_)) fun usable => ?_
  · simp [isPageAligned_iff.mpr usable] at unaligned
  · simp only [runUsable, Bool.not_true, Bool.false_eq_true, ↓reduceIte]
    exact safe_insertPages runAligned addressable
      (vacant (isPageAligned_iff.mp (by simpa using usable)))

theorem frameAt?_erasePages (directory : Directory) (first count page : Nat) :
    (erasePages count first directory).frameAt? page =
      if first ≤ page ∧ page < first + count then none else directory.frameAt? page := by
  rw [frameAt?, getElem?_erasePages]
  split <;> rfl

/-- A range shows a frame no more often than the directory does. -/
theorem count_le_card_pagesOn {frames : List Nat} (backs : directory.Backs first frames)
    (frame : Nat) : frames.count frame ≤ (directory.pagesOn frame).card := by
  have parts := card_pagesOn_of_erased backs (frameAt?_erasePages directory first _) frame
  omega

/-- A frame that a page outside a range shows too has more pages than those in the range. -/
theorem count_lt_card_pagesOn {frames : List Nat} (backs : directory.Backs first frames)
    (shown : directory.frameAt? page = some frame)
    (outside : ¬ (first ≤ page ∧ page < first + frames.length)) :
    frames.count frame < (directory.pagesOn frame).card := by
  have parts := card_pagesOn_of_erased backs (frameAt?_erasePages directory first _) frame
  have kept : page ∈ (erasePages frames.length first directory).pagesOn frame := by
    rw [mem_pagesOn, frameAt?_erasePages, if_neg outside]
    exact shown
  have positive := Finset.card_pos.mpr ⟨page, kept⟩
  omega

end Directory

/-- All bytes of the range are inside the address space. -/
def Layout.Encloses (layout : Layout) (address size : Nat) : Prop :=
  layout.addressSpace.base ≤ address ∧ address + size ≤ layout.addressSpace.stop

/-- Memory in the state is placed on the range only inside the address space, unless what comes of
reaching beyond it is allowed. -/
def Layout.Admits (allowed : Fault → Prop) (layout : Layout) (address size : Nat)
    (state : MemoryState) : Prop :=
  layout.canContain address size state = .ok true →
    allowed .outsideRegion ∨ layout.Encloses address size

theorem Layout.WellFormed.admits {layout : Layout} (wellFormed : layout.WellFormed)
    (address size : Nat) (state : MemoryState) : layout.Admits allowed address size state :=
  fun placed => .inr (wellFormed.within_of_canContain placed).2

/-- There are pages, which end at an address and can be given another use unless what comes of
leaving the region is allowed. -/
structure Region.Assignable (allowed : Fault → Prop) (region : Region) (address pages : Nat) :
    Prop where
  nonempty : 0 < pages
  fits : address + pages * pageSize < wordLimit
  covers : allowed .outsideRegion ∨ region.Covers address pages

namespace AddressSpace

variable {attached after : AttachedSpace} {extent : Run} {runs : List Run} {group : PageGroup}
variable {permission : KernelPermission} {state : MemoryState} {check : Check}

theorem safe_requireInside (layout : attached.space.layout.Regular) {size : Nat} :
    (requireInside address size).Safe allowed attached :=
  .after_steady (Steady.inspect _) (.inspect (.of_exists (layout.contains_exists address size)))
    fun _ _ => .require _ _

theorem safe_requirePlace (layout : attached.space.layout.Regular) {size : Nat} {error : Error} :
    (requirePlace address size state error).Safe allowed attached :=
  .after_steady (Steady.inspect _)
    (.inspect (.of_exists (layout.canContain_exists address size state))) fun _ _ => .require _ _

theorem safe_rangeSize {σ : Type} {before : σ} :
    (rangeSize address pages : Action σ Nat).Safe allowed before :=
  .bind (.require _ _) fun _ _ _ => .pure _

theorem safe_checkRange (wellFormed : attached.space.blocks.WellFormed) {size : Nat} :
    (checkRange address size check).Safe allowed attached := by
  obtain ⟨blocks, met, _⟩ := wellFormed.overlapping_eq_ok address size
  refine .after_steady (Steady.read _) (.read _) fun space viewed =>
    .after_steady (Steady.check _) (.check (.of_exists ⟨blocks, ?_⟩)) fun blocks _ =>
      .after_steady (Steady.require _ _) (.require _ _) fun _ _ => ?_
  · obtain ⟨rfl, _⟩ := read_eq_done.mp viewed
    exact met
  · split
    · exact .pure _
    · exact .refuse _

theorem commit_exists (wellFormed : attached.space.blocks.WellFormed) (operation : Operation) :
    ∃ result, commit operation address pages attached = .done result attached := by
  refine ⟨_, bind_eq_done.mpr ⟨_, attached, rfl, bind_eq_done.mpr ⟨(), attached, ?_, rfl⟩⟩⟩
  rw [wellFormed.requireListable_eq_ok, check_ok]
  rfl

theorem safe_commit (wellFormed : attached.space.blocks.WellFormed) {operation : Operation} :
    (commit operation address pages).Safe allowed attached :=
  .of_done (commit_exists wellFormed operation).choose_spec

theorem covers_of_contains (coherent : attached.space.Coherent)
    (inside : attached.space.layout.contains address (pages * pageSize) = .ok true) :
    0 < pages ∧ attached.space.blocks.region.Covers address pages := by
  obtain ⟨_, nonempty, lower, upper⟩ := Region.contains_eq_true inside
  rw [coherent.region_eq]
  exact ⟨Nat.pos_of_mul_pos_right nonempty, lower, upper⟩

/-- What is inside the address space are pages of its region. -/
theorem covers_of_requireInside
    (passed : requireInside address (pages * pageSize) attached = .done () after)
    (coherent : attached.space.Coherent) :
    0 < pages ∧ attached.space.blocks.region.Covers address pages :=
  covers_of_contains coherent (requireInside_eq_done passed)

/-- Where memory is placed that the layout admits, pages can be given another use. -/
theorem assignable_of_canContain (coherent : attached.space.Coherent)
    (placed : attached.space.layout.canContain address (pages * pageSize) state = .ok true)
    (admits : attached.space.layout.Admits allowed address (pages * pageSize) state) :
    attached.space.blocks.region.Assignable allowed address pages := by
  obtain ⟨bounded, nonempty, _, upper⟩ :=
    Region.contains_eq_true (Layout.canContain_eq_true placed)
  refine ⟨Nat.pos_of_mul_pos_right nonempty, Nat.lt_of_le_of_lt upper bounded, ?_⟩
  rw [coherent.region_eq]
  exact admits placed

theorem changeFrames_safe {change : FramePool → Checked FramePool}
    (safe : (change attached.resources.frames).Safe allowed) :
    (changeFrames change).Safe allowed attached :=
  .update (.bind safe fun _ _ => .ok _)

theorem changeDirectory_safe {change : Directory → Checked Directory}
    (safe : (change attached.space.directory).Safe allowed) :
    (changeDirectory change).Safe allowed attached :=
  .update (.bind safe fun _ _ => .ok _)

theorem changeBlocks_safe {change : Partition → Checked Partition}
    (safe : (change attached.space.blocks).Safe allowed) :
    (changeBlocks change).Safe allowed attached :=
  .update (.bind safe fun _ _ => .ok _)

theorem assignable_of_covers (wellFormed : attached.space.blocks.WellFormed) (nonempty : 0 < pages)
    (covers : attached.space.blocks.region.Covers address pages) :
    attached.space.blocks.region.Assignable allowed address pages :=
  ⟨nonempty, Nat.lt_of_le_of_lt covers.2 wellFormed.fits, .inr covers⟩

theorem safe_assign (wellFormed : attached.space.blocks.WellFormed)
    (aligned : address % pageSize = 0) {attributes : Attributes}
    (assignable : attached.space.blocks.region.Assignable allowed address pages) :
    (attached.space.blocks.assign address pages state permission attributes).Safe allowed := by
  by_cases covers : attached.space.blocks.region.Covers address pages
  · exact .of_exists (wellFormed.updateWith_exists aligned assignable.nonempty covers
      fun _ _ _ _ _ => ⟨_, rfl⟩)
  · rw [Partition.assign, wellFormed.updateWith_eq_error assignable.fits covers]
    exact .error (assignable.covers.resolve_right covers)

/-- Frames that can be retained can be mapped on pages without translations. -/
theorem safe_mapRuns (aligned : address % pageSize = 0) (lie : ∀ run ∈ runs, run.Lies limit)
    (vacant : ∀ page, Within (pageOf address) (Run.framesOf runs).length page →
      attached.space.directory.entries[page]? = none)
    (fits : address + (Run.framesOf runs).length * pageSize < wordLimit)
    (retainable : attached.resources.frames.Retainable allowed (Run.framesOf runs)) :
    (mapRuns permission address runs).Safe allowed attached := by
  induction runs generalizing address attached with
  | nil => exact .pure _
  | cons run rest ih =>
      obtain ⟨lies, restLie⟩ := List.forall_mem_cons.mp lie
      rw [Run.framesOf_cons] at retainable
      rw [Run.framesOf_cons, List.length_append, Run.length_frames] at vacant fits
      refine .bind (changeFrames_safe (FramePool.safe_retain retainable.left))
        fun _ middle done => ?_
      obtain ⟨frames, retained, rfl⟩ := changeFrames_eq_done.mp done
      refine .bind (changeDirectory_safe (Directory.safe_map (.inr aligned) lies.aligned
        (.inr retainable.left.addressable) fun _ page lower upper =>
          vacant page ⟨lower, by omega⟩)) fun _ middle done => ?_
      obtain ⟨directory, gained, rfl⟩ := changeDirectory_eq_done.mp done
      have ends : address + run.size < wordLimit := by
        simp only [Run.size, Nat.add_mul] at *
        omega
      refine .bind (.check (safe_word (.inr ends))) fun next middle done => ?_
      obtain ⟨same, rfl⟩ := check_eq_done.mp done
      obtain ⟨_, rfl⟩ := word_eq_ok_iff.mp same
      have start : pageOf (address + run.size) = pageOf address + run.pages := by
        rw [Run.size, pageOf_add_mul_pageSize]
      have gains := Directory.gains_of_map gained
      -- The frames of the run have gained what they are listed, which leaves the rest its room.
      refine ih ?_ restLie (fun page inside => ?_) ?_
        (retainable.right (FramePool.retains_of_retain retained))
      · rw [Run.size, Nat.add_mul_mod_self_right, aligned]
      · rw [start] at inside
        have outside := gains.outside page (by rw [Run.length_frames]; omega)
        simp only [changed] at outside ⊢
        rw [outside]
        exact vacant page (by omega)
      · simp only [Run.size, Nat.add_mul] at *
        omega

theorem Blank.entries_eq_none {space : AddressSpace} (blank : space.Blank first count)
    (inside : Within first count page) : space.directory.entries[page]? = none := by
  have frame := congrArg Page.frame (blank page inside)
  exact Option.map_eq_none_iff.mp frame

/-- A group whose frames can be retained can be placed on blank pages. -/
theorem safe_placeGroup (coherent : attached.space.Coherent) (aligned : address % pageSize = 0)
    (held : group.runs attached.resources.descriptors = .ok runs)
    (lie : ∀ run ∈ runs, run.Lies limit)
    (assignable : attached.space.blocks.region.Assignable allowed address
      (Run.framesOf runs).length)
    (vacant : attached.space.Blank (pageOf address) (Run.framesOf runs).length)
    (retainable : attached.resources.frames.Retainable allowed (Run.framesOf runs)) :
    (placeGroup address group state permission).Safe allowed attached := by
  have fits := assignable.fits
  refine .after_steady (Steady.inspect _) (.inspect (.of_exists ⟨runs, held⟩)) fun found done => ?_
  obtain ⟨listed, _⟩ := inspect_eq_done.mp done
  obtain rfl := Except.ok.inj (listed.symm.trans held)
  refine .bind (safe_mapRuns aligned lie (fun page inside => vacant.entries_eq_none inside) fits
    retainable) fun _ middle mapped => ?_
  obtain ⟨directory, frames, _, _, rfl⟩ := mapRuns_eq_done mapped
  have few : (Run.framesOf found).length < wordLimit := by
    simp only [pageSize_eq] at fits
    omega
  refine .after_steady (Steady.inspect _) (.inspect (PageGroup.safe_pages held (.inr few)))
    fun pages counted => changeBlocks_safe ?_
  obtain ⟨counted, _⟩ := inspect_eq_done.mp counted
  obtain rfl := PageGroup.pages_eq_ok held counted
  exact safe_assign coherent.wellFormed aligned assignable

/-- A range can be unmapped when the references to the frames behind it can be dropped. -/
theorem unmapRange_of_releaseAll {found : Option (List Run)} {frames : FramePool}
    (coherent : attached.space.Coherent) (aligned : address % pageSize = 0) (nonempty : 0 < pages)
    (covers : attached.space.blocks.region.Covers address pages)
    (listed : attached.space.directory.runs address pages = .ok found)
    (released : attached.resources.frames.releaseAll (found.getD []) = .ok frames) :
    ∃ after, unmapRange address pages attached = .done () after := by
  obtain ⟨directory, erased⟩ : ∃ after, attached.space.directory.unmap address pages = .ok after :=
    Directory.unmap_exists aligned
  obtain ⟨blocks, assigned⟩ : ∃ after,
      attached.space.blocks.assign address pages .free .empty .empty = .ok after :=
    coherent.wellFormed.updateWith_exists aligned nonempty covers fun _ _ _ _ _ => ⟨_, rfl⟩
  refine ⟨changed attached blocks directory frames, ?_⟩
  simp only [unmapRange, bind_eq_done, inspect_eq_done, changeBlocks_eq_done,
    changeDirectory_eq_done, changeFrames_eq_done]
  exact ⟨found, attached, ⟨listed, rfl⟩, (), _, ⟨directory, erased, rfl⟩, (), _,
    ⟨frames, released, rfl⟩, blocks, assigned, rfl⟩

theorem unmapRange_exists {found : Option (List Run)} (coherent : attached.space.Coherent)
    (aligned : address % pageSize = 0) (nonempty : 0 < pages)
    (covers : attached.space.blocks.region.Covers address pages)
    (listed : attached.space.directory.runs address pages = .ok found)
    (spares : attached.resources.frames.Spares (Run.framesOf (found.getD []))) :
    ∃ after, unmapRange address pages attached = .done () after := by
  obtain ⟨frames, released⟩ := FramePool.releaseAll_exists spares
  exact unmapRange_of_releaseAll coherent aligned nonempty covers listed released

theorem safe_retainGroup (safe : (group.retain attached.resources).Safe allowed) :
    (retainGroup group).Safe allowed attached := by
  intro fault stopped
  rw [retainGroup] at stopped
  split at stopped
  · cases stopped
  · rename_i other failed
    cases stopped
    exact safe _ failed

/-- A group can be compared with the frames behind any range. -/
theorem safe_isBackedBy (room : allowed .overflow ∨ limit < wordLimit)
    (held : group.runs attached.resources.descriptors = .ok runs)
    (few : (Run.framesOf runs).length < wordLimit) (lies : attached.space.directory.Lies limit) :
    (isBackedBy group address pages).Safe allowed attached := by
  refine .after_steady (Steady.inspect _) (.inspect (PageGroup.safe_pages held (.inr few)))
    fun count _ => .ite (fun _ => .pure _) fun _ => .after_steady (Steady.inspect _)
      (.inspect (Directory.safe_runs room lies)) fun found _ => ?_
  cases found with
  | none => exact .pure _
  | some behind => exact .bind (.inspect (.of_exists ⟨runs, held⟩)) fun _ _ _ => .pure _

/-- The number of pages that all processes together may show for reference counts to have room. -/
def pageLimit : Nat := 0x40000000

/-- What keeps faults from the operations on an address space, but for the allowed ones: numbers may
leave their width only if that is allowed. -/
structure FaultGuarded (allowed : Fault → Prop) (extent : Run) (attached : AttachedSpace) :
    Prop where
  sound : Sound attached
  coherent : attached.space.Coherent
  orderly : attached.space.Orderly
  layout : attached.space.layout.Regular
  frames : attached.resources.frames.WellFormed extent
  shown_le : ∀ frame : Nat,
    (attached.space.directory.pagesOn frame).card ≤ attached.resources.frames.held frame
  room : allowed .overflow ∨ extent.stop < wordLimit ∧
    ∀ frame : Nat, attached.resources.frames.held frame < pageLimit

namespace FaultGuarded

variable (guarded : FaultGuarded allowed extent attached)

include guarded

theorem mem_extent (held : attached.resources.frames.held frame ≠ 0) :
    frame ∈ extent.frames ∧ frame * pageSize < wordLimit := by
  rw [Ne, guarded.frames.positive.held_eq_zero_iff] at held
  exact ⟨guarded.frames.owned frame held, guarded.frames.addressable frame held⟩

/-- Translations lead to frames of the pool. -/
theorem lies : attached.space.directory.Lies extent.stop := by
  intro page translation found
  have aligned := guarded.coherent.aligned page translation found
  have shown : attached.space.directory.frameAt? page = some (pageOf translation.address) := by
    rw [Directory.frameAt?, found, Option.map_some]
  have positive := Finset.card_pos.mpr ⟨page, Directory.mem_pagesOn.mpr shown⟩
  have counted := guarded.shown_le (pageOf translation.address)
  have base := guarded.frames.aligned
  obtain ⟨inside, _⟩ := guarded.mem_extent (Nat.ne_of_gt (Nat.lt_of_lt_of_le positive counted))
  rw [Run.mem_frames] at inside
  refine ⟨aligned, ?_⟩
  simp only [Run.stop, Run.size, pageOf, pageSize_eq] at *
  omega

theorem fits : allowed .overflow ∨ extent.stop < wordLimit :=
  guarded.room.imp_right fun ⟨fits, _⟩ => fits

/-- The frames behind a range can be retained twice over. -/
theorem retainable_of_backs {frames : List Nat}
    (backs : attached.space.directory.Backs first frames) :
    attached.resources.frames.Retainable allowed (frames ++ frames) := by
  have held (frame : Nat) (member : frame ∈ frames ++ frames) :
      attached.resources.frames.held frame ≠ 0 := by
    obtain ⟨page, _, _, shown⟩ := exists_page_of_backs backs (by simpa using member)
    have positive := Finset.card_pos.mpr ⟨page, Directory.mem_pagesOn.mpr shown⟩
    have counted := guarded.shown_le frame
    omega
  refine ⟨fun frame member => (guarded.mem_extent (held frame member)).2, held,
    guarded.room.imp_right fun ⟨_, few⟩ frame _ => ?_⟩
  have references := few frame
  have counted := guarded.shown_le frame
  have listed := Directory.count_le_card_pagesOn backs frame
  rw [List.count_append]
  simp only [pageLimit, References.limit] at *
  omega

theorem safe_makeGroup : (makeGroup address pages).Safe allowed attached := by
  refine .after_steady (Steady.inspect _)
    (.inspect (Directory.safe_runs guarded.fits guarded.lies)) fun found done => ?_
  obtain ⟨listed, _⟩ := inspect_eq_done.mp done
  cases found with
  | none => exact .refuse _
  | some runs =>
      exact .focus (PageGroup.safe_ofRuns guarded.fits guarded.sound.descriptors
        (guarded.lies.of_runs listed))

theorem safe_makeHeldGroup : (makeHeldGroup address pages check).Safe allowed attached := by
  refine .after_steady steady_rangeSize safe_rangeSize fun size _ =>
    .after_steady steady_checkRange (safe_checkRange guarded.coherent.wellFormed) fun _ _ =>
      .bind guarded.safe_makeGroup fun group made grouped => ?_
  obtain ⟨unheld, frames, runs, groups⟩ := makeGroup_eq_done guarded.sound grouped
  refine safe_retainGroup (PageGroup.safe_retain groups.occupies.held unheld ?_)
  rw [frames]
  exact (guarded.retainable_of_backs groups.backs).left

end FaultGuarded

end AddressSpace

end GuestMemory
