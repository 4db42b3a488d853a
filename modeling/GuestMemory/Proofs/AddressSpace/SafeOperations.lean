import GuestMemory.Proofs.AddressSpace.Safety

/-!
Safety of the operations that calls come to: an address space in order stops none of them.
-/

namespace GuestMemory.AddressSpace

open GuestMemory.Action

variable {allowed : Fault → Prop} {attached after : AttachedSpace} {extent : Run}
variable {address pages destination source size limit : Nat} {frames : List Nat} {runs : List Run}
variable {state : MemoryState} {permission : KernelPermission} {group : PageGroup}
variable {change : Properties → Checked Properties} {descriptors : DescriptorPool}

def Described (descriptors : DescriptorPool) (attached : AttachedSpace) : Prop :=
  attached.resources.descriptors = descriptors

theorem described_changeBlocks {change : Partition → Checked Partition} :
    Keeps (Described descriptors) (changeBlocks change) := by
  refine Keeps.update fun attached after same changed => ?_
  obtain ⟨blocks, _, built⟩ := Checked.bind_eq_ok.mp changed
  cases built
  exact same

theorem described_changeDirectory {change : Directory → Checked Directory} :
    Keeps (Described descriptors) (changeDirectory change) := by
  refine Keeps.update fun attached after same changed => ?_
  obtain ⟨directory, _, built⟩ := Checked.bind_eq_ok.mp changed
  cases built
  exact same

theorem described_changeFrames {change : FramePool → Checked FramePool} :
    Keeps (Described descriptors) (changeFrames change) := by
  refine Keeps.update fun attached after same changed => ?_
  obtain ⟨frames, _, built⟩ := Checked.bind_eq_ok.mp changed
  cases built
  exact same

theorem described_invalidate {invalidation : Invalidation} :
    Keeps (Described descriptors) (invalidate invalidation) := by
  refine Keeps.update fun attached after same changed => ?_
  cases changed
  exact same

theorem described_mapRuns : Keeps (Described descriptors) (mapRuns permission address runs) := by
  induction runs generalizing address with
  | nil => exact (Steady.pure _).keeps
  | cons run rest ih =>
      exact described_changeFrames.bind fun _ => described_changeDirectory.bind fun _ =>
        (Steady.check _).keeps.bind fun _ => ih

theorem described_placeGroup :
    Keeps (Described descriptors) (placeGroup address group state permission) :=
  (Steady.inspect _).keeps.bind fun _ => described_mapRuns.bind fun _ =>
    (Steady.inspect _).keeps.bind fun _ => described_changeBlocks

theorem described_unmapRange : Keeps (Described descriptors) (unmapRange address pages) :=
  (Steady.inspect _).keeps.bind fun _ => described_changeDirectory.bind fun _ =>
    described_changeFrames.bind fun _ => described_changeBlocks

theorem described_reclaim {condition : Prop} [Decidable condition] {invalidation : Invalidation} :
    Keeps (Described descriptors) (do
      unmapRange destination pages
      changeBlocks (·.unlock source pages permission)
      changeDirectory (·.protect source pages permission)
      if condition then
        invalidate invalidation
      commit .unmapCode destination pages) :=
  described_unmapRange.bind fun _ => described_changeBlocks.bind fun _ =>
    described_changeDirectory.bind fun _ =>
      (described_invalidate.bind fun _ => steady_commit.keeps).ite steady_commit.keeps

theorem described_unmapBacked {operation : Operation} {cause : Refusal} :
    Keeps (Described descriptors) (do
      let same ← isBackedBy group address pages
      .require same cause
      unmapRange address pages
      commit operation address pages : SpaceAction Commit) :=
  steady_isBackedBy.keeps.bind fun _ => (Steady.require _ _).keeps.bind fun _ =>
    described_unmapRange.bind fun _ => steady_commit.keeps

theorem updateWith_exists (coherent : attached.space.Coherent) (aligned : address % pageSize = 0)
    (nonempty : 0 < pages) (covers : attached.space.blocks.region.Covers address pages)
    (changes : ∀ number, Within (pageOf address) pages number →
      ∃ new, change (attached.space.page number).properties = .ok new) :
    ∃ blocks, attached.space.blocks.updateWith address pages change = .ok blocks := by
  refine coherent.wellFormed.updateWith_exists aligned nonempty covers
    fun number properties lower upper found => ?_
  have changed := changes number ⟨lower, upper⟩
  rwa [page, Partition.propertiesOf, found, Option.getD_some] at changed

theorem Coherent.pages_fit (coherent : attached.space.Coherent)
    (covers : attached.space.blocks.region.Covers address pages) :
    pageOf address + pages < wordLimit ∧ pages < wordLimit := by
  have fits := Nat.lt_of_le_of_lt covers.2 coherent.wellFormed.fits
  simp only [pageOf, pageSize_eq] at *
  omega

theorem safe_requireAliasRanges (layout : attached.space.layout.Regular) :
    (requireAliasRanges destination source size).Safe allowed attached :=
  .after_steady steady_requireInside (safe_requireInside layout) fun _ _ =>
    safe_requirePlace layout

/-- Telling the instruction cache something before a commit cannot fail. -/
theorem invalidate_commit_exists (wellFormed : attached.space.blocks.WellFormed)
    (condition : Prop) [Decidable condition] (invalidation : Invalidation) (operation : Operation)
    (address pages : Nat) :
    ∃ result after, (if condition then do
        invalidate invalidation
        commit operation address pages
      else commit operation address pages) attached = .done result after := by
  split
  · let told : AttachedSpace :=
      { attached with resources.cache := attached.resources.cache.request invalidation }
    have kept : told.space.blocks.WellFormed := wellFormed
    obtain ⟨result, done⟩ := commit_exists kept operation
    exact ⟨result, told, bind_eq_done.mpr ⟨(), told, update_of_ok rfl, done⟩⟩
  · obtain ⟨result, done⟩ := commit_exists wellFormed operation
    exact ⟨result, attached, done⟩

/-- A group whose frames can be retained can be mapped wherever there is room for it. -/
theorem safe_mapGroup (coherent : attached.space.Coherent) (orderly : attached.space.Orderly)
    (layout : attached.space.layout.Regular) (aligned : address % pageSize = 0)
    (admits : attached.space.layout.Admits allowed address
      ((Run.framesOf runs).length * pageSize) state)
    (used : state.has .mapped = true)
    (held : group.runs attached.resources.descriptors = .ok runs)
    (lie : ∀ run ∈ runs, run.Lies limit) (few : (Run.framesOf runs).length < wordLimit)
    (retainable : attached.resources.frames.Retainable allowed (Run.framesOf runs)) :
    (mapGroup address group state permission).Safe allowed attached := by
  refine .after_steady (Steady.inspect _) (.inspect (PageGroup.safe_pages held (.inr few)))
    fun pages counted => .after_steady steady_rangeSize safe_rangeSize fun size sized =>
      .after_steady steady_requirePlace (safe_requirePlace layout) fun _ placed =>
        .after_steady steady_checkRange (safe_checkRange coherent.wellFormed) fun _ checked => ?_
  obtain ⟨counted, _⟩ := inspect_eq_done.mp counted
  obtain rfl := PageGroup.pages_eq_ok held counted
  obtain ⟨_, rfl, _⟩ := rangeSize_eq_done sized
  have assignable := assignable_of_canContain coherent (requirePlace_eq_done placed) admits
  have vacant := blank_of_checked checked coherent orderly aligned
  exact .bind (safe_placeGroup coherent aligned held lie assignable vacant retainable)
    fun _ middle done => safe_commit (coherent.placeGroup used aligned done).wellFormed

/-- A range that turns out to show the frames of a group can be unmapped if these can be spared. -/
theorem safe_unmapBacked {operation : Operation} {cause : Refusal}
    (coherent : attached.space.Coherent) (aligned : address % pageSize = 0) (nonempty : 0 < pages)
    (room : allowed .overflow ∨ limit < wordLimit) (lies : attached.space.directory.Lies limit)
    (held : group.runs attached.resources.descriptors = .ok runs)
    (few : (Run.framesOf runs).length < wordLimit)
    (spares : attached.space.directory.Backs (pageOf address) (Run.framesOf runs) →
      attached.resources.frames.Spares (Run.framesOf runs)) :
    Action.Safe allowed (do
      let same ← isBackedBy group address pages
      .require same cause
      unmapRange address pages
      commit operation address pages : SpaceAction Commit) attached := by
  refine .after_steady steady_isBackedBy (safe_isBackedBy room held few lies) fun same compared =>
    .after_steady (Steady.require _ _) (.require _ _) fun _ required => ?_
  obtain ⟨rfl, _⟩ := require_eq_done.mp required
  obtain ⟨listed, again, behind⟩ := isBackedBy_eq_done compared
  obtain rfl := Except.ok.inj (again.symm.trans held)
  obtain ⟨rfl, backs⟩ := Directory.runs_eq_some behind
  obtain ⟨removed, erased⟩ := unmapRange_exists coherent aligned nonempty
    (coherent.covers_of_backs aligned backs nonempty) behind (spares backs)
  exact .bind (.of_done erased) fun _ final done =>
    safe_commit (coherent.unmapRange done).wellFormed

/-- Where lent memory and its alias are known, the alias can be taken away. -/
theorem reclaim_exists (coherent : attached.space.Coherent) (first : destination % pageSize = 0)
    (second : source % pageSize = 0) (nonempty : 0 < frames.length)
    (covers : attached.space.blocks.region.Covers destination frames.length)
    (sourceCovers : attached.space.blocks.region.Covers source frames.length)
    (lent : attached.space.Shows (pageOf source) frames (· = .lent))
    (aliased : attached.space.Shows (pageOf destination) frames (Unmarked MemoryState.IsAlias))
    (behind : attached.space.directory.runs destination frames.length = .ok (some runs))
    (spares : attached.resources.frames.Spares (Run.framesOf runs)) (permission : KernelPermission)
    (condition : Prop) [Decidable condition] (invalidation : Invalidation) :
    ∃ result after, (do
      unmapRange destination frames.length
      changeBlocks (·.unlock source frames.length permission)
      changeDirectory (·.protect source frames.length permission)
      if condition then
        invalidate invalidation
      commit .unmapCode destination frames.length : SpaceAction Commit) attached =
        .done result after := by
  obtain ⟨removed, erased⟩ := unmapRange_exists coherent first nonempty covers behind spares
  obtain ⟨_, untouched⟩ :=
    blank_of_unmapRange coherent (fun number inside => aliased.kind_of_within inside) erased
  obtain ⟨_, _, region⟩ := covers_of_unmapRange erased coherent
  have removedCoherent := coherent.unmapRange erased
  -- The alias carries no mark, so the source is apart from it and still lent when it is gone.
  have shows := lent.congr fun number inside =>
    untouched number (aliased.apart_of_lent lent inside)
  obtain ⟨blocks, unlocked⟩ : ∃ blocks,
      removed.space.blocks.unlock source frames.length permission = .ok blocks :=
    updateWith_exists removedCoherent second nonempty (region ▸ sourceCovers)
      fun number inside => ⟨_, by rw [shows.kind_of_within inside, Properties.unlock_lent]⟩
  obtain ⟨directory, shown⟩ : ∃ directory,
      removed.space.directory.protect source frames.length permission = .ok directory :=
    Directory.protect_exists (coherent.pages_fit sourceCovers).1
  have final : (changed removed blocks directory removed.resources.frames).space.Coherent :=
    removedCoherent.unlock second unlocked shown
  obtain ⟨result, after, done⟩ := invalidate_commit_exists final.wellFormed condition invalidation
    .unmapCode destination frames.length
  exact ⟨result, after, bind_eq_done.mpr ⟨(), removed, erased, bind_eq_done.mpr ⟨(), _,
    changeBlocks_eq_done.mpr ⟨blocks, unlocked, rfl⟩, bind_eq_done.mpr ⟨(), _,
      changeDirectory_eq_done.mpr ⟨directory, shown, rfl⟩, done⟩⟩⟩⟩

/-- The pages of a range can be given another permission. -/
theorem reprotect_exists (coherent : attached.space.Coherent) (aligned : address % pageSize = 0)
    (nonempty : 0 < pages) (covers : attached.space.blocks.region.Covers address pages)
    (permission : UserPermission) :
    ∃ result after, (do
      changeBlocks (·.reprotect address pages permission.toKernel)
      changeDirectory (·.protect address pages permission.toKernel)
      if permission.toKernel.isUserExecutable then
        invalidate (.range address (pages * pageSize))
      commit .setPermission address pages : SpaceAction Commit) attached = .done result after := by
  obtain ⟨blocks, updated⟩ : ∃ blocks,
      attached.space.blocks.reprotect address pages permission.toKernel = .ok blocks :=
    updateWith_exists coherent aligned nonempty covers fun _ _ => ⟨_, rfl⟩
  obtain ⟨directory, reprotected⟩ : ∃ directory,
      attached.space.directory.protect address pages permission.toKernel = .ok directory :=
    Directory.protect_exists (coherent.pages_fit covers).1
  have wellFormed :
      (changed attached blocks directory attached.resources.frames).space.blocks.WellFormed :=
    (coherent.wellFormed.updates aligned updated).wellFormed
  obtain ⟨result, after, done⟩ := invalidate_commit_exists wellFormed
    (permission.toKernel.isUserExecutable = true) (.range address (pages * pageSize))
    .setPermission address pages
  exact ⟨result, after, bind_eq_done.mpr ⟨(), _, changeBlocks_eq_done.mpr ⟨blocks, updated, rfl⟩,
    bind_eq_done.mpr ⟨(), _, changeDirectory_eq_done.mpr ⟨directory, reprotected, rfl⟩, done⟩⟩⟩

/-- Ordinary memory can be lent out as code where nothing is yet, if its frames can be retained. -/
theorem safe_lend (coherent : attached.space.Coherent) (first : destination % pageSize = 0)
    (second : source % pageSize = 0)
    (assignable : attached.space.blocks.region.Assignable allowed destination
      (Run.framesOf runs).length)
    (sourceCovers : attached.space.blocks.region.Covers source (Run.framesOf runs).length)
    (owned : attached.space.Shows (pageOf source) (Run.framesOf runs) (Unmarked (· = .normal)))
    (vacant : attached.space.Blank (pageOf destination) (Run.framesOf runs).length)
    (held : group.runs attached.resources.descriptors = .ok runs)
    (lie : ∀ run ∈ runs, run.Lies limit)
    (retainable : attached.resources.frames.Retainable allowed (Run.framesOf runs)) :
    Action.Safe allowed (do
      changeBlocks (·.lock source (Run.framesOf runs).length .hidden)
      changeDirectory (·.protect source (Run.framesOf runs).length .hidden)
      placeGroup destination group .aliasCode .hidden
      commit .mapCode destination (Run.framesOf runs).length : SpaceAction Commit) attached := by
  obtain ⟨blocks, locked⟩ : ∃ blocks, attached.space.blocks.lock source (Run.framesOf runs).length
      .hidden = .ok blocks :=
    updateWith_exists coherent second assignable.nonempty sourceCovers fun number inside => by
      obtain ⟨state, permission, _, properties⟩ := owned.kind_of_within inside
      rw [properties]
      exact ⟨_, Properties.lock_plain _ _ _⟩
  obtain ⟨directory, hidden⟩ : ∃ directory, attached.space.directory.protect source
      (Run.framesOf runs).length .hidden = .ok directory :=
    Directory.protect_exists (coherent.pages_fit sourceCovers).1
  obtain ⟨_, untouched⟩ := owned.lend coherent hidden locked second
  have lentCoherent := coherent.lock second locked hidden
  have region := (coherent.wellFormed.updates second locked).region_eq
  refine .bind (changeBlocks_safe (.of_exists ⟨blocks, locked⟩)) fun _ middle done => ?_
  obtain ⟨_, same, rfl⟩ := changeBlocks_eq_done.mp done
  obtain rfl := Except.ok.inj (locked.symm.trans same)
  refine .bind (changeDirectory_safe (.of_exists ⟨directory, hidden⟩)) fun _ middle done => ?_
  obtain ⟨_, same, rfl⟩ := changeDirectory_eq_done.mp done
  obtain rfl := Except.ok.inj (hidden.symm.trans same)
  have stillVacant : Blank { attached.space with blocks, directory } (pageOf destination)
      (Run.framesOf runs).length := fun number inside =>
    (untouched number (owned.apart_of_blank vacant inside)).trans (vacant number inside)
  rw [← region] at assignable
  refine .bind ?_ fun _ middle placed =>
    safe_commit (lentCoherent.placeGroup (by decide) first placed).wellFormed
  exact safe_placeGroup lentCoherent first held lie assignable stillVacant retainable

/-- Frames that have an address can be mapped on blank pages that may be given another use. -/
theorem safe_mapRun {physical : Nat} {permission : KernelPermission} {operation : Operation}
    (coherent : attached.space.Coherent)
    (aligned : allowed .virtualUnaligned ∨ address % pageSize = 0)
    (runAligned : physical % pageSize = 0)
    (addressable : allowed .overflow ∨
      ∀ frame ∈ (⟨physical, pages⟩ : Run).frames, frame * pageSize < wordLimit)
    (vacant : address % pageSize = 0 → attached.space.Blank (pageOf address) pages)
    (assignable : attached.space.blocks.region.Assignable allowed address pages) :
    Action.Safe allowed (do
      changeDirectory (·.map address ⟨physical, pages⟩ permission)
      changeBlocks (·.assign address pages state permission .empty)
      commit operation address pages) attached := by
  refine .bind (changeDirectory_safe (Directory.safe_map aligned runAligned addressable
    fun usable page lower upper => (vacant usable).entries_eq_none ⟨lower, upper⟩))
    fun _ middle done => ?_
  obtain ⟨directory, translated, rfl⟩ := changeDirectory_eq_done.mp done
  have usable := Directory.aligned_of_map translated
  refine .bind (changeBlocks_safe (safe_assign coherent.wellFormed usable assignable))
    fun _ middle done => ?_
  obtain ⟨blocks, assigned, rfl⟩ := changeBlocks_eq_done.mp done
  exact safe_commit (coherent.wellFormed.updates usable assigned).wellFormed

namespace FaultGuarded

variable (guarded : FaultGuarded allowed extent attached)

include guarded

theorem safe_setPermission (aligned : address % pageSize = 0) {permission : UserPermission} :
    (setPermission address pages permission).Safe allowed attached := by
  have coherent := guarded.coherent
  refine .after_steady steady_rangeSize safe_rangeSize fun size sized =>
    .after_steady steady_requireInside (safe_requireInside guarded.layout) fun _ inside =>
      .after_steady steady_checkRange (safe_checkRange coherent.wellFormed) fun _ _ => ?_
  obtain ⟨_, rfl, _⟩ := rangeSize_eq_done sized
  obtain ⟨nonempty, covers⟩ := covers_of_requireInside inside coherent
  obtain ⟨result, after, done⟩ := reprotect_exists coherent aligned nonempty covers permission
  exact .of_done done

/-- Fresh frames are mapped wherever there is room for them. -/
theorem safe_mapPages {permission : UserPermission}
    (used : allowed (.stateNotMapped state) ∨ state.has .mapped = true)
    (aligned : allowed .virtualUnaligned ∨ address % pageSize = 0)
    (admits : attached.space.layout.Admits allowed address (pages * pageSize) state) :
    (mapPages address pages state permission).Safe allowed attached := by
  by_cases mapped : state.has .mapped = true
  · rw [mapPages_of_mapped mapped]
    have coherent := guarded.coherent
    have room := guarded.fits.imp_right Nat.le_of_lt
    refine .after_steady steady_rangeSize safe_rangeSize fun size sized =>
      .after_steady steady_requirePlace (safe_requirePlace guarded.layout) fun _ placed =>
        .after_steady steady_checkRange (safe_checkRange coherent.wellFormed) fun _ checked =>
          .bind (.focus (guarded.frames.safe_allocate room)) fun physical middle allocated => ?_
    obtain ⟨_, rfl, _⟩ := rangeSize_eq_done sized
    have assignable := assignable_of_canContain coherent (requirePlace_eq_done placed) admits
    have vacant (usable : address % pageSize = 0) : attached.space.Blank (pageOf address) pages :=
      blank_of_checked checked coherent guarded.orderly usable
    obtain ⟨pool, taken, rfl⟩ := onFrames_eq_done.mp allocated
    obtain ⟨runAligned, addressable⟩ := guarded.frames.of_allocate taken
    exact safe_mapRun coherent aligned runAligned (room.imp_right addressable) vacant assignable
  · rw [mapPages, if_pos (by simpa using mapped)]
    exact .bind (.check (.error (used.resolve_right mapped))) fun _ _ done => by cases done

/-- A group is made for an action that leaves the descriptors alone, and can be discarded again. -/
theorem safe_withGroup {α : Type} {action : PageGroup → SpaceAction α}
    (keeps : ∀ group descriptors, Keeps (Described descriptors) (action group))
    (safe : ∀ group made runs, made.resources.frames = attached.resources.frames →
      Groups attached address pages group runs made → (action group).Safe allowed made) :
    Action.Safe allowed (do
      let group ← makeGroup address pages
      .ensuring (discard group) (action group)) attached := by
  refine .bind guarded.safe_makeGroup fun group made grouped => ?_
  obtain ⟨unheld, same, runs, groups⟩ := makeGroup_eq_done guarded.sound grouped
  refine .ensuring (safe group made runs same groups) fun middle ended => ?_
  have occupies := groups.occupies
  have descriptors : middle.resources.descriptors = made.resources.descriptors :=
    keeps group _ made middle rfl ended
  rw [← descriptors] at occupies
  exact .bind (.of_exists (occupies.discard_exists (.inl unheld))) fun _ _ => .ok _

theorem safe_mapCode (first : destination % pageSize = 0) (second : source % pageSize = 0)
    (whole : size / pageSize * pageSize = size)
    (admits : attached.space.layout.Admits allowed destination size .aliasCode) :
    (mapCode destination source size).Safe allowed attached := by
  have coherent := guarded.coherent
  refine .after_steady steady_requireAliasRanges (safe_requireAliasRanges guarded.layout)
    fun _ placing => .after_steady steady_checkRange (safe_checkRange coherent.wellFormed)
      fun _ checked => .after_steady steady_checkRange (safe_checkRange coherent.wellFormed)
        fun _ free => guarded.safe_withGroup (fun group descriptors => ?_)
          fun group made runs frames groups => ?_
  · exact described_changeBlocks.bind fun _ => described_changeDirectory.bind fun _ =>
      described_placeGroup.bind fun _ => steady_commit.keeps
  rw [← whole, ← groups.length_eq] at placing checked free admits
  rw [← groups.length_eq]
  obtain ⟨inside, placed⟩ := requireAliasRanges_eq_done placing
  obtain ⟨_, sourceCovers⟩ := covers_of_contains coherent inside
  have assignable := assignable_of_canContain coherent placed admits
  have owned := (Shows.unmarked_of_checked checked coherent guarded.orderly second sourceCovers
    groups.backs rfl rfl rfl).normal_of_unmarked
  have vacant := blank_of_checked free coherent guarded.orderly first
  have retainable := (guarded.retainable_of_backs groups.backs).left
  rw [← frames] at retainable
  rw [← groups.space_eq] at coherent assignable sourceCovers owned vacant
  exact safe_lend coherent first second assignable sourceCovers owned vacant groups.occupies.held
    (groups.lies _ guarded.lies) retainable

/-- The frames of aliases stay in use without them. -/
theorem spares_of_lent (backs : attached.space.directory.Backs (pageOf destination) frames)
    (aliased : attached.space.Shows (pageOf destination) frames (Unmarked MemoryState.IsAlias))
    (lent : attached.space.Shows (pageOf source) frames (· = .lent)) :
    attached.resources.frames.Spares frames := by
  intro frame member
  obtain ⟨offset, listed⟩ := List.getElem?_of_mem member
  obtain ⟨_, shown⟩ := lent offset frame listed
  have bounded := (List.getElem?_eq_some_iff.mp listed).1
  have inside : Within (pageOf source) frames.length (pageOf source + offset) :=
    ⟨Nat.le_add_right _ _, by omega⟩
  exact Nat.lt_of_lt_of_le (Directory.count_lt_card_pagesOn backs shown
    (aliased.apart_of_lent lent inside)) (guarded.shown_le frame)

theorem safe_unmapCode (first : destination % pageSize = 0) (second : source % pageSize = 0)
    (whole : size / pageSize * pageSize = size) {strategy : InvalidationStrategy} :
    (unmapCode destination source size strategy).Safe allowed attached := by
  have coherent := guarded.coherent
  refine .after_steady steady_requireAliasRanges (safe_requireAliasRanges guarded.layout)
    fun _ placing => .after_steady steady_checkRange (safe_checkRange coherent.wellFormed)
      fun _ checked => .after_steady steady_checkRange (safe_checkRange coherent.wellFormed)
        fun _ marked => guarded.safe_withGroup (fun group descriptors => ?_)
          fun group made runs frames groups => ?_
  · exact steady_isBackedBy.keeps.bind fun _ => (Steady.require _ _).keeps.bind fun _ =>
      (Steady.inspect _).keeps.bind fun _ => described_reclaim
  rw [← whole, ← groups.length_eq] at placing checked marked
  rw [← groups.length_eq]
  obtain ⟨nonempty, sourceCovers⟩ :=
    covers_of_contains coherent (requireAliasRanges_eq_done placing).1
  have lent := Shows.lent_of_checked checked coherent guarded.orderly second sourceCovers
    groups.backs rfl rfl rfl
  have space := groups.space_eq
  have few := (coherent.pages_fit sourceCovers).2
  refine .after_steady steady_isBackedBy (safe_isBackedBy guarded.fits groups.occupies.held few
    (by rw [space]; exact guarded.lies)) fun same compared =>
      .after_steady (Steady.require _ _) (.require _ _) fun _ required => ?_
  obtain ⟨rfl, _⟩ := require_eq_done.mp required
  obtain ⟨listed, held, behind⟩ := isBackedBy_eq_done compared
  obtain rfl := Except.ok.inj (held.symm.trans groups.occupies.held)
  obtain ⟨_, backs⟩ := Directory.runs_eq_some behind
  rw [space] at backs
  have covers := coherent.covers_of_backs first backs nonempty
  have aliased := (Shows.unmarked_of_checked marked coherent guarded.orderly first covers backs rfl
    rfl rfl).alias_of_unmarked
  have spares := guarded.spares_of_lent backs aliased lent
  rw [← frames] at spares
  rw [← space] at lent coherent sourceCovers covers aliased
  refine .after_steady (Steady.inspect _) (.inspect ?_) fun blocks _ => ?_
  · obtain ⟨met, overlapping, _⟩ := coherent.wellFormed.overlapping_eq_ok destination size
    exact .of_exists ⟨met, overlapping⟩
  · obtain ⟨result, after, done⟩ := reclaim_exists coherent first second nonempty covers
      sourceCovers lent aliased behind spares .userReadWrite
      (blocks.any (·.state.has .code) = true) (strategy.request destination size)
    exact .of_done done

end FaultGuarded

end GuestMemory.AddressSpace
