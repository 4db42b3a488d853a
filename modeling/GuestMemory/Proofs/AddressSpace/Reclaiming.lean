import GuestMemory.Proofs.AddressSpace.Ownership
import GuestMemory.Proofs.AddressSpace.SafeOperations

/-!
Reclaiming lent memory: the code alias of a page that is lent out can be taken away, whatever else
the process has done.
-/

namespace GuestMemory

open GuestMemory.Action MemoryState

namespace PageGroup

variable {pool : DescriptorPool}

/-- A free descriptor is enough for a group of one run. -/
theorem ofRuns_singleton (run : Run) (nonempty : run.pages ≠ 0) (free : pool.free ≠ []) :
    ∃ group after, ofRuns [run] pool = .done group after ∧ group.runs after = .ok [run] := by
  obtain ⟨id, rest, listed⟩ := List.exists_cons_of_ne_nil free
  let after : DescriptorPool := { pool with nodes := pool.nodes.insert id run, free := rest }
  have allocated : DescriptorPool.allocate run pool = .done id after := by
    rw [DescriptorPool.allocate, listed]
  have added : empty.add run pool = .done ⟨[id], 0⟩ after := by
    rw [add, if_neg (by simp [empty]), if_neg nonempty]
    exact bind_eq_done.mpr ⟨id, after, allocated, rfl⟩
  refine ⟨⟨[id], 0⟩, after, bind_eq_done.mpr ⟨⟨[id], 0⟩, after, ?_, rfl⟩, ?_⟩
  · rw [onRefusal_eq_done]
    exact added
  · have got : after.get id = .ok run := by
      simp only [DescriptorPool.get, after, getElem?_insert_of_nat, ↓reduceIte]
    simp only [runs, List.mapM_cons, List.mapM_nil, got, Checked.ok_bind, Checked.pure_eq]

end PageGroup

namespace AddressSpace

variable {attached : AttachedSpace} {space : AddressSpace} {address pages number frame : Nat}
variable {lender view : Nat} {check : Check} {kind : Properties → Prop} {group : PageGroup}
variable {run : Run} {allowed : Fault → Prop} {extent : Run}

/-- The blocks that a range meets have the properties of the pages of the range. -/
theorem exists_overlapping_iff {met : List Block} (kind : Properties → Prop)
    (coherent : space.Coherent) (aligned : address % pageSize = 0) (nonempty : 0 < pages)
    (covers : space.blocks.region.Covers address pages)
    (overlapping : space.blocks.overlapping address (pages * pageSize) = .ok met) :
    (∃ block ∈ met, kind block.properties) ↔
      ∃ number, Within (pageOf address) pages number ∧ kind (space.page number).properties := by
  have wellFormed := coherent.wellFormed
  obtain ⟨blocks, same, meets⟩ := wellFormed.overlapping_eq_ok address (pages * pageSize)
  obtain rfl := Except.ok.inj (overlapping.symm.trans same)
  constructor
  · rintro ⟨block, member, holds⟩
    obtain ⟨listed, past, before⟩ := (meets block).mp member
    have start := Partition.start_aligned wellFormed.tiles wellFormed.aligned listed
    have ends := block.start_lt_stop (wellFormed.tiles.pages_pos listed)
    -- The first page that the block and the range share.
    have here : block.Holds (pageOf (max block.start address)) := by
      simp only [Block.Holds, pageOf, pageSize_eq] at *
      omega
    refine ⟨pageOf (max block.start address), ?_, ?_⟩
    · simp only [pageOf, pageSize_eq] at *
      omega
    · rwa [page, Partition.propertiesOf, wellFormed.at?_of_holds listed here, Option.getD_some]
  · rintro ⟨number, inside, holds⟩
    obtain ⟨block, listed, ⟨first, last⟩, same⟩ :=
      wellFormed.at?_eq_some_iff.mp (wellFormed.at?_of_covers aligned covers inside)
    refine ⟨block, (meets block).mpr ⟨listed, ?_⟩, same ▸ holds⟩
    simp only [pageOf, pageSize_eq] at *
    omega

/-- A range whose pages all meet a check passes it. -/
theorem checkRange_of_meets (coherent : attached.space.Coherent) (aligned : address % pageSize = 0)
    (nonempty : 0 < pages) (covers : attached.space.blocks.region.Covers address pages)
    (meets : ∀ number, Within (pageOf address) pages number →
      check.Meets (attached.space.page number).properties) :
    checkRange address (pages * pageSize) check attached = .done () attached := by
  have wellFormed := coherent.wellFormed
  obtain ⟨blocks, overlapping, met⟩ := wellFormed.overlapping_eq_ok address (pages * pageSize)
  have some : blocks ≠ [] := by
    obtain ⟨lower, upper⟩ := covers
    obtain ⟨block, member, _, before, past⟩ :=
      wellFormed.find_eq_some lower (by simp only [pageSize_eq] at *; omega)
    refine List.ne_nil_of_mem ((met block).mpr ⟨member, past, ?_⟩)
    simp only [pageSize_eq] at *
    omega
  have accepted : (blocks.find? fun block => !check.accepts block) = none := by
    refine List.find?_eq_none.mpr fun block member => ?_
    have pass : check.Meets block.properties := by
      by_contra fails
      obtain ⟨number, inside, fails⟩ :=
        (exists_overlapping_iff (¬ check.Meets ·) coherent aligned nonempty covers overlapping).mp
          ⟨block, member, fails⟩
      exact fails (meets number inside)
    simpa using Check.accepts_iff.mpr pass
  simp only [checkRange, bind_eq_done, read_eq_done, check_eq_done, require_eq_done]
  refine ⟨_, _, ⟨rfl, rfl⟩, blocks, attached, ⟨overlapping, rfl⟩, (), attached, ⟨?_, rfl⟩, ?_⟩
  · simpa using some
  · rw [accepted]
    rfl

theorem runs_of_frameAt? (coherent : space.Coherent)
    (shown : space.directory.frameAt? number = some frame) :
    space.directory.runs (number * pageSize) 1 = .ok (some [⟨frame * pageSize, 1⟩]) := by
  obtain ⟨translation, found, rfl⟩ := Option.map_eq_some_iff.mp shown
  have aligned := coherent.aligned number translation found
  have start : pageOf translation.address * pageSize = translation.address := by
    simp only [pageOf, pageSize_eq] at *
    omega
  rw [Directory.runs, pageOf_mul_pageSize, Directory.collectRuns, found, start]
  rfl

theorem makeGroup_of_frameAt? (coherent : attached.space.Coherent)
    (free : attached.resources.descriptors.free ≠ [])
    (shown : attached.space.directory.frameAt? number = some frame) :
    ∃ group made, makeGroup (number * pageSize) 1 attached = .done group made ∧
      group.runs made.resources.descriptors = .ok [⟨frame * pageSize, 1⟩] := by
  obtain ⟨group, descriptors, made, held⟩ :=
    PageGroup.ofRuns_singleton ⟨frame * pageSize, 1⟩ Nat.one_ne_zero free
  refine ⟨group, _, bind_eq_done.mpr ⟨_, attached,
    inspect_eq_done.mpr ⟨runs_of_frameAt? coherent shown, rfl⟩,
      focus_eq_done.mpr ⟨descriptors, made, rfl⟩⟩, held⟩

/-- A page with a frame that meets a check passes it. -/
theorem checkRange_of_frameAt? (coherent : attached.space.Coherent)
    (shown : attached.space.directory.frameAt? number = some frame)
    (meets : check.Meets (attached.space.page number).properties) :
    checkRange (number * pageSize) pageSize check attached = .done () attached := by
  have checked : checkRange (number * pageSize) (1 * pageSize) check attached =
      .done () attached :=
    checkRange_of_meets coherent (Nat.mul_mod_left _ _) Nat.one_pos
      (coherent.covers_of_frameAt? shown) fun other inside => by
        rw [pageOf_mul_pageSize] at inside
        obtain rfl : other = number := Nat.le_antisymm (Nat.le_of_lt_succ inside.2) inside.1
        exact meets
  rwa [Nat.one_mul] at checked

/-- An action on the group of a range that leaves the descriptors alone ends as it does without the
making and the discarding of the group. -/
theorem withGroup_exists {α : Type} {action : PageGroup → SpaceAction α} {result : α}
    {made final : AttachedSpace} (sound : Sound attached)
    (grouped : makeGroup address pages attached = .done group made)
    (done : action group made = .done result final)
    (descriptors : final.resources.descriptors = made.resources.descriptors) :
    ∃ after, (do
      let group ← makeGroup address pages
      .ensuring (discard group) (action group)) attached = .done result after := by
  obtain ⟨unheld, _, runs, groups⟩ := makeGroup_eq_done sound grouped
  have occupies := groups.occupies
  rw [← descriptors] at occupies
  obtain ⟨resources, discarded⟩ := occupies.discard_exists (.inl unheld)
  refine ⟨{ final with resources }, bind_eq_done.mpr ⟨group, made, grouped,
    ensuring_eq_done.mpr ⟨final, done, ?_⟩⟩⟩
  rw [discard, discarded]
  rfl

theorem isBackedBy_of_runs (held : group.runs attached.resources.descriptors = .ok [run])
    (single : run.pages = 1) (behind : attached.space.directory.runs address 1 = .ok (some [run])) :
    isBackedBy group address 1 attached = .done true attached := by
  have counted : group.pages attached.resources.descriptors = .ok 1 := by
    rw [PageGroup.pages, held, Checked.ok_bind, List.map_singleton, single]
    rfl
  refine bind_eq_done.mpr ⟨1, attached, inspect_eq_done.mpr ⟨counted, rfl⟩, ?_⟩
  rw [if_neg (not_not_intro rfl)]
  refine bind_eq_done.mpr ⟨_, attached, inspect_eq_done.mpr ⟨behind, rfl⟩, ?_⟩
  refine bind_eq_done.mpr ⟨_, attached, inspect_eq_done.mpr ⟨held, rfl⟩, ?_⟩
  rw [decide_eq_true rfl]
  rfl

theorem meets_lent {properties : Properties} (lent : properties = .lent) :
    ((Check.exactly .normal).withAttributes .all .locked).Meets properties := by
  subst lent
  exact ⟨by decide, by decide, by decide⟩

theorem meets_unmarked {properties : Properties} (unmarked : Unmarked IsAlias properties) :
    (Check.hasFlags .canCodeAlias).Meets properties := by
  obtain ⟨state, permission, aliased, rfl⟩ := unmarked
  exact ⟨has_canCodeAlias_iff.mpr aliased, congrArg KernelPermission.mk UInt8.and_zero,
    show Attributes.empty &&& .all = .empty by decide⟩

theorem shows_singleton (shown : space.directory.frameAt? number = some frame)
    (properties : kind (space.page number).properties) :
    space.Shows (pageOf (number * pageSize)) [frame] kind := by
  intro index other listed
  obtain ⟨rfl, rfl⟩ : index = 0 ∧ frame = other := by
    cases index with
    | zero => exact ⟨rfl, Option.some.inj listed⟩
    | succ index => cases listed
  rw [pageOf_mul_pageSize]
  exact ⟨properties, shown⟩

/-- A lent page and its alias pass what is asked of the ranges. -/
theorem requireAliasRanges_of_frameAt? (coherent : attached.space.Coherent)
    (shown : attached.space.directory.frameAt? lender = some frame)
    (placed : attached.space.layout.canContain (view * pageSize) pageSize .aliasCode = .ok true) :
    requireAliasRanges (view * pageSize) (lender * pageSize) pageSize attached =
      .done () attached := by
  have inside := coherent.contains_of_frameAt? shown
  refine bind_eq_done.mpr ⟨(), attached, ?_, ?_⟩
  · exact bind_eq_done.mpr ⟨true, attached, inspect_eq_done.mpr ⟨inside, rfl⟩, rfl⟩
  · exact bind_eq_done.mpr ⟨true, attached, inspect_eq_done.mpr ⟨placed, rfl⟩, rfl⟩

/-- The alias of a lent page can be taken away as long as there is a free descriptor. -/
theorem FaultGuarded.unmapCode_exists (guarded : FaultGuarded allowed extent attached)
    (lent : attached.space.page lender = .lent frame)
    (aliased : (attached.space.page view).Plays IsAlias frame)
    (placed : attached.space.layout.canContain (view * pageSize) pageSize .aliasCode = .ok true)
    (free : attached.resources.descriptors.free ≠ []) (strategy : InvalidationStrategy) :
    ∃ result after, unmapCode (view * pageSize) (lender * pageSize) pageSize strategy attached =
      .done result after := by
  have coherent := guarded.coherent
  have shown : attached.space.directory.frameAt? lender = some frame := congrArg Page.frame lent
  have first : view * pageSize % pageSize = 0 := Nat.mul_mod_left _ _
  have second : lender * pageSize % pageSize = 0 := Nat.mul_mod_left _ _
  have covers := coherent.covers_of_frameAt? aliased.1
  have sourceCovers := coherent.covers_of_frameAt? shown
  have unmarked := unmarked_of_isAlias (guarded.orderly view) aliased.2
  have lentShows : attached.space.Shows (pageOf (lender * pageSize)) [frame] (· = .lent) :=
    shows_singleton shown (congrArg Page.properties lent)
  have aliasShows :
      attached.space.Shows (pageOf (view * pageSize)) [frame] (Unmarked IsAlias) :=
    shows_singleton aliased.1 unmarked
  have placing := requireAliasRanges_of_frameAt? coherent shown placed
  have checked := checkRange_of_frameAt? coherent shown
    (meets_lent (congrArg Page.properties lent))
  have marked := checkRange_of_frameAt? coherent aliased.1 (meets_unmarked unmarked)
  obtain ⟨group, made, grouped, held⟩ := makeGroup_of_frameAt? coherent free shown
  obtain ⟨unheld, frames, runs, groups⟩ := makeGroup_eq_done guarded.sound grouped
  obtain rfl := Except.ok.inj (held.symm.trans groups.occupies.held)
  have behind := runs_of_frameAt? coherent aliased.1
  have backs := (Directory.runs_eq_some behind).2
  have single : Run.framesOf [⟨frame * pageSize, 1⟩] = [frame] := by
    simp [Run.frames]
  rw [← single] at lentShows aliasShows
  have spares := guarded.spares_of_lent backs aliasShows lentShows
  rw [← frames] at spares
  rw [← groups.space_eq] at coherent covers sourceCovers lentShows aliasShows behind
  have compared := isBackedBy_of_runs held rfl behind
  obtain ⟨blocks, overlapping, _⟩ :=
    coherent.wellFormed.overlapping_eq_ok (view * pageSize) pageSize
  rw [single] at lentShows aliasShows
  obtain ⟨result, final, done⟩ := reclaim_exists coherent first second
    (show 0 < [frame].length from Nat.one_pos) covers sourceCovers lentShows aliasShows behind
    spares .userReadWrite (blocks.any (·.state.has .code) = true)
    (strategy.request (view * pageSize) pageSize)
  have descriptors : final.resources.descriptors = made.resources.descriptors :=
    described_reclaim _ _ rfl (by rw [done]; rfl)
  refine ⟨result, bind_exists placing (bind_exists checked (bind_exists marked
    (withGroup_exists guarded.sound grouped ?_ descriptors)))⟩
  exact bind_eq_done.mpr ⟨true, made, compared, bind_eq_done.mpr ⟨(), made, rfl,
    bind_eq_done.mpr ⟨blocks, made, inspect_eq_done.mpr ⟨overlapping, rfl⟩, done⟩⟩⟩

end AddressSpace

end GuestMemory
