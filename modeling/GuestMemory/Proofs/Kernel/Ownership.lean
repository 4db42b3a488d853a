import GuestMemory.Proofs.AddressSpace.Ownership
import GuestMemory.Proofs.Kernel.FrameCounts
import GuestMemory.Proofs.Kernel.Moves

/-!
Ownership of frames. Besides shared memory, which any number of pages may show, a frame stands
behind one page that owns it and behind one code alias at most.
-/

namespace GuestMemory

open AddressSpace MemoryState

namespace Kernel

variable {kernel before after initial reached : Kernel} {index : Nat}
variable {space moved : AddressSpace} {direct : MemoryState → Prop} {config : Config}
variable {cache : InstructionCache} {steps : List Step}

/-- The page at a place: the position of a process and the number of a page. Where there is no
process, pages are blank. -/
def page (kernel : Kernel) (place : Nat × Nat) : Page :=
  (kernel.spaces[place.1]?).elim .blank (·.page place.2)

/-- The kernels differ in the address space at one position. -/
structure Differ (before after : Kernel) (index : Nat) (space moved : AddressSpace) : Prop where
  was : ∀ number, before.page (index, number) = space.page number
  now : ∀ number, after.page (index, number) = moved.page number
  others : ∀ place, place.1 ≠ index → after.page place = before.page place

theorem page_of_listed (listed : kernel.spaces[index]? = some space) (number : Nat) :
    kernel.page (index, number) = space.page number := by
  rw [page, listed, Option.elim_some]

theorem differ_of_set (listed : before.spaces[index]? = some space)
    (now : after.spaces = before.spaces.set index moved) :
    Differ before after index space moved := by
  have bounded := (List.getElem?_eq_some_iff.mp listed).1
  refine ⟨page_of_listed listed, fun number => ?_, fun place other => ?_⟩
  · rw [page, now, List.getElem?_set_self bounded, Option.elim_some]
  · rw [page, now, List.getElem?_set_ne (Ne.symm other), page]

theorem page_of_still (same : after.spaces = before.spaces) : after.page = before.page := by
  funext place
  rw [page, same, page]

/-- The pages of a new process are as blank as where there is no process. -/
theorem page_of_created {id : Nat} {layout : Layout} (paged : layout.Paged)
    (added : after.spaces = before.spaces ++ [.create id layout]) : after.page = before.page := by
  funext place
  have outside := page_create paged id
  rw [page, added, page]
  rcases Nat.lt_trichotomy place.1 before.spaces.length with old | new | beyond
  · rw [List.getElem?_append_left old]
  · simp [new, outside]
  · have both : before.spaces.length + [AddressSpace.create id layout].length ≤ place.1 := beyond
    rw [← List.length_append] at both
    rw [List.getElem?_eq_none both, List.getElem?_eq_none (Nat.le_of_lt beyond)]

theorem Moves.page_cases (moves : Moves direct before after) :
    after.page = before.page ∨ ∃ index space moved, before.spaces[index]? = some space ∧
      Differ before after index space moved ∧ Move direct ⟨space, before.resources⟩ moved := by
  cases moves with
  | still same => exact .inl (page_of_still same)
  | created paged added => exact .inl (page_of_created paged added)
  | @moved index space changed listed now _ move =>
      exact .inr ⟨index, space, changed, listed, differ_of_set listed now, move⟩

theorem Differ.cases (differ : Differ before after index space moved) (place : Nat × Nat) :
    (∃ number, place = (index, number) ∧ before.page place = space.page number ∧
      after.page place = moved.page number) ∨ after.page place = before.page place := by
  obtain ⟨other, number⟩ := place
  by_cases own : other = index
  · subst own
    exact .inl ⟨number, rfl, differ.was number, differ.now number⟩
  · exact .inr (differ.others _ own)

/-- A page outside the range that an operation has changed is as it was. -/
theorem Differ.cases_within {first count : Nat} (differ : Differ before after index space moved)
    (same : ∀ number, ¬ Within first count number → moved.page number = space.page number)
    (place : Nat × Nat) :
    (∃ number, Within first count number ∧ place = (index, number) ∧
      before.page place = space.page number ∧ after.page place = moved.page number) ∨
      after.page place = before.page place := by
  rcases differ.cases place with ⟨number, rfl, was, now⟩ | unchanged
  · by_cases inside : Within first count number
    · exact .inl ⟨number, inside, rfl, was, now⟩
    · exact .inr (now.trans ((same number inside).trans was.symm))
  · exact .inr unchanged

/-- A frame without references stands behind no page. -/
theorem frame_ne_of_unheld {frame : Nat} (inv : OrdinaryInvariant config kernel)
    (unheld : kernel.resources.frames.held frame = 0) (place : Nat × Nat) :
    (kernel.page place).frame ≠ some frame := by
  intro backed
  cases listed : kernel.processes[place.1]? with
  | none =>
      rw [page, spaces, List.getElem?_map, listed] at backed
      cases backed
  | some process =>
      rw [page_of_listed (spaces_listed listed)] at backed
      have positive := shown_pos listed backed
      have counted := inv.accounts.held_eq frame
      omega

section Moves

variable (differ : Differ before after index space moved) (exclusive : Exclusive before.page)
variable {first count destination source : Nat} {frames : List Nat} {state : MemoryState}
variable {permission : KernelPermission}

include differ exclusive

theorem exclusive_of_fresh (inv : OrdinaryInvariant config before) (fresh : frames.Nodup)
    (unheld : ∀ frame ∈ frames, before.resources.frames.held frame = 0)
    (shown : moved.Shows first frames (· = .plain state permission))
    (same : ∀ number, ¬ Within first frames.length number →
      moved.page number = space.page number) : Exclusive after.page := by
  refine exclusive.alone fun place => ?_
  rcases differ.cases_within same place with ⟨number, inside, rfl, _, now⟩ | unchanged
  · refine .inr fun frame other here there => ?_
    obtain ⟨offset, backing, listed, rfl⟩ := exists_frame_of_within inside
    rw [now, (shown offset backing listed).2] at here
    obtain rfl := Option.some.inj here
    -- Another changed page has its frame from another place of the list, which has none twice.
    rcases differ.cases_within same other with ⟨otherNumber, otherInside, rfl, _, now⟩ | unchanged
    · obtain ⟨otherOffset, otherFrame, otherListed, rfl⟩ := exists_frame_of_within otherInside
      rw [now, (shown otherOffset otherFrame otherListed).2] at there
      obtain rfl := Option.some.inj there
      obtain ⟨bounded, _⟩ := List.getElem?_eq_some_iff.mp listed
      rw [(List.getElem?_inj bounded fresh).mp (listed.trans otherListed.symm)]
    · rw [unchanged] at there
      exact absurd there (frame_ne_of_unheld inv (unheld _ (List.mem_of_getElem? listed)) other)
  · exact .inl unchanged

/-- Where pages take no new role, and only unmarked owners stay owners, none is shared. -/
theorem exclusive_of_roles
    (changed : ∀ number, Within first count number → ∀ frame,
      ((moved.page number).Plays Owns frame →
        (space.page number).Plays Owns frame ∧ (space.page number).properties ≠ .lent) ∧
      ((moved.page number).Plays IsAlias frame → (space.page number).Plays IsAlias frame))
    (same : ∀ number, ¬ Within first count number → moved.page number = space.page number) :
    Exclusive after.page := by
  refine exclusive.fewer (fun place frame plays => ?_) (fun place frame plays => ?_)
    fun place other frame plays _ lent => ?_
  all_goals rcases differ.cases_within same place with ⟨number, inside, _, was, now⟩ | unchanged
  · rw [was]
    exact ((changed number inside frame).1 (now ▸ plays)).1
  · exact unchanged ▸ plays
  · rw [was]
    exact (changed number inside frame).2 (now ▸ plays)
  · exact unchanged ▸ plays
  · exact absurd (was ▸ lent) ((changed number inside frame).1 (now ▸ plays)).2
  · rw [unchanged]
    exact lent

/-- Memory that is lent out keeps its owner, and its new alias is the only one. -/
theorem exclusive_of_lent (aliased : Aliased space moved destination source frames) :
    Exclusive after.page := by
  have owners {place : Nat × Nat} {frame : Nat} (plays : (after.page place).Plays Owns frame) :
      (before.page place).Plays Owns frame := by
    rcases differ.cases place with ⟨number, _, was, now⟩ | unchanged
    · rw [was]
      exact aliased.owns_iff.mp (now ▸ plays)
    · exact unchanged ▸ plays
  -- Behind a new alias stands the frame of an owner that was not lent out yet.
  have aliases {place : Nat × Nat} {frame : Nat} (plays : (after.page place).Plays IsAlias frame) :
      (before.page place).Plays IsAlias frame ∨
        ∃ offset, frames[offset]? = some frame ∧ place = (index, destination + offset) := by
    rcases differ.cases place with ⟨number, rfl, was, now⟩ | unchanged
    · rw [was]
      exact (aliased.isAlias_iff.mp (now ▸ plays)).imp_right fun ⟨offset, listed, same⟩ =>
        ⟨offset, listed, by rw [same]⟩
    · exact .inl (unchanged ▸ plays)
  have lender {offset frame : Nat} (listed : frames[offset]? = some frame) :
      (before.page (index, source + offset)).Plays Owns frame ∧
        (before.page (index, source + offset)).properties ≠ .lent := by
    obtain ⟨owned, unlent, _⟩ := aliased.source_at listed
    rw [differ.was]
    exact ⟨owned, unlent⟩
  have unlent {offset frame : Nat} {place : Nat × Nat} (listed : frames[offset]? = some frame)
      (plays : (before.page place).Plays IsAlias frame) : False :=
    (lender listed).2 (exclusive.lent (lender listed).1 plays)
  refine ⟨fun first second => exclusive.owner (owners first) (owners second),
    fun first second => ?_, fun {frame place other} first second => ?_⟩
  · rcases aliases first with old | ⟨offset, listed, rfl⟩
    · rcases aliases second with otherOld | ⟨offset, listed, rfl⟩
      · exact exclusive.aliased old otherOld
      · exact (unlent listed old).elim
    · rcases aliases second with old | ⟨otherOffset, otherListed, rfl⟩
      · exact (unlent listed old).elim
      · have same := exclusive.owner (lender listed).1 (lender otherListed).1
        rw [Nat.add_left_cancel (Prod.mk.inj same).2]
  · rcases aliases second with old | ⟨offset, listed, rfl⟩
    · have shown := exclusive.lent (owners first) old
      rcases differ.cases place with ⟨number, _, was, now⟩ | unchanged
      · have others : frame ∉ frames := fun member => by
          obtain ⟨offset, listed⟩ := List.mem_iff_getElem?.mp member
          exact unlent listed old
        rw [now, aliased.page_eq_of_owns (was ▸ owners first) others, ← was]
        exact shown
      · rw [unchanged]
        exact shown
    · rw [exclusive.owner (owners first) (lender listed).1, differ.now,
        (aliased.source_at listed).2.2, Page.lent]

/-- Memory that is given back keeps its owner, and its alias is gone. -/
theorem exclusive_of_returned (aliased : Aliased moved space destination source frames) :
    Exclusive after.page := by
  have aliases {place : Nat × Nat} {frame : Nat} (plays : (after.page place).Plays IsAlias frame) :
      (before.page place).Plays IsAlias frame := by
    rcases differ.cases place with ⟨number, _, was, now⟩ | unchanged
    · rw [was]
      exact aliased.isAlias_iff.mpr (.inl (now ▸ plays))
    · exact unchanged ▸ plays
  have gone {place : Nat × Nat} {frame : Nat} (plays : (after.page place).Plays IsAlias frame) :
      frame ∉ frames := fun member => by
    obtain ⟨offset, listed⟩ := List.mem_iff_getElem?.mp member
    obtain ⟨vacant, showing⟩ := aliased.destination_at listed
    rw [← differ.was] at showing
    obtain rfl := exclusive.aliased (aliases plays) showing
    rw [differ.now, vacant] at plays
    exact Page.Plays.not_blank plays
  refine exclusive.fewer (fun place frame plays => ?_) (fun _ _ => aliases)
    fun place other frame plays alsoPlays lent => ?_
  all_goals rcases differ.cases place with ⟨number, _, was, now⟩ | unchanged
  · rw [was]
    exact aliased.owns_iff.mpr (now ▸ plays)
  · exact unchanged ▸ plays
  · rw [now, ← aliased.page_eq_of_owns (now ▸ plays) (gone alsoPlays), ← was]
    exact lent
  · rw [unchanged]
    exact lent

end Moves

theorem Moves.exclusive (moves : Moves direct before after) (inv : OrdinaryInvariant config before)
    (exclusive : Exclusive before.page) : Exclusive after.page := by
  obtain same | ⟨index, space, moved, _, differ, move⟩ := moves.page_cases
  · exact same ▸ exclusive
  cases move with
  | mapped used _ own vacant shown same =>
      obtain rfl | ⟨_, fresh, unheld⟩ := own
      · refine exclusive_of_roles differ exclusive (fun number inside frame => ?_) same
        have shared : (moved.page number).properties.state = .sharedCode := by
          rw [shown.kind_of_within inside]
          rfl
        simp only [Page.Plays, shared]
        exact ⟨fun plays => absurd plays.2 (show ¬ Owns .sharedCode by decide),
          fun plays => absurd plays.2 (show ¬ IsAlias .sharedCode by decide)⟩
      · exact exclusive_of_fresh differ exclusive inv fresh unheld shown same
  | unmapped plain vacant same =>
      refine exclusive_of_roles differ exclusive (fun number inside frame => ?_) same
      rw [vacant number inside]
      exact ⟨fun plays => (Page.Plays.not_blank plays).elim,
        fun plays => (Page.Plays.not_blank plays).elim⟩
  | reprotected permission _ changed same =>
      refine exclusive_of_roles differ exclusive (fun number inside frame => ?_) same
      obtain ⟨state, old, _, properties, page⟩ := changed number inside
      have kept (role : MemoryState → Prop)
          (stays : role (state.afterReprotect permission) ↔ role state)
          (plays : (moved.page number).Plays role frame) :
          (space.page number).Plays role frame := by
        rw [page] at plays
        exact ⟨plays.1, by rw [properties]; exact stays.mp plays.2⟩
      refine ⟨fun plays => ⟨kept _ (owns_afterReprotect state permission) plays, ?_⟩,
        kept _ (afterReprotect_isAlias state permission)⟩
      rw [properties]
      exact Properties.plain_ne_lent
  | lent _ _ aliased _ => exact exclusive_of_lent differ exclusive aliased
  | returned aliased _ => exact exclusive_of_returned differ exclusive aliased

theorem page_of_create (created : create config cache = .ok kernel) (key : Nat × Nat) :
    kernel.page key = .blank := by
  rw [page, spaces, processes_create created]
  rfl

theorem Exclusive.of_create (created : create config cache = .ok kernel) :
    Exclusive kernel.page := by
  rw [funext (page_of_create created)]
  exact ⟨fun plays => (Page.Plays.not_blank plays).elim,
    fun plays => (Page.Plays.not_blank plays).elim,
    fun plays => (Page.Plays.not_blank plays).elim⟩

theorem exclusive_run (created : create config cache = .ok initial)
    (ordinary : ∀ step ∈ steps, step.Ordinary) (ran : initial.run? steps = some reached) :
    Exclusive reached.page :=
  run?_keeps_moves created (fun step member => ⟨ordinary step member, step.directs_all⟩) ran
    (Exclusive.of_create created) fun _ _ inv moves exclusive => moves.exclusive inv exclusive

/-- The places, each the position of a process and the number of a page, whose pages are translated
to the frame and lie in a block whose state plays the role. -/
def placesShowing (kernel : Kernel) (role : MemoryState → Prop) (frame : Nat) : Set (Nat × Nat) :=
  { place | ∃ process block, kernel.processes[place.1]? = some process ∧
    process.space.translate (place.2 * pageSize) = some (frame * pageSize) ∧
    process.space.blocks.find (place.2 * pageSize) = .ok (some block) ∧ role block.state }

theorem plays_of_mem_placesShowing {role : MemoryState → Prop} {frame : Nat} {place : Nat × Nat}
    (inv : OrdinaryInvariant config kernel) (member : place ∈ kernel.placesShowing role frame) :
    (kernel.page place).Plays role frame := by
  obtain ⟨process, block, listed, translated, found, plays⟩ := member
  have coherent := inv.coherent process (List.mem_of_getElem? listed)
  rw [page_of_listed (spaces_listed listed)]
  refine ⟨coherent.translate_eq_some_iff.mp translated, ?_⟩
  rw [AddressSpace.page, Partition.propertiesOf, coherent.wellFormed.at?_of_find found]
  exact plays

/-- In every state that a kernel can reach, whatever states pages are mapped in, a frame stands
behind at most one page that neither shows shared memory nor is a code alias, and behind at most
one code alias. -/
theorem frames_are_owned_once (created : create config cache = .ok initial)
    (ordinary : ∀ step ∈ steps, step.Ordinary) (ran : initial.run? steps = some reached)
    (frame : Nat) :
    (reached.placesShowing Owns frame).Subsingleton ∧
      (reached.placesShowing IsAlias frame).Subsingleton := by
  have inv := ordinaryInvariant_run created ordinary ran
  have exclusive := exclusive_run created ordinary ran
  refine ⟨fun place member other otherMember => ?_, fun place member other otherMember => ?_⟩
  · exact exclusive.owner (plays_of_mem_placesShowing inv member)
      (plays_of_mem_placesShowing inv otherMember)
  · exact exclusive.aliased (plays_of_mem_placesShowing inv member)
      (plays_of_mem_placesShowing inv otherMember)

/-- The frame of lent memory has its owner and its alias in one process, and no others. -/
theorem frames_are_owned_once_of_alias :
    ∃ reached, small.run? smallRun = some reached ∧
      reached.placesShowing Owns 0x80003 = {(1, 0x1000001)} ∧
      reached.placesShowing IsAlias 0x80003 = {(1, 0x9000)} := by
  have shown : ((small.run? smallRun).bind fun reached => reached.processes[1]?.map fun process =>
      [0x1000001, 0x9000].map fun page => (process.space.translate (page * pageSize),
        (process.space.blocks.find (page * pageSize)).toOption.bind fun found =>
          found.map (·.state))) =
      some [(some (0x80003 * pageSize), some .normal),
        (some (0x80003 * pageSize), some .aliasCode)] := by
    decide +kernel
  obtain ⟨reached, ran, shown⟩ := Option.bind_eq_some_iff.mp shown
  obtain ⟨process, listed, shown⟩ := Option.map_eq_some_iff.mp shown
  have member {page : Nat} {state : MemoryState} {role : MemoryState → Prop} (plays : role state)
      (translated : process.space.translate (page * pageSize) = some (0x80003 * pageSize))
      (found : ((process.space.blocks.find (page * pageSize)).toOption.bind fun found =>
        found.map (·.state)) = some state) :
      (1, page) ∈ reached.placesShowing role 0x80003 := by
    cases looked : process.space.blocks.find (page * pageSize) with
    | error fault =>
        rw [looked] at found
        cases found
    | ok block =>
        rw [looked] at found
        obtain ⟨block, rfl, rfl⟩ := Option.map_eq_some_iff.mp found
        exact ⟨process, block, listed, translated, looked, plays⟩
  simp only [List.map_cons, List.map_nil, List.cons.injEq, Prod.mk.injEq, and_true] at shown
  obtain ⟨⟨ownTranslated, ownFound⟩, aliasTranslated, aliasFound⟩ := shown
  obtain ⟨owners, aliases⟩ := frames_are_owned_once create_small
    (show ∀ step ∈ smallRun, step.Ordinary by decide +kernel) ran 0x80003
  exact ⟨reached, ran,
    owners.eq_singleton_of_mem (member (by decide) ownTranslated ownFound),
    aliases.eq_singleton_of_mem (member (by decide) aliasTranslated aliasFound)⟩

end Kernel

end GuestMemory
