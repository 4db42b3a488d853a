import GuestMemory.Proofs.AddressSpace.Moves

/-!
Roles of pages: memory that owns its frame, and code aliases, which show the frames of lent memory.
Where memory is lent, it keeps its owner and gains an alias.
-/

namespace GuestMemory

open AddressSpace MemoryState

/-- The memory is neither shared by another nor a second view of other memory. -/
def MemoryState.Owns (state : MemoryState) : Prop :=
  state ≠ .sharedCode ∧ ¬ state.IsAlias

instance : DecidablePred MemoryState.Owns := fun state =>
  inferInstanceAs (Decidable (state ≠ .sharedCode ∧ ¬ state.IsAlias))

theorem MemoryState.owns_afterReprotect (state : MemoryState) (permission : KernelPermission) :
    Owns (state.afterReprotect permission) ↔ Owns state := by
  rw [Owns, Owns, Ne, afterReprotect_eq_sharedCode, afterReprotect_isAlias]

/-- A page that is lent out, with the frame behind it. -/
def Page.lent (frame : Nat) : Page :=
  ⟨.lent, some frame⟩

/-- The frame stands behind the page, which has a use of the given kind. -/
def Page.Plays (role : MemoryState → Prop) (frame : Nat) (page : Page) : Prop :=
  page.frame = some frame ∧ role page.properties.state

namespace Page.Plays

variable {page : Page} {frame other : Nat} {role part : MemoryState → Prop}

theorem frame_eq (plays : page.Plays role frame) (again : page.Plays part other) :
    frame = other :=
  Option.some.inj (plays.1.symm.trans again.1)

theorem not_both (owns : page.Plays Owns frame) (aliases : page.Plays IsAlias other) : False :=
  owns.2.2 aliases.2

theorem not_blank : ¬ Page.blank.Plays role frame :=
  fun plays => nomatch plays.1

theorem of_lent : (Page.lent frame).Plays Owns frame :=
  ⟨rfl, show Owns .normal by decide⟩

theorem of_eq_lent (lent : page = .lent frame) : page.Plays Owns frame :=
  lent ▸ of_lent

end Page.Plays

namespace AddressSpace.Aliased

variable {bare lending : AddressSpace} {destination source offset number frame : Nat}
variable {frames : List Nat} (aliased : Aliased bare lending destination source frames)

include aliased

theorem source_at (listed : frames[offset]? = some frame) :
    (bare.page (source + offset)).Plays Owns frame ∧
      (bare.page (source + offset)).properties ≠ .lent ∧
      lending.page (source + offset) = .lent frame := by
  obtain ⟨⟨_, _, rfl, unmarked⟩, owned⟩ := aliased.owned offset frame listed
  obtain ⟨lent, backed⟩ := aliased.lent offset frame listed
  refine ⟨⟨owned, ?_⟩, ?_, congrArg₂ Page.mk lent backed⟩
  · rw [unmarked]
    exact show Owns .normal by decide
  · rw [unmarked]
    exact Properties.plain_ne_lent

theorem destination_at (listed : frames[offset]? = some frame) :
    bare.page (destination + offset) = .blank ∧
      (lending.page (destination + offset)).Plays IsAlias frame := by
  obtain ⟨⟨_, _, kind, marked⟩, shown⟩ := aliased.shown offset frame listed
  have bounded := (List.getElem?_eq_some_iff.mp listed).1
  refine ⟨aliased.vacant _ ⟨Nat.le_add_right _ _, by omega⟩, shown, ?_⟩
  rw [marked]
  exact kind

theorem cases (number : Nat) :
    (∃ offset frame, frames[offset]? = some frame ∧ number = source + offset) ∨
      (∃ offset frame, frames[offset]? = some frame ∧ number = destination + offset) ∨
        lending.page number = bare.page number := by
  by_cases inSource : Within source frames.length number
  · exact .inl (exists_frame_of_within inSource)
  · by_cases inDestination : Within destination frames.length number
    · exact .inr (.inl (exists_frame_of_within inDestination))
    · exact .inr (.inr (aliased.same number inSource inDestination))

/-- Lent memory keeps its owner. -/
theorem owns_iff :
    (lending.page number).Plays Owns frame ↔ (bare.page number).Plays Owns frame := by
  rcases aliased.cases number with ⟨_, other, listed, rfl⟩ | ⟨_, other, listed, rfl⟩ | same
  · obtain ⟨owned, _, lent⟩ := aliased.source_at listed
    rw [lent]
    constructor
    · intro plays
      rw [plays.frame_eq .of_lent]
      exact owned
    · intro plays
      rw [plays.frame_eq owned]
      exact .of_lent
  · obtain ⟨vacant, showing⟩ := aliased.destination_at listed
    rw [vacant]
    exact iff_of_false (fun plays => plays.not_both showing) Page.Plays.not_blank
  · rw [same]

/-- The aliases of lent memory come on top of those that there are without it. -/
theorem isAlias_iff :
    (lending.page number).Plays IsAlias frame ↔ (bare.page number).Plays IsAlias frame ∨
      ∃ offset, frames[offset]? = some frame ∧ number = destination + offset := by
  constructor
  · intro plays
    rcases aliased.cases number with ⟨_, _, listed, rfl⟩ | ⟨offset, _, listed, rfl⟩ | same
    · obtain ⟨_, _, lent⟩ := aliased.source_at listed
      rw [lent] at plays
      exact (Page.Plays.of_lent.not_both plays).elim
    · obtain ⟨_, showing⟩ := aliased.destination_at listed
      obtain rfl := plays.frame_eq showing
      exact .inr ⟨offset, listed, rfl⟩
    · exact .inl (same ▸ plays)
  · rintro (plays | ⟨offset, listed, rfl⟩)
    · rcases aliased.cases number with ⟨_, _, listed, rfl⟩ | ⟨_, _, listed, rfl⟩ | same
      · obtain ⟨owned, _⟩ := aliased.source_at listed
        exact (owned.not_both plays).elim
      · obtain ⟨vacant, _⟩ := aliased.destination_at listed
        rw [vacant] at plays
        exact (Page.Plays.not_blank plays).elim
      · exact same ▸ plays
    · exact (aliased.destination_at listed).2

/-- The lent pages of lent memory come on top of those that there are without it. -/
theorem lent_iff :
    lending.page number = .lent frame ↔ bare.page number = .lent frame ∨
      ∃ offset, frames[offset]? = some frame ∧ number = source + offset := by
  constructor
  · intro lent
    rcases aliased.cases number with ⟨offset, _, listed, rfl⟩ | ⟨_, _, listed, rfl⟩ | same
    · obtain ⟨_, _, shown⟩ := aliased.source_at listed
      obtain rfl := Option.some.inj (congrArg Page.frame (lent.symm.trans shown))
      exact .inr ⟨offset, listed, rfl⟩
    · obtain ⟨_, showing⟩ := aliased.destination_at listed
      rw [lent] at showing
      exact (Page.Plays.of_lent.not_both showing).elim
    · exact .inl (same ▸ lent)
  · rintro (lent | ⟨offset, listed, rfl⟩)
    · rcases aliased.cases number with ⟨_, _, listed, rfl⟩ | ⟨_, _, listed, rfl⟩ | same
      · obtain ⟨_, unlent, _⟩ := aliased.source_at listed
        exact absurd (congrArg Page.properties lent) unlent
      · obtain ⟨vacant, _⟩ := aliased.destination_at listed
        rw [vacant] at lent
        cases lent
      · exact same.trans lent
    · exact (aliased.source_at listed).2.2

/-- An owner that shows none of the frames of lent memory is the same without it. -/
theorem page_eq_of_owns (owns : (bare.page number).Plays Owns frame) (other : frame ∉ frames) :
    lending.page number = bare.page number := by
  rcases aliased.cases number with ⟨_, _, listed, rfl⟩ | ⟨_, _, listed, rfl⟩ | same
  · obtain ⟨owned, _⟩ := aliased.source_at listed
    obtain rfl := owns.frame_eq owned
    exact absurd (List.mem_of_getElem? listed) other
  · obtain ⟨vacant, _⟩ := aliased.destination_at listed
    rw [vacant] at owns
    exact (Page.Plays.not_blank owns).elim
  · exact same

end AddressSpace.Aliased

/-- A frame has one owner and one code alias at most, and an owner with an alias is lent out. -/
structure Exclusive {ι : Type} (pages : ι → Page) : Prop where
  owner : ∀ {frame place other}, (pages place).Plays Owns frame →
    (pages other).Plays Owns frame → place = other
  aliased : ∀ {frame place other}, (pages place).Plays IsAlias frame →
    (pages other).Plays IsAlias frame → place = other
  lent : ∀ {frame place other}, (pages place).Plays Owns frame →
    (pages other).Plays IsAlias frame → (pages place).properties = .lent

namespace Exclusive

variable {ι : Type} {before after : ι → Page}

/-- Pages that give up roles, and take none, share none. -/
theorem fewer (exclusive : Exclusive before)
    (owners : ∀ place frame, (after place).Plays Owns frame → (before place).Plays Owns frame)
    (aliases : ∀ place frame, (after place).Plays IsAlias frame →
      (before place).Plays IsAlias frame)
    (lent : ∀ place other frame, (after place).Plays Owns frame →
      (after other).Plays IsAlias frame → (before place).properties = .lent →
      (after place).properties = .lent) : Exclusive after where
  owner first second := exclusive.owner (owners _ _ first) (owners _ _ second)
  aliased first second := exclusive.aliased (aliases _ _ first) (aliases _ _ second)
  lent first second := lent _ _ _ first second
    (exclusive.lent (owners _ _ first) (aliases _ _ second))

/-- Pages that have changed show frames that no other page shows. -/
theorem alone (exclusive : Exclusive before)
    (changed : ∀ place, after place = before place ∨
      ∀ frame other, (after place).frame = some frame → (after other).frame = some frame →
        other = place) : Exclusive after := by
  have cases {frame : Nat} {place other : ι} (here : (after place).frame = some frame)
      (there : (after other).frame = some frame) :
      place = other ∨ after place = before place ∧ after other = before other := by
    rcases changed place with same | apart
    · rcases changed other with otherSame | apart
      · exact .inr ⟨same, otherSame⟩
      · exact .inl (apart frame place there here)
    · exact .inl (apart frame other here there).symm
  refine ⟨fun first second => ?_, fun first second => ?_, fun first second => ?_⟩
  all_goals rcases cases first.1 second.1 with same | ⟨unchanged, otherUnchanged⟩
  · exact same
  · exact exclusive.owner (unchanged ▸ first) (otherUnchanged ▸ second)
  · exact same
  · exact exclusive.aliased (unchanged ▸ first) (otherUnchanged ▸ second)
  · exact (first.not_both (same ▸ second)).elim
  · rw [unchanged]
    exact exclusive.lent (unchanged ▸ first) (otherUnchanged ▸ second)

end Exclusive

end GuestMemory
