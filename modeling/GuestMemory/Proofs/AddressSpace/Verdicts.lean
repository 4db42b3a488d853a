import GuestMemory.Proofs.AddressSpace.Reclaiming
import GuestMemory.Proofs.Kernel.Tasks

/-!
Verdicts on one address space: what the guards of an operation, and the making of a group, say about
the pages of a range.
-/

namespace GuestMemory.AddressSpace

open GuestMemory.Action Verdict Outcome

variable {allowed : Fault → Prop} {attached made : AttachedSpace} {space : AddressSpace}
variable {extent : Run} {pages : Pages} {place : Place} {count size : Nat} {check : Check}
variable {group : PageGroup} {runs : List Run} {state : MemoryState}

/-- The pages of the space are those of a process among all pages. -/
def Among (space : AddressSpace) (pages : Pages) (index : Nat) : Prop :=
  ∀ number, pages (index, number) = space.page number

theorem Among.forall_iff (among : space.Among pages place.process) (property : Page → Prop) :
    (∀ key ∈ place.pages count, property (pages key)) ↔
      ∀ number, Within (pageOf place.address) count number → property (space.page number) := by
  constructor
  · intro holds number inside
    rw [← among number]
    exact holds _ (Place.mem_pages_iff.mpr ⟨rfl, inside⟩)
  · rintro holds ⟨index, number⟩ member
    obtain ⟨rfl, inside⟩ := Place.mem_pages_iff.mp member
    rw [among number]
    exact holds number inside

theorem Among.exists_iff (among : space.Among pages place.process) (property : Page → Prop) :
    (∃ key ∈ place.pages count, property (pages key)) ↔
      ∃ number, Within (pageOf place.address) count number ∧ property (space.page number) := by
  constructor
  · rintro ⟨⟨index, number⟩, member, holds⟩
    obtain ⟨rfl, inside⟩ := Place.mem_pages_iff.mp member
    exact ⟨number, inside, among number ▸ holds⟩
  · rintro ⟨number, inside, holds⟩
    rw [← among number] at holds
    exact ⟨_, Place.mem_pages_iff.mpr ⟨rfl, inside⟩, holds⟩

theorem Among.behind_eq (among : space.Among pages place.process) :
    pages.behind (place.pages count) =
      (List.range' (pageOf place.address) count).map space.directory.frameAt? := by
  rw [List.range'_eq_map_range, List.map_map, Pages.behind, Place.pages, List.map_map]
  apply List.map_congr_left
  intro offset _
  simp only [Function.comp_apply, Place.page, among (pageOf place.address + offset)]
  rfl

theorem Among.runs_eq (among : space.Among pages place.process) (coherent : space.Coherent) :
    space.directory.runs place.address count =
      Run.gather (pages.behind (place.pages count)) [] := by
  rw [among.behind_eq, Directory.runs_eq_gather coherent.aligned]

theorem error_of_checkRange {cause : Refusal} {after : AttachedSpace} {address : Nat}
    (refused : checkRange address size check attached = .refused cause after) :
    cause.error = .invalidCurrentMemory := by
  simp only [checkRange, bind_eq_refused, read_apply, check_eq_done] at refused
  rcases refused with none | ⟨_, _, _, none | ⟨blocks, _, _, refused | ⟨_, _, _, refused⟩⟩⟩
  · cases none
  · exact absurd none (Accepts.check _ _ _ _)
  · rw [require_apply] at refused
    split at refused <;> cases refused
    rfl
  · generalize blocks.find? _ = found at refused
    cases found <;> cases refused
    rfl

/-- A check of a range is a check of all its pages. -/
theorem verdict_checkRange (among : attached.space.Among pages place.process)
    (coherent : attached.space.Coherent) (aligned : place.address % pageSize = 0)
    (nonempty : 0 < count) (covers : attached.space.blocks.region.Covers place.address count) :
    (checkRange place.address (count * pageSize) check attached).verdict =
      demand (∀ key ∈ place.pages count, check.Meets (pages key).properties)
        (.refused .invalidCurrentMemory) := by
  have meets : (∀ key ∈ place.pages count, check.Meets (pages key).properties) ↔ _ :=
    among.forall_iff (check.Meets ·.properties)
  cases ended : checkRange place.address (count * pageSize) check attached with
  | done value after =>
      obtain rfl := steady_checkRange.of_done ended
      rw [demand_of_true]
      · rfl
      · exact meets.mpr fun number => meets_of_checked ended coherent aligned covers
  | refused cause after =>
      rw [demand_of_false, verdict, error_of_checkRange ended]
      intro all
      have passed := checkRange_of_meets coherent aligned nonempty covers (meets.mp all)
      cases passed.symm.trans ended
  | fault fault =>
      have safe : (checkRange place.address (count * pageSize) check).Safe (fun _ => False)
          attached := safe_checkRange coherent.wellFormed
      exact (safe fault ended).elim

theorem requireInside_of_contains {address : Nat}
    (inside : attached.space.layout.contains address size = .ok true) :
    requireInside address size attached = .done () attached := by
  simp [requireInside, inside]

theorem requirePlace_of_canContain {address : Nat} {error : Error}
    (placed : attached.space.layout.canContain address size state = .ok true) :
    requirePlace address size state error attached = .done () attached := by
  simp [requirePlace, placed]

theorem rangeSize_of_fits {σ : Type} {before : σ} {address : Nat}
    (fits : address + count * pageSize < wordLimit) :
    rangeSize address count before = .done (count * pageSize) before := by
  simp [rangeSize, fits]

/-- Whether a group can be made is settled by the frames behind the range. -/
theorem ending_makeGroup (among : attached.space.Among pages place.process)
    (coherent : attached.space.Coherent) (sound : Sound attached) :
    (makeGroup place.address count attached).ending =
      describe attached.resources.descriptors.free.length (pages.behind (place.pages count)) >>=
        fun _ => .ok () := by
  rw [makeGroup, ending_bind (Steady.inspect _), verdict_inspect, among.runs_eq coherent, describe,
    bind_assoc]
  cases gathered : Run.gather (pages.behind (place.pages count)) [] with
  | error fault => rfl
  | ok found =>
      cases found with
      | none => rfl
      | some runs =>
          have separate := Run.separate_gathered gathered
          have focused : (onDescriptors (PageGroup.ofRuns runs) attached).ending =
              (PageGroup.ofRuns runs attached.resources.descriptors).ending := by
            rw [Outcome.ending, onDescriptors, verdict_focus]
            rfl
          simp only [Checked.verdict_ok, ok_bind, focused,
            PageGroup.ending_ofRuns sound.descriptors separate, bind_assoc, Verdict.pure_eq,
            bind_unit]

/-- The runs of a group that has been made are those of the frames behind the range. -/
theorem makeGroup_eq_gathered (among : attached.space.Among pages place.process)
    (coherent : attached.space.Coherent) (sound : Sound attached)
    (done : makeGroup place.address count attached = .done group made) :
    group.holds = 0 ∧ made.resources.frames = attached.resources.frames ∧
      ∃ runs, Run.gather (pages.behind (place.pages count)) [] = .ok (some runs) ∧
        Groups attached place.address count group runs made := by
  obtain ⟨unheld, frames, _, groups⟩ := makeGroup_eq_done sound done
  obtain ⟨found, _, viewed, making⟩ := bind_eq_done.mp done
  obtain ⟨listed, rfl⟩ := inspect_eq_done.mp viewed
  refine ⟨unheld, frames, ?_⟩
  cases found with
  | none => cases making
  | some runs =>
      obtain ⟨descriptors, described, rfl⟩ := focus_eq_done.mp making
      obtain ⟨length, backs⟩ := Directory.runs_eq_some listed
      have gathered := (among.runs_eq coherent).symm.trans listed
      exact ⟨runs, gathered, PageGroup.occupies_of_separate sound.descriptors
        (Run.separate_gathered gathered) described, length, backs,
        fun limit lies => lies.of_runs listed, rfl, rfl⟩

/-- A group is compared with the frames behind a range frame by frame. -/
theorem verdict_isBackedBy (among : attached.space.Among pages place.process)
    (coherent : attached.space.Coherent) (few : count < wordLimit)
    (held : group.runs attached.resources.descriptors = .ok runs)
    (length : (Run.framesOf runs).length = count) :
    (isBackedBy group place.address count attached).verdict = (do
      let found ← (Run.gather (pages.behind (place.pages count)) []).verdict
      return decide (found = some runs)) := by
  obtain ⟨total, counted⟩ :=
    (PageGroup.safe_pages held (.inr (length ▸ few))).exists_of_none
  have whole := PageGroup.pages_eq_ok held counted
  rw [isBackedBy, verdict_bind (Steady.inspect _), verdict_inspect, counted, Checked.verdict_ok,
    ok_bind, if_neg (by simp [whole, length]), verdict_bind (Steady.inspect _), verdict_inspect,
    among.runs_eq coherent]
  apply bind_congr
  intro found
  cases found with
  | none => rfl
  | some behind =>
      rw [verdict_bind (Steady.inspect _), verdict_inspect, held, Checked.verdict_ok, ok_bind]
      simp only [verdict_pure, Option.some.injEq]
      rfl

section Retaining

variable {address destination source limit : Nat} {permission : KernelPermission}

theorem ending_retainGroup (held : group.runs attached.resources.descriptors = .ok runs)
    (unheld : group.holds = 0)
    (retainable : attached.resources.frames.Retainable allowed (Run.framesOf runs)) :
    (retainGroup group attached).ending =
      demand (attached.resources.frames.HasRoom (Run.framesOf runs)) .faulted := by
  apply ending_of_accepts accepts_retainGroup
  · intro room
    exact safe_retainGroup (PageGroup.safe_retain held unheld (retainable.limited room))
  · intro retained after done
    obtain ⟨resources, counted, _⟩ := retainGroup_eq_done done
    obtain ⟨found, frames, listed, gained, _⟩ := PageGroup.retain_eq_ok counted
    obtain rfl := Except.ok.inj (listed.symm.trans held)
    exact FramePool.room_of_retainAll gained

/-- Whatever a group can be placed on, references may be missing. -/
theorem room_of_placeGroup (held : group.runs attached.resources.descriptors = .ok runs)
    (placed : placeGroup address group state permission attached = .done () made) :
    attached.resources.frames.HasRoom (Run.framesOf runs) := by
  obtain ⟨found, _, _, frames, listed, gained, _⟩ := placeGroup_eq_done placed
  obtain rfl := Except.ok.inj (listed.symm.trans held)
  exact FramePool.room_of_retainAll gained

theorem ending_placeGroup (coherent : attached.space.Coherent) (used : state.has .mapped = true)
    (aligned : address % pageSize = 0)
    (held : group.runs attached.resources.descriptors = .ok runs)
    (lie : ∀ run ∈ runs, run.Lies limit) (nonempty : 0 < (Run.framesOf runs).length)
    (covers : attached.space.blocks.region.Covers address (Run.framesOf runs).length)
    (vacant : attached.space.Blank (pageOf address) (Run.framesOf runs).length)
    (retainable : attached.resources.frames.Retainable allowed (Run.framesOf runs))
    (operation : Operation) (first length : Nat) :
    Outcome.ending ((do
      placeGroup address group state permission
      commit operation first length : SpaceAction Commit) attached) =
        demand (attached.resources.frames.HasRoom (Run.framesOf runs)) .faulted := by
  apply ending_of_accepts (accepts_placeGroup.bind fun _ => accepts_commit)
  · intro room
    exact .bind (safe_placeGroup coherent aligned held lie
      (assignable_of_covers coherent.wellFormed nonempty covers) vacant
      (retainable.limited room)) fun _ middle placed =>
        safe_commit (coherent.placeGroup used aligned placed).wellFormed
  · intro result after done
    obtain ⟨_, middle, placed, _⟩ := bind_eq_done.mp done
    exact room_of_placeGroup held placed

theorem ending_lend (coherent : attached.space.Coherent) (first : destination % pageSize = 0)
    (second : source % pageSize = 0) (nonempty : 0 < (Run.framesOf runs).length)
    (covers : attached.space.blocks.region.Covers destination (Run.framesOf runs).length)
    (sourceCovers : attached.space.blocks.region.Covers source (Run.framesOf runs).length)
    (owned : attached.space.Shows (pageOf source) (Run.framesOf runs) (Unmarked (· = .normal)))
    (vacant : attached.space.Blank (pageOf destination) (Run.framesOf runs).length)
    (held : group.runs attached.resources.descriptors = .ok runs)
    (lie : ∀ run ∈ runs, run.Lies limit)
    (retainable : attached.resources.frames.Retainable allowed (Run.framesOf runs)) :
    Outcome.ending ((do
      changeBlocks (·.lock source (Run.framesOf runs).length .hidden)
      changeDirectory (·.protect source (Run.framesOf runs).length .hidden)
      placeGroup destination group .aliasCode .hidden
      commit .mapCode destination (Run.framesOf runs).length : SpaceAction Commit) attached) =
        demand (attached.resources.frames.HasRoom (Run.framesOf runs)) .faulted := by
  apply ending_of_accepts (accepts_changeBlocks.bind fun _ => accepts_changeDirectory.bind fun _ =>
    accepts_placeGroup.bind fun _ => accepts_commit)
  · intro room
    exact safe_lend coherent first second
      (assignable_of_covers coherent.wellFormed nonempty covers) sourceCovers owned vacant held lie
      (retainable.limited room)
  · intro result after done
    obtain ⟨_, _, locked, done⟩ := bind_eq_done.mp done
    obtain ⟨_, _, hidden, done⟩ := bind_eq_done.mp done
    obtain ⟨_, middle, placed, _⟩ := bind_eq_done.mp done
    obtain ⟨_, _, rfl⟩ := changeBlocks_eq_done.mp locked
    obtain ⟨_, _, rfl⟩ := changeDirectory_eq_done.mp hidden
    have room := room_of_placeGroup (by exact held) placed
    exact room

end Retaining

end GuestMemory.AddressSpace
