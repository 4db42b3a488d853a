import GuestMemory.Proofs.FramePool.FreeRuns
import Mathlib.Data.Set.Function

/-!
Pools that may pass the last address. A frame past it is freed as one counted from the first address
on. A pool still never hands a frame out twice where it has no more frames than there are addresses
for, or is not asked for all of them.
-/

namespace GuestMemory.FramePool

variable {pool after : FramePool} {runs : List Run} {frames : List Nat} {run : Run}
variable {base total pages address frame other count first due : Nat}
variable {place : Nat → Nat} {free following rest : List Run} {joined longer : Run}

theorem held_of_releaseFrames (released : pool.releaseFrames count first = .ok after)
    (frame : Nat) : after.held frame + (List.range' first count).count frame = pool.held frame := by
  induction count generalizing first pool with
  | zero =>
      cases released
      rfl
  | succ count ih =>
      obtain ⟨middle, one, remaining⟩ := Checked.bind_eq_ok.mp released
      rw [List.range'_succ, ← held_of_releaseFrame one, ← ih remaining, List.count_cons,
        List.count_singleton]
      omega

theorem held_of_releaseAll (released : pool.releaseAll runs = .ok after) (frame : Nat) :
    after.held frame + (Run.framesOf runs).count frame = pool.held frame := by
  induction runs generalizing pool with
  | nil =>
      cases released
      rfl
  | cons run rest ih =>
      rw [releaseAll, List.foldlM_cons, Checked.bind_eq_ok] at released
      obtain ⟨middle, one, remaining⟩ := released
      rw [Run.framesOf_cons, List.count_append, ← held_of_releaseFrames one, ← ih remaining,
        Run.frames]
      omega

/-- The frame as which a frame is freed. -/
def landing (frame : Nat) : Nat :=
  pageOf (pageStart frame)

theorem landing_eq (frame : Nat) : landing frame = frame % (wordLimit / pageSize) := by
  simp only [landing, pageOf, pageStart, pageSize_eq, wordLimit]
  omega

theorem landing_landing (frame : Nat) : landing (landing frame) = landing frame := by
  rw [landing_eq, landing_eq, Nat.mod_mod]

theorem frames_landing (frame : Nat) :
    (⟨pageStart frame, 1⟩ : Run).frames = [landing frame] :=
  rfl

/-- Where frames are told apart by their places, such a frame is freed as itself. -/
def Settled (place : Nat → Nat) (frame : Nat) : Prop :=
  place (landing frame) = place frame

/-- Frames that are not settled lie in runs that stay while no more than the pages that are due are
asked for. -/
def Reserved (place : Nat → Nat) (due : Nat) (runs : List Run) : Prop :=
  ∀ run ∈ runs, ∀ frame ∈ run.frames, ¬ Settled place frame → due < run.pages

theorem settled_landing (frame : Nat) : Settled landing frame :=
  landing_landing frame

theorem settled_of_lt (bounded : frame * pageSize < wordLimit) : Settled place frame := by
  rw [Settled, landing_eq, Nat.mod_eq_of_lt]
  simp only [pageSize_eq, wordLimit] at *
  omega

/-- The run is made of the one that is given back and of free runs: each of its frames is of the
former or was free already, in a run with no more frames. -/
def Extends (free : List Run) (run joined : Run) : Prop :=
  ∀ frame ∈ joined.frames, frame ∈ run.frames ∨
    ∃ old ∈ free, frame ∈ old.frames ∧ old.pages ≤ joined.pages

theorem extends_self (free : List Run) (run : Run) : Extends free run run :=
  fun _ member => .inl member

theorem extends_of_mem {old : Run} (member : old ∈ free) (run : Run) : Extends free run old :=
  fun _ inside => .inr ⟨old, member, inside, Nat.le_refl _⟩

theorem Extends.join {first second : Run} (front : Extends free run first)
    (back : Extends free run second) (joins : first.stop = second.address) :
    Extends free run { first with pages := first.pages + second.pages } := by
  intro frame member
  rw [Run.frames_extend joins, List.mem_append] at member
  rcases member with early | late
  · refine (front frame early).imp_right fun ⟨old, listed, inside, smaller⟩ => ?_
    exact ⟨old, listed, inside, Nat.le_trans smaller (Nat.le_add_right _ _)⟩
  · refine (back frame late).imp_right fun ⟨old, listed, inside, smaller⟩ => ?_
    exact ⟨old, listed, inside, Nat.le_trans smaller (Nat.le_add_left _ _)⟩

theorem extends_joinNext (grown : Extends free run joined) (among : following ⊆ free)
    (joining : joinNext joined following = .ok (longer, rest)) :
    Extends free run longer ∧ rest ⊆ free := by
  cases following with
  | nil =>
      cases joining
      exact ⟨grown, among⟩
  | cons next others =>
      obtain ⟨here, later⟩ := List.cons_subset.mp among
      rcases joinNext_cases joining with ⟨joins, rfl, rfl⟩ | ⟨_, rfl, rfl⟩
      · exact ⟨grown.join (extends_of_mem here run) joins, later⟩
      · exact ⟨grown, among⟩

theorem extends_stack (grown : Extends free run joined) (among : following ⊆ free)
    (stacked : joined.stack following = .ok runs) : ∀ next ∈ runs, Extends free run next := by
  cases following with
  | nil =>
      cases stacked
      exact List.forall_mem_singleton.mpr grown
  | cons top below =>
      obtain ⟨here, lower⟩ := List.cons_subset.mp among
      have kept (next : Run) (member : next ∈ below) : Extends free run next :=
        extends_of_mem (lower member) run
      obtain ⟨_, ⟨joins, _, rfl⟩ | ⟨_, rfl⟩⟩ := Run.stack_cases stacked
      · exact List.forall_mem_cons.mpr ⟨(extends_of_mem here run).join grown joins, kept⟩
      · exact List.forall_mem_cons.mpr
          ⟨grown, List.forall_mem_cons.mpr ⟨extends_of_mem here run, kept⟩⟩

theorem extends_giveBack (given : giveBack run free = .ok runs) :
    ∀ next ∈ runs, Extends free run next := by
  obtain ⟨joined, rest, upTo, joining, stacked, rfl⟩ := giveBack_eq_ok given
  obtain ⟨grown, among⟩ :=
    extends_joinNext (extends_self free run) (List.dropWhile_sublist _).subset joining
  have before : (free.takeWhile (·.address < run.address)).reverse ⊆ free := fun next member =>
    (List.takeWhile_sublist _).subset (List.mem_reverse.mp member)
  intro next member
  rcases List.mem_append.mp member with early | late
  · exact extends_stack grown before stacked next (List.mem_reverse.mp early)
  · exact extends_of_mem (among late) run

theorem Reserved.giveBack (reserved : Reserved place due free)
    (given : FramePool.giveBack ⟨pageStart frame, 1⟩ free = .ok runs) :
    Reserved place due runs := by
  intro run member other inside unsettled
  rcases extends_giveBack given run member other inside with freed | ⟨old, listed, held, smaller⟩
  · rw [frames_landing, List.mem_singleton] at freed
    exact absurd (freed ▸ congrArg place (landing_landing frame)) unsettled
  · exact Nat.lt_of_lt_of_le (reserved old listed other held unsettled) smaller

/-- What is handed out is settled, whether it is cut off a run before the last address or is a whole
run, for of the latter those that are not are too long. -/
theorem Reserved.takeFirstFit (reserved : Reserved place (due + pages) free)
    (taken : FramePool.takeFirstFit pages free = .ok (some (address, rest))) :
    (∀ frame ∈ List.range' (pageOf address) pages, Settled place frame) ∧
      Reserved place due rest := by
  obtain ⟨before, run, after, rfl, rfl, _, cut⟩ := takeFirstFit_eq_ok taken
  obtain ⟨early, late⟩ := List.forall_mem_append.mp reserved
  obtain ⟨here, others⟩ := List.forall_mem_cons.mp late
  have less {runs : List Run} (more : Reserved place (due + pages) runs) :
      Reserved place due runs := fun run member frame inside unsettled =>
    Nat.lt_of_le_of_lt (Nat.le_add_right _ _) (more run member frame inside unsettled)
  rcases cut with ⟨whole, rfl⟩ | ⟨more, fits, rfl⟩
  · refine ⟨fun frame member => ?_, List.forall_mem_append.mpr ⟨less early, less others⟩⟩
    by_contra unsettled
    have long := here frame (by rwa [Run.frames, whole]) unsettled
    omega
  · refine ⟨fun frame member => settled_of_lt ?_, List.forall_mem_append.mpr ⟨less early,
      List.forall_mem_cons.mpr ⟨fun frame member unsettled => ?_, less others⟩⟩⟩
    · rw [List.mem_range'_1] at member
      simp only [pageOf, pageSize_eq] at *
      omega
    · have inside : frame ∈ run.frames := by
        rw [Run.mem_frames] at member ⊢
        simp only [pageOf_add_mul_pageSize] at member
        omega
      exact Nat.lt_sub_of_add_lt (here frame inside unsettled)

/-- No two frames are in the same place, free or allocated. Those that are allocated are settled,
and those that are not are never handed out while no more pages are asked for than are due. -/
structure Apart (place : Nat → Nat) (due : Nat) (pool : FramePool) : Prop where
  free : ((Run.framesOf pool.free).map place).Nodup
  between : ∀ frame : Nat, pool.references[frame]? ≠ none →
    place frame ∉ (Run.framesOf pool.free).map place
  allocated : Set.InjOn place {frame | pool.references[frame]? ≠ none}
  settled : ∀ frame : Nat, pool.references[frame]? ≠ none → Settled place frame
  reserved : Reserved place due pool.free

/-- A pool may lie anywhere, and have more frames than there are addresses for if these are not all
asked for. -/
theorem apart_create (created : create base total = .ok pool)
    (bounded : total * pageSize ≤ wordLimit ∨ due < total) : ∃ place, pool.Apart place due := by
  rw [create] at created
  split at created <;> cases created
  have unreferenced (frame : Nat) : (∅ : References)[frame]? = none :=
    Std.ExtTreeMap.getElem?_empty
  have frames : Run.framesOf (if total = 0 then [] else [⟨base, total⟩]) =
      List.range' (pageOf base) total := by
    split
    · rename_i none
      rw [none]
      rfl
    · simp [Run.frames]
  have vacant {place : Nat → Nat}
      (distinct : ((List.range' (pageOf base) total).map place).Nodup)
      (reserved : Reserved place due (if total = 0 then [] else [⟨base, total⟩])) :
      Apart place due ⟨base, total, if total = 0 then [] else [⟨base, total⟩], ∅⟩ :=
    ⟨frames ▸ distinct, fun frame held => absurd (unreferenced frame) held,
      fun frame held => absurd (unreferenced frame) held,
      fun frame held => absurd (unreferenced frame) held, reserved⟩
  rcases bounded with few | spare
  · refine ⟨landing, vacant ?_
      fun _ _ frame _ unsettled => absurd (settled_landing frame) unsettled⟩
    refine List.Nodup.map_on (fun frame member other listed same => ?_) List.nodup_range'
    rw [List.mem_range'_1] at member listed
    simp only [landing_eq, pageSize_eq, wordLimit] at same few
    omega
  · refine ⟨id, vacant (by rw [List.map_id]; exact List.nodup_range') fun run member _ _ _ => ?_⟩
    rw [if_neg (Nat.ne_zero_of_lt spare), List.mem_singleton] at member
    rw [member]
    exact spare

namespace Apart

theorem unallocated (apart : pool.Apart place due) (member : frame ∈ Run.framesOf pool.free) :
    pool.references[frame]? = none := by
  by_contra held
  exact apart.between frame held (List.mem_map_of_mem member)

/-- The frames that are handed out had no references. -/
theorem allocate (apart : pool.Apart place (due + pages))
    (allocated : FramePool.allocate pages pool = .done address after) :
    after.Apart place due ∧ ∀ frame,
      after.held frame = pool.held frame + (⟨address, pages⟩ : Run).frames.count frame := by
  obtain ⟨_, free, taken, rfl⟩ := allocate_eq_done allocated
  obtain ⟨settled, reserved⟩ := apart.reserved.takeFirstFit taken
  have moved := framesOf_takeFirstFit taken
  have distinct := (moved.map place).nodup_iff.mp apart.free
  rw [List.map_append] at distinct
  obtain ⟨takenDistinct, restDistinct, disjoint⟩ := List.nodup_append'.mp distinct
  have started (frame : Nat) : (pool.references.start pages (pageOf address))[frame]? =
      if frame ∈ List.range' (pageOf address) pages then some 1 else pool.references[frame]? := by
    simp only [References.getElem?_start, List.mem_range'_1]
  have wasFree (frame : Nat) (member : frame ∈ List.range' (pageOf address) pages) :
      frame ∈ Run.framesOf pool.free :=
    moved.mem_iff.mpr (List.mem_append_left _ member)
  refine ⟨⟨restDistinct, fun frame held => ?_, fun frame held other referred same => ?_,
    fun frame held => ?_, reserved⟩, fun frame => ?_⟩
  · rw [started] at held
    split at held
    · exact fun member => disjoint (List.mem_map_of_mem ‹_›) member
    · exact fun member => apart.between frame held
        ((moved.map place).mem_iff.mpr (by
          rw [List.map_append]
          exact List.mem_append_right _ member))
  · simp only [Set.mem_ofPred_eq, started] at held referred
    split at held <;> split at referred
    · exact List.inj_on_of_nodup_map takenDistinct ‹_› ‹_› same
    · exact absurd (List.mem_map.mpr ⟨frame, wasFree frame ‹_›, same⟩)
        (apart.between other referred)
    · exact absurd (List.mem_map.mpr ⟨other, wasFree other ‹_›, same.symm⟩)
        (apart.between frame held)
    · exact apart.allocated held referred same
  · rw [started] at held
    split at held
    · exact settled frame ‹_›
    · exact apart.settled frame held
  · rw [held, held, started, Run.frames]
    by_cases member : frame ∈ List.range' (pageOf address) pages
    · rw [if_pos member, apart.unallocated (wasFree frame member),
        List.count_eq_one_of_mem List.nodup_range' member]
      rfl
    · rw [if_neg member, List.count_eq_zero_of_not_mem member]
      rfl

/-- Counts may change while the frames that have references stay the same. -/
theorem recount (apart : pool.Apart place due) (free : after.free = pool.free)
    (same : ∀ frame : Nat, after.references[frame]? = none ↔ pool.references[frame]? = none) :
    after.Apart place due := by
  refine ⟨free ▸ apart.free, fun frame held => ?_, fun frame held other referred => ?_,
    fun frame held => apart.settled frame fun none => held ((same frame).mpr none),
    free ▸ apart.reserved⟩
  · rw [free]
    exact apart.between frame fun none => held ((same frame).mpr none)
  · exact apart.allocated (fun none => held ((same frame).mpr none))
      (fun none => referred ((same other).mpr none))

theorem retains (apart : pool.Apart place due) (retains : pool.Retains frames after) :
    after.Apart place due :=
  apart.recount (by rw [retains.free_eq]) retains.gains.isNone_iff

theorem releaseFrame (apart : pool.Apart place due)
    (released : pool.releaseFrame frame = .ok after) : after.Apart place due := by
  rcases releaseFrame_eq_ok released with ⟨found, free, given, rfl⟩ | ⟨left, found, _, rfl⟩
  · have referred : pool.references[frame]? ≠ none := by simp [found]
    have moved := framesOf_giveBack given
    rw [frames_landing, List.singleton_append] at moved
    have placed := moved.map place
    rw [List.map_cons, apart.settled frame referred] at placed
    have kept (other : Nat) (held : (pool.references.erase frame)[other]? ≠ none) :
        frame ≠ other ∧ pool.references[other]? ≠ none := by
      rw [getElem?_erase_of_nat] at held
      split at held
      · exact absurd rfl held
      · exact ⟨‹_›, held⟩
    refine ⟨placed.nodup_iff.mpr (List.nodup_cons.mpr ⟨apart.between frame referred, apart.free⟩),
      fun other held => ?_, fun other held next referred => ?_,
      fun other held => apart.settled other (kept other held).2, apart.reserved.giveBack given⟩
    · obtain ⟨differs, held⟩ := kept other held
      rw [placed.mem_iff, List.mem_cons, not_or]
      exact ⟨fun same => differs (apart.allocated held referred same).symm,
        apart.between other held⟩
    · exact apart.allocated (kept other held).2 (kept next referred).2
  · refine apart.recount rfl fun other => ?_
    rw [getElem?_insert_of_nat]
    by_cases here : frame = other
    · subst other
      simp [found]
    · rw [if_neg here]

theorem releaseFrames (apart : pool.Apart place due)
    (released : pool.releaseFrames count first = .ok after) : after.Apart place due := by
  induction count generalizing first pool with
  | zero =>
      cases released
      exact apart
  | succ count ih =>
      obtain ⟨middle, one, remaining⟩ := Checked.bind_eq_ok.mp released
      exact ih (apart.releaseFrame one) remaining

theorem releaseAll (apart : pool.Apart place due) (released : pool.releaseAll runs = .ok after) :
    after.Apart place due := by
  induction runs generalizing pool with
  | nil =>
      cases released
      exact apart
  | cons run rest ih =>
      rw [FramePool.releaseAll, List.foldlM_cons, Checked.bind_eq_ok] at released
      obtain ⟨middle, one, remaining⟩ := released
      exact ih (apart.releaseFrames one) remaining

end Apart

end GuestMemory.FramePool
