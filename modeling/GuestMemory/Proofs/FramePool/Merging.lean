import GuestMemory.Proofs.FramePool.Allocation
import Mathlib.Data.List.Sort
import Mathlib.Data.List.TakeWhile

/-!
Free runs are as long as they can be. They rise and leave a frame out between one and the next, and
taking frames out and giving frames back keeps them so. The free frames determine such runs.
-/

namespace GuestMemory

variable {free rest result following front back lower : List Run} {run added joined : Run}
variable {pages address frame count : Nat} {frames : List Nat}

namespace Run

theorem address_le_stop (run : Run) : run.address ≤ run.stop :=
  Nat.le_add_right _ _

theorem mem_frames_of_aligned (aligned : run.address % pageSize = 0) :
    frame ∈ run.frames ↔ run.address ≤ frame * pageSize ∧ frame * pageSize < run.stop := by
  rw [mem_frames]
  simp only [stop, size, pageOf, pageSize_eq] at *
  omega

theorem length_framesOf (runs : List Run) : (framesOf runs).length = total runs := by
  induction runs with
  | nil => rfl
  | cons run rest ih => rw [framesOf_cons, List.length_append, length_frames, ih, total]

/-- The runs rise, none is empty and none touches the next. -/
structure Spaced (runs : List Run) : Prop where
  nonempty : ∀ run ∈ runs, 0 < run.pages
  apart : runs.Pairwise fun run next => run.stop < next.address

theorem spaced_nil : Spaced [] :=
  ⟨by simp, .nil⟩

theorem spaced_cons : Spaced (run :: rest) ↔
    0 < run.pages ∧ (∀ next ∈ rest, run.stop < next.address) ∧ Spaced rest := by
  constructor
  · rintro ⟨nonempty, apart⟩
    obtain ⟨first, others⟩ := List.forall_mem_cons.mp nonempty
    obtain ⟨before, later⟩ := List.pairwise_cons.mp apart
    exact ⟨first, before, others, later⟩
  · rintro ⟨first, before, others, later⟩
    exact ⟨List.forall_mem_cons.mpr ⟨first, others⟩, List.pairwise_cons.mpr ⟨before, later⟩⟩

theorem spaced_append : Spaced (front ++ back) ↔
    Spaced front ∧ Spaced back ∧ ∀ run ∈ front, ∀ next ∈ back, run.stop < next.address := by
  constructor
  · rintro ⟨nonempty, apart⟩
    obtain ⟨first, others⟩ := List.forall_mem_append.mp nonempty
    obtain ⟨early, late, before⟩ := List.pairwise_append.mp apart
    exact ⟨⟨first, early⟩, ⟨others, late⟩, before⟩
  · rintro ⟨⟨first, early⟩, ⟨others, late⟩, before⟩
    exact ⟨List.forall_mem_append.mpr ⟨first, others⟩,
      List.pairwise_append.mpr ⟨early, late, before⟩⟩

/-- A run put on a stack of spaced runs that it does not reach into. -/
theorem spaced_stack (spaced : Spaced lower.reverse) (behind : Spaced (added :: rest))
    (below : ∀ other ∈ lower, other.stop ≤ added.address)
    (stacked : added.stack lower = .ok result) : Spaced (result.reverse ++ rest) := by
  cases lower with
  | nil =>
      cases stacked
      exact behind
  | cons top lower =>
      obtain ⟨_, after, spacedRest⟩ := spaced_cons.mp behind
      rw [List.reverse_cons, spaced_append] at spaced
      obtain ⟨spacedLower, spacedTop, before⟩ := spaced
      have low (other : Run) (member : other ∈ lower) : other.stop < top.address :=
        before other (List.mem_reverse.mpr member) top (List.mem_singleton_self top)
      have reach := below top List.mem_cons_self
      have rise := top.address_le_stop
      have grow := added.address_le_stop
      obtain ⟨_, ⟨joins, _, rfl⟩ | ⟨apart, rfl⟩⟩ := stack_cases stacked
      · rw [List.reverse_cons, List.append_assoc, List.singleton_append, spaced_append, spaced_cons]
        have nonempty := spacedTop.nonempty top (List.mem_singleton_self top)
        refine ⟨spacedLower, ⟨Nat.add_pos_left nonempty _, fun next member => ?_, spacedRest⟩,
          fun other early next late => ?_⟩
        · rw [stop_extend joins]
          exact after next member
        · have ends := low other (List.mem_reverse.mp early)
          rcases List.mem_cons.mp late with rfl | later
          · exact ends
          · have further := after next later
            omega
      · rw [List.reverse_cons, List.append_assoc, List.singleton_append, List.reverse_cons,
          spaced_append, spaced_append]
        refine ⟨⟨spacedLower, spacedTop, before⟩, behind, fun other early next late => ?_⟩
        have ends : other.stop < added.address := by
          rcases List.mem_append.mp early with earlier | last
          · have ends := low other (List.mem_reverse.mp earlier)
            omega
          · obtain rfl := List.mem_singleton.mp last
            omega
        rcases List.mem_cons.mp late with rfl | later
        · exact ends
        · have further := after next later
          omega

/-- The maximal runs of consecutive frames in a rising list of frames. -/
def maximalRuns : List Nat → List Run
  | [] => []
  | frame :: rest =>
    match maximalRuns rest with
    | [] => [⟨frame * pageSize, 1⟩]
    | next :: others =>
      if next.address = (frame + 1) * pageSize then
        ⟨frame * pageSize, next.pages + 1⟩ :: others
      else
        ⟨frame * pageSize, 1⟩ :: next :: others

/-- A run grows over the frames in front of it. -/
theorem maximalRuns_range' {runs : List Run} (behind : maximalRuns frames = runs)
    (apart : ∀ next, runs.head? = some next → next.address ≠ (frame + (count + 1)) * pageSize) :
    maximalRuns (List.range' frame (count + 1) ++ frames) =
      ⟨frame * pageSize, count + 1⟩ :: runs := by
  induction count generalizing frame with
  | zero =>
      simp only [List.range'_succ, List.range'_zero, List.singleton_append, maximalRuns, behind]
      cases runs with
      | nil => rfl
      | cons next others => exact if_neg (apart next rfl)
  | succ count ih =>
      have follows : frame + 1 + (count + 1) = frame + (count + 1 + 1) := by omega
      rw [List.range'_succ, List.cons_append, maximalRuns, ih (follows ▸ apart)]
      exact if_pos rfl

/-- Spaced runs are the maximal runs of their frames. -/
theorem Spaced.eq_maximalRuns {runs : List Run} (spaced : Spaced runs)
    (aligned : ∀ run ∈ runs, run.address % pageSize = 0) : runs = maximalRuns (framesOf runs) := by
  induction runs with
  | nil => rfl
  | cons run rest ih =>
      obtain ⟨start, others⟩ := List.forall_mem_cons.mp aligned
      obtain ⟨nonempty, after, spaced⟩ := spaced_cons.mp spaced
      obtain ⟨more, whole⟩ : ∃ more, run.pages = more + 1 := ⟨run.pages - 1, by omega⟩
      have first : pageOf run.address * pageSize = run.address :=
        Nat.div_mul_cancel (Nat.dvd_of_mod_eq_zero start)
      have stop : run.stop = (pageOf run.address + (more + 1)) * pageSize := by
        rw [Run.stop, Run.size, whole, Nat.add_mul (pageOf run.address), first]
      have apart (next : Run) (head : rest.head? = some next) :
          next.address ≠ (pageOf run.address + (more + 1)) * pageSize :=
        stop ▸ Nat.ne_of_gt (after next (List.mem_of_head? head))
      rw [framesOf_cons, Run.frames, whole, maximalRuns_range' (ih spaced others).symm apart, first,
        ← whole]

/-- The frames of spaced runs rise. -/
theorem Spaced.frames_rise {runs : List Run} (spaced : Spaced runs)
    (aligned : ∀ run ∈ runs, run.address % pageSize = 0) :
    (framesOf runs).Pairwise (· < ·) := by
  induction runs with
  | nil => exact .nil
  | cons run rest ih =>
      obtain ⟨start, others⟩ := List.forall_mem_cons.mp aligned
      obtain ⟨_, after, spaced⟩ := spaced_cons.mp spaced
      rw [framesOf_cons]
      refine List.pairwise_append.mpr ⟨List.pairwise_lt_range', ih spaced others,
        fun frame early other late => ?_⟩
      obtain ⟨next, member, inside⟩ := List.mem_flatMap.mp late
      have ends := ((mem_frames_of_aligned start).mp early).2
      have begins := ((mem_frames_of_aligned (others next member)).mp inside).1
      have apart := after next member
      exact Nat.lt_of_mul_lt_mul_right (a := pageSize) (by omega)

end Run

namespace FramePool

open Run

theorem spaced_takeFirstFit (spaced : Spaced free)
    (taken : takeFirstFit pages free = .ok (some (address, rest))) : Spaced rest := by
  obtain ⟨before, run, after, rfl, _, _, cut⟩ := takeFirstFit_eq_ok taken
  obtain ⟨early, late, apart⟩ := spaced_append.mp spaced
  obtain ⟨_, behind, others⟩ := spaced_cons.mp late
  rcases cut with ⟨_, rfl⟩ | ⟨more, _, rfl⟩
  · exact spaced_append.mpr ⟨early, others, fun run member next later =>
      apart run member next (List.mem_cons_of_mem _ later)⟩
  · have stop : Run.stop ⟨run.address + pages * pageSize, run.pages - pages⟩ = run.stop := by
      simp only [Run.stop, Run.size, pageSize_eq]
      omega
    refine spaced_append.mpr ⟨early, spaced_cons.mpr ⟨Nat.sub_pos_of_lt more, ?_, others⟩,
      fun other member next later => ?_⟩
    · rw [stop]
      exact behind
    · rcases List.mem_cons.mp later with rfl | later
      · exact Nat.lt_of_lt_of_le (apart other member run List.mem_cons_self) (Nat.le_add_right _ _)
      · exact apart other member next (List.mem_cons_of_mem _ later)

theorem spaced_joinNext (spaced : Spaced following) (nonempty : 0 < run.pages)
    (before : ∀ next ∈ following, run.stop ≤ next.address)
    (joining : joinNext run following = .ok (joined, rest)) : Spaced (joined :: rest) := by
  cases following with
  | nil =>
      cases joining
      exact spaced_cons.mpr ⟨nonempty, by simp, spaced_nil⟩
  | cons next others =>
      obtain ⟨_, behind, spacedOthers⟩ := spaced_cons.mp spaced
      rcases joinNext_cases joining with ⟨joins, rfl, rfl⟩ | ⟨apart, rfl, rfl⟩
      · refine spaced_cons.mpr ⟨Nat.add_pos_left nonempty _, ?_, spacedOthers⟩
        rw [stop_extend joins]
        exact behind
      · have first := Nat.lt_of_le_of_ne (before next List.mem_cons_self) apart
        have reach := next.address_le_stop
        refine spaced_cons.mpr ⟨nonempty, List.forall_mem_cons.mpr ⟨first, fun other member => ?_⟩,
          spaced⟩
        have further := behind other member
        omega

theorem le_of_mem_dropWhile (spaced : Spaced free) {other : Run}
    (member : other ∈ free.dropWhile (·.address < address)) : address ≤ other.address := by
  induction free with
  | nil => cases member
  | cons first others ih =>
      obtain ⟨_, behind, spaced⟩ := spaced_cons.mp spaced
      rw [List.dropWhile_cons] at member
      split at member
      · exact ih spaced member
      · rename_i past
        have start : address ≤ first.address := by simpa using past
        rcases List.mem_cons.mp member with rfl | later
        · exact start
        · have further := behind other later
          have reach := first.address_le_stop
          omega

/-- Runs without a common frame do not overlap. -/
theorem stop_le_of_apart {other : Run} (start : run.address % pageSize = 0)
    (otherStart : other.address % pageSize = 0) (before : run.address ≤ other.address)
    (nonempty : 0 < other.pages) (apart : ∀ frame ∈ run.frames, frame ∉ other.frames) :
    run.stop ≤ other.address := by
  by_contra overlaps
  have whole : pageOf other.address * pageSize = other.address :=
    Nat.div_mul_cancel (Nat.dvd_of_mod_eq_zero otherStart)
  refine apart (pageOf other.address) ?_ (mem_frames.mpr ⟨Nat.le_refl _, by omega⟩)
  rw [mem_frames_of_aligned start, whole]
  exact ⟨before, Nat.lt_of_not_le overlaps⟩

theorem spaced_giveBack (spaced : Spaced free) (aligned : Aligned free)
    (start : run.address % pageSize = 0) (nonempty : 0 < run.pages)
    (apart : ∀ frame ∈ run.frames, frame ∉ framesOf free)
    (given : giveBack run free = .ok result) : Spaced result := by
  obtain ⟨joined, rest, upTo, joining, stacked, rfl⟩ := giveBack_eq_ok given
  obtain ⟨address, _, _⟩ := joinNext_eq_ok joining
  have away {other : Run} (member : other ∈ free) : ∀ frame ∈ run.frames, frame ∉ other.frames :=
    fun frame inside shared => apart frame inside (List.mem_flatMap.mpr ⟨other, member, shared⟩)
  have parts := spaced
  rw [← List.takeWhile_append_dropWhile (p := (·.address < run.address)) (l := free),
    spaced_append] at parts
  obtain ⟨early, late, _⟩ := parts
  have behind := spaced_joinNext late nonempty (fun next member =>
    have listed := (List.dropWhile_sublist _).subset member
    stop_le_of_apart start (aligned next listed) (le_of_mem_dropWhile spaced member)
      (spaced.nonempty next listed) (away listed)) joining
  refine spaced_stack ((List.reverse_reverse _).symm ▸ early) behind (fun other member => ?_)
    stacked
  have member := List.mem_reverse.mp member
  have listed := (List.takeWhile_sublist _).subset member
  have before : other.address < run.address := by simpa using List.mem_takeWhile_imp member
  rw [address]
  exact stop_le_of_apart (aligned other listed) start (Nat.le_of_lt before) nonempty
    fun frame shared inside => away listed frame inside shared

end FramePool

end GuestMemory
