import GuestMemory.Proofs.FramePool.Returning
import Mathlib.Order.Bounds.Defs

/-!
First fit: a pool hands out the lowest of its windows, which are as many consecutive frames as are
asked for with nothing that refers to them. Since free runs are as long as they can be, each window
is in one of them.
-/

namespace GuestMemory

open GuestMemory.Action Run Verdict

variable {runs : List Run} {run next : Run} {frame first count : Nat}

namespace Run

/-- Two runs of a spaced list are the same, or one lies before the other. -/
theorem Spaced.order (spaced : Spaced runs) (member : run ∈ runs) (other : next ∈ runs) :
    run = next ∨ run.stop < next.address ∨ next.stop < run.address := by
  induction runs with
  | nil => cases member
  | cons head rest ih =>
      obtain ⟨_, after, spaced⟩ := spaced_cons.mp spaced
      rcases List.mem_cons.mp member with rfl | later <;>
        rcases List.mem_cons.mp other with rfl | further
      · exact .inl rfl
      · exact .inr (.inl (after next further))
      · exact .inr (.inr (after run later))
      · exact ih spaced later further

variable (spaced : Spaced runs) (aligned : ∀ run ∈ runs, run.address % pageSize = 0)

include spaced aligned

theorem Spaced.mem_frames_succ (member : run ∈ runs) (inside : frame ∈ run.frames)
    (free : frame + 1 ∈ framesOf runs) : frame + 1 ∈ run.frames := by
  obtain ⟨next, other, behind⟩ := List.mem_flatMap.mp free
  have start := aligned run member
  have nextStart := aligned next other
  have apart := spaced.order member other
  -- In another run the frame would be right behind the first one, which no run touches.
  rcases apart with rfl | apart
  · exact behind
  · rw [mem_frames] at *
    simp only [stop, size, pageOf, pageSize_eq] at *
    omega

/-- Consecutive frames of spaced runs are in one of them. -/
theorem Spaced.exists_run (inside : ∀ index ≤ count, first + index ∈ framesOf runs) :
    ∃ run ∈ runs, first ∈ run.frames ∧ first + count ∈ run.frames := by
  induction count with
  | zero =>
      obtain ⟨run, member, here⟩ := List.mem_flatMap.mp (inside 0 (Nat.le_refl 0))
      exact ⟨run, member, here, here⟩
  | succ count ih =>
      obtain ⟨run, member, begins, ends⟩ := ih fun index bounded =>
        inside index (Nat.le_succ_of_le bounded)
      exact ⟨run, member, begins,
        spaced.mem_frames_succ aligned member ends (inside (count + 1) (Nat.le_refl _))⟩

end Run

namespace FramePool

variable {pool after : FramePool} {extent : GuestMemory.Run} {free rest : List GuestMemory.Run}
variable {pages address : Nat}

/-- From the address on there are so many frames of the pool that nothing refers to. -/
structure Window (pool : FramePool) (pages address : Nat) : Prop where
  aligned : address % pageSize = 0
  starts : pool.base ≤ address
  ends : address + pages * pageSize ≤ pool.base + pool.total * pageSize
  vacant : ∀ index < pages, pool.referenceCount (address + index * pageSize) = 0

instance : Decidable (pool.Window pages address) :=
  decidable_of_iff
    (address % pageSize = 0 ∧ pool.base ≤ address ∧
      address + pages * pageSize ≤ pool.base + pool.total * pageSize ∧
      ∀ index < pages, pool.referenceCount (address + index * pageSize) = 0)
    ⟨fun ⟨aligned, starts, ends, vacant⟩ => ⟨aligned, starts, ends, vacant⟩,
      fun window => ⟨window.aligned, window.starts, window.ends, window.vacant⟩⟩

/-- A window begins with a frame of the pool, or behind the last one. -/
theorem exists_window_iff_offset : (∃ address, pool.Window pages address) ↔
    ∃ offset < pool.total + 1, pool.Window pages ((pageOf pool.base + offset) * pageSize) := by
  refine ⟨fun ⟨address, window⟩ => ?_, fun ⟨_, _, window⟩ => ⟨_, window⟩⟩
  have aligned := window.aligned
  have starts := window.starts
  have ends := window.ends
  have same : (pageOf pool.base + (pageOf address - pageOf pool.base)) * pageSize = address := by
    simp only [pageOf, pageSize_eq] at *
    omega
  refine ⟨pageOf address - pageOf pool.base, ?_, same.symm ▸ window⟩
  simp only [pageOf, pageSize_eq] at *
  omega

instance : Decidable (∃ address, pool.Window pages address) :=
  decidable_of_iff _ exists_window_iff_offset.symm

namespace WellFormed

variable (wellFormed : pool.WellFormed extent)

include wellFormed

/-- The windows are where all frames are in free runs. -/
theorem window_iff_free (positive : 0 < pages) : pool.Window pages address ↔
    address % pageSize = 0 ∧ ∀ index < pages, pageOf address + index ∈ framesOf pool.free := by
  have base := wellFormed.aligned
  obtain rfl := wellFormed.extent_eq
  have held (index : Nat) : pool.referenceCount (address + index * pageSize) =
      pool.held (pageOf address + index) := by
    rw [← pageOf_add_mul_pageSize]
    rfl
  simp only [wellFormed.free_iff_held, Run.mem_frames, ← held]
  constructor
  · rintro ⟨aligned, starts, ends, vacant⟩
    refine ⟨aligned, fun index bounded => ⟨?_, vacant index bounded⟩⟩
    simp only [pageOf, pageSize_eq] at *
    omega
  · rintro ⟨aligned, inside⟩
    obtain ⟨starts, _⟩ := (inside 0 positive).1
    obtain ⟨_, ends⟩ := (inside (pages - 1) (by omega)).1
    refine ⟨aligned, ?_, ?_, fun index bounded => (inside index bounded).2⟩
    all_goals
      simp only [pageOf, pageSize_eq] at *
      omega

/-- Each window is in one of the free runs. -/
theorem window_iff (spaced : Spaced pool.free) (positive : 0 < pages) :
    pool.Window pages address ↔ address % pageSize = 0 ∧
      ∃ run ∈ pool.free, run.address ≤ address ∧ address + pages * pageSize ≤ run.stop := by
  rw [wellFormed.window_iff_free positive]
  refine and_congr_right fun aligned => ⟨fun inside => ?_, ?_⟩
  · obtain ⟨run, member, first, last⟩ := spaced.exists_run wellFormed.runs_aligned
      fun index (bounded : index ≤ pages - 1) => inside index (by omega)
    rw [mem_frames_of_aligned (wellFormed.runs_aligned run member)] at first last
    refine ⟨run, member, ?_, ?_⟩
    · simp only [pageOf, pageSize_eq] at *
      omega
    · have start := wellFormed.runs_aligned run member
      simp only [Run.stop, Run.size, pageOf, pageSize_eq] at *
      omega
  · rintro ⟨run, member, starts, ends⟩ index bounded
    refine List.mem_flatMap.mpr ⟨run, member, ?_⟩
    rw [mem_frames_of_aligned (wellFormed.runs_aligned run member)]
    simp only [pageOf, pageSize_eq] at *
    omega

end WellFormed

theorem takeFirstFit_eq_none :
    takeFirstFit pages free = .ok none ↔ ∀ run ∈ free, run.pages < pages := by
  induction free with
  | nil => simp [takeFirstFit]
  | cons run rest ih =>
      rw [takeFirstFit, List.forall_mem_cons, ← ih]
      split
      · rename_i short
        simp [Checked.bind_eq_ok, short]
      · rename_i enough
        refine iff_of_false (fun none => ?_) fun few => enough few.1
        split at none
        · cases none
        · simp [Checked.bind_eq_ok] at none

theorem takeFirstFit_exists (room : ∀ run ∈ free, run.stop ≤ wordLimit) (member : run ∈ free)
    (enough : pages ≤ run.pages) :
    ∃ address rest, takeFirstFit pages free = .ok (some (address, rest)) := by
  obtain ⟨taken, found⟩ : ∃ taken, takeFirstFit pages free = .ok taken :=
    (safe_takeFirstFit (.inr fun run member _ => room run member)).exists_of_none
  cases taken with
  | none =>
      have short := takeFirstFit_eq_none.mp found run member
      omega
  | some taken => exact ⟨taken.1, taken.2, found⟩

theorem allocate_refused_iff :
    (∃ cause, FramePool.allocate pages pool = .refused cause pool ∧ cause.error = .outOfMemory) ↔
      pages = 0 ∨ ∀ run ∈ pool.free, run.pages < pages := by
  rw [← takeFirstFit_eq_none, FramePool.allocate]
  by_cases zero : pages = 0
  · simp [zero, Refusal.error]
  · rw [if_neg zero]
    split <;> simp_all [Refusal.error]

namespace WellFormed

variable (wellFormed : pool.WellFormed extent) (spaced : Spaced pool.free)

include wellFormed spaced

theorem window_of_run (positive : 0 < pages) (member : run ∈ pool.free)
    (enough : pages ≤ run.pages) : pool.Window pages run.address := by
  refine (wellFormed.window_iff spaced positive).mpr
    ⟨wellFormed.runs_aligned run member, run, member, Nat.le_refl _, ?_⟩
  exact Nat.add_le_add_left (Nat.mul_le_mul_right pageSize enough) _

theorem exists_window_iff (positive : 0 < pages) :
    (∃ address, pool.Window pages address) ↔ ∃ run ∈ pool.free, pages ≤ run.pages := by
  constructor
  · rintro ⟨address, window⟩
    obtain ⟨_, run, member, starts, ends⟩ := (wellFormed.window_iff spaced positive).mp window
    refine ⟨run, member, ?_⟩
    simp only [Run.stop, Run.size, pageSize_eq] at ends
    omega
  · rintro ⟨run, member, enough⟩
    exact ⟨run.address, wellFormed.window_of_run spaced positive member enough⟩

theorem isLeast_of_allocate (allocated : FramePool.allocate pages pool = .done address after) :
    IsLeast {address | pool.Window pages address} address := by
  obtain ⟨nonzero, rest, taken, _⟩ := allocate_eq_done allocated
  obtain ⟨before, run, behind, listed, rfl, short, cut⟩ := takeFirstFit_eq_ok taken
  have positive := Nat.pos_of_ne_zero nonzero
  constructor
  · exact wellFormed.window_of_run spaced positive (by simp [listed]) (by omega)
  · intro other window
    obtain ⟨_, holder, member, starts, ends⟩ := (wellFormed.window_iff spaced positive).mp window
    rw [listed] at member spaced
    -- A run before the first that fits holds no window, and one behind it begins later.
    rcases List.mem_append.mp member with early | late
    · have small := short holder early
      simp only [Run.stop, Run.size, pageSize_eq] at ends
      omega
    · rcases List.mem_cons.mp late with rfl | later
      · exact starts
      · have apart := (spaced_cons.mp (spaced_append.mp spaced).2.1).2.1 holder later
        have rise := run.address_le_stop
        omega

/-- How a request for frames ends: there is a window for them or not. -/
theorem ending_allocate (bounded : extent.stop ≤ wordLimit) (positive : 0 < pages) :
    (FramePool.allocate pages pool).ending =
      demand (∃ address, pool.Window pages address) (.refused .outOfMemory) := by
  have windows := wellFormed.exists_window_iff spaced positive
  cases ended : FramePool.allocate pages pool with
  | done address after =>
      have least := wellFormed.isLeast_of_allocate spaced ended
      rw [demand_of_true ⟨address, least.1⟩]
      rfl
  | refused cause after =>
      obtain rfl := allocate_eq_refused ended
      rw [FramePool.allocate, if_neg positive.ne'] at ended
      split at ended <;> cases ended
      rw [demand_of_false]
      · rfl
      · rw [windows]
        rintro ⟨run, member, enough⟩
        exact absurd (takeFirstFit_eq_none.mp ‹_› run member) (Nat.not_lt.mpr enough)
  | fault fault =>
      have safe : (FramePool.allocate pages).Safe (fun _ => False) pool :=
        wellFormed.safe_allocate (.inr bounded)
      exact (safe fault ended).elim

theorem referenceCount_of_allocate (bounded : extent.stop ≤ wordLimit)
    (allocated : FramePool.allocate pages pool = .done address after) (other : Nat) :
    after.referenceCount other =
      if address ≤ other ∧ other < address + pages * pageSize then 1
      else pool.referenceCount other := by
  obtain ⟨_, further⟩ := (wellFormed.represents spaced).allocate bounded allocated
  obtain ⟨aligned, _⟩ := wellFormed.of_allocate allocated
  rw [further.referenceCount_eq]
  refine if_congr ?_ rfl rfl
  rw [Run.mem_frames]
  simp only [pageOf, pageSize_eq] at *
  omega

end WellFormed

variable {base total : Nat} {reached : FramePool} {answers : List Answer}

/-- Whatever has been asked of a new pool, a request for frames is turned down, and the pool left as
it is, exactly if no frames are asked for or there is no window for them. Otherwise the lowest
window is handed out: its frames have one reference from then on, and all others as many as
before. -/
theorem allocates_first_fit (requests : List Request) (created : create base total = .ok pool)
    (bounded : base + total * pageSize ≤ wordLimit)
    (ran : requests.mapM Request.serve pool = .done answers reached) (pages : Nat) :
    ((∃ cause, FramePool.allocate pages reached = .refused cause reached ∧
        cause.error = .outOfMemory) ↔
      pages = 0 ∨ ¬ ∃ address, reached.Window pages address) ∧
    (pages ≠ 0 → (∃ address, reached.Window pages address) → ∃ address after,
      FramePool.allocate pages reached = .done address after ∧
      IsLeast {address | reached.Window pages address} address ∧
      ∀ other, after.referenceCount other =
        if address ≤ other ∧ other < address + pages * pageSize then 1
        else reached.referenceCount other) := by
  obtain ⟨counts, _, represents⟩ := (Represents.of_create created).run bounded ran
  have wellFormed := represents.wellFormed
  have spaced := represents.spaced
  constructor
  · rw [allocate_refused_iff]
    refine or_congr_right' fun nonzero => ?_
    rw [wellFormed.exists_window_iff spaced (Nat.pos_of_ne_zero nonzero)]
    simp
  · intro nonzero windows
    obtain ⟨run, member, enough⟩ :=
      (wellFormed.exists_window_iff spaced (Nat.pos_of_ne_zero nonzero)).mp windows
    have room (run : GuestMemory.Run) (member : run ∈ reached.free) : run.stop ≤ wordLimit :=
      Nat.le_trans (wellFormed.stop_le member (spaced.nonempty run member)) bounded
    obtain ⟨address, rest, taken⟩ := takeFirstFit_exists room member enough
    obtain ⟨after, allocated⟩ :
        ∃ after, FramePool.allocate pages reached = .done address after := by
      simp [FramePool.allocate, nonzero, taken]
    obtain ⟨_, further⟩ := represents.allocate bounded allocated
    obtain ⟨aligned, _⟩ := wellFormed.of_allocate allocated
    refine ⟨address, after, allocated, wellFormed.isLeast_of_allocate spaced allocated,
      fun other => ?_⟩
    rw [further.referenceCount_eq, represents.referenceCount_eq]
    refine if_congr ?_ rfl rfl
    rw [Run.mem_frames]
    simp only [pageOf, pageSize_eq] at *
    omega

/-- Of three frames that are handed out one by one, the first and the last are given back. -/
def gapRequests : List Request := [
  .allocate 1, .allocate 1, .allocate 1, .release ⟨0x80000000, 1⟩, .release ⟨0x80002000, 1⟩]

/-- The free frame in front is too short for two, so that those behind the next one are handed
out. -/
theorem allocates_first_fit_behind_gap : ∃ pool answers reached after,
    create 0x80000000 6 = .ok pool ∧ gapRequests.mapM Request.serve pool = .done answers reached ∧
    FramePool.allocate 2 reached = .done 0x80002000 after ∧
    IsLeast {address | reached.Window 2 address} 0x80002000 ∧
    after.referenceCount 0x80003000 = 1 ∧
    after.referenceCount 0x80001000 = reached.referenceCount 0x80001000 := by
  have created : create 0x80000000 6 = .ok ⟨0x80000000, 6, [⟨0x80000000, 6⟩], ∅⟩ := rfl
  have answered : ((gapRequests.mapM Request.serve >>= fun _ => FramePool.allocate 2)
      ⟨0x80000000, 6, [⟨0x80000000, 6⟩], ∅⟩).verdict = .ok 0x80002000 := by
    decide +kernel
  obtain ⟨after, ran⟩ := Outcome.verdict_eq_ok.mp answered
  obtain ⟨answers, reached, served, allocated⟩ := bind_eq_done.mp ran
  obtain ⟨turnedDown, handedOut⟩ :=
    allocates_first_fit gapRequests created (by decide) served 2
  have windows : ∃ address, reached.Window 2 address := by
    by_contra none
    obtain ⟨cause, refused, _⟩ := turnedDown.mpr (.inr none)
    cases allocated.symm.trans refused
  obtain ⟨address, _, again, least, counts⟩ := handedOut (by decide) windows
  cases allocated.symm.trans again
  exact ⟨_, answers, reached, after, created, served, allocated, least, counts 0x80003000,
    counts 0x80001000⟩

end FramePool

end GuestMemory
