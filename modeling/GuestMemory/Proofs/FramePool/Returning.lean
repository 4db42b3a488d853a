import GuestMemory.Proofs.FramePool.Requests
import GuestMemory.Proofs.Resources.Safety

/-!
Returning frames: every reference that a pool holds can be dropped, as long as its frames all lie
before the last address. What is held determines the pool, so dropping what was added leads back.
-/

namespace GuestMemory.FramePool

open Checked Run

variable {pool other after : FramePool} {extent run : GuestMemory.Run} {frames more : List Nat}
variable {free following runs : List GuestMemory.Run} {frame first count limit : Nat}

/-- Each frame has as many references as it is listed, or more. -/
def Holds (pool : FramePool) (frames : List Nat) : Prop :=
  ∀ frame, frames.count frame ≤ pool.held frame

theorem lies_of_joinNext {joined : GuestMemory.Run} (lies : run.Lies limit)
    (freeLie : ∀ next ∈ following, next.Lies limit)
    (joining : joinNext run following = .ok (joined, runs)) : joined.Lies limit := by
  cases following with
  | nil =>
      cases joining
      exact lies
  | cons next rest =>
      rcases joinNext_cases joining with ⟨joins, rfl, rfl⟩ | ⟨_, rfl, rfl⟩
      · exact lies.extend joins (freeLie next List.mem_cons_self)
      · exact lies

theorem joinNext_exists (fits : limit < wordLimit) (lies : run.Lies limit)
    (freeLie : ∀ next ∈ following, next.Lies limit) :
    ∃ answer, joinNext run following = .ok answer := by
  cases following with
  | nil => exact ⟨_, rfl⟩
  | cons next rest =>
      have bounded := Nat.lt_of_le_of_lt lies.bounded fits
      refine Safe.exists_of_none (.bind (safe_isFollowedBy (.inr bounded)) fun follows followed =>
        .ite (fun joined => ?_) fun _ => .ok _)
      obtain ⟨_, rfl⟩ := isFollowedBy_eq_ok followed
      have longer := lies.extend (of_decide_eq_true joined) (freeLie next List.mem_cons_self)
      exact .bind (safe_extend (.inr (longer.pages_lt fits))) fun _ _ => .ok _

/-- A run can join free runs that all end at an address, as it does itself. -/
theorem giveBack_exists (fits : limit < wordLimit) (lies : run.Lies limit)
    (freeLie : ∀ next ∈ free, next.Lies limit) : ∃ result, giveBack run free = .ok result := by
  have later (next : GuestMemory.Run) (member : next ∈ free.dropWhile (·.address < run.address)) :
      next.Lies limit :=
    freeLie next ((List.dropWhile_sublist _).subset member)
  have earlier (next : GuestMemory.Run)
      (member : next ∈ (free.takeWhile (·.address < run.address)).reverse) : next.Lies limit :=
    freeLie next ((List.takeWhile_sublist _).subset (List.mem_reverse.mp member))
  obtain ⟨⟨joined, rest⟩, joining⟩ := joinNext_exists fits lies later
  obtain ⟨upTo, stacked⟩ := (safe_stack
    (.inr ⟨fits, lies_of_joinNext lies later joining, earlier⟩)).exists_of_none
  refine ⟨upTo.reverse ++ rest, ?_⟩
  simp only [giveBack, joining, ok_bind, stacked, pure_eq]

namespace WellFormed

theorem free_lies (wellFormed : pool.WellFormed extent) (spaced : Spaced pool.free)
    (member : run ∈ pool.free) : run.Lies extent.stop :=
  ⟨wellFormed.runs_aligned run member, wellFormed.stop_le member (spaced.nonempty run member)⟩

theorem frame_lies (wellFormed : pool.WellFormed extent) (held : pool.references[frame]? ≠ none) :
    (⟨pageStart frame, 1⟩ : GuestMemory.Run).Lies extent.stop := by
  obtain ⟨start, aligned⟩ := wellFormed.pageOf_pageStart held
  have owned := wellFormed.owned frame held
  have base := wellFormed.aligned
  refine ⟨aligned, ?_⟩
  rw [Run.mem_frames] at owned
  simp only [Run.stop, Run.size, pageOf, pageSize_eq] at *
  omega

theorem releaseFrame_exists (wellFormed : pool.WellFormed extent) (spaced : Spaced pool.free)
    (fits : extent.stop < wordLimit) (held : pool.held frame ≠ 0) :
    ∃ after, pool.releaseFrame frame = .ok after := by
  rw [Ne, wellFormed.positive.held_eq_zero_iff] at held
  obtain ⟨free, given⟩ := giveBack_exists fits (wellFormed.frame_lies held) fun _ member =>
    wellFormed.free_lies spaced member
  obtain ⟨count, found⟩ := Option.ne_none_iff_exists'.mp held
  have enough : 1 ≤ count := Nat.one_le_iff_ne_zero.mpr fun none =>
    wellFormed.positive frame (none ▸ found)
  simp only [FramePool.releaseFrame, found, difference, if_pos enough, ok_bind, given]
  split <;> exact ⟨_, rfl⟩

theorem releaseFrames_exists (wellFormed : pool.WellFormed extent) (spaced : Spaced pool.free)
    (fits : extent.stop < wordLimit) (holds : pool.Holds (List.range' first count)) :
    ∃ after, pool.releaseFrames count first = .ok after := by
  induction count generalizing first pool with
  | zero => exact ⟨pool, rfl⟩
  | succ count ih =>
      rw [List.range'_succ] at holds
      have here : pool.held first ≠ 0 := by
        have listed := holds first
        rw [List.count_cons_self] at listed
        omega
      obtain ⟨middle, one⟩ := wellFormed.releaseFrame_exists spaced fits here
      have rest : middle.Holds (List.range' (first + 1) count) := by
        intro frame
        have listed := holds frame
        have dropped := held_of_releaseFrame one frame
        rw [List.count_cons] at listed
        rw [List.count_singleton] at dropped
        omega
      obtain ⟨after, others⟩ :=
        ih (wellFormed.releaseFrame one) (wellFormed.spaced_releaseFrame spaced one) rest
      exact ⟨after, by rw [FramePool.releaseFrames, one]; exact others⟩

theorem spaced_releaseAll (wellFormed : pool.WellFormed extent) (spaced : Spaced pool.free)
    (released : pool.releaseAll runs = .ok after) : Spaced after.free := by
  induction runs generalizing pool with
  | nil =>
      cases released
      exact spaced
  | cons run rest ih =>
      rw [FramePool.releaseAll, List.foldlM_cons, bind_eq_ok] at released
      obtain ⟨middle, one, remaining⟩ := released
      exact ih (wellFormed.releaseFrames one).1 (wellFormed.spaced_releaseFrames spaced one)
        remaining

/-- Even the last references to frames can be dropped, which join the free runs. -/
theorem releaseAll_exists (wellFormed : pool.WellFormed extent) (spaced : Spaced pool.free)
    (fits : extent.stop < wordLimit) (holds : pool.Holds (framesOf runs)) :
    ∃ after, pool.releaseAll runs = .ok after := by
  induction runs generalizing pool with
  | nil => exact ⟨pool, rfl⟩
  | cons run rest ih =>
      rw [framesOf_cons] at holds
      have first : pool.Holds run.frames := by
        intro frame
        have listed := holds frame
        rw [List.count_append] at listed
        omega
      obtain ⟨middle, one⟩ := wellFormed.releaseFrames_exists spaced fits first
      obtain ⟨kept, dropped⟩ := wellFormed.releaseFrames one
      have others : middle.Holds (framesOf rest) := by
        intro frame
        have listed := holds frame
        have left := dropped frame
        rw [List.count_append, Run.frames] at listed
        omega
      obtain ⟨after, remaining⟩ := ih kept (wellFormed.spaced_releaseFrames spaced one) others
      exact ⟨after, by rw [FramePool.releaseAll, List.foldlM_cons, release, one]; exact remaining⟩

theorem represents (wellFormed : pool.WellFormed extent) (spaced : Spaced pool.free) :
    pool.Represents extent pool.held :=
  ⟨wellFormed, spaced, fun _ => rfl⟩

/-- Pools of the same frames with as many references to each are the same, down to their free runs,
as long as these are as long as they can be. -/
theorem eq_of_held (wellFormed : pool.WellFormed extent) (otherWellFormed : other.WellFormed extent)
    (spaced : Spaced pool.free) (otherSpaced : Spaced other.free)
    (same : ∀ frame, other.held frame = pool.held frame) : other = pool := by
  have free : other.free = pool.free := by
    rw [(wellFormed.represents spaced).free_eq_maximalRuns,
      (otherWellFormed.represents otherSpaced).free_eq_maximalRuns, funext same]
  have references : other.references = pool.references :=
    references_eq_of_held wellFormed.positive otherWellFormed.positive same
  have extents := otherWellFormed.extent_eq.trans wellFormed.extent_eq.symm
  cases pool
  cases other
  cases extents
  cases free
  cases references
  rfl

end WellFormed

end GuestMemory.FramePool
