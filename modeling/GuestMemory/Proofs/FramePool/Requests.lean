import GuestMemory.Proofs.Action.Verdicts
import GuestMemory.Proofs.FramePool.Merging
import Mathlib.Data.Set.Card

/-!
Requests to a pool of frames. Whatever is asked of a pool in whatever order, its references are
those of a plain map of counts, and its free runs are the maximal runs of the frames that nothing
refers to.
-/

namespace GuestMemory.FramePool

open GuestMemory.Action Run

/-- What can be asked of a pool. -/
inductive Request where
  | allocate (pages : Nat)
  | retain (run : Run)
  | release (run : Run)
  deriving DecidableEq

inductive Answer where
  | allocated (address : Nat)
  | refused (error : Error)
  | done
  deriving DecidableEq

/-- Serves a request. To be refused is an answer like any other, after which the pool goes on. -/
def Request.serve : Request → Action FramePool Answer
  | allocate pages =>
    .settle .allocated (fun cause => .refused cause.error) (FramePool.allocate pages)
  | retain run => do
    .update (FramePool.retain · run)
    return .done
  | release run => do
    .update (FramePool.release · run)
    return .done

/-- How often each frame is referred to. -/
abbrev Counts := Nat → Nat

namespace Counts

/-- What a request and its answer do to the counts. Where the frames are that are allocated is left
open. -/
inductive Step (counts : Counts) : Request → Answer → Counts → Prop
  | allocated {pages address : Nat} (vacant : ∀ frame ∈ frames ⟨address, pages⟩, counts frame = 0) :
      Step counts (.allocate pages) (.allocated address) fun frame =>
        if frame ∈ frames ⟨address, pages⟩ then 1 else counts frame
  | refused (pages : Nat) (error : Error) : Step counts (.allocate pages) (.refused error) counts
  | retained {run : Run} (held : ∀ frame ∈ run.frames, counts frame ≠ 0) :
      Step counts (.retain run) .done fun frame =>
        if frame ∈ run.frames then counts frame + 1 else counts frame
  | released {run : Run} (held : ∀ frame ∈ run.frames, counts frame ≠ 0) :
      Step counts (.release run) .done fun frame =>
        if frame ∈ run.frames then counts frame - 1 else counts frame

/-- Requests and their answers one after the other, from one map of counts to another. -/
inductive Run : Counts → List Request → List Answer → Counts → Prop
  | nil (counts : Counts) : Run counts [] [] counts
  | cons {counts middle final : Counts} {request : Request} {answer : Answer}
      {requests : List Request} {answers : List Answer}
      (step : Step counts request answer middle) (rest : Run middle requests answers final) :
      Run counts (request :: requests) (answer :: answers) final

end Counts

variable {pool after : FramePool} {extent range : GuestMemory.Run} {counts : Counts}
variable {request : Request} {requests : List Request} {answer : Answer} {answers : List Answer}
variable {base total frame first count pages address : Nat}

theorem spaced_create (created : create base total = .ok pool) : Spaced pool.free := by
  rw [create] at created
  split at created <;> cases created
  split
  · exact spaced_nil
  · exact spaced_cons.mpr ⟨Nat.pos_of_ne_zero ‹_›, by simp, spaced_nil⟩

namespace WellFormed

theorem spaced_releaseFrame (wellFormed : pool.WellFormed extent) (spaced : Spaced pool.free)
    (released : pool.releaseFrame frame = .ok after) : Spaced after.free := by
  rcases releaseFrame_eq_ok released with ⟨found, free, given, rfl⟩ | ⟨left, _, _, rfl⟩
  · have allocated : pool.references[frame]? ≠ none := by simp [found]
    obtain ⟨start, aligned⟩ := wellFormed.pageOf_pageStart allocated
    refine spaced_giveBack spaced wellFormed.runs_aligned aligned Nat.one_pos
      (fun other member free => ?_) given
    rw [Run.frames, start] at member
    obtain rfl := List.mem_singleton.mp member
    rw [wellFormed.free_iff, found] at free
    cases free.2
  · exact spaced

theorem spaced_releaseFrames (wellFormed : pool.WellFormed extent) (spaced : Spaced pool.free)
    (released : pool.releaseFrames count first = .ok after) : Spaced after.free := by
  induction count generalizing first pool with
  | zero =>
      cases released
      exact spaced
  | succ count ih =>
      obtain ⟨middle, one, remaining⟩ := Checked.bind_eq_ok.mp released
      exact ih (wellFormed.releaseFrame one) (wellFormed.spaced_releaseFrame spaced one) remaining

end WellFormed

theorem count_frames (range : GuestMemory.Run) (frame : Nat) :
    range.frames.count frame = if frame ∈ range.frames then 1 else 0 := by
  split
  · exact List.count_eq_one_of_mem List.nodup_range' ‹_›
  · exact List.count_eq_zero_of_not_mem ‹_›

/-- The references of the pool are the given counts, and its free runs are as long as they can
be. -/
structure Represents (extent : GuestMemory.Run) (pool : FramePool) (counts : Counts) : Prop where
  wellFormed : pool.WellFormed extent
  spaced : Spaced pool.free
  held_eq : ∀ frame, pool.held frame = counts frame

namespace Represents

theorem of_create (created : create base total = .ok pool) :
    pool.Represents ⟨base, total⟩ fun _ => 0 where
  wellFormed := wellFormed_create created
  spaced := spaced_create created
  held_eq := fun frame => by
    rw [create] at created
    split at created <;> cases created
    rw [held, Std.ExtTreeMap.getElem?_empty]
    rfl

theorem allocate (represents : pool.Represents extent counts) (bounded : extent.stop ≤ wordLimit)
    (allocated : FramePool.allocate pages pool = .done address after) :
    (∀ frame ∈ frames ⟨address, pages⟩, counts frame = 0) ∧
      after.Represents extent fun frame =>
        if frame ∈ frames ⟨address, pages⟩ then 1 else counts frame := by
  have wellFormed := represents.wellFormed
  obtain ⟨_, free, taken, rfl⟩ := allocate_eq_done allocated
  have vacant (frame : Nat) (member : frame ∈ frames ⟨address, pages⟩) : counts frame = 0 := by
    rw [← represents.held_eq]
    exact wellFormed.held_of_allocate allocated member
  obtain ⟨kept, gained⟩ :=
    wellFormed.allocate allocated ((wellFormed.of_allocate allocated).2 bounded)
  refine ⟨vacant, kept, spaced_takeFirstFit represents.spaced taken, fun frame => ?_⟩
  have counted := count_frames ⟨address, pages⟩ frame
  rw [Run.frames] at counted
  rw [gained, represents.held_eq, counted, ← Run.frames]
  split
  · rw [vacant frame ‹_›]
  · rfl

theorem retain (represents : pool.Represents extent counts)
    (retained : pool.retain range = .ok after) :
    (∀ frame ∈ range.frames, counts frame ≠ 0) ∧
      after.Represents extent fun frame =>
        if frame ∈ range.frames then counts frame + 1 else counts frame := by
  have retains := retains_of_retain retained
  obtain ⟨kept, gained⟩ := represents.wellFormed.retains retains
  refine ⟨fun frame member => ?_, kept, ?_, fun frame => ?_⟩
  · rw [← represents.held_eq]
    exact fun zero => retains.gains.allocated frame member
      (represents.wellFormed.positive.held_eq_zero_iff.mp zero)
  · rw [retains.free_eq]
    exact represents.spaced
  · rw [gained, represents.held_eq, count_frames]
    split <;> rfl

theorem release (represents : pool.Represents extent counts)
    (released : pool.release range = .ok after) :
    (∀ frame ∈ range.frames, counts frame ≠ 0) ∧
      after.Represents extent fun frame =>
        if frame ∈ range.frames then counts frame - 1 else counts frame := by
  obtain ⟨kept, dropped⟩ := represents.wellFormed.releaseFrames released
  have balance (frame : Nat) :
      after.held frame + (if frame ∈ range.frames then 1 else 0) = counts frame := by
    rw [← count_frames, Run.frames, dropped, represents.held_eq]
  refine ⟨fun frame member => ?_, kept,
    represents.wellFormed.spaced_releaseFrames represents.spaced released, fun frame => ?_⟩
  · have sum := balance frame
    rw [if_pos member] at sum
    omega
  · have sum := balance frame
    by_cases member : frame ∈ range.frames
    · rw [if_pos member] at sum ⊢
      omega
    · rwa [if_neg member] at sum ⊢

theorem step (represents : pool.Represents extent counts) (bounded : extent.stop ≤ wordLimit)
    (served : request.serve pool = .done answer after) :
    ∃ further, Counts.Step counts request answer further ∧ after.Represents extent further := by
  cases request with
  | allocate pages =>
      rcases settle_eq_done.mp served with ⟨address, done, rfl⟩ | ⟨cause, refused, rfl⟩
      · obtain ⟨vacant, reached⟩ := represents.allocate bounded done
        exact ⟨_, .allocated vacant, reached⟩
      · rw [allocate_eq_refused refused]
        exact ⟨counts, .refused pages _, represents⟩
  | retain run =>
      obtain ⟨_, middle, updated, ended⟩ := bind_eq_done.mp served
      obtain ⟨rfl, rfl⟩ := pure_eq_done.mp ended
      obtain ⟨held, reached⟩ := represents.retain (update_eq_done.mp updated)
      exact ⟨_, .retained held, reached⟩
  | release run =>
      obtain ⟨_, middle, updated, ended⟩ := bind_eq_done.mp served
      obtain ⟨rfl, rfl⟩ := pure_eq_done.mp ended
      obtain ⟨held, reached⟩ := represents.release (update_eq_done.mp updated)
      exact ⟨_, .released held, reached⟩

theorem run (represents : pool.Represents extent counts) (bounded : extent.stop ≤ wordLimit)
    (ran : requests.mapM Request.serve pool = .done answers after) :
    ∃ further, Counts.Run counts requests answers further ∧ after.Represents extent further :=
  mapM_simulates .nil .cons (fun represents => represents.step bounded) represents ran

/-- The frames of the free runs are those of the pool that nothing refers to, in rising order. -/
theorem framesOf_eq (represents : pool.Represents extent counts) :
    framesOf pool.free = extent.frames.filter (counts · = 0) := by
  have wellFormed := represents.wellFormed
  have member (frame : Nat) :
      frame ∈ framesOf pool.free ↔ frame ∈ extent.frames.filter (counts · = 0) := by
    rw [wellFormed.free_iff_held, represents.held_eq, List.mem_filter, decide_eq_true_iff]
  exact List.Subset.antisymm_of_pairwise (represents.spaced.frames_rise wellFormed.runs_aligned)
    (List.Pairwise.filter _ List.pairwise_lt_range') (fun frame => (member frame).mp)
    (fun frame => (member frame).mpr)

theorem free_eq_maximalRuns (represents : pool.Represents extent counts) :
    pool.free = maximalRuns (extent.frames.filter (counts · = 0)) := by
  rw [← represents.framesOf_eq]
  exact represents.spaced.eq_maximalRuns represents.wellFormed.runs_aligned

theorem referenceCount_eq (represents : pool.Represents extent counts) (address : Nat) :
    pool.referenceCount address = counts (pageOf address) :=
  represents.held_eq (pageOf address)

/-- The frames referred to are frames of the pool. -/
theorem referred_eq (represents : pool.Represents extent counts) :
    {frame | counts frame ≠ 0} = (extent.frames.filter (counts · ≠ 0)).toFinset := by
  ext frame
  rw [Set.mem_ofPred_eq, List.coe_toFinset, Set.mem_ofPred_eq, List.mem_filter, decide_eq_true_iff,
    and_iff_right_of_imp]
  intro referred
  rw [← represents.held_eq] at referred
  exact represents.wellFormed.owned frame fun none =>
    referred (represents.wellFormed.positive.held_eq_zero_iff.mpr none)

theorem freePages_add (represents : pool.Represents extent counts) :
    pool.freePages + {frame | counts frame ≠ 0}.ncard = pool.total := by
  have total : pool.total = extent.pages := congrArg Run.pages represents.wellFormed.extent_eq
  have distinct : extent.frames.Nodup := List.nodup_range'
  have apart := extent.frames.length_eq_length_filter_add (counts · = 0)
  rw [length_frames, ← represents.framesOf_eq, length_framesOf] at apart
  rw [represents.referred_eq, Set.ncard_coe_finset,
    List.toFinset_card_of_nodup (distinct.filter _), total, freePages, apart]
  simp only [decide_not]

end Represents

/-- Whatever has been asked of a new pool, its references are counted like in a plain map, its free
runs are the maximal runs of the frames with count zero, and no frame is lost. -/
theorem serves_as_counts {pool : FramePool} (requests : List Request)
    (created : create base total = .ok pool) (bounded : base + total * pageSize < wordLimit)
    (ran : requests.mapM Request.serve pool = .done answers after) :
    ∃ counts, Counts.Run (fun _ => 0) requests answers counts ∧
      (∀ address, after.referenceCount address = counts (pageOf address)) ∧
      after.free = maximalRuns ((List.range' (pageOf base) total).filter (counts · = 0)) ∧
      Spaced after.free ∧
      after.freePages + {frame | counts frame ≠ 0}.ncard = total := by
  obtain ⟨counts, run, represents⟩ :=
    (Represents.of_create created).run (Nat.le_of_lt bounded) ran
  have total : after.total = total := congrArg Run.pages represents.wellFormed.extent_eq
  exact ⟨counts, run, represents.referenceCount_eq, represents.free_eq_maximalRuns,
    represents.spaced, represents.freePages_add.trans total⟩

/-- A frame between two free runs is held twice and joins them when it has been released twice. -/
def sampleRequests : List Request := [
  .allocate 2, .allocate 1, .retain ⟨0x80001000, 1⟩, .release ⟨0x80000000, 3⟩,
  .allocate 9, .release ⟨0x80001000, 1⟩]

theorem serves_as_counts_sample : ∃ pool answers after counts, create 0x80000000 6 = .ok pool ∧
    sampleRequests.mapM Request.serve pool = .done answers after ∧
    Counts.Run (fun _ => 0) sampleRequests answers counts ∧
    after.free = maximalRuns ((List.range' (pageOf 0x80000000) 6).filter (counts · = 0)) ∧
    after.freePages + {frame | counts frame ≠ 0}.ncard = 6 := by
  have created : create 0x80000000 6 = .ok ⟨0x80000000, 6, [⟨0x80000000, 6⟩], ∅⟩ := rfl
  have answered : (sampleRequests.mapM Request.serve
      ⟨0x80000000, 6, [⟨0x80000000, 6⟩], ∅⟩).verdict =
        .ok [.allocated 0x80000000, .allocated 0x80002000, .done, .done, .refused .outOfMemory,
          .done] := by
    decide +kernel
  obtain ⟨after, ran⟩ := Outcome.verdict_eq_ok.mp answered
  obtain ⟨counts, run, _, free, _, whole⟩ :=
    serves_as_counts sampleRequests created (by decide) ran
  exact ⟨_, _, after, counts, created, ran, run, free, whole⟩

end GuestMemory.FramePool
