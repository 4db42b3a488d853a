import GuestMemory.Proofs.FramePool.FreeRuns

/-!
Allocated frames: a frame of the pool is in a free run or has references, never both. Each operation
changes the references of the frames that it names by one for each time that it names them.
-/

namespace GuestMemory.FramePool

variable {pool after : FramePool} {runs : List Run} {frames : List Nat}
variable {base total pages address frame count first : Nat} {extent : Run}

/-- The pool has the frames of `extent`, and those of them without references are the ones in its
free runs. Frames past the last address have none: nothing can be mapped to them. -/
structure WellFormed (pool : FramePool) (extent : Run) : Prop where
  extent_eq : (⟨pool.base, pool.total⟩ : Run) = extent
  aligned : extent.address % pageSize = 0
  addressable : ∀ frame : Nat, pool.references[frame]? ≠ none → frame * pageSize < wordLimit
  positive : pool.Positive
  owned : ∀ frame : Nat, pool.references[frame]? ≠ none → frame ∈ extent.frames
  runs_aligned : Aligned pool.free
  distinct : (Run.framesOf pool.free).Nodup
  free_iff : ∀ frame : Nat, frame ∈ Run.framesOf pool.free ↔
    frame ∈ extent.frames ∧ pool.references[frame]? = none

theorem wellFormed_create (created : create base total = .ok pool) :
    pool.WellFormed ⟨base, total⟩ := by
  have positive := Positive.of_create created
  rw [create] at created
  split at created
  · rename_i aligned
    cases created
    have frames : Run.framesOf (if total = 0 then [] else [⟨base, total⟩]) =
        (⟨base, total⟩ : Run).frames := by
      split
      · rename_i none
        rw [none]
        rfl
      · simp
    refine ⟨rfl, isPageAligned_iff.mp aligned, fun frame held => ?_, positive, fun frame held => ?_,
      ?_, ?_, fun frame => ?_⟩
    · exact absurd Std.ExtTreeMap.getElem?_empty held
    · exact absurd Std.ExtTreeMap.getElem?_empty held
    · intro run member
      split at member
      · cases member
      · obtain rfl := List.mem_singleton.mp member
        exact isPageAligned_iff.mp aligned
    · rw [frames]
      exact List.nodup_range'
    · simp only [frames, Std.ExtTreeMap.getElem?_empty, and_true]
  · cases created

theorem Positive.held_eq_zero_iff (positive : pool.Positive) :
    pool.held frame = 0 ↔ pool.references[frame]? = none := by
  have some := positive frame
  rw [held]
  cases found : pool.references[frame]? with
  | none => simp
  | some count =>
      rw [found] at some
      have positiveCount : count ≠ 0 := fun zero => some (congrArg Option.some zero)
      simp [positiveCount]

namespace WellFormed

theorem pageOf_pageStart (wellFormed : pool.WellFormed extent)
    (held : pool.references[frame]? ≠ none) :
    pageOf (pageStart frame) = frame ∧ pageStart frame % pageSize = 0 := by
  rw [pageStart, Nat.mod_eq_of_lt (wellFormed.addressable frame held)]
  exact ⟨pageOf_mul_pageSize frame, Nat.mul_mod_left _ _⟩

theorem free_iff_held (wellFormed : pool.WellFormed extent) :
    frame ∈ Run.framesOf pool.free ↔ frame ∈ extent.frames ∧ pool.held frame = 0 := by
  rw [wellFormed.free_iff, wellFormed.positive.held_eq_zero_iff]

theorem allocate (wellFormed : pool.WellFormed extent)
    (allocated : FramePool.allocate pages pool = .done address after)
    (addressable : ∀ frame ∈ List.range' (pageOf address) pages, frame * pageSize < wordLimit) :
    after.WellFormed extent ∧ ∀ frame,
      after.held frame = pool.held frame + (List.range' (pageOf address) pages).count frame := by
  have positive := wellFormed.positive.allocate allocated
  obtain ⟨_, free, taken, rfl⟩ := allocate_eq_done allocated
  have moved := framesOf_takeFirstFit taken
  have distinct := moved.nodup wellFormed.distinct
  obtain ⟨_, others, apart⟩ := List.nodup_append'.mp distinct
  have started (frame : Nat) : (pool.references.start pages (pageOf address))[frame]? =
      if frame ∈ List.range' (pageOf address) pages then some 1 else pool.references[frame]? := by
    simp only [References.getElem?_start, List.mem_range'_1]
  have wasFree (frame : Nat) (member : frame ∈ List.range' (pageOf address) pages) :
      frame ∈ extent.frames ∧ pool.references[frame]? = none :=
    (wellFormed.free_iff frame).mp (moved.mem_iff.mpr (List.mem_append_left _ member))
  refine ⟨⟨wellFormed.extent_eq, wellFormed.aligned, fun frame held => ?_, positive,
    fun frame held => ?_, aligned_takeFirstFit wellFormed.runs_aligned taken, others,
    fun frame => ?_⟩, fun frame => ?_⟩
  · rw [started] at held
    split at held
    · exact addressable frame ‹_›
    · exact wellFormed.addressable frame held
  · rw [started] at held
    split at held
    · rename_i member
      exact (wasFree frame member).1
    · exact wellFormed.owned frame held
  · have before := wellFormed.free_iff frame
    rw [moved.mem_iff, List.mem_append] at before
    rw [started]
    by_cases member : frame ∈ List.range' (pageOf address) pages
    · simp only [member, ↓reduceIte, reduceCtorEq, and_false, iff_false]
      exact apart member
    · simpa only [member, ↓reduceIte, false_or] using before
  · rw [held, held, started]
    by_cases member : frame ∈ List.range' (pageOf address) pages
    · rw [if_pos member, (wasFree frame member).2,
        List.count_eq_one_of_mem List.nodup_range' member]
      rfl
    · rw [if_neg member, List.count_eq_zero_of_not_mem member]
      rfl

theorem held_of_allocate (wellFormed : pool.WellFormed extent)
    (allocated : FramePool.allocate pages pool = .done address after)
    (member : frame ∈ List.range' (pageOf address) pages) : pool.held frame = 0 := by
  obtain ⟨_, free, taken, _⟩ := allocate_eq_done allocated
  have moved := framesOf_takeFirstFit taken
  exact (wellFormed.free_iff_held.mp (moved.mem_iff.mpr (List.mem_append_left _ member))).2

/-- The frames that are handed out are addressable when those of the pool are. -/
theorem of_allocate (wellFormed : pool.WellFormed extent)
    (allocated : FramePool.allocate pages pool = .done address after) :
    address % pageSize = 0 ∧ (extent.stop ≤ wordLimit →
      ∀ frame ∈ (⟨address, pages⟩ : Run).frames, frame * pageSize < wordLimit) := by
  obtain ⟨_, free, taken, _⟩ := allocate_eq_done allocated
  have moved := framesOf_takeFirstFit taken
  obtain ⟨_, run, _, listed, rfl, _⟩ := takeFirstFit_eq_ok taken
  refine ⟨wellFormed.runs_aligned run (by simp [listed]), fun fits frame member => ?_⟩
  have owned := ((wellFormed.free_iff frame).mp
    (moved.mem_iff.mpr (List.mem_append_left _ member))).1
  have base := wellFormed.aligned
  rw [Run.mem_frames] at owned
  simp only [Run.stop, Run.size, pageOf, pageSize_eq] at *
  omega

theorem retains (wellFormed : pool.WellFormed extent) (retains : pool.Retains frames after) :
    after.WellFormed extent ∧ ∀ frame, after.held frame = pool.held frame + frames.count frame := by
  have positive := wellFormed.positive.of_retains retains
  have same := retains.gains.isNone_iff
  have changed := retains.free_eq
  have free : after.free = pool.free := by rw [changed]
  refine ⟨⟨by rw [changed]; exact wellFormed.extent_eq, wellFormed.aligned, fun frame held => ?_,
    positive, fun frame held => ?_, by rw [free]; exact wellFormed.runs_aligned,
    by rw [free]; exact wellFormed.distinct, fun frame => ?_⟩, retains.held_eq⟩
  · exact wellFormed.addressable frame fun none => held ((same frame).mpr none)
  · exact wellFormed.owned frame fun none => held ((same frame).mpr none)
  · rw [free, same, wellFormed.free_iff]

theorem retainAll (wellFormed : pool.WellFormed extent)
    (retained : pool.retainAll runs = .ok after) :
    after.WellFormed extent ∧ ∀ frame,
      after.held frame = pool.held frame + (Run.framesOf runs).count frame :=
  wellFormed.retains (retains_of_retainAll retained)

/-- A frame that loses its last reference is in a free run again. -/
theorem giveBack {free : List Run} (wellFormed : pool.WellFormed extent)
    (found : pool.references[frame]? = some count)
    (given : FramePool.giveBack ⟨pageStart frame, 1⟩ pool.free = .ok free)
    (positive : Positive { pool with free, references := pool.references.erase frame }) :
    WellFormed { pool with free, references := pool.references.erase frame } extent := by
  have held : pool.references[frame]? ≠ none := by simp [found]
  have owns := wellFormed.owned frame held
  obtain ⟨start, aligned⟩ := wellFormed.pageOf_pageStart held
  have moved := framesOf_giveBack given
  have single : (⟨pageStart frame, 1⟩ : Run).frames = [frame] := by
    rw [Run.frames, start]
    rfl
  rw [single] at moved
  have absent : frame ∉ Run.framesOf pool.free := fun member => by
    rw [wellFormed.free_iff, found] at member
    cases member.2
  have kept (other : Nat) (held : (pool.references.erase frame)[other]? ≠ none) :
      pool.references[other]? ≠ none := by
    rw [getElem?_erase_of_nat] at held
    split at held
    · exact absurd rfl held
    · exact held
  refine ⟨wellFormed.extent_eq, wellFormed.aligned,
    fun other held => wellFormed.addressable other (kept other held), positive,
    fun other held => wellFormed.owned other (kept other held),
    aligned_giveBack wellFormed.runs_aligned aligned given,
    moved.nodup_iff.mpr (List.nodup_cons.mpr ⟨absent, wellFormed.distinct⟩), fun other => ?_⟩
  · rw [moved.mem_iff, List.singleton_append, List.mem_cons, wellFormed.free_iff,
      getElem?_erase_of_nat]
    by_cases here : frame = other
    · subst other
      simp only [true_or, ↓reduceIte, and_true, true_iff]
      exact owns
    · simp only [here, ↓reduceIte, Ne.symm here, false_or]

/-- A frame that has been allocated stays so while its references change in number. -/
theorem recount {held : Nat} (wellFormed : pool.WellFormed extent)
    (found : pool.references[frame]? = some count)
    (positive : Positive { pool with references := pool.references.insert frame held }) :
    WellFormed { pool with references := pool.references.insert frame held } extent := by
  have kept (other : Nat) (allocated : (pool.references.insert frame held)[other]? ≠ none) :
      pool.references[other]? ≠ none := by
    rw [getElem?_insert_of_nat] at allocated
    split at allocated
    · rename_i here
      simp [← here, found]
    · exact allocated
  refine ⟨wellFormed.extent_eq, wellFormed.aligned,
    fun other allocated => wellFormed.addressable other (kept other allocated), positive,
    fun other allocated => wellFormed.owned other (kept other allocated),
    wellFormed.runs_aligned, wellFormed.distinct, fun other => ?_⟩
  · rw [wellFormed.free_iff, getElem?_insert_of_nat]
    by_cases here : frame = other
    · subst other
      simp [found]
    · rw [if_neg here]

theorem releaseFrame (wellFormed : pool.WellFormed extent)
    (released : pool.releaseFrame frame = .ok after) : after.WellFormed extent := by
  have positive := wellFormed.positive.releaseFrame released
  rcases releaseFrame_eq_ok released with ⟨found, free, given, rfl⟩ | ⟨left, found, _, rfl⟩
  · exact wellFormed.giveBack found given positive
  · exact wellFormed.recount found positive

theorem releaseFrames (wellFormed : pool.WellFormed extent)
    (released : pool.releaseFrames count first = .ok after) :
    after.WellFormed extent ∧ ∀ frame,
      after.held frame + (List.range' first count).count frame = pool.held frame := by
  induction count generalizing first pool with
  | zero =>
      cases released
      exact ⟨wellFormed, fun _ => rfl⟩
  | succ count ih =>
      obtain ⟨middle, one, remaining⟩ := Checked.bind_eq_ok.mp released
      obtain ⟨afterWellFormed, others⟩ := ih (wellFormed.releaseFrame one) remaining
      refine ⟨afterWellFormed, fun frame => ?_⟩
      rw [List.range'_succ, ← held_of_releaseFrame one, ← others, List.count_cons,
        List.count_singleton]
      omega

/-- Each frame loses a reference for each time that it is listed, which it has had. -/
theorem releaseAll (wellFormed : pool.WellFormed extent)
    (released : pool.releaseAll runs = .ok after) :
    after.WellFormed extent ∧ ∀ frame,
      after.held frame + (Run.framesOf runs).count frame = pool.held frame := by
  induction runs generalizing pool with
  | nil =>
      cases released
      exact ⟨wellFormed, fun _ => rfl⟩
  | cons run rest ih =>
      rw [FramePool.releaseAll, List.foldlM_cons, Checked.bind_eq_ok] at released
      obtain ⟨middle, one, remaining⟩ := released
      obtain ⟨middleWellFormed, dropped⟩ := wellFormed.releaseFrames one
      obtain ⟨afterWellFormed, others⟩ := ih middleWellFormed remaining
      refine ⟨afterWellFormed, fun frame => ?_⟩
      rw [← dropped, ← others, Run.framesOf_cons, List.count_append, Run.frames]
      omega

end WellFormed

end GuestMemory.FramePool
