import GuestMemory.FramePool
import GuestMemory.Proofs.Directory

/-!
Reference counts: what retaining and releasing frames make of the count of each frame. References
that are dropped after they were added leave the pool as it was.
-/

namespace GuestMemory

theorem difference_eq_ok_iff {value less result : Nat} :
    difference value less = .ok result ↔ less ≤ value ∧ value - less = result := by
  by_cases enough : less ≤ value <;> simp [difference, enough]

theorem below_eq_ok_iff {limit value result : Nat} :
    below limit value = .ok result ↔ value < limit ∧ value = result := by
  by_cases fits : value < limit <;> simp [below, fits]

variable {first count frame : Nat} {references changed : References} {runs : List Run}

namespace References

theorem getElem?_start (frame : Nat) :
    (references.start count first)[frame]? =
      if first ≤ frame ∧ frame < first + count then some 1 else references[frame]? := by
  induction count generalizing first references with
  | zero => rw [start, if_neg (by omega)]
  | succ count ih =>
      rw [start, ih, getElem?_insert_of_nat]
      by_cases here : first = frame
      · rw [if_neg (by omega), if_pos here, if_pos (by omega)]
      · by_cases inside : first ≤ frame ∧ frame < first + (count + 1)
        · rw [if_pos (by omega), if_pos inside]
        · rw [if_neg (by omega), if_neg here, if_neg inside]

/-- Each frame of the list has gained a reference for each time it is listed. -/
structure Gains (references : References) (frames : List Nat) (changed : References) : Prop where
  allocated : ∀ frame ∈ frames, references[frame]? ≠ none
  counts : ∀ frame : Nat, changed[frame]? = references[frame]?.map (· + frames.count frame)

namespace Gains

variable {frames more : List Nat} {middle : References}

theorem refl (references : References) : references.Gains [] references where
  allocated := fun _ member => by cases member
  counts := fun frame => by cases references[frame]? <;> simp

theorem isNone_iff (gains : references.Gains frames changed) (frame : Nat) :
    changed[frame]? = none ↔ references[frame]? = none := by
  rw [gains.counts, Option.map_eq_none_iff]

theorem trans (earlier : references.Gains frames middle) (later : middle.Gains more changed) :
    references.Gains (frames ++ more) changed := by
  refine ⟨fun frame member => ?_, fun frame => ?_⟩
  · rcases List.mem_append.mp member with before | after
    · exact earlier.allocated frame before
    · exact fun missing => later.allocated frame after ((earlier.isNone_iff frame).mpr missing)
  · rw [later.counts, earlier.counts, Option.map_map]
    congr 1
    funext held
    simp only [Function.comp_apply, List.count_append]
    omega

end Gains

theorem gains_of_insert {held : Nat} (found : references[first]? = some held) :
    references.Gains [first] (references.insert first (held + 1)) := by
  refine ⟨fun frame member => ?_, fun frame => ?_⟩
  · obtain rfl := List.mem_singleton.mp member
    simp [found]
  · rw [getElem?_insert_of_nat]
    by_cases here : first = frame
    · subst frame
      simp [found]
    · rw [if_neg here, List.count_singleton]
      cases references[frame]? <;> simp [here]

theorem gains_of_retain (retained : references.retain count first = .ok changed) :
    references.Gains (List.range' first count) changed := by
  induction count generalizing first references with
  | zero =>
      cases retained
      exact Gains.refl _
  | succ count ih =>
      rw [retain] at retained
      split at retained
      · cases retained
      · rename_i held found
        rw [Checked.bind_eq_ok] at retained
        obtain ⟨more, fits, retained⟩ := retained
        obtain ⟨_, rfl⟩ := below_eq_ok_iff.mp fits
        exact (gains_of_insert found).trans (ih retained)

end References

namespace FramePool

variable {pool middle after : FramePool} {run : Run} {frames more : List Nat}

def held (pool : FramePool) (frame : Nat) : Nat :=
  pool.references[frame]?.getD 0

/-- The frames of the list have gained a reference for each time they are listed. -/
structure Retains (pool : FramePool) (frames : List Nat) (after : FramePool) : Prop where
  free_eq : after = { pool with references := after.references }
  gains : pool.references.Gains frames after.references

theorem retains_of_retain (retained : pool.retain run = .ok after) :
    pool.Retains run.frames after := by
  rw [retain, Checked.bind_eq_ok] at retained
  obtain ⟨references, gained, changed⟩ := retained
  obtain rfl := Except.ok.inj changed
  exact ⟨rfl, References.gains_of_retain gained⟩

theorem retains_of_retainAll (retained : pool.retainAll runs = .ok after) :
    pool.Retains (Run.framesOf runs) after := by
  induction runs generalizing pool with
  | nil =>
      cases retained
      exact ⟨rfl, References.Gains.refl _⟩
  | cons run rest ih =>
      rw [retainAll, List.foldlM_cons, Checked.bind_eq_ok] at retained
      obtain ⟨middle, first, remaining⟩ := retained
      obtain ⟨free, gains⟩ := retains_of_retain first
      obtain ⟨others, more⟩ := ih remaining
      refine ⟨?_, gains.trans more⟩
      rw [others, free]

theorem Retains.held_eq (retains : pool.Retains frames after) (frame : Nat) :
    after.held frame = pool.held frame + frames.count frame := by
  rw [held, held, retains.gains.counts]
  cases found : pool.references[frame]? with
  | some count => rfl
  | none =>
      have absent : frame ∉ frames := fun member => retains.gains.allocated frame member found
      rw [List.count_eq_zero_of_not_mem absent]
      rfl

/-- The frames of the list have lost a reference for each time they are listed, and none its
last. -/
structure Drops (pool : FramePool) (frames : List Nat) (after : FramePool) : Prop where
  free_eq : after = { pool with references := after.references }
  counts : ∀ frame : Nat, after.references[frame]? =
    pool.references[frame]?.map (· - frames.count frame)

/-- Each frame of the list has more references than it is listed. -/
def Spares (pool : FramePool) (frames : List Nat) : Prop :=
  ∀ frame ∈ frames, frames.count frame < pool.held frame

theorem Drops.trans (earlier : pool.Drops frames middle) (later : middle.Drops more after) :
    pool.Drops (frames ++ more) after := by
  refine ⟨?_, fun frame => ?_⟩
  · rw [later.free_eq, earlier.free_eq]
  · rw [later.counts, earlier.counts, Option.map_map]
    congr 1
    funext held
    simp only [Function.comp_apply, List.count_append]
    omega

theorem Drops.held_eq (drops : pool.Drops frames after) (frame : Nat) :
    after.held frame = pool.held frame - frames.count frame := by
  rw [held, held, drops.counts]
  cases pool.references[frame]? <;> simp

/-- A frame that has been released has lost its only reference and is free, or has others left. -/
theorem releaseFrame_eq_ok (released : pool.releaseFrame frame = .ok after) :
    (pool.references[frame]? = some 1 ∧ ∃ free,
        giveBack ⟨pageStart frame, 1⟩ pool.free = .ok free ∧
        after = { pool with free, references := pool.references.erase frame }) ∨
      ∃ left, pool.references[frame]? = some (left + 1) ∧ left ≠ 0 ∧
        after = { pool with references := pool.references.insert frame left } := by
  rw [releaseFrame] at released
  split at released
  · cases released
  · rename_i held found
    rw [Checked.bind_eq_ok] at released
    obtain ⟨left, dropped, released⟩ := released
    obtain ⟨enough, rfl⟩ := difference_eq_ok_iff.mp dropped
    split at released
    · rename_i last
      obtain ⟨free, given, built⟩ := Checked.bind_eq_ok.mp released
      obtain rfl : held = 1 := by omega
      exact .inl ⟨found, free, given, (Except.ok.inj built).symm⟩
    · rename_i remains
      refine .inr ⟨held - 1, ?_, remains, (Except.ok.inj released).symm⟩
      rw [found, Nat.sub_add_cancel enough]

theorem held_of_releaseFrame (released : pool.releaseFrame frame = .ok after) (other : Nat) :
    after.held other + [frame].count other = pool.held other := by
  rw [List.count_singleton]
  rcases releaseFrame_eq_ok released with ⟨found, free, _, rfl⟩ | ⟨left, found, _, rfl⟩
  · rw [held, held, getElem?_erase_of_nat]
    by_cases here : frame = other
    · subst other
      simp [found]
    · simp [here]
  · rw [held, held, getElem?_insert_of_nat]
    by_cases here : frame = other
    · subst other
      simp [found]
    · simp [here]

theorem drops_of_releaseFrame (spares : 1 < pool.held frame)
    (released : pool.releaseFrame frame = .ok after) : pool.Drops [frame] after := by
  rcases releaseFrame_eq_ok released with ⟨found, _⟩ | ⟨left, found, _, rfl⟩
  · rw [held, found, Option.getD_some] at spares
    omega
  · refine ⟨rfl, fun other => ?_⟩
    simp only [getElem?_insert_of_nat]
    by_cases here : frame = other
    · subst other
      simp [found]
    · rw [if_neg here, List.count_singleton]
      cases pool.references[other]? <;> simp [here]

theorem Spares.left (spares : pool.Spares (frames ++ more)) : pool.Spares frames := by
  intro frame member
  have enough := spares frame (List.mem_append_left _ member)
  rw [List.count_append] at enough
  omega

theorem Spares.right (spares : pool.Spares (frames ++ more)) (drops : pool.Drops frames after) :
    after.Spares more := by
  intro frame member
  have enough := spares frame (List.mem_append_right _ member)
  rw [List.count_append] at enough
  rw [drops.held_eq]
  omega

theorem drops_nil (pool : FramePool) : pool.Drops [] pool :=
  ⟨rfl, fun frame => by cases pool.references[frame]? <;> simp⟩

theorem drops_of_releaseFrames (spares : pool.Spares (List.range' first count))
    (released : pool.releaseFrames count first = .ok after) :
    pool.Drops (List.range' first count) after := by
  induction count generalizing first pool with
  | zero =>
      cases released
      exact drops_nil _
  | succ count ih =>
      rw [releaseFrames, Checked.bind_eq_ok] at released
      obtain ⟨middle, one, released⟩ := released
      rw [List.range'_succ, ← List.singleton_append] at spares ⊢
      have shared := spares first (by simp)
      have drops := drops_of_releaseFrame (by simp at shared; omega) one
      exact drops.trans (ih (spares.right drops) released)

theorem drops_of_releaseAll (spares : pool.Spares (Run.framesOf runs))
    (released : pool.releaseAll runs = .ok after) : pool.Drops (Run.framesOf runs) after := by
  induction runs generalizing pool with
  | nil =>
      cases released
      exact drops_nil _
  | cons run rest ih =>
      rw [releaseAll, List.foldlM_cons, Checked.bind_eq_ok] at released
      obtain ⟨middle, one, released⟩ := released
      rw [Run.framesOf_cons] at spares ⊢
      have drops := drops_of_releaseFrames spares.left one
      exact drops.trans (ih (spares.right drops) released)

def Positive (pool : FramePool) : Prop :=
  ∀ frame : Nat, pool.references[frame]? ≠ some 0

/-- What is held to each frame determines the references. -/
theorem references_eq_of_held (positive : pool.Positive) (otherPositive : after.Positive)
    (same : ∀ frame, after.held frame = pool.held frame) : after.references = pool.references := by
  refine Std.ExtTreeMap.ext_getElem? fun frame => ?_
  have held := same frame
  have here := positive frame
  have there := otherPositive frame
  simp only [FramePool.held] at held
  cases first : pool.references[frame]? <;> cases second : after.references[frame]? <;> simp_all

theorem Retains.spares (retains : pool.Retains frames after) (positive : pool.Positive) :
    after.Spares frames := by
  intro frame member
  rw [held, retains.gains.counts]
  cases found : pool.references[frame]? with
  | none => exact absurd found (retains.gains.allocated frame member)
  | some count =>
      have some := positive frame
      rw [found] at some
      have referred : count ≠ 0 := fun zero => some (congrArg Option.some zero)
      simp only [Option.map_some, Option.getD_some]
      omega

theorem Retains.eq_of_drops (retains : pool.Retains frames middle)
    (drops : middle.Drops frames after) : after = pool := by
  have references : after.references = pool.references := by
    refine Std.ExtTreeMap.ext_getElem? fun frame => ?_
    rw [drops.counts, retains.gains.counts, Option.map_map]
    cases pool.references[frame]? <;> simp
  rw [drops.free_eq, retains.free_eq, references]

/-- Dropping the references that were added last leaves the pool as it was. -/
theorem releaseAll_of_retainAll (positive : pool.Positive)
    (retained : pool.retainAll runs = .ok middle) (released : middle.releaseAll runs = .ok after) :
    after = pool := by
  have retains := retains_of_retainAll retained
  exact retains.eq_of_drops (drops_of_releaseAll (retains.spares positive) released)

theorem allocate_eq_done {pages address : Nat}
    (allocated : allocate pages pool = .done address after) :
    pages ≠ 0 ∧ ∃ free, takeFirstFit pages pool.free = .ok (some (address, free)) ∧
      after = { pool with free, references := pool.references.start pages (pageOf address) } := by
  rw [allocate] at allocated
  split at allocated
  · cases allocated
  · rename_i positive
    split at allocated
    · cases allocated
    · cases allocated
    · rename_i address free taken
      cases allocated
      exact ⟨positive, free, taken, rfl⟩

theorem allocate_eq_refused {pages : Nat} {cause : Refusal}
    (refused : allocate pages pool = .refused cause after) : after = pool := by
  rw [allocate] at refused
  split at refused
  · cases refused
    rfl
  · split at refused <;> cases refused
    rfl

namespace Positive

theorem of_create {base total : Nat} (created : create base total = .ok pool) : pool.Positive := by
  rw [create] at created
  split at created
  · cases created
    intro frame
    rw [Std.ExtTreeMap.getElem?_empty]
    exact nofun
  · cases created

theorem allocate {pages address : Nat} (positive : pool.Positive)
    (allocated : FramePool.allocate pages pool = .done address after) : after.Positive := by
  obtain ⟨_, free, _, rfl⟩ := allocate_eq_done allocated
  intro frame
  rw [References.getElem?_start]
  split
  · simp
  · exact positive frame

theorem of_retains (positive : pool.Positive) (retains : pool.Retains frames after) :
    after.Positive := by
  intro frame none
  rw [retains.gains.counts, Option.map_eq_some_iff] at none
  obtain ⟨held, found, total⟩ := none
  obtain rfl : held = 0 := by omega
  exact positive frame found

theorem retain (positive : pool.Positive) (retained : pool.retain run = .ok after) :
    after.Positive :=
  positive.of_retains (retains_of_retain retained)

theorem retainAll (positive : pool.Positive) (retained : pool.retainAll runs = .ok after) :
    after.Positive :=
  positive.of_retains (retains_of_retainAll retained)

theorem releaseFrame (positive : pool.Positive) (released : pool.releaseFrame frame = .ok after) :
    after.Positive := by
  intro other
  rcases releaseFrame_eq_ok released with ⟨_, free, _, rfl⟩ | ⟨left, _, remains, rfl⟩
  · rw [getElem?_erase_of_nat]
    split
    · exact nofun
    · exact positive other
  · rw [getElem?_insert_of_nat]
    split
    · simpa using remains
    · exact positive other

theorem releaseFrames (positive : pool.Positive)
    (released : pool.releaseFrames count first = .ok after) : after.Positive := by
  induction count generalizing first pool with
  | zero =>
      cases released
      exact positive
  | succ count ih =>
      rw [FramePool.releaseFrames, Checked.bind_eq_ok] at released
      obtain ⟨middle, one, remaining⟩ := released
      exact ih (positive.releaseFrame one) remaining

theorem releaseAll (positive : pool.Positive) (released : pool.releaseAll runs = .ok after) :
    after.Positive := by
  induction runs generalizing pool with
  | nil =>
      cases released
      exact positive
  | cons run rest ih =>
      rw [FramePool.releaseAll, List.foldlM_cons, Checked.bind_eq_ok] at released
      obtain ⟨middle, one, remaining⟩ := released
      exact ih (positive.releaseFrames one) remaining

end Positive

end FramePool

end GuestMemory
