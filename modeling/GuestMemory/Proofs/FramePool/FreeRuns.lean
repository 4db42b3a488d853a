import GuestMemory.Proofs.FramePool.References

/-!
Free runs: handing a run out and giving one back moves its frames, and no others, from and to the
free ones.
-/

namespace GuestMemory.FramePool

variable {free rest result following : List Run} {run joined : Run} {pages address : Nat}

/-- Every run starts at the first address of a frame. -/
def Aligned (runs : List Run) : Prop :=
  ∀ run ∈ runs, run.address % pageSize = 0

/-- What taking frames out of the free runs does: the first run with as many is cut at its front. -/
theorem takeFirstFit_eq_ok (taken : takeFirstFit pages free = .ok (some (address, rest))) :
    ∃ before run after, free = before ++ run :: after ∧ address = run.address ∧
      (∀ other ∈ before, other.pages < pages) ∧
      (run.pages = pages ∧ rest = before ++ after ∨
        pages < run.pages ∧ run.address + pages * pageSize < wordLimit ∧
          rest = before ++ ⟨run.address + pages * pageSize, run.pages - pages⟩ :: after) := by
  induction free generalizing rest with
  | nil => cases taken
  | cons run following ih =>
      rw [takeFirstFit] at taken
      split at taken
      · rename_i few
        obtain ⟨found, later, built⟩ := Checked.bind_eq_ok.mp taken
        obtain ⟨⟨other, remaining⟩, rfl, same⟩ :=
          Option.map_eq_some_iff.mp (Checked.pure_eq_ok.mp built)
        cases same
        obtain ⟨before, first, after, rfl, rfl, small, cut⟩ := ih later
        refine ⟨run :: before, first, after, rfl, rfl,
          List.forall_mem_cons.mpr ⟨few, small⟩, ?_⟩
        rcases cut with ⟨whole, rfl⟩ | ⟨more, fits, rfl⟩
        · exact .inl ⟨whole, rfl⟩
        · exact .inr ⟨more, fits, rfl⟩
      · split at taken
        · rename_i exact
          cases taken
          exact ⟨[], run, following, rfl, rfl, by simp, .inl ⟨exact, rfl⟩⟩
        · rename_i enough differs
          obtain ⟨next, fits, built⟩ := Checked.bind_eq_ok.mp taken
          obtain ⟨bounded, rfl⟩ := word_eq_ok_iff.mp fits
          cases built
          exact ⟨[], run, following, rfl, rfl, by simp, .inr ⟨by omega, bounded, rfl⟩⟩

theorem framesOf_takeFirstFit (taken : takeFirstFit pages free = .ok (some (address, rest))) :
    (Run.framesOf free).Perm (List.range' (pageOf address) pages ++ Run.framesOf rest) := by
  obtain ⟨before, run, after, rfl, rfl, _, ⟨exact, rfl⟩ | ⟨more, _, rfl⟩⟩ :=
    takeFirstFit_eq_ok taken
  · rw [Run.framesOf_append, Run.framesOf_append, Run.framesOf_cons, Run.frames, exact]
    exact List.perm_append_comm_assoc _ _ _
  · have cut : run.frames = List.range' (pageOf run.address) pages ++
        (⟨run.address + pages * pageSize, run.pages - pages⟩ : Run).frames := by
      rw [Run.frames, Run.frames, pageOf_add_mul_pageSize, List.range'_append_1,
        Nat.add_sub_cancel' (Nat.le_of_lt more)]
    rw [Run.framesOf_append, Run.framesOf_append, Run.framesOf_cons, Run.framesOf_cons, cut,
      List.append_assoc]
    exact List.perm_append_comm_assoc _ _ _

theorem aligned_takeFirstFit (aligned : Aligned free)
    (taken : takeFirstFit pages free = .ok (some (address, rest))) : Aligned rest := by
  obtain ⟨before, run, after, rfl, _, _, cut⟩ := takeFirstFit_eq_ok taken
  obtain ⟨early, late⟩ := List.forall_mem_append.mp aligned
  obtain ⟨first, others⟩ := List.forall_mem_cons.mp late
  rcases cut with ⟨_, rfl⟩ | ⟨_, _, rfl⟩
  · exact List.forall_mem_append.mpr ⟨early, others⟩
  · refine List.forall_mem_append.mpr ⟨early, List.forall_mem_cons.mpr ⟨?_, others⟩⟩
    rw [Nat.add_mul_mod_self_right]
    exact first

/-- What taking up the next free run can do. -/
theorem joinNext_cases {next : Run}
    (joining : joinNext run (next :: following) = .ok (joined, rest)) :
    run.stop = next.address ∧ joined = { run with pages := run.pages + next.pages } ∧
        rest = following ∨
      run.stop ≠ next.address ∧ joined = run ∧ rest = next :: following := by
  rw [joinNext, Checked.bind_eq_ok] at joining
  obtain ⟨follows, followed, joining⟩ := joining
  obtain ⟨_, rfl⟩ := Run.isFollowedBy_eq_ok followed
  split at joining
  · rename_i meets
    obtain ⟨longer, extended, built⟩ := Checked.bind_eq_ok.mp joining
    obtain rfl := Run.extend_eq_ok extended
    cases built
    exact .inl ⟨of_decide_eq_true meets, rfl, rfl⟩
  · rename_i apart
    cases joining
    exact .inr ⟨fun meets => apart (decide_eq_true meets), rfl, rfl⟩

theorem joinNext_eq_ok (joining : joinNext run following = .ok (joined, rest)) :
    joined.address = run.address ∧ rest ⊆ following ∧
      joined.frames ++ Run.framesOf rest = run.frames ++ Run.framesOf following := by
  cases following with
  | nil =>
      cases joining
      exact ⟨rfl, List.Subset.refl _, rfl⟩
  | cons next others =>
      rcases joinNext_cases joining with ⟨joins, rfl, rfl⟩ | ⟨_, rfl, rfl⟩
      · refine ⟨rfl, List.subset_cons_self _ _, ?_⟩
        rw [Run.frames_extend joins, Run.framesOf_cons, List.append_assoc]
      · exact ⟨rfl, List.Subset.refl _, rfl⟩

theorem aligned_stack {lower : List Run} (aligned : Aligned lower)
    (first : run.address % pageSize = 0) (stacked : run.stack lower = .ok result) :
    Aligned result := by
  cases lower with
  | nil =>
      cases stacked
      exact List.forall_mem_cons.mpr ⟨first, aligned⟩
  | cons top below =>
      obtain ⟨upper, others⟩ := List.forall_mem_cons.mp aligned
      obtain ⟨_, ⟨_, _, rfl⟩ | ⟨_, rfl⟩⟩ := Run.stack_cases stacked
      · exact List.forall_mem_cons.mpr ⟨upper, others⟩
      · exact List.forall_mem_cons.mpr ⟨first, aligned⟩

theorem giveBack_eq_ok (given : giveBack run free = .ok result) :
    ∃ joined rest upTo,
      joinNext run (free.dropWhile (·.address < run.address)) = .ok (joined, rest) ∧
      joined.stack (free.takeWhile (·.address < run.address)).reverse = .ok upTo ∧
      result = upTo.reverse ++ rest := by
  rw [giveBack] at given
  obtain ⟨⟨joined, rest⟩, joining, stacking⟩ := Checked.bind_eq_ok.mp given
  obtain ⟨upTo, stacked, built⟩ := Checked.bind_eq_ok.mp stacking
  cases built
  exact ⟨joined, rest, upTo, joining, stacked, rfl⟩

theorem framesOf_giveBack (given : giveBack run free = .ok result) :
    (Run.framesOf result).Perm (run.frames ++ Run.framesOf free) := by
  obtain ⟨joined, rest, upTo, joining, stacked, rfl⟩ := giveBack_eq_ok given
  obtain ⟨_, _, frames⟩ := joinNext_eq_ok joining
  have whole : Run.framesOf free = Run.framesOf (free.takeWhile (·.address < run.address)) ++
      Run.framesOf (free.dropWhile (·.address < run.address)) := by
    rw [← Run.framesOf_append, List.takeWhile_append_dropWhile]
  rw [Run.framesOf_append, Run.framesOf_stack stacked, List.reverse_reverse, List.append_assoc,
    frames, whole]
  exact List.perm_append_comm_assoc _ _ _

theorem aligned_giveBack (aligned : Aligned free) (first : run.address % pageSize = 0)
    (given : giveBack run free = .ok result) : Aligned result := by
  obtain ⟨joined, rest, upTo, joining, stacked, rfl⟩ := giveBack_eq_ok given
  obtain ⟨start, subset, _⟩ := joinNext_eq_ok joining
  have lower : Aligned (free.takeWhile (·.address < run.address)).reverse := fun other member =>
    aligned other ((List.takeWhile_sublist _).subset (List.mem_reverse.mp member))
  have stack := aligned_stack lower (start ▸ first) stacked
  intro other member
  rcases List.mem_append.mp member with early | late
  · exact stack other (List.mem_reverse.mp early)
  · exact aligned other ((List.dropWhile_sublist _).subset (subset late))

end GuestMemory.FramePool
