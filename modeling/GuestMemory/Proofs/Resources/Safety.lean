import GuestMemory.Proofs.Action.Safety
import GuestMemory.Proofs.FramePool.Allocation
import GuestMemory.Proofs.Resources

/-!
Safety of what all address spaces share. Runs can be joined as long as they end at an address,
frames can be retained as long as their counts have room, and frames that have references to spare
can be released. A group can always give its descriptors back.
-/

namespace GuestMemory

open GuestMemory.Action Checked

variable {allowed : Fault → Prop} {limit first count frame : Nat} {runs added result : List Run}

namespace Run

variable {run other : Run} {lower : List Run}

theorem Lies.pages_lt (lies : run.Lies limit) (fits : limit < wordLimit) :
    run.pages < wordLimit := by
  have bounded := lies.bounded
  simp only [stop, size, pageSize_eq] at bounded
  omega

theorem safe_isFollowedBy {address : Nat} (room : allowed .overflow ∨ run.stop < wordLimit) :
    (run.isFollowedBy address).Safe allowed :=
  .bind (safe_word room) fun _ _ => .ok _

theorem safe_extend (room : allowed .overflow ∨ run.pages + count < wordLimit) :
    (run.extend count).Safe allowed :=
  .bind (safe_word room) fun _ _ => .ok _

theorem safe_stack (room : allowed .overflow ∨ limit < wordLimit ∧ run.Lies limit ∧
    ∀ other ∈ lower, other.Lies limit) : (run.stack lower).Safe allowed := by
  cases lower with
  | nil => exact .ok _
  | cons top below =>
      refine .bind (safe_isFollowedBy (room.imp_right fun ⟨fits, _, lowerLie⟩ =>
        Nat.lt_of_le_of_lt (lowerLie top List.mem_cons_self).bounded fits)) fun follows followed =>
          .ite (fun joined => ?_) fun _ => .ok _
      obtain ⟨_, rfl⟩ := isFollowedBy_eq_ok followed
      exact .bind (safe_extend (room.imp_right fun ⟨fits, lies, lowerLie⟩ =>
        ((lowerLie top List.mem_cons_self).extend (of_decide_eq_true joined) lies).pages_lt fits))
          fun _ _ => .ok _

end Run

namespace FramePool

variable {pool : FramePool} {extent : Run} {pages : Nat}

theorem safe_takeFirstFit (room : allowed .overflow ∨ ∀ run ∈ runs, 0 < run.pages →
    run.stop ≤ wordLimit) : (takeFirstFit pages runs).Safe allowed := by
  induction runs with
  | nil => exact .ok _
  | cons run rest ih =>
      refine .ite (fun _ => .bind (ih (room.imp_right fun fits =>
        (List.forall_mem_cons.mp fits).2)) fun _ _ => .ok _) fun enough =>
          .ite (fun _ => .ok _) fun differs => ?_
      refine .bind (safe_word (room.imp_right fun fits => ?_)) fun _ _ => .ok _
      have bounded := (List.forall_mem_cons.mp fits).1 (by omega)
      have part : pages * pageSize < run.size :=
        Nat.mul_lt_mul_of_pos_right (by omega) (by decide)
      exact Nat.lt_of_lt_of_le (Nat.add_lt_add_left part _) bounded

/-- A free run ends with a frame of the pool. -/
theorem WellFormed.stop_le (wellFormed : pool.WellFormed extent) {run : Run}
    (free : run ∈ pool.free) (nonempty : 0 < run.pages) : run.stop ≤ extent.stop := by
  have last : pageOf run.address + run.pages - 1 ∈ run.frames :=
    Run.mem_frames.mpr ⟨by omega, by omega⟩
  have owned := ((wellFormed.free_iff _).mp (List.mem_flatMap.mpr ⟨run, free, last⟩)).1
  have base := wellFormed.aligned
  have start := wellFormed.runs_aligned run free
  rw [Run.mem_frames] at owned
  simp only [Run.stop, Run.size, pageOf, pageSize_eq] at *
  omega

theorem WellFormed.safe_allocate (wellFormed : pool.WellFormed extent)
    (room : allowed .overflow ∨ extent.stop ≤ wordLimit) :
    (FramePool.allocate pages).Safe allowed pool := by
  intro fault stopped
  rw [FramePool.allocate] at stopped
  split at stopped
  · cases stopped
  · split at stopped <;> cases stopped
    exact safe_takeFirstFit (room.imp_right fun fits run free nonempty =>
      Nat.le_trans (wellFormed.stop_le free nonempty) fits) _ ‹_›

end FramePool

namespace FramePool

variable {pool after : FramePool} {run : Run} {references : References}

theorem safe_references
    (allocated : ∀ frame ∈ List.range' first count, references[frame]? ≠ none)
    (room : allowed .overflow ∨ ∀ frame ∈ List.range' first count,
      references[frame]?.getD 0 + 1 < References.limit) :
    (references.retain count first).Safe allowed := by
  induction count generalizing first references with
  | zero => exact .ok _
  | succ count ih =>
      rw [List.range'_succ] at allocated room
      obtain ⟨here, others⟩ := List.forall_mem_cons.mp allocated
      rw [References.retain]
      split
      · exact absurd ‹_› here
      · rename_i held found
        have fits := room.imp_right fun counts => counts first List.mem_cons_self
        rw [found, Option.getD_some] at fits
        refine .bind (safe_below fits) fun more counted => ih (fun frame member => ?_) ?_
        · rw [getElem?_insert_of_nat]
          split
          · exact Option.some_ne_none _
          · exact others frame member
        · refine room.imp_right fun counts frame member => ?_
          have later : first ≠ frame := by
            rw [List.mem_range'_1] at member
            omega
          rw [getElem?_insert_of_nat, if_neg later]
          exact counts frame (List.mem_cons_of_mem _ member)

/-- No count reaches the limit. -/
theorem lt_limit_of_references {changed : References}
    (retained : references.retain count first = .ok changed)
    (member : frame ∈ List.range' first count) : changed[frame]?.getD 0 < References.limit := by
  induction count generalizing first references with
  | zero => cases member
  | succ count ih =>
      rw [References.retain] at retained
      split at retained
      · cases retained
      · obtain ⟨more, counted, retained⟩ := Checked.bind_eq_ok.mp retained
        obtain ⟨fits, rfl⟩ := below_eq_ok_iff.mp counted
        rw [List.range'_succ, List.mem_cons] at member
        rcases member with rfl | later
        · have gains := References.gains_of_retain retained
          have absent : frame ∉ List.range' (frame + 1) count := by
            rw [List.mem_range'_1]
            omega
          rw [gains.counts, List.count_eq_zero_of_not_mem absent, getElem?_insert_of_nat]
          simpa using fits
        · exact ih retained later

/-- Every frame has room for the references that it is to get. -/
def HasRoom (pool : FramePool) (frames : List Nat) : Prop :=
  ∀ frame ∈ frames, pool.held frame + frames.count frame < References.limit

instance (pool : FramePool) (frames : List Nat) : Decidable (pool.HasRoom frames) :=
  inferInstanceAs (Decidable (∀ frame ∈ frames, _))

theorem room_of_retainAll (retained : pool.retainAll runs = .ok after) :
    pool.HasRoom (Run.framesOf runs) := by
  intro frame member
  induction runs generalizing pool with
  | nil => cases member
  | cons run rest ih =>
      rw [retainAll, List.foldlM_cons, Checked.bind_eq_ok] at retained
      obtain ⟨middle, here, others⟩ := retained
      have counted := (retains_of_retain here).held_eq frame
      rw [Run.framesOf_cons] at member ⊢
      rw [List.count_append, ← Nat.add_assoc, ← counted]
      by_cases later : frame ∈ Run.framesOf rest
      · exact ih others later
      · have first : frame ∈ run.frames := (List.mem_append.mp member).resolve_right later
        rw [List.count_eq_zero_of_not_mem later]
        obtain ⟨references, gained, changed⟩ := Checked.bind_eq_ok.mp here
        cases changed
        exact lt_limit_of_references gained first

/-- The frames can gain a reference each time that they are listed: they are allocated, and their
counts have room. -/
structure Retainable (allowed : Fault → Prop) (pool : FramePool) (frames : List Nat) : Prop where
  addressable : ∀ frame ∈ frames, frame * pageSize < wordLimit
  allocated : ∀ frame ∈ frames, pool.held frame ≠ 0
  room : allowed .overflow ∨ pool.HasRoom frames

theorem Retainable.limited {frames : List Nat} (retainable : pool.Retainable allowed frames)
    (room : pool.HasRoom frames) : pool.Retainable (fun _ => False) frames :=
  ⟨retainable.addressable, retainable.allocated, .inr room⟩

namespace Retainable

variable {frames more : List Nat} (retainable : pool.Retainable allowed (frames ++ more))

include retainable

theorem left : pool.Retainable allowed frames := by
  refine ⟨fun frame member => retainable.addressable frame (List.mem_append_left _ member),
    fun frame member => retainable.allocated frame (List.mem_append_left _ member),
    retainable.room.imp_right fun counts frame member => ?_⟩
  have counted := counts frame (List.mem_append_left _ member)
  rw [List.count_append] at counted
  omega

theorem right (retains : pool.Retains frames after) : after.Retainable allowed more := by
  refine ⟨fun frame member => retainable.addressable frame (List.mem_append_right _ member),
    fun frame member => ?_, retainable.room.imp_right fun counts frame member => ?_⟩
  · have before := retainable.allocated frame (List.mem_append_right _ member)
    rw [retains.held_eq]
    omega
  · have counted := counts frame (List.mem_append_right _ member)
    rw [List.count_append] at counted
    rw [retains.held_eq]
    omega

end Retainable

theorem safe_retain (retainable : pool.Retainable allowed run.frames) :
    (pool.retain run).Safe allowed := by
  refine .bind (safe_references (fun frame member missing => ?_)
    (retainable.room.imp_right fun counts frame member => ?_)) fun _ _ => .ok _
  · exact retainable.allocated frame member (by rw [held, missing, Option.getD_none])
  · have counted := counts frame member
    have listed : 0 < run.frames.count frame := List.count_pos_iff.mpr member
    rw [held] at counted
    omega

theorem safe_retainAll (retainable : pool.Retainable allowed (Run.framesOf runs)) :
    (pool.retainAll runs).Safe allowed := by
  induction runs generalizing pool with
  | nil => exact .ok _
  | cons run rest ih =>
      rw [Run.framesOf_cons] at retainable
      rw [retainAll, List.foldlM_cons]
      exact .bind (safe_retain retainable.left) fun middle retained =>
        ih (retainable.right (retains_of_retain retained))

theorem releaseFrame_exists (spares : 1 < pool.held frame) :
    ∃ after, pool.releaseFrame frame = .ok after := by
  rw [releaseFrame]
  cases found : pool.references[frame]? with
  | none =>
      rw [held, found, Option.getD_none] at spares
      omega
  | some count =>
      rw [held, found, Option.getD_some] at spares
      have enough : 1 ≤ count := by omega
      have remains : ¬ count - 1 = 0 := by omega
      simp only [difference, if_pos enough, ok_bind, if_neg remains]
      exact ⟨_, rfl⟩

theorem releaseFrames_exists (spares : pool.Spares (List.range' first count)) :
    ∃ after, pool.releaseFrames count first = .ok after := by
  induction count generalizing first pool with
  | zero => exact ⟨pool, rfl⟩
  | succ count ih =>
      rw [List.range'_succ, ← List.singleton_append] at spares
      have shared : 1 < pool.held first := by
        have listed := spares first (by simp)
        simp only [List.singleton_append, List.count_cons_self] at listed
        omega
      obtain ⟨middle, one⟩ := releaseFrame_exists shared
      obtain ⟨after, others⟩ := ih (spares.right (drops_of_releaseFrame shared one))
      exact ⟨after, by rw [releaseFrames, one]; exact others⟩

/-- References that frames have to spare can be dropped. -/
theorem releaseAll_exists (spares : pool.Spares (Run.framesOf runs)) :
    ∃ after, pool.releaseAll runs = .ok after := by
  induction runs generalizing pool with
  | nil => exact ⟨pool, rfl⟩
  | cons run rest ih =>
      rw [Run.framesOf_cons] at spares
      obtain ⟨middle, one⟩ := releaseFrames_exists spares.left
      obtain ⟨after, others⟩ := ih (spares.right (drops_of_releaseFrames spares.left one))
      exact ⟨after, by rw [releaseAll, List.foldlM_cons, release, one]; exact others⟩

end FramePool

namespace DescriptorPool

variable {pool : DescriptorPool} {run : Run} {id : Nat}

theorem contains_of_used (used : pool.nodes[id]? ≠ none) : pool.nodes.contains id = true := by
  rw [Std.ExtTreeMap.contains_eq_isSome_getElem?]
  exact Option.isSome_iff_ne_none.mpr used

theorem set_exists (used : pool.nodes[id]? ≠ none) : ∃ after, pool.set id run = .ok after := by
  rw [set, if_pos (contains_of_used used)]
  exact ⟨_, rfl⟩

end DescriptorPool

namespace PageGroup

variable {group grown : PageGroup} {before pool after : DescriptorPool} {run : Run}

theorem safe_pages (held : group.runs pool = .ok runs)
    (room : allowed .overflow ∨ (Run.framesOf runs).length < wordLimit) :
    (group.pages pool).Safe allowed := by
  rw [pages_eq_word held]
  exact safe_word (by rwa [sum_pages])

theorem releaseDescriptors_exists (distinct : group.descriptors.Nodup)
    (used : ∀ id ∈ group.descriptors, pool.nodes[id]? ≠ none) :
    ∃ after, group.releaseDescriptors pool = .ok after := by
  obtain ⟨descriptors, holds⟩ := group
  simp only [releaseDescriptors] at *
  induction descriptors generalizing pool with
  | nil => exact ⟨pool, rfl⟩
  | cons first rest ih =>
      obtain ⟨absent, others⟩ := List.nodup_cons.mp distinct
      obtain ⟨here, there⟩ := List.forall_mem_cons.mp used
      rw [List.foldlM_cons, DescriptorPool.release, if_pos (DescriptorPool.contains_of_used here),
        ok_bind]
      refine ih others fun id member => ?_
      have differs : first ≠ id := fun same => absent (same ▸ member)
      rw [getElem?_erase_of_nat, if_neg differs]
      exact there id member

theorem safe_addDescriptor : (group.addDescriptor run).Safe allowed pool := by
  refine .bind (fun fault stopped => ?_) fun _ _ _ => .pure _
  rw [DescriptorPool.allocate] at stopped
  split at stopped <;> cases stopped

namespace Occupies

variable (occupies : Occupies before group runs pool)

include occupies

theorem releaseDescriptors_exists : ∃ after, group.releaseDescriptors pool = .ok after :=
  PageGroup.releaseDescriptors_exists occupies.distinct fun _ member => occupies.used member

theorem safe_add (room : allowed .overflow ∨ limit < wordLimit) (unheld : group.holds = 0)
    (lies : run.Lies limit) (runsLie : ∀ other ∈ runs, other.Lies limit) :
    (group.add run).Safe allowed pool := by
  rw [PageGroup.add, if_neg (by simpa using unheld)]
  refine .ite (fun _ => .pure _) fun _ => ?_
  cases listed : group.descriptors.getLast? with
  | none => exact safe_addDescriptor
  | some id =>
      have member := List.mem_of_getLast? listed
      obtain ⟨last, included, got⟩ := exists_of_mapM occupies.held member
      refine .after_steady (Steady.inspect _) (.inspect (.of_exists ⟨last, got⟩))
        fun found done => ?_
      obtain ⟨same, _⟩ := inspect_eq_done.mp done
      obtain rfl := Except.ok.inj (same.symm.trans got)
      refine .after_steady (Steady.check _)
        (.check (Run.safe_isFollowedBy (room.imp_right fun fits =>
          Nat.lt_of_le_of_lt (runsLie found included).bounded fits))) fun follows followed => ?_
      obtain ⟨followed, _⟩ := check_eq_done.mp followed
      obtain ⟨_, rfl⟩ := Run.isFollowedBy_eq_ok followed
      refine .ite (fun joined => ?_) fun _ => safe_addDescriptor
      refine .after_steady (Steady.check _)
        (.check (Run.safe_extend (room.imp_right fun fits => ((runsLie found included).extend
          (of_decide_eq_true joined) lies).pages_lt fits))) fun longer _ => ?_
      exact .bind (.update (.of_exists (DescriptorPool.set_exists (occupies.used member))))
        fun _ _ _ => .pure _

theorem safe_addAll (room : allowed .overflow ∨ limit < wordLimit) (sound : pool.Sound)
    (unheld : group.holds = 0) (addedLie : ∀ other ∈ added, other.Lies limit)
    (runsLie : ∀ other ∈ runs, other.Lies limit) : (group.addAll added).Safe allowed pool := by
  induction added generalizing group runs pool with
  | nil => exact .pure _
  | cons run rest ih =>
      obtain ⟨here, others⟩ := List.forall_mem_cons.mp addedLie
      refine .bind (.onRefusal (occupies.safe_add room unheld here runsLie) ?_) ?_
      · intro cause middle refused
        obtain rfl := add_refusesFirst _ _ _ trivial refused
        exact .of_exists occupies.releaseDescriptors_exists
      · intro larger middle done
        rw [onRefusal_eq_done] at done
        obtain ⟨longer, grows, joins, holds⟩ := occupies.add sound done
        exact ih grows (keeps_add _ _ sound (by rw [done]; rfl)) (holds.trans unheld) others
          (joins.lies here runsLie)

end Occupies

theorem safe_ofRuns (room : allowed .overflow ∨ limit < wordLimit) (sound : pool.Sound)
    (runsLie : ∀ run ∈ runs, run.Lies limit) : (ofRuns runs).Safe allowed pool :=
  (Occupies.empty pool).safe_addAll room sound rfl runsLie fun _ member => nomatch member

variable {resources : Resources}

theorem safe_retain (held : group.runs resources.descriptors = .ok runs)
    (unheld : group.holds = 0)
    (retainable : resources.frames.Retainable allowed (Run.framesOf runs)) :
    (group.retain resources).Safe allowed := by
  rw [PageGroup.retain, held, ok_bind]
  refine .bind (FramePool.safe_retainAll retainable) fun _ _ => .bind ?_ fun _ _ => .ok _
  rw [unheld]
  exact safe_below (.inr (by decide))

/-- A group gives up what it has taken, and the references that it holds can be spared. -/
theorem Occupies.discard_exists (occupies : Occupies before group runs resources.descriptors)
    (spares : group.holds = 0 ∨ group.holds = 1 ∧ resources.frames.Spares (Run.framesOf runs)) :
    ∃ after, group.discard resources = .ok after := by
  obtain ⟨descriptors, freed⟩ := occupies.releaseDescriptors_exists
  obtain ⟨frames, dropped⟩ : ∃ frames,
      releaseHolds runs group.holds resources.frames = .ok frames := by
    obtain unheld | ⟨once, spares⟩ := spares
    · rw [unheld]
      exact ⟨_, rfl⟩
    · rw [once, releaseHolds_one]
      exact FramePool.releaseAll_exists spares
  rw [discard, occupies.held, ok_bind, dropped, ok_bind, freed]
  exact ⟨_, rfl⟩

end PageGroup

end GuestMemory
