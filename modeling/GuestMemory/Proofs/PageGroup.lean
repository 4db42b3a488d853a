import GuestMemory.PageGroup
import GuestMemory.Proofs.DescriptorPool
import GuestMemory.Proofs.FramePool.References
import Mathlib.Algebra.GroupWithZero.Nat

/-!
Page groups: the descriptors that a group has taken hold its frames, and giving them back leaves
every node of the pool as it was before the group was made.
-/

namespace GuestMemory

open GuestMemory.Action

/-- Where the sum is no word, a part of it is none either. -/
theorem wordSum_eq_word (values : List Nat) : wordSum values = word values.sum := by
  suffices general : ∀ start < wordLimit,
      values.foldlM (fun total value => word (total + value)) start = word (start + values.sum) by
    rw [wordSum, general 0 (by decide), Nat.zero_add]
  induction values with
  | nil => exact fun start fits => (word_of_lt fits).symm
  | cons value rest ih =>
      intro start _
      rw [List.foldlM_cons, List.sum_cons, ← Nat.add_assoc]
      by_cases fits : start + value < wordLimit
      · rw [word_of_lt fits, Checked.ok_bind, ih _ fits]
      · rw [word, word, below, below, if_neg fits, if_neg (by omega)]
        rfl

namespace PageGroup

variable {group grown : PageGroup} {before pool after : DescriptorPool}
variable {runs added : List Run} {run : Run} {pages : Nat} {cause : Refusal}

theorem sum_pages : (runs.map (·.pages)).sum = (Run.framesOf runs).length := by
  induction runs with
  | nil => rfl
  | cons run rest ih =>
      rw [List.map_cons, List.sum_cons, Run.framesOf_cons, List.length_append, Run.length_frames,
        ih]

theorem pages_eq_word (held : group.runs pool = .ok runs) :
    group.pages pool = word (runs.map (·.pages)).sum := by
  rw [PageGroup.pages, held, Checked.ok_bind, wordSum_eq_word]

theorem pages_eq_ok (held : group.runs pool = .ok runs) (counted : group.pages pool = .ok pages) :
    pages = (Run.framesOf runs).length := by
  rw [pages_eq_word held, sum_pages] at counted
  exact (word_eq_ok_iff.mp counted).2.symm

/-- Storing a run in one node changes what a list that ends with the node holds, but only there. -/
theorem mapM_get_of_insert {ids : List Nat} {id : Nat}
    (stored : after.nodes = pool.nodes.insert id run) (absent : id ∉ ids)
    (held : ids.mapM pool.get = .ok runs) : (ids ++ [id]).mapM after.get = .ok (runs ++ [run]) := by
  have kept : ∀ other ∈ ids, after.get other = pool.get other := by
    intro other member
    have differs : id ≠ other := fun same => absent (same ▸ member)
    simp only [DescriptorPool.get, stored, getElem?_insert_of_nat, if_neg differs]
  have last : after.get id = .ok run := by
    simp only [DescriptorPool.get, stored, getElem?_insert_of_nat, ↓reduceIte]
  rw [List.mapM_append, Checked.mapM_congr kept, held]
  simp only [List.mapM_cons, List.mapM_nil, last, Checked.ok_bind, Checked.pure_eq]

/-- What a run that is added to a list makes of that: it may follow the last one. -/
inductive Joins : List Run → Run → List Run → Prop
  | empty {runs : List Run} {run : Run} (none : run.pages = 0) : Joins runs run runs
  | apart {runs : List Run} {run : Run} : Joins runs run (runs ++ [run])
  | joined {front : List Run} {last run : Run} (follows : last.stop = run.address) :
    Joins (front ++ [last]) run (front ++ [{ last with pages := last.pages + run.pages }])

theorem Joins.framesOf_eq (joins : Joins runs run added) :
    Run.framesOf added = Run.framesOf runs ++ run.frames := by
  cases joins with
  | empty none => simp [Run.frames, none]
  | apart => simp
  | joined follows => simp [Run.frames_extend follows]

theorem Joins.lies {limit : Nat} (joins : Joins runs run added) (lies : run.Lies limit)
    (runsLie : ∀ other ∈ runs, other.Lies limit) : ∀ other ∈ added, other.Lies limit := by
  cases joins with
  | empty none => exact runsLie
  | apart => exact List.forall_mem_append.mpr ⟨runsLie, by simpa using lies⟩
  | joined follows =>
      obtain ⟨frontLie, lastLies⟩ := List.forall_mem_append.mp runsLie
      refine List.forall_mem_append.mpr ⟨frontLie, ?_⟩
      simpa using (lastLies _ (List.mem_singleton_self _)).extend follows lies

/-- The descriptors of the group, which were not in use in the pool `before`, hold the runs, and no
other descriptor has changed since. -/
structure Occupies (before : DescriptorPool) (group : PageGroup) (runs : List Run)
    (pool : DescriptorPool) : Prop where
  distinct : group.descriptors.Nodup
  fresh : ∀ id ∈ group.descriptors, before.nodes[id]? = none
  held : group.runs pool = .ok runs
  others : ∀ id : Nat, id ∉ group.descriptors → pool.nodes[id]? = before.nodes[id]?
  capacity_eq : pool.capacity = before.capacity
  free_perm : (group.descriptors ++ pool.free).Perm before.free

theorem nodes_of_releaseDescriptors (released : group.releaseDescriptors pool = .ok after)
    (id : Nat) :
    after.nodes[id]? = if id ∈ group.descriptors then none else pool.nodes[id]? := by
  obtain ⟨descriptors, holds⟩ := group
  simp only [releaseDescriptors] at released ⊢
  induction descriptors generalizing pool with
  | nil =>
      cases released
      rw [if_neg List.not_mem_nil]
  | cons first rest ih =>
      rw [List.foldlM_cons, Checked.bind_eq_ok] at released
      obtain ⟨middle, one, remaining⟩ := released
      obtain ⟨_, rfl⟩ := DescriptorPool.release_eq_ok one
      rw [ih remaining, getElem?_erase_of_nat]
      by_cases here : first = id
      · simp [here]
      · have others : id ∈ first :: rest ↔ id ∈ rest := by
          rw [List.mem_cons, or_iff_right (fun same => here same.symm)]
        simp only [others, if_neg here]

theorem free_of_releaseDescriptors (released : group.releaseDescriptors pool = .ok after) :
    after.capacity = pool.capacity ∧ after.free.Perm (group.descriptors ++ pool.free) := by
  obtain ⟨descriptors, holds⟩ := group
  simp only [releaseDescriptors] at released ⊢
  induction descriptors generalizing pool with
  | nil =>
      cases released
      exact ⟨rfl, .refl _⟩
  | cons first rest ih =>
      rw [List.foldlM_cons, Checked.bind_eq_ok] at released
      obtain ⟨middle, one, remaining⟩ := released
      obtain ⟨_, rfl⟩ := DescriptorPool.release_eq_ok one
      obtain ⟨capacity, freed⟩ := ih remaining
      exact ⟨capacity, freed.trans List.perm_middle⟩

theorem sound_of_releaseDescriptors (sound : pool.Sound)
    (released : group.releaseDescriptors pool = .ok after) : after.Sound := by
  obtain ⟨descriptors, holds⟩ := group
  simp only [releaseDescriptors] at released
  induction descriptors generalizing pool with
  | nil =>
      cases released
      exact sound
  | cons first rest ih =>
      rw [List.foldlM_cons, Checked.bind_eq_ok] at released
      obtain ⟨middle, one, remaining⟩ := released
      exact ih (sound.release one) remaining

theorem addDescriptor_of_free {id : Nat} {free : List Nat} (left : pool.free = id :: free) :
    ∃ grown after, group.addDescriptor run pool = .done grown after ∧ after.free = free := by
  rw [addDescriptor, bind_apply, DescriptorPool.allocate, left]
  exact ⟨_, _, rfl, rfl⟩

theorem addDescriptor_of_full (full : pool.free = []) :
    group.addDescriptor run pool = .refused (.descriptorsExhausted pool.capacity) pool := by
  rw [addDescriptor, bind_apply, DescriptorPool.allocate, full]

theorem addDescriptor_eq_refused (refused : group.addDescriptor run pool = .refused cause after) :
    after = pool := by
  rw [addDescriptor, bind_eq_refused] at refused
  rcases refused with refused | ⟨id, middle, _, refused⟩
  · exact DescriptorPool.allocate_eq_refused refused
  · cases refused

/-- Only a missing descriptor refuses a run, and then nothing has changed yet. -/
theorem add_refusesFirst : RefusesFirst (group.add run) := by
  rw [add]
  refine (Accepts.check _).restores.ite ((Accepts.pure _).restores.ite ?_)
  split
  · exact fun _ _ _ _ refused => addDescriptor_eq_refused refused
  · refine Restores.after_steady (Steady.inspect _) (fun _ => rfl) fun last =>
      Restores.after_steady (Steady.check _) (fun _ => rfl) fun follows => Restores.ite ?_ ?_
    · exact ((Accepts.check _).bind fun _ => (Accepts.update _).bind fun _ =>
        Accepts.pure _).restores
    · exact fun _ _ _ _ refused => addDescriptor_eq_refused refused

theorem keeps_addDescriptor : Keeps DescriptorPool.Sound (group.addDescriptor run) := by
  refine Keeps.bind (fun pool after sound ended => ?_) fun _ => (Steady.pure _).keeps
  rcases Outcome.state?_eq_some.mp ended with ⟨id, done⟩ | ⟨cause, refused⟩
  · exact sound.allocate done
  · rwa [DescriptorPool.allocate_eq_refused refused]

theorem keeps_add : Keeps DescriptorPool.Sound (group.add run) := by
  rw [add]
  refine (Steady.check _).keeps.ite ((Steady.pure _).keeps.ite ?_)
  split
  · exact keeps_addDescriptor
  · refine (Steady.inspect _).keeps.bind fun _ => (Steady.check _).keeps.bind fun _ =>
      Keeps.ite ?_ keeps_addDescriptor
    exact (Steady.check _).keeps.bind fun _ =>
      (Keeps.update fun _ _ sound stored => sound.set stored).bind fun _ => (Steady.pure _).keeps

theorem keeps_addAll : Keeps DescriptorPool.Sound (group.addAll added) := by
  induction added generalizing group with
  | nil => exact (Steady.pure _).keeps
  | cons run rest ih =>
      exact (keeps_add.onRefusal fun _ _ sound released =>
        sound_of_releaseDescriptors sound released).bind fun _ => ih

namespace Occupies

theorem empty (pool : DescriptorPool) : Occupies pool PageGroup.empty [] pool where
  distinct := List.nodup_nil
  fresh := fun _ member => absurd member List.not_mem_nil
  held := rfl
  others := fun _ _ => rfl
  capacity_eq := rfl
  free_perm := .refl _

theorem used (occupies : Occupies before group runs pool) {id : Nat}
    (member : id ∈ group.descriptors) : pool.nodes[id]? ≠ none := by
  obtain ⟨run, _, got⟩ := Checked.exists_of_mapM occupies.held member
  rw [DescriptorPool.get_eq_ok got]
  exact Option.some_ne_none run

theorem contents_restored (occupies : Occupies before group runs pool)
    (released : group.releaseDescriptors pool = .ok after) : after.contents = before.contents := by
  obtain ⟨capacity, free⟩ := free_of_releaseDescriptors released
  refine DescriptorPool.contents_eq_iff.mpr ⟨capacity.trans occupies.capacity_eq, ?_,
    free.trans occupies.free_perm⟩
  refine Std.ExtTreeMap.ext_getElem? fun id => ?_
  rw [nodes_of_releaseDescriptors released]
  split
  · rename_i member
    exact (occupies.fresh id member).symm
  · rename_i absent
    exact occupies.others id absent

theorem addDescriptor (occupies : Occupies before group runs pool) (sound : pool.Sound)
    (allocated : group.addDescriptor run pool = .done grown after) :
    Occupies before grown (runs ++ [run]) after ∧ grown.holds = group.holds := by
  rw [PageGroup.addDescriptor, bind_eq_done] at allocated
  obtain ⟨id, middle, allocated, built⟩ := allocated
  obtain ⟨rfl, rfl⟩ := pure_eq_done.mp built
  have unused := sound.fresh allocated
  obtain ⟨free, listed, rfl⟩ := DescriptorPool.allocate_eq_done allocated
  have absent : id ∉ group.descriptors := fun member => occupies.used member unused
  refine ⟨⟨?_, ?_, ?_, ?_, occupies.capacity_eq, ?_⟩, rfl⟩
  · exact List.nodup_append.mpr ⟨occupies.distinct, List.nodup_singleton id, by
      rintro first member second last rfl
      exact absent (List.mem_singleton.mp last ▸ member)⟩
  · intro other member
    rcases List.mem_append.mp member with earlier | last
    · exact occupies.fresh other earlier
    · obtain rfl := List.mem_singleton.mp last
      rw [← occupies.others other absent, unused]
  · exact mapM_get_of_insert rfl absent occupies.held
  · intro other outside
    rw [List.mem_append, not_or] at outside
    have differs : id ≠ other := fun same => outside.2 (List.mem_singleton.mpr same.symm)
    simp only [getElem?_insert_of_nat, if_neg differs, occupies.others other outside.1]
  · rw [List.append_assoc, List.singleton_append, ← listed]
    exact occupies.free_perm

/-- A run that makes the last one longer changes nothing but its descriptor. -/
theorem lengthen (occupies : Occupies before group runs pool) {id : Nat} {last longer : Run}
    (listed : group.descriptors.getLast? = some id) (got : pool.get id = .ok last)
    (stored : pool.set id longer = .ok after) :
    ∃ front, runs = front ++ [last] ∧ Occupies before group (front ++ [longer]) after := by
  obtain ⟨descriptors, ends⟩ := List.getLast?_eq_some_iff.mp listed
  obtain ⟨_, rfl⟩ := DescriptorPool.set_eq_ok stored
  have held := occupies.held
  have distinct := occupies.distinct
  rw [PageGroup.runs, ends, List.mapM_append] at held
  simp only [List.mapM_cons, List.mapM_nil, got, Checked.bind_eq_ok, Checked.pure_eq_ok,
    Except.ok.injEq] at held
  obtain ⟨front, earlier, _, ⟨_, rfl, _, rfl, rfl⟩, rfl⟩ := held
  rw [ends] at distinct
  have absent : id ∉ descriptors := fun member =>
    (List.nodup_append.mp distinct).2.2 id member id (List.mem_singleton_self id) rfl
  refine ⟨front, rfl, occupies.distinct, occupies.fresh, ?_, fun other outside => ?_,
    occupies.capacity_eq, occupies.free_perm⟩
  · rw [PageGroup.runs, ends]
    exact mapM_get_of_insert rfl absent earlier
  · have differs : id ≠ other := by
      rintro rfl
      exact outside (by rw [ends]; exact List.mem_append_right _ (List.mem_singleton_self id))
    rw [getElem?_insert_of_nat, if_neg differs, occupies.others other outside]

theorem add (occupies : Occupies before group runs pool) (sound : pool.Sound)
    (added : group.add run pool = .done grown after) :
    ∃ longer, Occupies before grown longer after ∧ Joins runs run longer ∧
      grown.holds = group.holds := by
  rw [PageGroup.add] at added
  split at added
  · cases added
  · split at added
    · rename_i none
      obtain ⟨rfl, rfl⟩ := pure_eq_done.mp added
      exact ⟨runs, occupies, .empty none, rfl⟩
    · have apart (allocated : group.addDescriptor run pool = .done grown after) :
          ∃ longer, Occupies before grown longer after ∧ Joins runs run longer ∧
            grown.holds = group.holds := by
        obtain ⟨grows, unheld⟩ := occupies.addDescriptor sound allocated
        exact ⟨_, grows, .apart, unheld⟩
      cases listed : group.descriptors.getLast? with
      | none =>
          simp only [listed] at added
          exact apart added
      | some id =>
          simp only [listed, bind_eq_done, inspect_eq_done, check_eq_done] at added
          obtain ⟨last, _, ⟨got, rfl⟩, follows, _, ⟨followed, rfl⟩, added⟩ := added
          split at added
          · rename_i joined
            simp only [bind_eq_done, check_eq_done, update_eq_done, pure_eq_done] at added
            obtain ⟨longer, _, ⟨extended, rfl⟩, _, _, stored, rfl, rfl⟩ := added
            obtain ⟨front, rfl, lengthened⟩ := occupies.lengthen listed got stored
            obtain rfl := Run.extend_eq_ok extended
            obtain ⟨_, rfl⟩ := Run.isFollowedBy_eq_ok followed
            exact ⟨_, lengthened, .joined (of_decide_eq_true joined), rfl⟩
          · exact apart added

theorem addAll (occupies : Occupies before group runs pool) (sound : pool.Sound)
    (collected : group.addAll added pool = .done grown after) :
    ∃ longer, Occupies before grown longer after ∧
      Run.framesOf longer = Run.framesOf runs ++ Run.framesOf added ∧
      (∀ limit, (∀ run ∈ runs, run.Lies limit) → (∀ run ∈ added, run.Lies limit) →
        ∀ run ∈ longer, run.Lies limit) ∧
      grown.holds = group.holds := by
  induction added generalizing group runs pool with
  | nil =>
      obtain ⟨rfl, rfl⟩ := pure_eq_done.mp collected
      exact ⟨runs, occupies, by simp, fun _ lie _ => lie, rfl⟩
  | cons run rest ih =>
      obtain ⟨larger, middle, one, remaining⟩ := bind_eq_done.mp collected
      rw [onRefusal_eq_done] at one
      obtain ⟨longer, grows, joins, holds⟩ := occupies.add sound one
      obtain ⟨longest, grown, more, lies, unheld⟩ :=
        ih grows (keeps_add _ _ sound (by rw [one]; rfl)) remaining
      refine ⟨longest, grown, ?_, fun limit runsLie addedLie => ?_, unheld.trans holds⟩
      · rw [more, joins.framesOf_eq, Run.framesOf_cons, List.append_assoc]
      · obtain ⟨runLies, restLie⟩ := List.forall_mem_cons.mp addedLie
        exact lies limit (joins.lies runLies runsLie) restLie

/-- When the descriptors run out, those taken so far are given back. -/
theorem contents_of_addAll_refused (occupies : Occupies before group runs pool)
    (sound : pool.Sound) (refused : group.addAll added pool = .refused cause after) :
    after.contents = before.contents := by
  induction added generalizing group runs pool with
  | nil => cases refused
  | cons run rest ih =>
      rcases bind_eq_refused.mp refused with early | ⟨larger, middle, one, late⟩
      · obtain ⟨middle, unadded, released⟩ := onRefusal_eq_refused.mp early
        obtain rfl := add_refusesFirst _ _ _ trivial unadded
        exact occupies.contents_restored released
      · rw [onRefusal_eq_done] at one
        obtain ⟨longer, grows, _, _⟩ := occupies.add sound one
        exact ih grows (keeps_add _ _ sound (by rw [one]; rfl)) late

end Occupies

theorem occupies_of_ofRuns (sound : pool.Sound) (made : ofRuns added pool = .done group after) :
    ∃ runs, Occupies pool group runs after ∧ Run.framesOf runs = Run.framesOf added ∧
      (∀ limit, (∀ run ∈ added, run.Lies limit) → ∀ run ∈ runs, run.Lies limit) ∧
      group.holds = 0 := by
  obtain ⟨runs, occupies, frames, lies, unheld⟩ := (Occupies.empty pool).addAll sound made
  exact ⟨runs, occupies, frames, fun limit => lies limit (fun _ member => nomatch member), unheld⟩

theorem contents_of_ofRuns_refused (sound : pool.Sound)
    (refused : ofRuns added pool = .refused cause after) : after.contents = pool.contents :=
  (Occupies.empty pool).contents_of_addAll_refused sound refused

end PageGroup

end GuestMemory
