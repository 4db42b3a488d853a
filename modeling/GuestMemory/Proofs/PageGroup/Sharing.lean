import GuestMemory.Proofs.Describing
import GuestMemory.Proofs.Resources

/-!
Page groups that share a pool of descriptors. Each descriptor in use belongs to one group, so what
happens to a group leaves the runs of the others alone, and the pool is used up exactly when the
groups have as many runs as it has nodes.
-/

namespace GuestMemory

open GuestMemory.Action

namespace PageGroup

variable {group grown : PageGroup} {groups others : List PageGroup} {runs front : List Run}
variable {run last : Run} {before pool after : DescriptorPool} {capacity : Nat}

/-- The run needs a descriptor of its own behind the others. -/
def Opens (runs : List Run) (run : Run) : Prop :=
  run.pages ≠ 0 ∧ ∀ last, runs.getLast? = some last → last.stop ≠ run.address

/-- The runs with another behind them, which makes the last one longer where it follows that. -/
def appended (runs : List Run) (run : Run) : List Run :=
  if run.pages = 0 then
    runs
  else
    match runs.getLast? with
    | none => [run]
    | some last =>
      if last.stop = run.address then
        runs.dropLast ++ [{ last with pages := last.pages + run.pages }]
      else
        runs ++ [run]

theorem appended_of_opens (opens : Opens runs run) : appended runs run = runs ++ [run] := by
  rw [appended, if_neg opens.1]
  split
  · rename_i none
    rw [List.getLast?_eq_none_iff.mp none, List.nil_append]
  · rename_i last ends
    rw [if_neg (opens.2 last ends)]

theorem appended_of_follows (nonempty : run.pages ≠ 0) (follows : last.stop = run.address) :
    appended (front ++ [last]) run =
      front ++ [{ last with pages := last.pages + run.pages }] := by
  simp [appended, nonempty, follows]

namespace Occupies

/-- A run behind the last one makes that longer, or needs a descriptor where it does not follow. -/
theorem add_behind (occupies : Occupies before group (front ++ [last]) pool) {id : Nat}
    (listed : group.descriptors.getLast? = some id) (got : pool.get id = .ok last)
    (unheld : group.holds = 0) (nonempty : run.pages ≠ 0)
    (whole : ∀ fault, group.add run pool ≠ .fault fault) :
    last.stop = run.address ∧ (∃ after, group.add run pool = .done group after ∧
        Occupies before group (front ++ [{ last with pages := last.pages + run.pages }]) after) ∨
      last.stop ≠ run.address ∧ group.add run pool = group.addDescriptor run pool := by
  have adding : group.add run pool = (do
      if ← .check (last.isFollowedBy run.address) then
        let longer ← .check (last.extend run.pages)
        .update (·.set id longer)
        return group
      else
        group.addDescriptor run : Action DescriptorPool PageGroup) pool := by
    simp only [PageGroup.add, unheld, ne_eq, not_true_eq_false, ↓reduceIte, nonempty, listed,
      bind_apply, inspect_apply, got, check_ok, pure_apply]
  rw [adding] at whole ⊢
  cases followed : last.isFollowedBy run.address with
  | error fault => exact absurd (by rw [followed]; rfl) (whole fault)
  | ok follows =>
      obtain ⟨_, rfl⟩ := Run.isFollowedBy_eq_ok followed
      by_cases joins : last.stop = run.address
      · cases extended : last.extend run.pages with
        | error fault => exact absurd (by simp [followed, joins, extended]) (whole fault)
        | ok longer =>
            obtain ⟨after, stored⟩ : ∃ after, pool.set id longer = .ok after :=
              DescriptorPool.set_exists (occupies.used (List.mem_of_getLast? listed))
            obtain ⟨_, same, lengthened⟩ := occupies.lengthen listed got stored
            obtain ⟨rfl, _⟩ := List.append_inj' same rfl
            obtain rfl := Run.extend_eq_ok extended
            refine .inl ⟨joins, after, ?_, lengthened⟩
            simp only [check_ok, bind_apply, pure_apply, joins, decide_true, ↓reduceIte, update,
              stored]
      · exact .inr ⟨joins, by simp [joins]⟩

/-- What adding a run can do when no fault stops it. -/
theorem add_cases (occupies : Occupies before group runs pool)
    (whole : ∀ fault, group.add run pool ≠ .fault fault) :
    group.holds = 0 ∧
      (¬ Opens runs run ∧ (∃ after, group.add run pool = .done group after ∧
          Occupies before group (appended runs run) after) ∨
        Opens runs run ∧ group.add run pool = group.addDescriptor run pool) := by
  by_cases unheld : group.holds = 0
  swap
  · exact absurd (by simp [PageGroup.add, unheld]) (whole .groupGrownWhileHeld)
  refine ⟨unheld, ?_⟩
  by_cases none : run.pages = 0
  · refine .inl ⟨fun opens => opens.1 none, pool, ?_, by rwa [appended, if_pos none]⟩
    simp [PageGroup.add, unheld, none]
  cases listed : group.descriptors.getLast? with
  | none =>
      have held := occupies.held
      rw [PageGroup.runs, List.getLast?_eq_none_iff.mp listed] at held
      cases held
      refine .inr ⟨⟨none, fun last ends => by cases ends⟩, ?_⟩
      simp [PageGroup.add, unheld, none, listed]
  | some id =>
      obtain ⟨front, last, rfl, got⟩ := occupies.last listed
      rcases occupies.add_behind listed got unheld none whole with
        ⟨joins, after, added, grows⟩ | ⟨apart, taken⟩
      · refine .inl ⟨fun opens => opens.2 last (by simp) joins, after, added, ?_⟩
        rwa [appended_of_follows none joins]
      · refine .inr ⟨⟨none, fun other ends => ?_⟩, taken⟩
        obtain rfl : last = other := by simpa using ends
        exact apart

end Occupies

/-- What the descriptors of the group hold. -/
def contents (pool : DescriptorPool) (group : PageGroup) : List Run :=
  group.descriptors.filterMap (pool.nodes[·]?)

theorem runs_eq_contents (used : ∀ id ∈ group.descriptors, pool.nodes[id]? ≠ none) :
    group.runs pool = .ok (group.contents pool) := by
  obtain ⟨descriptors, holds⟩ := group
  simp only [PageGroup.runs, contents] at *
  induction descriptors with
  | nil => rfl
  | cons id rest ih =>
      obtain ⟨here, others⟩ := List.forall_mem_cons.mp used
      obtain ⟨run, found⟩ := Option.ne_none_iff_exists'.mp here
      simp only [List.mapM_cons, DescriptorPool.get, found, Checked.ok_bind, ih others,
        Checked.pure_eq, List.filterMap_cons]

theorem contents_congr (same : ∀ id ∈ group.descriptors, after.nodes[id]? = pool.nodes[id]?) :
    group.contents after = group.contents pool :=
  List.filterMap_congr same

/-- Each numbered node of the pool is free or belongs to one of the groups. -/
structure Divided (capacity : Nat) (groups : List PageGroup) (pool : DescriptorPool) : Prop where
  capacity_eq : pool.capacity = capacity
  nodes_perm : (groups.flatMap (·.descriptors) ++ pool.free).Perm
    (List.range (capacity % DescriptorPool.idLimit))
  used_iff : ∀ id : Nat, pool.nodes[id]? ≠ none ↔ id ∈ groups.flatMap (·.descriptors)

theorem divided_ofCapacity (capacity : Nat) : Divided capacity [] (.ofCapacity capacity) where
  capacity_eq := rfl
  nodes_perm := .refl _
  used_iff := fun id => by simp [DescriptorPool.ofCapacity]

namespace Divided

theorem perm (divided : Divided capacity groups pool) (same : groups.Perm others) :
    Divided capacity others pool where
  capacity_eq := divided.capacity_eq
  nodes_perm := ((same.symm.flatMap_right _).append_right _).trans divided.nodes_perm
  used_iff := fun id => (divided.used_iff id).trans (same.flatMap_right _).mem_iff

theorem distinct (divided : Divided capacity groups pool) :
    (groups.flatMap (·.descriptors) ++ pool.free).Nodup :=
  divided.nodes_perm.nodup_iff.mpr List.nodup_range

theorem sound (divided : Divided capacity groups pool) : pool.Sound := by
  obtain ⟨_, distinct, disjoint⟩ := List.nodup_append'.mp divided.distinct
  exact ⟨distinct, fun id free => by_contra fun used =>
    disjoint ((divided.used_iff id).mp used) free⟩

theorem used (divided : Divided capacity groups pool) (member : group ∈ groups) :
    ∀ id ∈ group.descriptors, pool.nodes[id]? ≠ none := fun id listed =>
  (divided.used_iff id).mpr (List.mem_flatMap.mpr ⟨group, member, listed⟩)

theorem runs_eq (divided : Divided capacity groups pool) (member : group ∈ groups) :
    group.runs pool = .ok (group.contents pool) :=
  runs_eq_contents (divided.used member)

theorem length_contents (divided : Divided capacity groups pool) (member : group ∈ groups) :
    (group.contents pool).length = group.descriptors.length :=
  List.Forall₂.length_eq (Checked.mapM_eq_ok.mp (divided.runs_eq member)) |>.symm

theorem length_eq (divided : Divided capacity groups pool) :
    (groups.map (·.descriptors.length)).sum + pool.free.length =
      capacity % DescriptorPool.idLimit := by
  rw [← List.length_flatMap, ← List.length_append, divided.nodes_perm.length_eq, List.length_range]

/-- There are as many nodes in use as the groups have descriptors, if all nodes are numbered. -/
theorem inUse_eq (divided : Divided capacity groups pool)
    (few : capacity < DescriptorPool.idLimit) :
    pool.inUse = (groups.map (·.descriptors.length)).sum := by
  have whole := divided.length_eq
  rw [Nat.mod_eq_of_lt few] at whole
  rw [DescriptorPool.inUse, divided.capacity_eq]
  omega

theorem full_iff (divided : Divided capacity groups pool) :
    pool.free = [] ↔ pool.inUse = capacity := by
  have whole := divided.length_eq
  have fewer := Nat.mod_le capacity DescriptorPool.idLimit
  rw [← List.length_eq_zero_iff, DescriptorPool.inUse, divided.capacity_eq]
  omega

theorem create (divided : Divided capacity groups pool) :
    Divided capacity (PageGroup.empty :: groups) pool where
  capacity_eq := divided.capacity_eq
  nodes_perm := divided.nodes_perm
  used_iff := divided.used_iff

/-- How often a group holds its frames does not concern its nodes. -/
theorem hold (divided : Divided capacity (group :: others) pool) (holds : Nat) :
    Divided capacity ({ group with holds } :: others) pool where
  capacity_eq := divided.capacity_eq
  nodes_perm := divided.nodes_perm
  used_iff := divided.used_iff

/-- A group gives its nodes back. -/
theorem leave (divided : Divided capacity (group :: others) pool)
    (released : group.releaseDescriptors pool = .ok after) :
    Divided capacity others after ∧
      ∀ other ∈ others, other.contents after = other.contents pool := by
  obtain ⟨same, freed⟩ := free_of_releaseDescriptors released
  have nodes := nodes_of_releaseDescriptors released
  have distinct := divided.distinct
  rw [List.flatMap_cons, List.append_assoc] at distinct
  obtain ⟨_, _, disjoint⟩ := List.nodup_append'.mp distinct
  refine ⟨⟨same.trans divided.capacity_eq, ?_, fun id => ?_⟩, fun other member => ?_⟩
  · refine (freed.append_left _).trans (.trans ?_ divided.nodes_perm)
    rw [List.flatMap_cons, List.append_assoc]
    exact List.perm_append_comm_assoc _ _ _
  · rw [nodes]
    split
    · rename_i listed
      exact iff_of_false (by simp) fun member => disjoint listed (List.mem_append_left _ member)
    · rename_i absent
      rw [divided.used_iff, List.flatMap_cons, List.mem_append, or_iff_right absent]
  · refine contents_congr fun id listed => ?_
    rw [nodes, if_neg]
    exact fun own => disjoint own
      (List.mem_append_left _ (List.mem_flatMap.mpr ⟨other, member, listed⟩))

/-- A group that has taken its nodes from a pool joins the groups that were there. -/
theorem join (divided : Divided capacity others before)
    (occupies : Occupies before grown runs after) :
    Divided capacity (grown :: others) after ∧
      ∀ other ∈ others, other.contents after = other.contents before := by
  refine ⟨⟨occupies.capacity_eq.trans divided.capacity_eq, ?_, fun id => ?_⟩,
    fun other member => contents_congr fun id listed => occupies.others id fun own => ?_⟩
  · rw [List.flatMap_cons, List.append_assoc]
    exact (List.perm_append_comm_assoc _ _ _).trans
      ((occupies.free_perm.append_left _).trans divided.nodes_perm)
  · rw [List.flatMap_cons, List.mem_append]
    by_cases own : id ∈ grown.descriptors
    · exact iff_of_true (occupies.used own) (.inl own)
    · rw [occupies.others id own, divided.used_iff, or_iff_right own]
  · exact divided.used member id listed (occupies.fresh id own)

/-- The nodes of a group are those it has taken from the pool that it would leave behind. -/
theorem occupies (divided : Divided capacity (group :: others) pool)
    (released : group.releaseDescriptors pool = .ok before) :
    Occupies before group (group.contents pool) pool := by
  obtain ⟨same, freed⟩ := free_of_releaseDescriptors released
  have nodes := nodes_of_releaseDescriptors released
  have distinct := divided.distinct
  rw [List.flatMap_cons, List.append_assoc] at distinct
  exact {
    distinct := (List.nodup_append'.mp distinct).1
    fresh := fun id own => by rw [nodes, if_pos own]
    held := divided.runs_eq List.mem_cons_self
    others := fun id absent => by rw [nodes, if_neg absent]
    capacity_eq := same.symm
    free_perm := freed.symm }

theorem releaseDescriptors_exists (divided : Divided capacity (group :: others) pool) :
    ∃ after, group.releaseDescriptors pool = .ok after := by
  have distinct := divided.distinct
  rw [List.flatMap_cons, List.append_assoc] at distinct
  exact PageGroup.releaseDescriptors_exists (List.nodup_append'.mp distinct).1
    (divided.used List.mem_cons_self)

/-- A run that is added to a group goes behind the runs of that, and changes no other. -/
theorem add (divided : Divided capacity (group :: others) pool)
    (added : group.add run pool = .done grown after) :
    group.holds = 0 ∧ grown.holds = 0 ∧
      ¬ (Opens (group.contents pool) run ∧ pool.inUse = capacity) ∧
      Divided capacity (grown :: others) after ∧
      grown.contents after = appended (group.contents pool) run ∧
      ∀ other ∈ others, other.contents after = other.contents pool := by
  obtain ⟨before, released⟩ := divided.releaseDescriptors_exists
  obtain ⟨without, kept⟩ := divided.leave released
  have occupies := divided.occupies released
  have joined {runs : List Run} (grows : Occupies before grown runs after) :
      Divided capacity (grown :: others) after ∧ grown.contents after = runs ∧
        ∀ other ∈ others, other.contents after = other.contents pool := by
    obtain ⟨whole, same⟩ := without.join grows
    refine ⟨whole, ?_, fun other member => (same other member).trans (kept other member)⟩
    exact Except.ok.inj ((whole.runs_eq List.mem_cons_self).symm.trans grows.held)
  have whole (fault : Fault) : group.add run pool ≠ .fault fault := by
    rw [added]
    exact nofun
  obtain ⟨unheld, ⟨closed, reached, done, grows⟩ | ⟨opens, taken⟩⟩ := occupies.add_cases whole
  · obtain ⟨rfl, rfl⟩ := Outcome.done.inj (added.symm.trans done)
    exact ⟨unheld, unheld, fun both => closed both.1, joined grows⟩
  · rw [added] at taken
    obtain ⟨grows, holds⟩ := occupies.addDescriptor divided.sound taken.symm
    refine ⟨unheld, holds.trans unheld, fun both => ?_, ?_⟩
    · rw [addDescriptor_of_full (divided.full_iff.mpr both.2)] at taken
      cases taken
    · rw [appended_of_opens opens]
      exact joined grows

/-- Only a run that needs a descriptor is turned down, and only when there is none left. -/
theorem add_refused {cause : Refusal} (divided : Divided capacity (group :: others) pool)
    (refused : group.add run pool = .refused cause after) :
    group.holds = 0 ∧ Opens (group.contents pool) run ∧ pool.inUse = capacity ∧
      cause.error = .outOfResource ∧ after = pool := by
  obtain ⟨before, released⟩ := divided.releaseDescriptors_exists
  have occupies := divided.occupies released
  have whole (fault : Fault) : group.add run pool ≠ .fault fault := by
    rw [refused]
    exact nofun
  obtain ⟨unheld, ⟨_, reached, done, _⟩ | ⟨opens, taken⟩⟩ := occupies.add_cases whole
  · cases refused.symm.trans done
  · rw [refused] at taken
    cases left : pool.free with
    | nil =>
        rw [addDescriptor_of_full left] at taken
        cases taken
        exact ⟨unheld, opens, divided.full_iff.mp left, rfl, rfl⟩
    | cons id free =>
        obtain ⟨grown, middle, done, _⟩ :
            ∃ grown middle, group.addDescriptor run pool = .done grown middle ∧ _ :=
          addDescriptor_of_free left
        rw [done] at taken
        cases taken

end Divided

end PageGroup

end GuestMemory
