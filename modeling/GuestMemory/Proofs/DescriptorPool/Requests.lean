import GuestMemory.Proofs.Action.Verdicts
import GuestMemory.Proofs.DescriptorPool

/-!
Requests to a pool of descriptors. Whatever is asked of a pool in whatever order, its answers are
those of a map from nodes to runs that has room for so many nodes: in which order nodes are handed
out, given back and handed out again does not show.
-/

namespace GuestMemory.DescriptorPool

open GuestMemory.Action

/-- What can be asked of a pool. -/
inductive Request where
  | allocate (run : Run)
  | get (id : Nat)
  | set (id : Nat) (run : Run)
  | release (id : Nat)
  | inUse
  deriving DecidableEq

inductive Answer where
  | allocated (id : Nat)
  | refused (error : Error)
  | found (run : Run)
  | done
  | count (nodes : Nat)
  deriving DecidableEq

namespace Request

/-- The node that has to be in use. -/
def id? : Request → Option Nat
  | get id | set id _ | release id => some id
  | allocate _ | inUse => none

/-- Serves a request. To be refused is an answer like any other, after which the pool goes on. -/
def serve : Request → Action DescriptorPool Answer
  | allocate run =>
    .settle .allocated (fun cause => .refused cause.error) (DescriptorPool.allocate run)
  | get id => do
    let run ← .inspect (DescriptorPool.get · id)
    return .found run
  | set id run => do
    .update (DescriptorPool.set · id run)
    return .done
  | release id => do
    .update (DescriptorPool.release · id)
    return .done
  | inUse => .read fun pool => .count pool.inUse

end Request

theorem Request.accepts_serve (request : Request) : Accepts request.serve := by
  cases request with
  | allocate range => exact .settle _ _ _
  | get id => exact (Accepts.inspect _).bind fun _ => .pure _
  | set id range | release id => exact (Accepts.update _).bind fun _ => .pure _
  | inUse => exact .read _

/-- What the nodes in use hold. -/
abbrev Contents := Std.ExtTreeMap Nat Run

namespace Contents

/-- How a map of at most `capacity` entries may answer a request, and what the map is then. Only the
node that is handed out is left open. There is no answer to a request for a node not in use. -/
inductive Step (capacity : Nat) (contents : Contents) : Request → Answer → Contents → Prop
  | allocated {run : Run} {id : Nat} (room : contents.size ≠ capacity) (fresh : id ∉ contents) :
      Step capacity contents (.allocate run) (.allocated id) (contents.insert id run)
  | full {run : Run} (full : contents.size = capacity) :
      Step capacity contents (.allocate run) (.refused .outOfResource) contents
  | got {id : Nat} {run : Run} (holds : contents[id]? = some run) :
      Step capacity contents (.get id) (.found run) contents
  | set {id : Nat} {run : Run} (used : id ∈ contents) :
      Step capacity contents (.set id run) .done (contents.insert id run)
  | released {id : Nat} (used : id ∈ contents) :
      Step capacity contents (.release id) .done (contents.erase id)
  | counted : Step capacity contents .inUse (.count contents.size) contents

/-- Requests and their answers one after the other, from one map to another. -/
inductive Run (capacity : Nat) : Contents → List Request → List Answer → Contents → Prop
  | nil (contents : Contents) : Run capacity contents [] [] contents
  | cons {contents middle final : Contents} {request : Request} {answer : Answer}
      {requests : List Request} {answers : List Answer}
      (step : Step capacity contents request answer middle)
      (rest : Run capacity middle requests answers final) :
      Run capacity contents (request :: requests) (answer :: answers) final

end Contents

variable {pool after : DescriptorPool} {contents further : Contents}
variable {range : GuestMemory.Run} {id capacity : Nat} {cause : Refusal}
variable {request : Request} {requests : List Request} {answer : Answer} {answers : List Answer}

/-- What a node holds after a request, by what it held before and how the request was answered. -/
def heldAfter (id : Nat) (held : Option GuestMemory.Run) : Request → Answer → Option GuestMemory.Run
  | .allocate run, .allocated other | .set other run, .done => if other = id then some run else held
  | .release other, .done => if other = id then none else held
  | _, _ => held

/-- The run stored last in a node, by the request that it was handed out for or by a later one, if
the node has not been given back since. -/
def lastStored (id : Nat) (history : List (Request × Answer)) : Option GuestMemory.Run :=
  history.foldl (fun held event => heldAfter id held event.1 event.2) none

/-- A node that is asked for by its number is in use. -/
theorem Contents.Step.used (step : Contents.Step capacity contents request answer further)
    (names : request.id? = some id) : id ∈ contents := by
  cases step with
  | allocated | full | counted => cases names
  | got holds =>
      cases names
      exact Std.ExtTreeMap.isSome_getElem?_iff_mem.mp (by rw [holds]; rfl)
  | set used | released used =>
      cases names
      exact used

theorem Contents.Step.heldAfter_eq (step : Contents.Step capacity contents request answer further)
    (id : Nat) : further[id]? = heldAfter id contents[id]? request answer := by
  cases step with
  | allocated | set => exact getElem?_insert_of_nat _ _ _ _
  | released => exact getElem?_erase_of_nat _ _ _
  | full | got | counted => rfl

theorem Contents.Run.heldAfter_eq (ran : Contents.Run capacity contents requests answers further)
    (id : Nat) : further[id]? =
      (requests.zip answers).foldl (fun held event => heldAfter id held event.1 event.2)
        contents[id]? := by
  induction ran with
  | nil => rfl
  | cons step _ ih => rw [ih, step.heldAfter_eq, List.zip_cons_cons, List.foldl_cons]

theorem allocate_of_full (full : pool.free = []) :
    allocate range pool = .refused (.descriptorsExhausted pool.capacity) pool := by
  rw [allocate, full]

theorem allocate_of_free {free : List Nat} (listed : pool.free = id :: free) :
    allocate range pool = .done id { pool with nodes := pool.nodes.insert id range, free } := by
  rw [allocate, listed]

/-- The nodes in use hold what the map does, and no node of the pool is lost. -/
structure Represents (capacity : Nat) (pool : DescriptorPool) (contents : Contents) : Prop where
  sound : pool.Sound
  capacity_eq : pool.capacity = capacity
  nodes_eq : pool.nodes = contents
  whole : contents.size + pool.free.length = capacity

namespace Represents

theorem of_ofCapacity (few : capacity < idLimit) :
    (ofCapacity capacity).Represents capacity ∅ where
  sound := sound_ofCapacity capacity
  capacity_eq := rfl
  nodes_eq := rfl
  whole := by
    rw [length_free_ofCapacity, Nat.mod_eq_of_lt few]
    exact Nat.zero_add capacity

theorem contains_iff (represents : pool.Represents capacity contents) :
    pool.nodes.contains id = true ↔ id ∈ contents := by
  rw [represents.nodes_eq, Std.ExtTreeMap.contains_iff_mem]

theorem mem_iff (represents : pool.Represents capacity contents) :
    id ∈ contents ↔ pool.nodes[id]? ≠ none := by
  rw [← represents.contains_iff, Std.ExtTreeMap.contains_eq_isSome_getElem?,
    Option.isSome_iff_ne_none]

theorem inUse_eq (represents : pool.Represents capacity contents) : pool.inUse = contents.size := by
  have size : pool.nodes.size = contents.size := by rw [represents.nodes_eq]
  rw [← size, inUse_eq_size (by rw [size, represents.whole, represents.capacity_eq])]

theorem allocate (represents : pool.Represents capacity contents)
    (allocated : DescriptorPool.allocate range pool = .done id after) :
    contents.size ≠ capacity ∧ id ∉ contents ∧
      after.Represents capacity (contents.insert id range) := by
  have fresh : id ∉ contents := fun used =>
    represents.mem_iff.mp used (represents.sound.fresh allocated)
  have sound := represents.sound.allocate allocated
  have whole := represents.whole
  obtain ⟨free, listed, rfl⟩ := allocate_eq_done allocated
  rw [listed, List.length_cons] at whole
  have longer : (contents.insert id range).size = contents.size + 1 := by
    simp [Std.ExtTreeMap.size_insert, fresh]
  refine ⟨by omega, fresh, sound, represents.capacity_eq, by rw [represents.nodes_eq], ?_⟩
  rw [longer, ← whole]
  exact Nat.add_right_comm _ _ _

/-- A pool that turns a request down has no free node, and is left as it is. -/
theorem full (represents : pool.Represents capacity contents)
    (refused : DescriptorPool.allocate range pool = .refused cause after) :
    contents.size = capacity ∧ cause.error = .outOfResource ∧ after = pool := by
  have whole := represents.whole
  cases listed : pool.free with
  | nil =>
      rw [allocate_of_full listed] at refused
      cases refused
      rw [listed] at whole
      exact ⟨whole, rfl, rfl⟩
  | cons id free =>
      rw [allocate_of_free listed] at refused
      cases refused

theorem set (represents : pool.Represents capacity contents)
    (stored : pool.set id range = .ok after) :
    id ∈ contents ∧ after.Represents capacity (contents.insert id range) := by
  have sound := represents.sound.set stored
  obtain ⟨used, rfl⟩ := set_eq_ok stored
  rw [← represents.mem_iff] at used
  have same : (contents.insert id range).size = contents.size := by
    simp [Std.ExtTreeMap.size_insert, used]
  exact ⟨used, sound, represents.capacity_eq, by rw [represents.nodes_eq],
    same ▸ represents.whole⟩

theorem release (represents : pool.Represents capacity contents)
    (released : pool.release id = .ok after) :
    id ∈ contents ∧ after.Represents capacity (contents.erase id) := by
  have sound := represents.sound.release released
  have whole := represents.whole
  obtain ⟨used, rfl⟩ := release_eq_ok released
  rw [← represents.mem_iff] at used
  have shorter : (contents.erase id).size = contents.size - 1 := by
    simp [Std.ExtTreeMap.size_erase, used]
  have nonempty : contents.size ≠ 0 := fun none => by
    rw [Std.ExtTreeMap.eq_empty_iff_size_eq_zero.mpr none] at used
    exact Std.ExtTreeMap.not_mem_empty used
  refine ⟨used, sound, represents.capacity_eq, by rw [represents.nodes_eq], ?_⟩
  rw [shorter, List.length_cons]
  omega

/-- The pool answers a request like the map. -/
theorem step (represents : pool.Represents capacity contents)
    (served : request.serve pool = .done answer after) :
    ∃ further, Contents.Step capacity contents request answer further ∧
      after.Represents capacity further := by
  cases request with
  | allocate range =>
      rcases settle_eq_done.mp served with ⟨id, done, rfl⟩ | ⟨cause, refused, rfl⟩
      · obtain ⟨room, fresh, reached⟩ := represents.allocate done
        exact ⟨_, .allocated room fresh, reached⟩
      · obtain ⟨full, error, rfl⟩ := represents.full refused
        rw [error]
        exact ⟨contents, .full full, represents⟩
  | get id =>
      obtain ⟨range, middle, inspected, ended⟩ := bind_eq_done.mp served
      obtain ⟨rfl, rfl⟩ := pure_eq_done.mp ended
      obtain ⟨got, rfl⟩ := inspect_eq_done.mp inspected
      have holds := get_eq_ok got
      rw [represents.nodes_eq] at holds
      exact ⟨contents, .got holds, represents⟩
  | set id range =>
      obtain ⟨_, middle, updated, ended⟩ := bind_eq_done.mp served
      obtain ⟨rfl, rfl⟩ := pure_eq_done.mp ended
      obtain ⟨used, reached⟩ := represents.set (update_eq_done.mp updated)
      exact ⟨_, .set used, reached⟩
  | release id =>
      obtain ⟨_, middle, updated, ended⟩ := bind_eq_done.mp served
      obtain ⟨rfl, rfl⟩ := pure_eq_done.mp ended
      obtain ⟨used, reached⟩ := represents.release (update_eq_done.mp updated)
      exact ⟨_, .released used, reached⟩
  | inUse =>
      rw [Request.serve, read_eq_done, represents.inUse_eq] at served
      obtain ⟨rfl, rfl⟩ := served
      exact ⟨contents, .counted, represents⟩

theorem run (represents : pool.Represents capacity contents)
    (ran : requests.mapM Request.serve pool = .done answers after) :
    ∃ further, Contents.Run capacity contents requests answers further ∧
      after.Represents capacity further :=
  mapM_simulates .nil .cons Represents.step represents ran

theorem serve_exists (represents : pool.Represents capacity contents) (request : Request)
    (used : ∀ id, request.id? = some id → id ∈ contents) :
    ∃ answer after, request.serve pool = .done answer after := by
  cases request with
  | allocate range =>
      cases listed : pool.free with
      | nil => exact ⟨_, _, settle_eq_done.mpr (.inr ⟨_, allocate_of_full listed, rfl⟩)⟩
      | cons id free => exact ⟨_, _, settle_eq_done.mpr (.inl ⟨id, allocate_of_free listed, rfl⟩)⟩
  | get id =>
      obtain ⟨range, holds⟩ := Option.ne_none_iff_exists'.mp (represents.mem_iff.mp (used id rfl))
      have got : pool.get id = .ok range := by rw [get, holds]
      exact ⟨_, _, bind_eq_done.mpr ⟨range, pool, inspect_eq_done.mpr ⟨got, rfl⟩, rfl⟩⟩
  | set id range =>
      have stored : pool.set id range = .ok _ :=
        if_pos (represents.contains_iff.mpr (used id rfl))
      exact ⟨_, _, bind_eq_done.mpr ⟨(), _, update_eq_done.mpr stored, rfl⟩⟩
  | release id =>
      have released : pool.release id = .ok _ :=
        if_pos (represents.contains_iff.mpr (used id rfl))
      exact ⟨_, _, bind_eq_done.mpr ⟨(), _, update_eq_done.mpr released, rfl⟩⟩
  | inUse => exact ⟨_, _, rfl⟩

/-- A pool goes on for good unless it is asked for a node that is not in use. -/
theorem serve_eq_fault_iff (represents : pool.Represents capacity contents) :
    (∃ fault, request.serve pool = .fault fault) ↔ ∃ id, request.id? = some id ∧ id ∉ contents := by
  constructor
  · rintro ⟨fault, stopped⟩
    by_contra none
    obtain ⟨answer, after, served⟩ := represents.serve_exists request
      fun id names => by_contra fun unused => none ⟨id, names, unused⟩
    cases stopped.symm.trans served
  · rintro ⟨id, names, unused⟩
    cases ended : request.serve pool with
    | done answer after =>
        obtain ⟨_, step, _⟩ := represents.step ended
        exact absurd (step.used names) unused
    | refused cause after => exact absurd ended (request.accepts_serve _ _ _)
    | fault fault => exact ⟨fault, rfl⟩

/-- A request that is turned down changes nothing. -/
theorem eq_of_serve_refused (represents : pool.Represents capacity contents) {error : Error}
    (served : request.serve pool = .done (.refused error) after) : after = pool := by
  cases request with
  | allocate range =>
      rcases settle_eq_done.mp served with ⟨_, _, done⟩ | ⟨cause, refused, _⟩
      · cases done
      · exact (represents.full refused).2.2
  | get | set | release =>
      obtain ⟨_, _, _, ended⟩ := bind_eq_done.mp served
      cases (pure_eq_done.mp ended).1
  | inUse =>
      rw [Request.serve, read_eq_done] at served
      cases served.1

end Represents

/-- Whatever has been asked of a new pool whose nodes can all be numbered, it has answered like a
map that is empty at first and has room for as many nodes as the pool has. Each node in use holds
the run stored last in it, the next request stops the pool exactly if it asks for a node that is
not in use, and no node is lost. -/
theorem serves_as_bounded_map (few : capacity < idLimit) (requests : List Request)
    (ran : requests.mapM Request.serve (ofCapacity capacity) = .done answers after) :
    ∃ contents, Contents.Run capacity ∅ requests answers contents ∧
      (∀ id : Nat, contents[id]? = lastStored id (requests.zip answers)) ∧
      (∀ request, (∃ fault, Request.serve request after = .fault fault) ↔
        ∃ id, request.id? = some id ∧ id ∉ contents) ∧
      (∀ request error reached, Request.serve request after = .done (.refused error) reached →
        reached = after) ∧
      after.inUse = contents.size ∧ contents.size + after.free.length = capacity := by
  obtain ⟨contents, run, represents⟩ := (Represents.of_ofCapacity few).run ran
  refine ⟨contents, run, fun id => ?_, fun request => represents.serve_eq_fault_iff,
    fun request error reached => represents.eq_of_serve_refused, represents.inUse_eq,
    represents.whole⟩
  rw [run.heldAfter_eq, Std.ExtTreeMap.getElem?_empty]
  rfl

/-- A node is given back, handed out again for another run and keeps that while the other node
changes; a third run does not fit. -/
def sampleRequests : List Request := [
  .allocate ⟨0x1000, 1⟩, .allocate ⟨0x5000, 2⟩, .set 0 ⟨0x1000, 3⟩, .release 0,
  .allocate ⟨0x9000, 4⟩, .set 1 ⟨0x5000, 6⟩, .get 0, .allocate ⟨0x3000, 1⟩, .release 1, .inUse]

theorem serves_as_bounded_map_sample : ∃ answers after contents,
    sampleRequests.mapM Request.serve (ofCapacity 2) = .done answers after ∧
      Contents.Run 2 ∅ sampleRequests answers contents ∧
      answers = [.allocated 0, .allocated 1, .done, .done, .allocated 0, .done, .found ⟨0x9000, 4⟩,
        .refused .outOfResource, .done, .count 1] ∧
      contents[0]? = some ⟨0x9000, 4⟩ ∧ contents[1]? = none ∧
      ∃ fault, (Request.release 1).serve after = .fault fault := by
  have answered : (sampleRequests.mapM Request.serve (ofCapacity 2)).verdict =
      .ok [.allocated 0, .allocated 1, .done, .done, .allocated 0, .done, .found ⟨0x9000, 4⟩,
        .refused .outOfResource, .done, .count 1] := by
    decide +kernel
  obtain ⟨after, ran⟩ := Outcome.verdict_eq_ok.mp answered
  obtain ⟨contents, run, stored, stops, _⟩ :=
    serves_as_bounded_map (by decide) sampleRequests ran
  have unused : contents[1]? = none := (stored 1).trans (by decide)
  refine ⟨_, after, contents, ran, run, rfl, (stored 0).trans (by decide), unused,
    (stops (.release 1)).mpr ⟨1, rfl, fun used => ?_⟩⟩
  rw [← Std.ExtTreeMap.isSome_getElem?_iff_mem, unused] at used
  cases used

end GuestMemory.DescriptorPool
