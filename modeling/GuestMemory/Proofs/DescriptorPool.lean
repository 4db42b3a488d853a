import GuestMemory.DescriptorPool
import GuestMemory.Proofs.Action.Effects
import GuestMemory.Proofs.Directory
import Mathlib.Data.Multiset.Basic

/-!
The descriptor pool: a node is in use or free, never both.
-/

namespace GuestMemory.DescriptorPool

variable {pool after : DescriptorPool} {run found : Run} {id : Nat}

/-- Every free node is listed once and holds nothing. -/
structure Sound (pool : DescriptorPool) : Prop where
  distinct : pool.free.Nodup
  unused : ∀ id ∈ pool.free, pool.nodes[id]? = none

/-- The pool but for the order in which its free nodes are handed out. -/
def contents (pool : DescriptorPool) : Nat × Std.ExtTreeMap Nat Run × Multiset Nat :=
  (pool.capacity, pool.nodes, pool.free)

theorem contents_eq_iff : after.contents = pool.contents ↔
    after.capacity = pool.capacity ∧ after.nodes = pool.nodes ∧ after.free.Perm pool.free := by
  rw [contents, contents, Prod.mk.injEq, Prod.mk.injEq, Multiset.coe_eq_coe]

theorem nodes_eq_of_contents (same : after.contents = pool.contents) : after.nodes = pool.nodes :=
  (contents_eq_iff.mp same).2.1

theorem inUse_of_contents (same : after.contents = pool.contents) : after.inUse = pool.inUse := by
  obtain ⟨capacity, _, free⟩ := contents_eq_iff.mp same
  rw [inUse, inUse, capacity, free.length_eq]

/-- The nodes that are not free are those that hold something, if none is lost. -/
theorem inUse_eq_size (whole : pool.nodes.size + pool.free.length = pool.capacity) :
    pool.inUse = pool.nodes.size := by
  rw [inUse]
  omega

theorem length_free_ofCapacity (capacity : Nat) :
    (ofCapacity capacity).free.length = capacity % idLimit :=
  List.length_range

theorem inUse_ofCapacity {capacity : Nat} (few : capacity < idLimit) :
    (ofCapacity capacity).inUse = 0 := by
  rw [inUse, length_free_ofCapacity, Nat.mod_eq_of_lt few]
  exact Nat.sub_self capacity

theorem sound_ofCapacity (capacity : Nat) : (ofCapacity capacity).Sound where
  distinct := List.nodup_range
  unused := fun _ _ => Std.ExtTreeMap.getElem?_empty

theorem allocate_eq_done (allocated : allocate run pool = .done id after) :
    ∃ free, pool.free = id :: free ∧
      after = { pool with nodes := pool.nodes.insert id run, free } := by
  rw [allocate] at allocated
  split at allocated
  · cases allocated
  · rename_i first free listed
    cases allocated
    exact ⟨free, listed, rfl⟩

theorem allocate_eq_refused {cause : Refusal} (refused : allocate run pool = .refused cause after) :
    after = pool := by
  rw [allocate] at refused
  split at refused
  · cases refused
    rfl
  · cases refused

theorem get_eq_ok (got : pool.get id = .ok found) : pool.nodes[id]? = some found := by
  rw [get] at got
  split at got
  · cases got
  · rename_i stored
    rw [stored, Except.ok.inj got]

theorem set_eq_ok (stored : pool.set id run = .ok after) :
    pool.nodes[id]? ≠ none ∧ after = { pool with nodes := pool.nodes.insert id run } := by
  rw [set] at stored
  split at stored
  · rename_i used
    rw [Std.ExtTreeMap.contains_eq_isSome_getElem?] at used
    exact ⟨Option.isSome_iff_ne_none.mp used, (Except.ok.inj stored).symm⟩
  · cases stored

theorem release_eq_ok (released : pool.release id = .ok after) :
    pool.nodes[id]? ≠ none ∧
      after = { pool with nodes := pool.nodes.erase id, free := id :: pool.free } := by
  rw [release] at released
  split at released
  · rename_i used
    rw [Std.ExtTreeMap.contains_eq_isSome_getElem?] at used
    exact ⟨Option.isSome_iff_ne_none.mp used, (Except.ok.inj released).symm⟩
  · cases released

namespace Sound

theorem fresh (sound : pool.Sound) (allocated : allocate run pool = .done id after) :
    pool.nodes[id]? = none := by
  obtain ⟨free, listed, _⟩ := allocate_eq_done allocated
  exact sound.unused id (by rw [listed]; exact List.mem_cons_self)

theorem allocate (sound : pool.Sound) (allocated : pool.allocate run = .done id after) :
    after.Sound := by
  obtain ⟨free, listed, rfl⟩ := allocate_eq_done allocated
  have distinct := sound.distinct
  have unused := sound.unused
  rw [listed] at distinct unused
  obtain ⟨absent, distinct⟩ := List.nodup_cons.mp distinct
  refine ⟨distinct, fun other member => ?_⟩
  have differs : id ≠ other := fun same => absent (same ▸ member)
  rw [getElem?_insert_of_nat, if_neg differs]
  exact unused other (List.mem_cons_of_mem _ member)

theorem set (sound : pool.Sound) (stored : pool.set id run = .ok after) : after.Sound := by
  obtain ⟨used, rfl⟩ := set_eq_ok stored
  refine ⟨sound.distinct, fun other member => ?_⟩
  have differs : id ≠ other := fun same => used (same ▸ sound.unused other member)
  rw [getElem?_insert_of_nat, if_neg differs]
  exact sound.unused other member

theorem release (sound : pool.Sound) (released : pool.release id = .ok after) : after.Sound := by
  obtain ⟨used, rfl⟩ := release_eq_ok released
  refine ⟨List.nodup_cons.mpr ⟨fun member => used (sound.unused id member), sound.distinct⟩,
    fun other member => ?_⟩
  rw [getElem?_erase_of_nat]
  split
  · rfl
  · rename_i differs
    exact sound.unused other ((List.mem_cons.mp member).resolve_left fun same => differs same.symm)

end Sound

end GuestMemory.DescriptorPool
