import GuestMemory.HandleTable
import GuestMemory.Proofs.Action
import Mathlib.Data.List.Perm.Subperm

/-!
Handle tables as maps: a table is read through the objects that its handles name, and opening and
closing a handle change that at this handle only.
-/

namespace GuestMemory

namespace Handle

variable {index generation : Nat} {handle other : Handle}

theorem raw_inj : handle.raw = other.raw ↔ handle = other := by
  rw [← Handle.mk.injEq]

theorem raw_ofParts (within : index < indexLimit) (last : generation ≤ lastGeneration) :
    (ofParts index generation).raw.toNat = generation * indexLimit + index := by
  simp only [indexLimit, lastGeneration] at within last
  rw [ofParts, indexLimit]
  exact UInt32.toNat_ofNat_of_lt (show _ < 2 ^ 32 by omega)

theorem index_ofParts (within : index < indexLimit) (last : generation ≤ lastGeneration) :
    (ofParts index generation).index = index := by
  rw [Handle.index, raw_ofParts within last, Nat.mul_add_mod_self_right, Nat.mod_eq_of_lt within]

theorem generation_ofParts (within : index < indexLimit) (last : generation ≤ lastGeneration) :
    (ofParts index generation).generation = generation := by
  have positive : 0 < indexLimit := by decide
  rw [Handle.generation, raw_ofParts within last, Nat.mul_comm, Nat.mul_add_div positive,
    Nat.div_eq_of_lt within, Nat.add_zero]

theorem index_lt (handle : Handle) : handle.index < indexLimit :=
  Nat.mod_lt _ (by decide)

/-- A handle is told by the index of its slot and by its generation. -/
theorem eq_of_parts (index : handle.index = other.index)
    (generation : handle.generation = other.generation) : handle = other := by
  have raw : handle.raw.toNat = other.raw.toNat := by
    rw [← Nat.div_add_mod handle.raw.toNat indexLimit, ← Nat.div_add_mod other.raw.toNat indexLimit]
    exact congrArg₂ (fun generation index => indexLimit * generation + index) generation index
  exact raw_inj.mp (UInt32.toNat_inj.mp raw)

/-- No generation of a table belongs to a handle that stands for the caller. -/
theorem isPseudo_of_generation (last : handle.generation ≤ lastGeneration) :
    handle.isPseudo = false := by
  rw [isPseudo, Bool.or_eq_false_iff, decide_eq_false_iff_not, decide_eq_false_iff_not]
  constructor
  · rintro rfl
    exact absurd last (by decide)
  · rintro rfl
    exact absurd last (by decide)

theorem ne_invalid (started : 1 ≤ handle.generation) : handle ≠ invalid := by
  rintro rfl
  exact absurd started (by decide)

end Handle

namespace HandleTable

variable {Object : Type} {table after : HandleTable Object} {object : Object}
variable {handle other : Handle}
variable {capacity index generation : Nat}

theorem one_le_generationAfter : 1 ≤ generationAfter generation :=
  Nat.le_add_left 1 _

theorem generationAfter_le : generationAfter generation ≤ Handle.lastGeneration :=
  Nat.mod_lt generation (by decide)

/-- The empty slots of a table are its free ones, each of them once, and no slot and no generation
is too large for a handle. -/
structure WellFormed (table : HandleTable Object) : Prop where
  bounded : table.slots.size ≤ table.capacity
  indexed : table.capacity ≤ Handle.indexLimit
  nodup : table.free.Nodup
  mem_free : ∀ index,
    index ∈ table.free ↔ ∃ slot, table.slots[index]? = some slot ∧ slot.object = none
  first : 1 ≤ table.nextGeneration
  last : table.nextGeneration ≤ Handle.lastGeneration

theorem get?_eq_some :
    table.get? handle = some object ↔
      handle.isPseudo = false ∧
        table.slots[handle.index]? = some ⟨handle.generation, some object⟩ := by
  rw [get?]
  split
  · simp [*]
  · split
    · rename_i slot listed
      obtain ⟨generation, content⟩ := slot
      simp_all
    · simp [*]

namespace WellFormed

theorem lt_size_of_mem_free (sound : table.WellFormed) (free : index ∈ table.free) :
    index < table.slots.size := by
  obtain ⟨_, listed, _⟩ := (sound.mem_free index).mp free
  exact (Array.getElem?_eq_some_iff.mp listed).1

theorem length_free_le (sound : table.WellFormed) : table.free.length ≤ table.slots.size := by
  have within : table.free ⊆ List.range table.slots.size := fun index free =>
    List.mem_range.mpr (sound.lt_size_of_mem_free free)
  simpa only [List.length_range] using (sound.nodup.subperm within).length_le

theorem lt_indexLimit (sound : table.WellFormed) (listed : index < table.slots.size) :
    index < Handle.indexLimit :=
  Nat.lt_of_lt_of_le listed (Nat.le_trans sound.bounded sound.indexed)

end WellFormed

theorem WellFormed.of_create (created : create capacity = .ok table) : table.WellFormed := by
  rw [create] at created
  split at created <;> cases created
  exact {
    bounded := Nat.zero_le _
    indexed := ‹_›
    nodup := .nil
    mem_free := fun index => by simp
    first := Nat.le_refl 1
    last := Nat.le_add_left 1 _ }

/-- What opening a handle for an object does to a table. -/
structure Opened (table after : HandleTable Object) (object : Object) (handle : Handle) :
    Prop where
  capacity_eq : after.capacity = table.capacity
  generation_eq : handle.generation = table.nextGeneration
  nextGeneration_eq : after.nextGeneration = generationAfter table.nextGeneration
  empty : ∀ slot, table.slots[handle.index]? = some slot → slot.object = none
  slots : ∀ index, after.slots[index]? =
    if index = handle.index then some ⟨handle.generation, some object⟩ else table.slots[index]?
  bounded : after.slots.size ≤ after.capacity
  nodup : after.free.Nodup
  mem_free : ∀ index, index ∈ after.free ↔ index ∈ table.free ∧ index ≠ handle.index
  size_eq : after.size = table.size + 1

/-- A free slot can be used again. -/
theorem opened_reused {free : List Nat} (sound : table.WellFormed)
    (head : table.free = index :: free) (object : Object) :
    table.Opened { table with
      slots := table.slots.setIfInBounds index ⟨table.nextGeneration, some object⟩
      free
      nextGeneration := generationAfter table.nextGeneration }
      object (.ofParts index table.nextGeneration) := by
  have member : index ∈ table.free := head ▸ List.mem_cons_self
  have listed := sound.lt_size_of_mem_free member
  have place := Handle.index_ofParts (sound.lt_indexLimit listed) sound.last
  have generation := Handle.generation_ofParts (sound.lt_indexLimit listed) sound.last
  obtain ⟨absent, nodup⟩ := List.nodup_cons.mp (head ▸ sound.nodup)
  obtain ⟨_, found, vacant⟩ := (sound.mem_free index).mp member
  have within := sound.length_free_le
  rw [head, List.length_cons] at within
  exact {
    capacity_eq := rfl
    generation_eq := generation
    nextGeneration_eq := rfl
    empty := fun slot same => by
      rw [place, found, Option.some.injEq] at same
      exact same ▸ vacant
    slots := fun other => by
      rw [place, generation, Array.getElem?_setIfInBounds, if_pos listed]
      exact if_congr eq_comm rfl rfl
    bounded := by simpa only [Array.size_setIfInBounds] using sound.bounded
    nodup
    mem_free := fun other => by
      rw [place, head, List.mem_cons]
      exact ⟨fun free => ⟨.inr free, fun same => absent (same ▸ free)⟩,
        fun ⟨either, apart⟩ => either.resolve_left apart⟩
    size_eq := by
      simp only [size, Array.size_setIfInBounds, head, List.length_cons]
      omega }

/-- A table with room can have another slot. -/
theorem opened_new (sound : table.WellFormed) (none : table.free = [])
    (room : table.slots.size < table.capacity) (object : Object) :
    table.Opened { table with
      slots := table.slots.push ⟨table.nextGeneration, some object⟩
      nextGeneration := generationAfter table.nextGeneration }
      object (.ofParts table.slots.size table.nextGeneration) := by
  have indexed := Nat.lt_of_lt_of_le room sound.indexed
  have place := Handle.index_ofParts indexed sound.last
  have generation := Handle.generation_ofParts indexed sound.last
  exact {
    capacity_eq := rfl
    generation_eq := generation
    nextGeneration_eq := rfl
    empty := fun slot same => by
      rw [place, Array.getElem?_eq_none (Nat.le_refl _)] at same
      cases same
    slots := fun other => by rw [place, generation, Array.getElem?_push]
    bounded := by
      rw [Array.size_push]
      exact room
    nodup := sound.nodup
    mem_free := fun other => by simp [none]
    size_eq := by simp only [size, Array.size_push, none, List.length_nil, Nat.sub_zero] }

theorem opened_of_add (sound : table.WellFormed)
    (opened : add object table = .done handle after) : table.Opened after object handle := by
  rw [add] at opened
  split at opened
  · cases opened
    exact opened_reused sound ‹_› object
  · split at opened <;> cases opened
    exact opened_new sound ‹_› ‹_› object

/-- A handle is refused by a full table only, which stays as it is. -/
theorem full_of_add {cause : Refusal} (sound : table.WellFormed)
    (refused : add object table = .refused cause after) :
    cause = .handlesExhausted table.capacity ∧ after = table ∧ table.size = table.capacity := by
  rw [add] at refused
  split at refused
  · cases refused
  · rename_i free
    split at refused
    · cases refused
    · rename_i full
      obtain ⟨rfl, rfl⟩ := Outcome.refused.inj refused
      rw [size, free, List.length_nil, Nat.sub_zero]
      exact ⟨rfl, rfl, Nat.le_antisymm sound.bounded (Nat.le_of_not_lt full)⟩

theorem add_ne_fault {fault : Fault} : add object table ≠ .fault fault := by
  intro stopped
  rw [add] at stopped
  split at stopped
  · cases stopped
  · split at stopped <;> cases stopped

namespace Opened

variable (opened : table.Opened after object handle)

include opened

theorem wellFormed (sound : table.WellFormed) : after.WellFormed where
  bounded := opened.bounded
  indexed := opened.capacity_eq ▸ sound.indexed
  nodup := opened.nodup
  mem_free := fun index => by
    rw [opened.mem_free, opened.slots, sound.mem_free]
    split <;> simp [*]
  first := opened.nextGeneration_eq ▸ one_le_generationAfter
  last := opened.nextGeneration_eq ▸ generationAfter_le

theorem size_lt (sound : table.WellFormed) : table.size < table.capacity := by
  have bounded : after.size ≤ after.capacity :=
    Nat.le_trans (Nat.sub_le _ _) (opened.wellFormed sound).bounded
  rwa [opened.size_eq, opened.capacity_eq] at bounded

theorem isPseudo_eq (sound : table.WellFormed) : handle.isPseudo = false :=
  Handle.isPseudo_of_generation (opened.generation_eq ▸ sound.last)

theorem ne_invalid (sound : table.WellFormed) : handle ≠ .invalid :=
  Handle.ne_invalid (opened.generation_eq ▸ sound.first)

/-- The handle named nothing before. -/
theorem get?_before : table.get? handle = none := by
  refine Option.eq_none_iff_forall_ne_some.mpr fun object found => ?_
  cases opened.empty _ (get?_eq_some.mp found).2

theorem get?_after (sound : table.WellFormed) (other : Handle) :
    after.get? other = if other = handle then some object else table.get? other := by
  split
  · rename_i same
    subst same
    exact get?_eq_some.mpr ⟨opened.isPseudo_eq sound, by rw [opened.slots, if_pos rfl]⟩
  · rename_i apart
    refine Option.ext fun content => ?_
    rw [get?_eq_some, get?_eq_some, opened.slots]
    refine and_congr_right fun _ => ?_
    split
    · rename_i same
      -- The slot was empty before, and now holds another generation than the handle asks for.
      refine iff_of_false (fun listed => ?_) (fun listed => ?_)
      · have generation := congrArg Slot.generation (Option.some.inj listed)
        exact apart (Handle.eq_of_parts same generation.symm)
      · cases opened.empty _ (same ▸ listed)
    · rfl

theorem get?_self (sound : table.WellFormed) : after.get? handle = some object := by
  rw [opened.get?_after sound, if_pos rfl]

end Opened

theorem remove_fst : (table.remove handle).1 = (table.get? handle).isSome := by
  rw [remove]
  cases table.get? handle <;> rfl

theorem remove_of_none (absent : table.get? handle = none) :
    table.remove handle = (false, table) := by
  rw [remove, absent]

theorem remove_of_some (found : table.get? handle = some object) :
    table.remove handle = (true, { table with
      slots := table.slots.setIfInBounds handle.index ⟨handle.generation, none⟩
      free := handle.index :: table.free }) := by
  rw [remove, found]

@[simp]
theorem capacity_remove : (table.remove handle).2.capacity = table.capacity := by
  rw [remove]
  split <;> rfl

@[simp]
theorem nextGeneration_remove :
    (table.remove handle).2.nextGeneration = table.nextGeneration := by
  rw [remove]
  split <;> rfl

theorem size_remove : (table.remove handle).2.size =
    if (table.get? handle).isSome then table.size - 1 else table.size := by
  rw [remove]
  split
  · simp [*]
  · simp only [*, size, Array.size_setIfInBounds, List.length_cons, Option.isSome_some, if_true]
    omega

theorem slots_remove (found : table.get? handle = some object) (index : Nat) :
    (table.remove handle).2.slots[index]? =
      if index = handle.index then some ⟨handle.generation, none⟩ else table.slots[index]? := by
  have listed := (Array.getElem?_eq_some_iff.mp (get?_eq_some.mp found).2).1
  rw [remove_of_some found, Array.getElem?_setIfInBounds, if_pos listed]
  exact if_congr eq_comm rfl rfl

theorem WellFormed.remove (sound : table.WellFormed) (handle : Handle) :
    (table.remove handle).2.WellFormed := by
  cases found : table.get? handle with
  | none =>
      rw [remove_of_none found]
      exact sound
  | some object =>
      have listed := (get?_eq_some.mp found).2
      have slots := slots_remove found
      rw [remove_of_some found] at slots ⊢
      exact {
        bounded := by simpa only [Array.size_setIfInBounds] using sound.bounded
        indexed := sound.indexed
        nodup := by
          refine List.nodup_cons.mpr ⟨fun free => ?_, sound.nodup⟩
          obtain ⟨slot, same, empty⟩ := (sound.mem_free _).mp free
          rw [listed, Option.some.injEq] at same
          subst same
          cases empty
        mem_free := fun index => by
          rw [List.mem_cons, sound.mem_free, slots]
          split <;> simp [*]
        first := sound.first
        last := sound.last }

theorem WellFormed.remove_exists (sound : table.WellFormed)
    (found : table.get? handle = some object) :
    ∃ closed, table.remove handle = (true, closed) ∧ closed.WellFormed ∧
      closed.free = handle.index :: table.free ∧
      closed.nextGeneration = table.nextGeneration := by
  have kept := sound.remove handle
  rw [remove_of_some found] at kept ⊢
  exact ⟨_, rfl, kept, rfl, rfl⟩

theorem get?_remove (other : Handle) :
    (table.remove handle).2.get? other = if other = handle then none else table.get? other := by
  cases found : table.get? handle with
  | none =>
      rw [remove_of_none found]
      split
      · exact ‹other = handle› ▸ found
      · rfl
  | some object =>
      refine Option.ext fun content => ?_
      split
      · rename_i same
        rw [get?_eq_some, slots_remove found, if_pos (congrArg Handle.index same)]
        simp
      · rename_i apart
        rw [get?_eq_some, get?_eq_some, slots_remove found]
        refine and_congr_right fun _ => ?_
        split
        · rename_i same
          -- The slot is empty now, and held another generation than the handle asks for.
          have listed := (get?_eq_some.mp found).2
          refine iff_of_false (by simp) fun other => apart (Handle.eq_of_parts same ?_)
          rw [same, listed, Option.some.injEq] at other
          exact (congrArg Slot.generation other).symm
        · rfl

end HandleTable

end GuestMemory
