import GuestMemory.Proofs.Partition.Pages

/-!
Looking blocks up: the block that holds an address, and the blocks that share a byte with a range.
-/

namespace GuestMemory

open GuestMemory.Block

variable {start stop address size : Nat} {block other : Block} {blocks : List Block}

namespace Block.Tiles

theorem disjoint (tiles : Tiles start blocks stop) (member : block ∈ blocks)
    (otherMember : other ∈ blocks) :
    block = other ∨ block.stop ≤ other.start ∨ other.stop ≤ block.start := by
  induction blocks generalizing start with
  | nil => cases member
  | cons first rest ih =>
      obtain ⟨rfl, _, following⟩ := tiles
      rcases List.mem_cons.mp member with rfl | further <;>
        rcases List.mem_cons.mp otherMember with rfl | otherFurther
      · exact .inl rfl
      · exact .inr (.inl (following.within otherFurther).1)
      · exact .inr (.inr (following.within further).1)
      · exact ih following further otherFurther

/-- The last block that starts at or before an address of a tiling holds it. -/
theorem getLast?_filter (tiles : Tiles start blocks stop) (lower : start ≤ address)
    (upper : address < stop) :
    ∃ block ∈ blocks, (blocks.filter (·.start ≤ address)).getLast? = some block ∧
      block.start ≤ address ∧ address < block.stop := by
  induction blocks generalizing start with
  | nil =>
      obtain rfl : start = stop := tiles
      omega
  | cons first rest ih =>
      obtain ⟨rfl, _, following⟩ := tiles
      rw [List.filter_cons_of_pos (by simpa using lower), List.getLast?_cons]
      by_cases here : address < first.stop
      · have none : rest.filter (·.start ≤ address) = [] := by
          refine List.filter_eq_nil_iff.mpr fun next member => ?_
          have later := (following.within member).1
          simp only [decide_eq_true_eq]
          omega
        rw [none]
        exact ⟨first, List.mem_cons_self, rfl, lower, here⟩
      · obtain ⟨block, member, last, holds⟩ := ih following (Nat.le_of_not_lt here)
        rw [last]
        exact ⟨block, List.mem_cons_of_mem _ member, rfl, holds⟩

end Block.Tiles

/-- The block that is found for an address is one of the partition and holds the address. -/
theorem Partition.mem_of_find {partition : Partition}
    (found : partition.find address = .ok (some block)) :
    block ∈ partition.blocks ∧ block.start ≤ address ∧ address < block.stop := by
  rw [find] at found
  split at found
  · cases found
  · rename_i other last
    obtain ⟨stop, ends, found⟩ := Checked.bind_eq_ok.mp found
    obtain ⟨_, rfl⟩ := word_eq_ok_iff.mp ends
    split at found <;> cases found
    rename_i inside
    have member := List.mem_of_mem_filter (List.mem_of_getLast? last)
    have before := List.of_mem_filter (List.mem_of_getLast? last)
    exact ⟨member, of_decide_eq_true before, inside⟩

namespace Partition.WellFormed

variable {partition : Partition} {page : Nat}

theorem find_eq_some (wellFormed : partition.WellFormed) (lower : partition.region.base ≤ address)
    (upper : address < partition.region.stop) :
    ∃ block ∈ partition.blocks, partition.find address = .ok (some block) ∧
      block.start ≤ address ∧ address < block.stop := by
  obtain ⟨block, member, last, before, inside⟩ := wellFormed.tiles.getLast?_filter lower upper
  have limit := (wellFormed.tiles.within member).2
  have fits := Nat.lt_of_le_of_lt limit wellFormed.fits
  refine ⟨block, member, ?_, before, inside⟩
  rw [find, last]
  simp only [checkedStop_eq_ok fits, Checked.ok_bind, if_pos inside, Checked.pure_eq]

theorem find_eq_none (wellFormed : partition.WellFormed)
    (outside : address < partition.region.base ∨ partition.region.stop ≤ address) :
    partition.find address = .ok none := by
  rw [find]
  split
  · rfl
  · rename_i block last
    have member := List.mem_of_mem_filter (List.mem_of_getLast? last)
    have before := List.of_mem_filter (List.mem_of_getLast? last)
    obtain ⟨lower, upper⟩ := wellFormed.tiles.within member
    have fits := Nat.lt_of_le_of_lt upper wellFormed.fits
    have missed : ¬ address < block.stop := by
      rw [decide_eq_true_eq] at before
      omega
    simp only [checkedStop_eq_ok fits, Checked.ok_bind, if_neg missed, Checked.pure_eq]

/-- A block holds the page of each of its addresses, and the whole page. -/
theorem holds_pageOf_iff (wellFormed : partition.WellFormed) (member : block ∈ partition.blocks) :
    block.Holds (pageOf address) ↔ block.start ≤ address ∧ address < block.stop := by
  have aligned := start_aligned wellFormed.tiles wellFormed.aligned member
  simp only [Holds, Block.stop, Block.size, pageOf, pageSize_eq] at *
  omega

/-- Every address of a block is found in it. -/
theorem find_of_mem (wellFormed : partition.WellFormed) (member : block ∈ partition.blocks)
    (lower : block.start ≤ address) (upper : address < block.stop) :
    partition.find address = .ok (some block) := by
  obtain ⟨first, last⟩ := wellFormed.tiles.within member
  obtain ⟨other, otherMember, found, before, past⟩ :=
    wellFormed.find_eq_some (Nat.le_trans first lower) (Nat.lt_of_lt_of_le upper last)
  rcases wellFormed.tiles.disjoint member otherMember with rfl | apart
  · exact found
  · omega

/-- The properties of a block are those of its first page. -/
theorem at?_of_mem (wellFormed : partition.WellFormed) (member : block ∈ partition.blocks) :
    partition.at? (pageOf block.start) = some block.properties := by
  have longer := block.start_lt_stop (wellFormed.tiles.pages_pos member)
  exact wellFormed.at?_of_holds member
    ((wellFormed.holds_pageOf_iff member).mpr ⟨Nat.le_refl _, longer⟩)

/-- The block that is found for an address gives the page of the address its properties. -/
theorem at?_pageOf_of_find (wellFormed : partition.WellFormed)
    (found : partition.find address = .ok (some block)) :
    partition.at? (pageOf address) = some block.properties := by
  obtain ⟨member, inside⟩ := mem_of_find found
  exact wellFormed.at?_of_holds member ((wellFormed.holds_pageOf_iff member).mpr inside)

theorem at?_of_find (wellFormed : partition.WellFormed)
    (found : partition.find (page * pageSize) = .ok (some block)) :
    partition.at? page = some block.properties := by
  have here := wellFormed.at?_pageOf_of_find found
  rwa [pageOf_mul_pageSize] at here

/-- The block that gives a page its properties is found for it. -/
theorem find_of_at? {properties : Properties} (wellFormed : partition.WellFormed)
    (here : partition.at? page = some properties) :
    ∃ block, partition.find (page * pageSize) = .ok (some block) ∧
      block.properties = properties := by
  obtain ⟨lower, upper⟩ := wellFormed.isSome_at?.mp (Option.isSome_of_eq_some here)
  obtain ⟨block, _, found, _⟩ := wellFormed.find_eq_some lower upper
  exact ⟨block, found, Option.some.inj ((wellFormed.at?_of_find found).symm.trans here)⟩

theorem bounds_of_mem (wellFormed : partition.WellFormed) (member : block ∈ partition.blocks) :
    partition.region.base ≤ block.start ∧ block.start < block.stop ∧
      block.stop ≤ partition.region.stop := by
  obtain ⟨lower, upper⟩ := wellFormed.tiles.within member
  exact ⟨lower, block.start_lt_stop (wellFormed.tiles.pages_pos member), upper⟩

/-- A range meets the blocks that end after its first address and start before its last one. -/
theorem overlapping_eq (wellFormed : partition.WellFormed) (address size : Nat) :
    partition.overlapping address size =
      .ok (partition.blocks.filter fun block =>
        address < block.stop ∧ block.start < address + size) := by
  obtain ⟨first, answered, reached⟩ : ∃ first,
      partition.overlapping address size =
        .ok (partition.startingIn first (min (address + size) wordMax)) ∧
      ∀ block ∈ partition.blocks, first ≤ block.start ↔ address < block.stop := by
    by_cases inside : partition.region.base ≤ address ∧ address < partition.region.stop
    · obtain ⟨holder, holderMember, found, before, holds⟩ :=
        wellFormed.find_eq_some inside.1 inside.2
      refine ⟨holder.start, by rw [overlapping, found]; rfl, fun block member => ?_⟩
      have own := wellFormed.bounds_of_mem member
      rcases wellFormed.tiles.disjoint member holderMember with rfl | apart
      · exact iff_of_true (Nat.le_refl _) holds
      · omega
    · refine ⟨address, by rw [overlapping, wellFormed.find_eq_none (by omega)]; rfl,
        fun block member => ?_⟩
      have own := wellFormed.bounds_of_mem member
      omega
  rw [answered]
  refine congrArg Except.ok (List.filter_congr fun block member => Bool.eq_iff_iff.mpr ?_)
  have limit := wellFormed.fits
  have own := wellFormed.bounds_of_mem member
  have reached := reached block member
  simp only [Bool.and_eq_true, decide_eq_true_eq, Nat.lt_min]
  unfold wordMax
  omega

/-- A range meets exactly the blocks that share a byte with it. -/
theorem overlapping_eq_ok (wellFormed : partition.WellFormed) (address size : Nat) :
    ∃ blocks, partition.overlapping address size = .ok blocks ∧
      ∀ block, block ∈ blocks ↔
        block ∈ partition.blocks ∧ address < block.stop ∧ block.start < address + size :=
  ⟨_, wellFormed.overlapping_eq address size, fun block => by
    rw [List.mem_filter, decide_eq_true_eq]⟩

theorem requireListable_eq_ok (wellFormed : partition.WellFormed) (heading : List Record) :
    partition.requireListable heading = .ok () := by
  rw [requireListable, if_pos]
  refine List.all_eq_true.mpr fun block member => decide_eq_true ?_
  exact Nat.lt_of_le_of_lt (wellFormed.tiles.within member).2 wellFormed.fits

end Partition.WellFormed

end GuestMemory
