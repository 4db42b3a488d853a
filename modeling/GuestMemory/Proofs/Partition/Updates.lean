import GuestMemory.Proofs.Partition.Merging

/-!
Operations on a range of pages, seen page by page: the pages of the range are changed, all others
keep their properties, and the blocks are again an exact partition without equal neighbours.
-/

namespace GuestMemory

variable {start middle stop address count : Nat}
variable {change : Properties → Checked Properties}

namespace Block

variable {block : Block} {front back blocks changed : List Block}

theorem Apart.append {places : Nat → Prop} (first : Apart places front) (second : Apart places back)
    (tiles : Tiles middle back stop) (joint : ¬ places middle) : Apart places (front ++ back) := by
  refine List.IsChain.append first second fun block _ next head selected => ?_
  rw [tiles.head?_start head] at selected
  exact absurd selected joint

/-- A tiling is apart wherever it has no joint. -/
theorem Tiles.apart_of_outside {places : Nat → Prop} (tiles : Tiles start blocks stop)
    (outside : ∀ joint, start ≤ joint → joint < stop → ¬ places joint) : Apart places blocks := by
  induction blocks generalizing start with
  | nil => exact List.IsChain.nil
  | cons block rest ih =>
      obtain ⟨rfl, nonempty, following⟩ := tiles
      have longer := block.start_lt_stop nonempty
      refine List.IsChain.cons (ih following fun joint lower => outside joint (by omega)) ?_
      intro next head selected
      have member := List.mem_of_mem_head? head
      have inside := following.within member
      have more := next.start_lt_stop (following.pages_pos member)
      exact absurd selected (outside next.start (by omega) (by omega))

theorem mapM_replicate {old new : Properties} (changes : change old = .ok new) (count : Nat) :
    (List.replicate count old).mapM change = .ok (List.replicate count new) := by
  induction count with
  | zero => rfl
  | succ count ih =>
      simp only [List.replicate_succ, List.mapM_cons, changes, ih, Checked.ok_bind, Checked.pure_eq]

def changeWithin (address stop : Nat) (change : Properties → Checked Properties) (block : Block) :
    Checked Block :=
  if address ≤ block.start && block.start < stop then do
    let properties ← change block.properties
    return { block with properties }
  else
    return block

theorem changeWithin_inside (lower : address ≤ block.start) (upper : block.start < stop) :
    block.changeWithin address stop change = do
      let properties ← change block.properties
      return { block with properties } := by
  simp only [changeWithin, lower, upper, decide_true, Bool.and_self, ↓reduceIte]

theorem Tiles.mapM_outside (tiles : Tiles start blocks middle)
    (outside : middle ≤ address ∨ stop ≤ start) :
    blocks.mapM (changeWithin address stop change) = .ok blocks := by
  refine Checked.mapM_eq_ok.mpr (List.forall₂_same.mpr fun block member => ?_)
  obtain ⟨lower, upper⟩ := tiles.within member
  have longer := block.start_lt_stop (tiles.pages_pos member)
  have missed : ¬ (address ≤ block.start ∧ block.start < stop) := by omega
  simp only [changeWithin, Bool.and_eq_true, decide_eq_true_eq, missed, ↓reduceIte, Checked.pure_eq]

/-- Changing each block of a tiling changes each of its pages, and moves no edge. -/
theorem Tiles.mapM_inside (tiles : Tiles start blocks middle) (lower : address ≤ start)
    (upper : middle ≤ stop)
    (changes : blocks.mapM (changeWithin address stop change) = .ok changed) :
    Tiles start changed middle ∧ (expand blocks).mapM change = .ok (expand changed) := by
  induction blocks generalizing start changed with
  | nil =>
      cases changes
      exact ⟨tiles, rfl⟩
  | cons block rest ih =>
      obtain ⟨rfl, nonempty, following⟩ := tiles
      have longer := block.start_lt_stop nonempty
      have limit := following.start_le
      simp only [List.mapM_cons, changeWithin_inside lower (show block.start < stop by omega),
        Checked.bind_eq_ok, Checked.pure_eq_ok] at changes
      obtain ⟨_, ⟨properties, new, rfl⟩, others, remaining, rfl⟩ := changes
      obtain ⟨tiled, expanded⟩ := ih following (by omega) remaining
      refine ⟨⟨rfl, nonempty, tiled⟩, ?_⟩
      simp only [expand_cons, List.mapM_append, mapM_replicate new, expanded, Checked.ok_bind,
        Checked.pure_eq]

end Block

open GuestMemory.Block

/-- The blocks are an exact partition of the region without equal neighbours, and all addresses in
it are words. -/
structure Partition.WellFormed (partition : Partition) : Prop where
  aligned : partition.region.base % pageSize = 0
  fits : partition.region.stop < wordLimit
  tiles : Tiles partition.region.base partition.blocks partition.region.stop
  apart : Apart (fun _ => True) partition.blocks

namespace Partition

def pages (partition : Partition) : List Properties :=
  expand partition.blocks

theorem ofRegion_wellFormed {region : Region} (aligned : region.base % pageSize = 0)
    (whole : region.size % pageSize = 0) (nonempty : 0 < region.size)
    (fits : region.stop < wordLimit) : (ofRegion region).WellFormed where
  aligned := aligned
  fits := fits
  tiles := by
    have covered : region.size / pageSize * pageSize = region.size :=
      Nat.div_mul_cancel (Nat.dvd_of_mod_eq_zero whole)
    refine ⟨rfl, ?_, ?_⟩
    · simp only [pageSize_eq] at *
      omega
    · simp only [Tiles, Block.stop, Block.size, covered]
      rfl
  apart := List.IsChain.singleton _

variable {partition after : Partition}

/-- What splitting at both edges of a range leaves: the blocks before, inside and after it. -/
structure Isolates (partition : Partition) (address stop : Nat)
    (front inside back : List Block) : Prop where
  front_tiles : Tiles partition.region.base front address
  inside_tiles : Tiles address inside stop
  back_tiles : Tiles stop back partition.region.stop
  pages_eq : expand front ++ expand inside ++ expand back = partition.pages
  front_apart : Apart (fun _ => True) front
  back_apart : Apart (fun _ => True) back

theorem WellFormed.isolate_eq_ok (wellFormed : partition.WellFormed)
    (aligned : address % pageSize = 0) (nonempty : 0 < count)
    (lower : partition.region.base ≤ address)
    (upper : address + count * pageSize ≤ partition.region.stop) :
    ∃ front inside back,
      partition.isolate address count = .ok (address + count * pageSize,
        { partition with blocks := front ++ (inside ++ back) }) ∧
      partition.Isolates address (address + count * pageSize) front inside back := by
  have limit := wellFormed.fits
  have size : 0 < count * pageSize := by
    simp only [pageSize_eq]
    omega
  have bounded : address + count * pageSize < wordLimit := by omega
  have contained : partition.region.contains address (count * pageSize) = .ok true := by
    rw [Region.contains_of_fits limit, decide_eq_true ⟨size, bounded, lower, upper⟩]
  have cut : (address + count * pageSize) % pageSize = 0 := by
    rw [Nat.add_mul_mod_self_right]
    exact aligned
  obtain ⟨front, rest, firstSplit, first⟩ := splitAt_eq_ok wellFormed.tiles limit
    wellFormed.aligned aligned lower (by omega)
  obtain ⟨inside, back, secondSplit, second⟩ := splitAt_eq_ok first.back_tiles limit
    aligned cut (Nat.le_add_right _ _) upper
  refine ⟨front, inside, back, ?_, first.front_tiles, second.front_tiles,
    second.back_tiles, ?_, first.front_apart wellFormed.apart,
    second.back_apart (first.back_apart wellFormed.apart)⟩
  · rw [isolate, word_of_lt bounded, Checked.ok_bind, contained, Checked.ok_bind, if_pos rfl,
      firstSplit, Checked.ok_bind,
      splitAt_append first.front_tiles first.back_tiles (by omega) upper, secondSplit]
    rfl
  · rw [List.append_assoc, second.expand_eq, first.expand_eq]
    rfl

theorem bounds_of_isolate {result : Nat × Partition} (fits : partition.region.stop < wordLimit)
    (isolated : partition.isolate address count = .ok result) :
    0 < count ∧ partition.region.base ≤ address ∧
      address + count * pageSize ≤ partition.region.stop := by
  rw [isolate, Checked.bind_eq_ok] at isolated
  obtain ⟨_, _, isolated⟩ := isolated
  rw [Region.contains_of_fits fits, Checked.ok_bind] at isolated
  split at isolated
  · rename_i inside
    obtain ⟨size, _, lower, upper⟩ := of_decide_eq_true inside
    exact ⟨Nat.pos_of_mul_pos_right size, lower, upper⟩
  · cases isolated

/-- Changes `count` entries of an array from the one at index `first` on. -/
def changeRange (first count : Nat) (change : Properties → Checked Properties)
    (array : List Properties) : Checked (List Properties) := do
  let changed ← ((array.drop first).take count).mapM change
  return array.take first ++ changed ++ array.drop (first + count)

theorem changeRange_append {front inside back changed : List Properties}
    (changes : inside.mapM change = .ok changed) :
    changeRange front.length inside.length change (front ++ inside ++ back) =
      .ok (front ++ changed ++ back) := by
  have selected : ((front ++ inside ++ back).drop front.length).take inside.length = inside := by
    rw [List.append_assoc, List.drop_left, List.take_left]
  have remaining : (front ++ inside ++ back).drop (front.length + inside.length) = back := by
    rw [← List.length_append, List.drop_left]
  rw [changeRange, selected, remaining, changes, List.append_assoc front, List.take_left]
  rfl

/-- Whatever takes the place of the blocks inside a range, neighbours outside it are unlike. -/
theorem Isolates.apart_outside {stop : Nat} {front inside back changed : List Block}
    (isolates : partition.Isolates address stop front inside back)
    (tiles : Tiles address changed stop) :
    Apart (fun joint => (joint < address ∨ stop < joint) ∧ True)
      (front ++ (changed ++ back)) := by
  have bounds := tiles.start_le
  have followed :
      Apart (fun joint => (joint < address ∨ stop < joint) ∧ True) (changed ++ back) := by
    refine Apart.append (tiles.apart_of_outside fun joint _ _ => by omega) ?_
      isolates.back_tiles (by omega)
    exact isolates.back_apart.imp fun _ _ differs _ => differs trivial
  exact Apart.append (isolates.front_apart.imp fun _ _ differs _ => differs trivial) followed
    (tiles.append isolates.back_tiles) (by omega)

theorem Isolates.changeRange_eq {front inside back : List Block} {changed : List Properties}
    (isolates : partition.Isolates address (address + count * pageSize) front inside back)
    (changes : (expand inside).mapM change = .ok changed) :
    changeRange ((address - partition.region.base) / pageSize) count change partition.pages =
      .ok (expand front ++ changed ++ expand back) := by
  have first : (address - partition.region.base) / pageSize = (expand front).length := by
    rw [isolates.front_tiles.stop_eq, Nat.add_sub_cancel_left, Nat.mul_div_cancel _ (by decide)]
  have length : count = (expand inside).length := by
    have ends := isolates.inside_tiles.stop_eq
    simp only [pageSize_eq] at ends
    omega
  rw [first, length, ← isolates.pages_eq, changeRange_append changes]

/-- What an operation on a range of pages does: it changes the pages of the range, which lies inside
the region, and no others. -/
structure Updates (partition : Partition) (address count : Nat)
    (change : Properties → Checked Properties) (after : Partition) : Prop where
  region_eq : after.region = partition.region
  wellFormed : after.WellFormed
  nonempty : 0 < count
  lower : partition.region.base ≤ address
  upper : address + count * pageSize ≤ partition.region.stop
  pages_eq : changeRange ((address - partition.region.base) / pageSize) count change
    partition.pages = .ok after.pages

theorem updateWith_eq : partition.updateWith address count change = do
    let (stop, isolated) ← partition.isolate address count
    let blocks ← isolated.blocks.mapM (changeWithin address stop change)
    let blocks ← mergeAdjacent address stop blocks
    return { partition with blocks } :=
  rfl

theorem WellFormed.updates (wellFormed : partition.WellFormed) (aligned : address % pageSize = 0)
    (updated : partition.updateWith address count change = .ok after) :
    partition.Updates address count change after := by
  rw [updateWith_eq, Checked.bind_eq_ok] at updated
  obtain ⟨result, isolated, updated⟩ := updated
  obtain ⟨nonempty, lower, upper⟩ := bounds_of_isolate wellFormed.fits isolated
  obtain ⟨front, inside, back, same, isolates⟩ :=
    wellFormed.isolate_eq_ok aligned nonempty lower upper
  obtain rfl := Except.ok.inj (isolated.symm.trans same)
  simp only [Checked.bind_eq_ok, Checked.pure_eq_ok] at updated
  obtain ⟨blocks, changes, merged, merging, rfl⟩ := updated
  rw [List.mapM_append, List.mapM_append, isolates.front_tiles.mapM_outside (.inl (Nat.le_refl _)),
    isolates.back_tiles.mapM_outside (.inr (Nat.le_refl _))] at changes
  simp only [Checked.bind_eq_ok, Checked.pure_eq_ok, Except.ok.injEq] at changes
  obtain ⟨_, rfl, _, ⟨changed, insideChanges, _, rfl, rfl⟩, rfl⟩ := changes
  obtain ⟨inside_tiles, array⟩ := isolates.inside_tiles.mapM_inside (Nat.le_refl _)
    (Nat.le_refl _) insideChanges
  obtain ⟨merged', merging', merges⟩ := mergeAdjacent_eq_ok (fun _ => True)
    (isolates.front_tiles.append (inside_tiles.append isolates.back_tiles)) wellFormed.fits
    (isolates.apart_outside inside_tiles)
  obtain rfl := Except.ok.inj (merging.symm.trans merging')
  refine ⟨rfl, ⟨wellFormed.aligned, wellFormed.fits, merges.tiles, ?_⟩, nonempty, lower, upper, ?_⟩
  · exact merges.apart.imp fun _ _ differs selected => differs (.inr selected)
  · rw [isolates.changeRange_eq array]
    simp only [pages, merges.expand_eq, expand_append, List.append_assoc]

end Partition

end GuestMemory
