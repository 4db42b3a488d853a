import GuestMemory.Proofs.Partition.Updates

/-!
Single pages of a partition: the properties of a page are those of the block that holds it, and an
operation on a range changes them inside the range only.
-/

namespace GuestMemory

open GuestMemory.Block

/-- The range of pages lies inside the region. -/
def Region.Covers (region : Region) (address pages : Nat) : Prop :=
  region.base ≤ address ∧ address + pages * pageSize ≤ region.stop

namespace Partition

variable {partition after : Partition} {address count first page index : Nat}
variable {change : Properties → Checked Properties} {array changed : List Properties}
variable {properties : Properties} {block : Block}

theorem changeRange_outside (changes : changeRange first count change array = .ok changed)
    (bounded : first + count ≤ array.length) (outside : index < first ∨ first + count ≤ index) :
    changed[index]? = array[index]? := by
  simp only [changeRange, Checked.bind_eq_ok, Checked.pure_eq_ok] at changes
  obtain ⟨inside, each, rfl⟩ := changes
  have same := (Checked.mapM_eq_ok.mp each).length_eq
  simp only [List.length_take, List.length_drop] at same
  rcases outside with before | past
  · rw [List.append_assoc, List.getElem?_append_left (by simp; omega),
      List.getElem?_take_of_lt before]
  · rw [List.getElem?_append_right (by simp; omega), List.getElem?_drop]
    congr 1
    simp
    omega

theorem changeRange_inside (changes : changeRange first count change array = .ok changed)
    (bounded : first + count ≤ array.length) (lower : first ≤ index)
    (upper : index < first + count) :
    ∃ old new, array[index]? = some old ∧ change old = .ok new ∧ changed[index]? = some new := by
  simp only [changeRange, Checked.bind_eq_ok, Checked.pure_eq_ok] at changes
  obtain ⟨inside, each, rfl⟩ := changes
  obtain ⟨same, pairs⟩ := List.forall₂_iff_get.mp (Checked.mapM_eq_ok.mp each)
  have length := same
  simp only [List.length_take, List.length_drop] at length
  have each := pairs (index - first) (by simp; omega) (by omega)
  refine ⟨array[index], inside[index - first], List.getElem?_eq_getElem (by omega), ?_, ?_⟩
  · simpa [Nat.add_sub_cancel' lower] using each
  · rw [List.append_assoc, List.getElem?_append_right (by simp; omega),
      List.getElem?_append_left (by simp; omega), List.length_take, Nat.min_eq_left (by omega),
      List.getElem?_eq_getElem]

/-- The properties of a page; a page outside the region has none. -/
def at? (partition : Partition) (page : Nat) : Option Properties :=
  if pageOf partition.region.base ≤ page then
    partition.pages[page - pageOf partition.region.base]?
  else
    none

theorem WellFormed.length_pages (wellFormed : partition.WellFormed) :
    partition.region.stop = (pageOf partition.region.base + partition.pages.length) * pageSize := by
  have aligned := wellFormed.aligned
  have ends := wellFormed.tiles.stop_eq
  simp only [pageOf, pageSize_eq, pages] at *
  omega

/-- Exactly the pages of the region have properties. -/
theorem WellFormed.isSome_at? (wellFormed : partition.WellFormed) :
    (partition.at? page).isSome ↔
      partition.region.base ≤ page * pageSize ∧ page * pageSize < partition.region.stop := by
  have aligned := wellFormed.aligned
  have ends := wellFormed.length_pages
  rw [at?]
  split
  · rw [isSome_getElem?, ends]
    simp only [pageOf, pageSize_eq] at *
    omega
  · simp only [Option.isSome_none, Bool.false_eq_true, false_iff, pageOf, pageSize_eq] at *
    omega

theorem WellFormed.isSome_of_covers (wellFormed : partition.WellFormed)
    (aligned : address % pageSize = 0) (covers : partition.region.Covers address count)
    (lower : pageOf address ≤ page) (upper : page < pageOf address + count) :
    (partition.at? page).isSome := by
  rw [wellFormed.isSome_at?]
  obtain ⟨first, last⟩ := covers
  simp only [pageOf, pageSize_eq] at *
  omega

namespace Updates

theorem covers (updates : partition.Updates address count change after) :
    partition.region.Covers address count :=
  ⟨updates.lower, updates.upper⟩

theorem bounds (updates : partition.Updates address count change after)
    (wellFormed : partition.WellFormed) (aligned : address % pageSize = 0) :
    (address - partition.region.base) / pageSize =
        pageOf address - pageOf partition.region.base ∧
      pageOf partition.region.base ≤ pageOf address ∧
      pageOf address - pageOf partition.region.base + count ≤ partition.pages.length := by
  have base := wellFormed.aligned
  have ends := wellFormed.length_pages
  have lower := updates.lower
  have upper := updates.upper
  simp only [pageOf, pageSize_eq] at *
  omega

theorem at?_outside (updates : partition.Updates address count change after)
    (wellFormed : partition.WellFormed) (aligned : address % pageSize = 0)
    (outside : page < pageOf address ∨ pageOf address + count ≤ page) :
    after.at? page = partition.at? page := by
  obtain ⟨index, first, bounded⟩ := updates.bounds wellFormed aligned
  have changes := updates.pages_eq
  rw [index] at changes
  simp only [at?, updates.region_eq]
  split
  · exact changeRange_outside changes bounded (by omega)
  · rfl

theorem at?_inside (updates : partition.Updates address count change after)
    (wellFormed : partition.WellFormed) (aligned : address % pageSize = 0)
    (lower : pageOf address ≤ page) (upper : page < pageOf address + count) :
    ∃ old new, partition.at? page = some old ∧ change old = .ok new ∧
      after.at? page = some new := by
  obtain ⟨index, first, bounded⟩ := updates.bounds wellFormed aligned
  have changes := updates.pages_eq
  rw [index] at changes
  simp only [at?, updates.region_eq, if_pos (Nat.le_trans first lower)]
  exact changeRange_inside changes bounded (by omega) (by omega)

end Updates

/-- The block that holds a page gives it its properties. -/
theorem getElem?_expand {start stop : Nat} {blocks : List Block} (tiles : Tiles start blocks stop)
    (aligned : start % pageSize = 0) (member : block ∈ blocks) (holds : block.Holds page) :
    (expand blocks)[page - pageOf start]? = some block.properties := by
  induction blocks generalizing start with
  | nil => cases member
  | cons first rest ih =>
      obtain ⟨rfl, nonempty, following⟩ := tiles
      obtain ⟨lower, upper⟩ := holds
      rcases List.mem_cons.mp member with rfl | member
      · rw [expand_cons, List.getElem?_append_left, List.getElem?_replicate_of_lt]
        all_goals
          simp only [List.length_replicate, Block.stop, Block.size, pageOf, pageSize_eq] at *
          omega
      · have later := (following.within member).1
        have ends := Block.stop_aligned aligned
        have index : page - pageOf first.start - first.pages = page - pageOf first.stop := by
          simp only [Block.stop, Block.size, pageOf, pageSize_eq] at *
          omega
        rw [expand_cons, List.getElem?_append_right, List.length_replicate, index]
        · exact ih following ends member
        · simp only [List.length_replicate, Block.stop, Block.size, pageOf, pageSize_eq] at *
          omega

theorem exists_holds {start stop : Nat} {blocks : List Block} (tiles : Tiles start blocks stop)
    (lower : start ≤ page * pageSize) (upper : page * pageSize < stop) :
    ∃ block ∈ blocks, block.Holds page := by
  induction blocks generalizing start with
  | nil =>
      obtain rfl : start = stop := tiles
      omega
  | cons first rest ih =>
      obtain ⟨rfl, _, following⟩ := tiles
      by_cases here : page * pageSize < first.stop
      · exact ⟨first, List.mem_cons_self, lower, here⟩
      · obtain ⟨block, member, holds⟩ := ih following (Nat.le_of_not_lt here)
        exact ⟨block, List.mem_cons_of_mem _ member, holds⟩

theorem WellFormed.at?_of_holds (wellFormed : partition.WellFormed)
    (member : block ∈ partition.blocks) (holds : block.Holds page) :
    partition.at? page = some block.properties := by
  have lower := (wellFormed.tiles.within member).1
  have first : pageOf partition.region.base ≤ page := by
    have aligned := wellFormed.aligned
    obtain ⟨before, _⟩ := holds
    simp only [pageOf, pageSize_eq] at *
    omega
  rw [at?, if_pos first]
  exact getElem?_expand wellFormed.tiles wellFormed.aligned member holds

theorem WellFormed.at?_eq_some_iff (wellFormed : partition.WellFormed) :
    partition.at? page = some properties ↔
      ∃ block ∈ partition.blocks, block.Holds page ∧ block.properties = properties := by
  constructor
  · intro found
    obtain ⟨lower, upper⟩ := wellFormed.isSome_at?.mp (Option.isSome_of_eq_some found)
    obtain ⟨block, member, holds⟩ := exists_holds wellFormed.tiles lower upper
    rw [wellFormed.at?_of_holds member holds] at found
    exact ⟨block, member, holds, Option.some.inj found⟩
  · rintro ⟨block, member, holds, rfl⟩
    exact wellFormed.at?_of_holds member holds

theorem start_aligned {start stop : Nat} {blocks : List Block} (tiles : Tiles start blocks stop)
    (aligned : start % pageSize = 0) (member : block ∈ blocks) : block.start % pageSize = 0 := by
  induction blocks generalizing start with
  | nil => cases member
  | cons first rest ih =>
      obtain ⟨rfl, _, following⟩ := tiles
      rcases List.mem_cons.mp member with rfl | further
      · exact aligned
      · exact ih following (Block.stop_aligned aligned) further

theorem mapM_changeWithin_exists {stop : Nat} {blocks : List Block}
    (changes : ∀ block ∈ blocks, ∃ new, change block.properties = .ok new) :
    ∃ changed, blocks.mapM (changeWithin address stop change) = .ok changed := by
  induction blocks with
  | nil => exact ⟨[], rfl⟩
  | cons block rest ih =>
      obtain ⟨first, others⟩ := List.forall_mem_cons.mp changes
      obtain ⟨new, made⟩ := first
      obtain ⟨changed, remaining⟩ := ih others
      rw [List.mapM_cons, remaining, changeWithin]
      split
      · rw [made]
        exact ⟨_, rfl⟩
      · exact ⟨_, rfl⟩

/-- A block inside an isolated range holds a page of the range. -/
theorem Isolates.at?_eq_some {stop : Nat} {front inside back : List Block}
    (isolates : partition.Isolates address stop front inside back)
    (wellFormed : partition.WellFormed) (aligned : address % pageSize = 0)
    (member : block ∈ inside) :
    partition.at? (pageOf block.start) = some block.properties ∧
      address ≤ block.start ∧ block.start < stop ∧ block.start % pageSize = 0 := by
  have start := start_aligned isolates.inside_tiles aligned member
  have longer := block.start_lt_stop (isolates.inside_tiles.pages_pos member)
  obtain ⟨lower, upper⟩ := isolates.inside_tiles.within member
  have before := isolates.front_tiles.start_le
  have holds : block.Holds (pageOf block.start) := by
    simp only [Holds, pageOf, pageSize_eq] at *
    omega
  have found := getElem?_expand
    (isolates.front_tiles.append (isolates.inside_tiles.append isolates.back_tiles))
    wellFormed.aligned (List.mem_append_right _ (List.mem_append_left _ member)) holds
  rw [expand_append, expand_append, ← List.append_assoc, isolates.pages_eq] at found
  have first : pageOf partition.region.base ≤ pageOf block.start :=
    Nat.div_le_div_right (Nat.le_trans before lower)
  refine ⟨?_, lower, by omega, start⟩
  rw [at?, if_pos first]
  exact found

/-- An operation whose change no page of the range objects to succeeds. -/
theorem WellFormed.updateWith_exists (wellFormed : partition.WellFormed)
    (aligned : address % pageSize = 0) (nonempty : 0 < count)
    (covers : partition.region.Covers address count)
    (changes : ∀ page properties, pageOf address ≤ page → page < pageOf address + count →
      partition.at? page = some properties → ∃ new, change properties = .ok new) :
    ∃ after, partition.updateWith address count change = .ok after := by
  obtain ⟨front, inside, back, isolated, isolates⟩ :=
    wellFormed.isolate_eq_ok aligned nonempty covers.1 covers.2
  have changeable : ∀ block ∈ inside, ∃ new, change block.properties = .ok new := by
    intro block member
    obtain ⟨found, lower, upper, start⟩ := isolates.at?_eq_some wellFormed aligned member
    refine changes _ _ ?_ ?_ found
    all_goals
      simp only [pageOf, pageSize_eq] at *
      omega
  obtain ⟨changed, made⟩ : ∃ changed, inside.mapM
      (changeWithin address (address + count * pageSize) change) = .ok changed :=
    mapM_changeWithin_exists changeable
  obtain ⟨inside_tiles, _⟩ := isolates.inside_tiles.mapM_inside (Nat.le_refl _)
    (Nat.le_refl _) made
  obtain ⟨merged, merging, _⟩ := mergeAdjacent_eq_ok (fun _ => True)
    (isolates.front_tiles.append (inside_tiles.append isolates.back_tiles)) wellFormed.fits
    (isolates.apart_outside inside_tiles)
  refine ⟨{ partition with blocks := merged }, ?_⟩
  rw [updateWith_eq, isolated, Checked.ok_bind]
  simp only [List.mapM_append, isolates.front_tiles.mapM_outside (.inl (Nat.le_refl _)),
    isolates.back_tiles.mapM_outside (.inr (Nat.le_refl _)), made, merging, Checked.ok_bind,
    Checked.pure_eq]

/-- No operation works on a range that leaves the region. -/
theorem WellFormed.updateWith_eq_error (wellFormed : partition.WellFormed)
    (fits : address + count * pageSize < wordLimit)
    (outside : ¬ partition.region.Covers address count) :
    partition.updateWith address count change = .error .outsideRegion := by
  have beyond : ¬ (0 < count * pageSize ∧ address + count * pageSize < wordLimit ∧
      partition.region.base ≤ address ∧ address + count * pageSize ≤ partition.region.stop) :=
    fun inside => outside inside.2.2
  rw [updateWith_eq, isolate, word_of_lt fits, Checked.ok_bind,
    Region.contains_of_fits wellFormed.fits, decide_eq_false beyond]
  rfl

end Partition

end GuestMemory
