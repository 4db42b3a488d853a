import GuestMemory.Proofs.Layout

/-!
Regions and layouts byte by byte. What a region or a layout answers about a range is what the single
bytes of the range come to, with one exception: an empty range strictly inside a region is taken to
touch it, though it has no byte there. No placement depends on that, as nothing is placed on an
empty range.
-/

namespace GuestMemory

variable {address size : Nat}

namespace Region

variable {region other : Region}

instance : Decidable (region.Has address) :=
  inferInstanceAs (Decidable (region.base ≤ address ∧ address < region.stop))

/-- Every byte of the region is one of the other. -/
def Within (region other : Region) : Prop :=
  ∀ byte, region.Has byte → other.Has byte

/-- Some byte is one of both regions. -/
def Meets (region other : Region) : Prop :=
  ∃ byte, region.Has byte ∧ other.Has byte

theorem within_iff (nonempty : 0 < region.size) :
    region.Within other ↔ other.base ≤ region.base ∧ region.stop ≤ other.stop := by
  constructor
  · intro within
    obtain ⟨lower, _⟩ := within region.base ⟨Nat.le_refl _, by unfold stop; omega⟩
    obtain ⟨_, upper⟩ := within (region.stop - 1) (by unfold Has stop; omega)
    exact ⟨lower, by omega⟩
  · rintro ⟨lower, upper⟩ byte ⟨after, before⟩
    exact ⟨Nat.le_trans lower after, Nat.lt_of_lt_of_le before upper⟩

theorem meets_iff : region.Meets other ↔
    0 < region.size ∧ 0 < other.size ∧ region.base < other.stop ∧ other.base < region.stop := by
  constructor
  · rintro ⟨byte, ⟨lower, upper⟩, otherLower, otherUpper⟩
    unfold stop at *
    omega
  · rintro ⟨nonempty, otherNonempty, before, after⟩
    -- the region that begins later has its first byte in both
    refine ⟨max region.base other.base, ?_, ?_⟩ <;> unfold Has stop at * <;> omega

instance : Decidable (region.Within other) :=
  decidable_of_iff (region.size = 0 ∨ other.base ≤ region.base ∧ region.stop ≤ other.stop) <| by
    by_cases empty : region.size = 0
    · simp only [empty, true_or, true_iff]
      rintro byte ⟨lower, upper⟩
      unfold stop at upper
      omega
    · simp only [empty, false_or]
      exact (within_iff (Nat.pos_of_ne_zero empty)).symm

instance : Decidable (region.Meets other) :=
  decidable_of_iff _ meets_iff.symm

theorem Within.meets (within : region.Within other) (nonempty : 0 < region.size) :
    region.Meets other :=
  have first : region.Has region.base := ⟨Nat.le_refl _, by unfold stop; omega⟩
  ⟨region.base, first, within region.base first⟩

/-- All bytes of the range are in the region. -/
def Encloses (region : Region) (address size : Nat) : Prop :=
  region.base ≤ address ∧ address + size ≤ region.stop

instance : Decidable (region.Encloses address size) :=
  inferInstanceAs (Decidable (region.base ≤ address ∧ address + size ≤ region.stop))

/-- Some byte of the range is in the region, as far as the ends of the two tell. -/
def Touches (region : Region) (address size : Nat) : Prop :=
  region.size ≠ 0 ∧ address < region.stop ∧ region.base < address + size

instance : Decidable (region.Touches address size) :=
  inferInstanceAs
    (Decidable (region.size ≠ 0 ∧ address < region.stop ∧ region.base < address + size))

theorem encloses_iff_within (positive : 0 < size) :
    region.Encloses address size ↔ (⟨address, size⟩ : Region).Within region :=
  Iff.symm (within_iff positive : (⟨address, size⟩ : Region).Within region ↔ _)

/-- Comparing ends finds a byte in common, unless the range is empty and strictly inside. -/
theorem touches_iff_meets :
    region.Touches address size ↔ (⟨address, size⟩ : Region).Meets region ∨
      size = 0 ∧ region.base < address ∧ address < region.stop := by
  simp only [meets_iff, Touches, stop]
  omega

section Answers

variable (bounded : region.Bounded)

include bounded

theorem Bounded.contains_eq (address size : Nat) :
    region.contains address size =
      .ok (decide (0 < size ∧ address + size < wordLimit ∧ region.Encloses address size)) := by
  obtain empty | fits := bounded
  · have outside :
        ¬ (0 < size ∧ address + size < wordLimit ∧ region.Encloses address size) := by
      unfold Encloses stop
      omega
    simp [contains, empty, outside]
  · exact contains_of_fits fits

theorem Bounded.overlaps_eq (address size : Nat) :
    region.overlaps address size = .ok (decide (region.Touches address size)) := by
  obtain empty | fits := bounded
  · simp [overlaps, Touches, empty]
  · rw [overlaps_of_fits fits]
    exact congrArg Except.ok (decide_eq_decide.mpr and_rotate.symm)

end Answers

/-- What a region that ends at an address answers about ranges. It contains those that are not
empty, do not pass the last address and have all their bytes in it; it overlaps those that share a
byte with it, and the empty ones strictly inside; and it overlaps what it contains. -/
theorem contains_and_overlaps_are_exact (fits : region.stop < wordLimit) (address size : Nat) :
    let range : Region := ⟨address, size⟩
    region.contains address size =
      .ok (decide (0 < size ∧ address + size < wordLimit ∧ range.Within region)) ∧
    region.overlaps address size =
      .ok (decide (range.Meets region ∨
        size = 0 ∧ region.base < address ∧ address < region.stop)) ∧
    (region.contains address size = .ok true → region.overlaps address size = .ok true) := by
  intro range
  have bounded : region.Bounded := .inr fits
  simp only [bounded.contains_eq, bounded.overlaps_eq, Except.ok.injEq, decide_eq_decide,
    decide_eq_true_iff]
  refine ⟨and_congr_right fun positive => and_congr_right fun _ => encloses_iff_within positive,
    touches_iff_meets, ?_⟩
  rintro ⟨positive, _, encloses⟩
  exact touches_iff_meets.mpr (.inl (((encloses_iff_within positive).mp encloses).meets positive))

/-- The last page of the address range but one: a range that passes the last address is not inside
it, however much they share. -/
theorem contains_and_overlaps_are_exact_near_the_end :
    (⟨0xFFFFFFFFFFFFE000, 0x1000⟩ : Region).stop < wordLimit ∧
      (⟨0xFFFFFFFFFFFFE000, 0x1000⟩ : Region).contains 0xFFFFFFFFFFFFE800 0x800 = .ok true ∧
      (⟨0xFFFFFFFFFFFFE000, 0x1000⟩ : Region).contains 0xFFFFFFFFFFFFEFFF 0x1001 = .ok false ∧
      (⟨0xFFFFFFFFFFFFE000, 0x1000⟩ : Region).overlaps 0xFFFFFFFFFFFFEFFF 0x1001 = .ok true := by
  have fits : (⟨0xFFFFFFFFFFFFE000, 0x1000⟩ : Region).stop < wordLimit := by decide
  have inner := contains_and_overlaps_are_exact fits 0xFFFFFFFFFFFFE800 0x800
  have longer := contains_and_overlaps_are_exact fits 0xFFFFFFFFFFFFEFFF 0x1001
  exact ⟨fits, inner.1.trans (by decide), longer.1.trans (by decide), longer.2.1.trans (by decide)⟩

/-- An empty range is said to share a byte with the region around it. -/
theorem overlaps_an_empty_range :
    (⟨0x1000, 0x1000⟩ : Region).overlaps 0x1800 0 = .ok true ∧
      ¬ ∃ byte, (⟨0x1800, 0⟩ : Region).Has byte ∧ (⟨0x1000, 0x1000⟩ : Region).Has byte :=
  ⟨rfl, fun ⟨byte, ⟨lower, upper⟩, _⟩ => absurd (Nat.lt_of_le_of_lt lower upper) (by decide)⟩

end Region

namespace Layout

variable {layout : Layout}

/-- Memory in the state may be on the range: it is inside the region of the state and, unless it is
free, off the region of messages and, unless it is heap too, off the heap. -/
def MayHold (layout : Layout) (state : MemoryState) (address size : Nat) : Prop :=
  0 < size ∧ (layout.regionFor state).Encloses address size ∧
    (state ≠ .free → ¬ layout.ipcAlias.Touches address size) ∧
    (state ≠ .free → state ≠ .normal → state ≠ .heap → ¬ layout.heap.Touches address size)

instance (state : MemoryState) : Decidable (layout.MayHold state address size) :=
  inferInstanceAs (Decidable (0 < size ∧ (layout.regionFor state).Encloses address size ∧
    (state ≠ .free → ¬ layout.ipcAlias.Touches address size) ∧
    (state ≠ .free → state ≠ .normal → state ≠ .heap → ¬ layout.heap.Touches address size)))

theorem canContain_eq (bounded : ∀ region ∈ layout.regions, region.Bounded)
    (address size : Nat) (state : MemoryState) :
    layout.canContain address size state =
      .ok (decide (address + size < wordLimit ∧ layout.MayHold state address size)) := by
  have region : (layout.regionFor state).Bounded := bounded _ (regionFor_mem state)
  have heap : layout.heap.Bounded := bounded _ (by simp [regions])
  have messages : layout.ipcAlias.Bounded := bounded _ (by simp [regions])
  obtain ⟨answer, placed⟩ := canContain_exists bounded address size state
  have holds : layout.canContain address size state = .ok true ↔
      address + size < wordLimit ∧ layout.MayHold state address size := by
    rw [canContain_eq_true_iff, region.contains_eq, heap.overlaps_eq, messages.overlaps_eq]
    simp [MayHold, and_assoc, and_left_comm]
  rw [placed] at holds ⊢
  refine congrArg Except.ok (Bool.eq_iff_iff.mpr ?_)
  rw [decide_eq_true_iff, ← holds, Except.ok.injEq]

/-- A layout without a region that passes the last address, wherever the regions lie, lets memory be
on a range if the range is not empty and does not pass the last address, all its bytes are in the
region of the state, none is in the region of messages unless the memory is free, and none is on the
heap unless it is free, ordinary or heap memory. -/
theorem canContain_is_exact (bounded : ∀ region ∈ layout.regions, region.Bounded)
    (address size : Nat) (state : MemoryState) :
    let range : Region := ⟨address, size⟩
    layout.canContain address size state =
      .ok (decide (0 < size ∧ address + size < wordLimit ∧
        range.Within (layout.regionFor state) ∧
        (state ≠ .free → ¬ range.Meets layout.ipcAlias) ∧
        (state ≠ .free → state ≠ .normal → state ≠ .heap → ¬ range.Meets layout.heap))) := by
  intro range
  rw [canContain_eq bounded]
  refine congrArg Except.ok (decide_eq_decide.mpr ?_)
  by_cases positive : 0 < size
  · -- a range that is not empty touches a region only where it shares a byte with it
    have touches_iff (region : Region) : region.Touches address size ↔ range.Meets region := by
      simp [Region.touches_iff_meets, Nat.ne_of_gt positive, range]
    simp only [MayHold, Region.encloses_iff_within positive, touches_iff, and_left_comm, range]
  · simp [MayHold, positive]

/-- A layout whose code aliases start inside a page and reach onto the heap, without a region for
code. -/
def crooked : Layout where
  addressSpace := ⟨0x1000, 0x7000⟩
  code := ⟨0x1800, 0⟩
  aliasCode := ⟨0x1001, 0x2FFF⟩
  heap := ⟨0x3000, 0x2000⟩
  ipcAlias := ⟨0xFFFFFFFFFFFFF000, 0xFFF⟩
  stack := ⟨0x2000, 0x1000⟩

/-- A code alias may be placed up to the heap, but not on its first byte; the heap may go on. -/
theorem canContain_is_exact_of_crooked :
    (∀ region ∈ crooked.regions, region.Bounded) ∧
      crooked.canContain 0x1001 0x1FFF .aliasCode = .ok true ∧
      crooked.canContain 0x1001 0x2000 .aliasCode = .ok false ∧
      crooked.canContain 0x3FFF 0x1001 .heap = .ok true ∧
      crooked.canContain 0x1800 0 .code = .ok false := by
  have bounded : ∀ region ∈ crooked.regions, region.Bounded := by decide
  have exact (address size : Nat) (state : MemoryState) :=
    canContain_is_exact bounded address size state
  exact ⟨bounded, (exact _ _ _).trans (by decide), (exact _ _ _).trans (by decide),
    (exact _ _ _).trans (by decide), (exact _ _ _).trans (by decide)⟩

end Layout

end GuestMemory
