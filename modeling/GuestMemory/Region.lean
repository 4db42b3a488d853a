import GuestMemory.Address

/-!
Regions: contiguous ranges of virtual memory, and which byte ranges lie in them or touch them.
-/

namespace GuestMemory

/-- The bytes from `base` up to `base + size`. -/
structure Region where
  base : Nat
  size : Nat
  deriving DecidableEq

namespace Region

variable (region : Region) (address size : Nat)

def stop : Nat :=
  region.base + region.size

/-- The address just past the region, where that is an address. -/
def checkedStop : Checked Nat :=
  word region.stop

/-- The nonempty range of `size` bytes from `address` lies inside the region. A range that
passes the last address lies nowhere. -/
def contains : Checked Bool :=
  if address + size < wordLimit && region.size != 0 && size != 0 && region.base ≤ address then do
    let stop ← region.checkedStop
    return address + size ≤ stop
  else
    return false

/-- The range of `size` bytes from `address` shares a byte with the region; a range that passes
the last address is cut off there. An empty range touches the region that it is strictly inside. -/
def overlaps : Checked Bool :=
  if region.size != 0 then do
    let stop ← region.checkedStop
    return address < stop && region.base < min (address + size) wordMax
  else
    return false

variable {region : Region} {address size : Nat}

theorem contains_of_fits (fits : region.stop < wordLimit) :
    region.contains address size =
      .ok (decide (0 < size ∧ address + size < wordLimit ∧ region.base ≤ address ∧
        address + size ≤ region.stop)) := by
  unfold contains checkedStop
  rw [word_of_lt fits]
  split
  · rename_i inside
    simp only [Bool.and_eq_true, decide_eq_true_eq, bne_iff_ne] at inside
    obtain ⟨⟨⟨bounded, _⟩, nonempty⟩, after⟩ := inside
    have positive : 0 < size := by omega
    simp [bounded, after, positive, bind, Except.bind, pure, Except.pure]
  · rename_i outside
    have never : ¬ (0 < size ∧ address + size < wordLimit ∧ region.base ≤ address ∧
        address + size ≤ region.stop) := by
      intro ⟨positive, bounded, after, upto⟩
      apply outside
      have nonempty : region.size ≠ 0 := by
        unfold stop at upto
        omega
      simp [bounded, nonempty, after, Nat.pos_iff_ne_zero.mp positive]
    simp [never, pure, Except.pure]

theorem overlaps_of_fits (fits : region.stop < wordLimit) :
    region.overlaps address size =
      .ok (decide (address < region.stop ∧ region.base < address + size ∧ region.size ≠ 0)) := by
  unfold overlaps checkedStop
  rw [word_of_lt fits]
  by_cases empty : region.size = 0
  · simp [empty, pure, Except.pure]
  · have cut : region.base < min (address + size) wordMax ↔ region.base < address + size := by
      unfold stop at fits
      unfold wordMax
      omega
    simp [empty, cut, bind, Except.bind, pure, Except.pure]

def text (region : Region) : String :=
  s!"Region \x7b base: {virtualText region.base}, size: {region.size} \x7d"

end Region

end GuestMemory
