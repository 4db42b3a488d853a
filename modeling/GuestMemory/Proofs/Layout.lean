import GuestMemory.Layout
import GuestMemory.Proofs.Address
import GuestMemory.Proofs.Checked

/-!
Layouts that a process may have, and the parts of ranges that may be placed in them.
-/

namespace GuestMemory

variable {address size inner length : Nat}

namespace Region

variable {region : Region}

theorem contains_eq_true (contained : region.contains address size = .ok true) :
    region.stop < wordLimit ∧ 0 < size ∧ region.base ≤ address ∧ address + size ≤ region.stop := by
  rw [contains] at contained
  split at contained
  · rename_i guard
    simp only [Bool.and_eq_true, decide_eq_true_eq, bne_iff_ne] at guard
    obtain ⟨⟨_, nonempty⟩, lower⟩ := guard
    obtain ⟨stop, fits, within⟩ := Checked.bind_eq_ok.mp contained
    obtain ⟨bounded, rfl⟩ := word_eq_ok_iff.mp fits
    exact ⟨bounded, Nat.pos_of_ne_zero nonempty, lower,
      of_decide_eq_true (Except.ok.inj within)⟩
  · cases contained

theorem contains_of_subrange (contained : region.contains address size = .ok true)
    (positive : 0 < length) (inside : address ≤ inner ∧ inner + length ≤ address + size) :
    region.contains inner length = .ok true := by
  obtain ⟨fits, _, lower, upper⟩ := contains_eq_true contained
  rw [contains_of_fits fits, decide_eq_true]
  omega

/-- The byte at the address is one of the region. -/
def Has (region : Region) (address : Nat) : Prop :=
  region.base ≤ address ∧ address < region.stop

/-- The region is empty or ends at an address. -/
def Bounded (region : Region) : Prop :=
  region.size = 0 ∨ region.stop < wordLimit

instance : DecidablePred Bounded := fun region =>
  inferInstanceAs (Decidable (region.size = 0 ∨ region.stop < wordLimit))

theorem bounded_of_overlaps {answer : Bool} (answered : region.overlaps address size = .ok answer) :
    region.Bounded := by
  by_cases empty : region.size = 0
  · exact .inl empty
  · rw [overlaps, if_pos (by simpa using empty)] at answered
    obtain ⟨stop, fits, _⟩ := Checked.bind_eq_ok.mp answered
    exact .inr (word_eq_ok_iff.mp fits).1

theorem overlaps_eq_false (apart : region.overlaps address size = .ok false) :
    region.stop ≤ address ∨ address + size ≤ region.base ∨ region.size = 0 := by
  obtain empty | fits := bounded_of_overlaps apart
  · exact .inr (.inr empty)
  · rw [overlaps_of_fits fits] at apart
    have missed := of_decide_eq_false (Except.ok.inj apart)
    omega

theorem overlaps_of_subrange (apart : region.overlaps address size = .ok false)
    (inside : address ≤ inner ∧ inner + length ≤ address + size) :
    region.overlaps inner length = .ok false := by
  obtain empty | fits := bounded_of_overlaps apart
  · simp [overlaps, empty]
  · have missed := overlaps_eq_false apart
    rw [overlaps_of_fits fits, decide_eq_false]
    omega

theorem has_of_contains (contained : region.contains address size = .ok true)
    (lower : address ≤ inner) (upper : inner < address + size) : region.Has inner := by
  obtain ⟨_, _, before, after⟩ := contains_eq_true contained
  exact ⟨Nat.le_trans before lower, Nat.lt_of_lt_of_le upper after⟩

theorem not_has_of_overlaps (apart : region.overlaps address size = .ok false)
    (lower : address ≤ inner) (upper : inner < address + size) : ¬ region.Has inner := by
  intro ⟨before, after⟩
  have missed := overlaps_eq_false apart
  unfold stop at *
  omega

theorem Bounded.contains_exists (bounded : region.Bounded) (address size : Nat) :
    ∃ answer, region.contains address size = .ok answer := by
  obtain empty | fits := bounded
  · exact ⟨false, by simp [contains, empty]⟩
  · exact ⟨_, contains_of_fits fits⟩

theorem Bounded.overlaps_exists (bounded : region.Bounded) (address size : Nat) :
    ∃ answer, region.overlaps address size = .ok answer := by
  obtain empty | fits := bounded
  · exact ⟨false, by simp [overlaps, empty]⟩
  · exact ⟨_, overlaps_of_fits fits⟩

end Region

namespace Layout

variable {layout : Layout}

/-- What may be placed on a range: used memory stays off the alias region and, unless it is heap,
off the heap. -/
theorem canContain_eq_true_iff {state : MemoryState} :
    layout.canContain address size state = .ok true ↔
      (layout.regionFor state).contains address size = .ok true ∧ ∃ inHeap inAlias,
        layout.heap.overlaps address size = .ok inHeap ∧
        layout.ipcAlias.overlaps address size = .ok inAlias ∧
        (state ≠ .free → inAlias = false) ∧
        (state ≠ .free → state ≠ .normal → state ≠ .heap → inHeap = false) := by
  simp only [canContain, Checked.bind_eq_ok, Checked.pure_eq_ok]
  cases state <;> grind

theorem canContain_eq_true {state : MemoryState}
    (fits : layout.canContain address size state = .ok true) :
    (layout.regionFor state).contains address size = .ok true :=
  (canContain_eq_true_iff.mp fits).1

/-- Where memory may be placed, a part of it may. -/
theorem canContain_of_subrange {state : MemoryState}
    (fits : layout.canContain address size state = .ok true)
    (positive : 0 < length) (inside : address ≤ inner ∧ inner + length ≤ address + size) :
    layout.canContain inner length state = .ok true := by
  obtain ⟨contained, inHeap, inAlias, onHeap, onAlias, offAlias, offHeap⟩ :=
    canContain_eq_true_iff.mp fits
  obtain ⟨heapAnswer, heapAnswered⟩ :=
    (Region.bounded_of_overlaps onHeap).overlaps_exists inner length
  obtain ⟨aliasAnswer, aliasAnswered⟩ :=
    (Region.bounded_of_overlaps onAlias).overlaps_exists inner length
  refine canContain_eq_true_iff.mpr ⟨Region.contains_of_subrange contained positive inside,
    heapAnswer, aliasAnswer, heapAnswered, aliasAnswered, fun used => ?_,
    fun used normal heap => ?_⟩
  · rw [offAlias used] at onAlias
    exact Except.ok.inj (aliasAnswered.symm.trans (Region.overlaps_of_subrange onAlias inside))
  · rw [offHeap used normal heap] at onHeap
    exact Except.ok.inj (heapAnswered.symm.trans (Region.overlaps_of_subrange onHeap inside))

/-- What the layout lets be on a page lies there with every byte. -/
theorem bytes_of_canContain {page : Nat} {state : MemoryState}
    (used : state ≠ .free) (inside : pageOf address = page)
    (placed : layout.canContain (page * pageSize) pageSize state = .ok true) :
    (layout.regionFor state).Has address ∧ ¬ layout.ipcAlias.Has address ∧
      (layout.heap.Has address → state = .normal ∨ state = .heap) := by
  obtain ⟨contained, inHeap, inAlias, onHeap, onAlias, offAlias, offHeap⟩ :=
    canContain_eq_true_iff.mp placed
  rw [offAlias used] at onAlias
  obtain ⟨lower, upper⟩ :
      page * pageSize ≤ address ∧ address < page * pageSize + pageSize := by
    simp only [pageOf, pageSize_eq] at *
    omega
  refine ⟨Region.has_of_contains contained lower upper,
    Region.not_has_of_overlaps onAlias lower upper, fun heap => ?_⟩
  by_contra other
  rw [offHeap used (fun normal => other (.inl normal)) fun same => other (.inr same)] at onHeap
  exact Region.not_has_of_overlaps onHeap lower upper heap

def regions (layout : Layout) : List Region :=
  [layout.addressSpace, layout.code, layout.aliasCode, layout.heap, layout.ipcAlias, layout.stack]

theorem regionFor_mem (state : MemoryState) : layout.regionFor state ∈ layout.regions := by
  cases state <;> simp [regionFor, regions]

theorem canContain_exists (bounded : ∀ region ∈ layout.regions, region.Bounded)
    (address size : Nat) (state : MemoryState) :
    ∃ answer, layout.canContain address size state = .ok answer := by
  have region : (layout.regionFor state).Bounded := bounded _ (regionFor_mem state)
  have heap : layout.heap.Bounded := bounded _ (by simp [regions])
  have ipcAlias : layout.ipcAlias.Bounded := bounded _ (by simp [regions])
  obtain ⟨inRegion, contained⟩ := region.contains_exists address size
  obtain ⟨inHeap, onHeap⟩ := heap.overlaps_exists address size
  obtain ⟨inAlias, onAlias⟩ := ipcAlias.overlaps_exists address size
  rw [canContain, contained, onHeap, onAlias]
  exact ⟨_, rfl⟩

/-- The address space consists of whole pages and does not pass the last address. -/
structure Paged (layout : Layout) : Prop where
  aligned : layout.addressSpace.base % pageSize = 0
  whole : layout.addressSpace.size % pageSize = 0
  nonempty : 0 < layout.addressSpace.size
  fits : layout.addressSpace.stop < wordLimit

instance (layout : Layout) : Decidable layout.Paged :=
  decidable_of_iff
    (layout.addressSpace.base % pageSize = 0 ∧ layout.addressSpace.size % pageSize = 0 ∧
      0 < layout.addressSpace.size ∧ layout.addressSpace.stop < wordLimit)
    ⟨fun ⟨aligned, whole, nonempty, fits⟩ => ⟨aligned, whole, nonempty, fits⟩,
      fun paged => ⟨paged.aligned, paged.whole, paged.nonempty, paged.fits⟩⟩

/-- No region passes the last address, wherever the regions are. -/
structure Regular (layout : Layout) : Prop extends layout.Paged where
  bounded : ∀ region ∈ layout.regions, region.Bounded

instance (layout : Layout) : Decidable layout.Regular :=
  decidable_of_iff (layout.Paged ∧ ∀ region ∈ layout.regions, region.Bounded)
    ⟨fun ⟨paged, bounded⟩ => ⟨paged, bounded⟩, fun regular => ⟨regular.toPaged, regular.bounded⟩⟩

namespace Regular

variable (regular : layout.Regular)

include regular

theorem contains_exists (address size : Nat) :
    ∃ answer, layout.contains address size = .ok answer :=
  (regular.bounded _ (by simp [regions])).contains_exists address size

theorem inAliasCode_exists (address size : Nat) :
    ∃ answer, layout.inAliasCode address size = .ok answer :=
  (regular.bounded _ (by simp [regions])).contains_exists address size

theorem canContain_exists (address size : Nat) (state : MemoryState) :
    ∃ answer, layout.canContain address size state = .ok answer :=
  Layout.canContain_exists regular.bounded address size state

end Regular

/-- The address space consists of whole pages and does not pass the last address; the other regions
are empty or inside it. -/
structure WellFormed (layout : Layout) : Prop where
  aligned : layout.addressSpace.base % pageSize = 0
  whole : layout.addressSpace.size % pageSize = 0
  nonempty : 0 < layout.addressSpace.size
  fits : layout.addressSpace.stop < wordLimit
  inside : ∀ region ∈ [layout.code, layout.aliasCode, layout.heap, layout.ipcAlias, layout.stack],
    region.size = 0 ∨
      layout.addressSpace.base ≤ region.base ∧ region.stop ≤ layout.addressSpace.stop

instance (layout : Layout) : Decidable layout.WellFormed :=
  decidable_of_iff
    (layout.addressSpace.base % pageSize = 0 ∧ layout.addressSpace.size % pageSize = 0 ∧
      0 < layout.addressSpace.size ∧ layout.addressSpace.stop < wordLimit ∧
      ∀ region ∈ [layout.code, layout.aliasCode, layout.heap, layout.ipcAlias, layout.stack],
        region.size = 0 ∨
          layout.addressSpace.base ≤ region.base ∧ region.stop ≤ layout.addressSpace.stop)
    ⟨fun ⟨aligned, whole, nonempty, fits, inside⟩ => ⟨aligned, whole, nonempty, fits, inside⟩,
      fun wellFormed => ⟨wellFormed.aligned, wellFormed.whole, wellFormed.nonempty,
        wellFormed.fits, wellFormed.inside⟩⟩

namespace WellFormed

variable (wellFormed : layout.WellFormed)

include wellFormed

theorem paged : layout.Paged :=
  ⟨wellFormed.aligned, wellFormed.whole, wellFormed.nonempty, wellFormed.fits⟩

theorem regular : layout.Regular where
  toPaged := wellFormed.paged
  bounded := by
    have fits := wellFormed.fits
    intro region member
    rcases List.mem_cons.mp member with rfl | other
    · exact .inr fits
    · rcases wellFormed.inside region other with empty | ⟨_, upper⟩
      · exact .inl empty
      · exact .inr (Nat.lt_of_le_of_lt upper fits)

/-- What is placed lies inside the address space. -/
theorem within_of_canContain {state : MemoryState}
    (placed : layout.canContain address size state = .ok true) :
    0 < size ∧ layout.addressSpace.base ≤ address ∧
      address + size ≤ layout.addressSpace.stop := by
  have contained := canContain_eq_true placed
  obtain ⟨_, nonempty, lower, upper⟩ := Region.contains_eq_true contained
  rcases List.mem_cons.mp (regionFor_mem state) with whole | other
  · rw [whole] at lower upper
    exact ⟨nonempty, lower, upper⟩
  · rcases wellFormed.inside _ other with empty | ⟨before, after⟩
    · rw [Region.contains, empty] at contained
      simp at contained
    · exact ⟨nonempty, Nat.le_trans before lower, Nat.le_trans upper after⟩

end WellFormed

end Layout

end GuestMemory
