import GuestMemory.Proofs.Kernel.Independence

/-!
Pieces of calls: the same call on some of the pages of its ranges. Where a call is done, both parts
of it are in either order, and together they come to the same: all that is asked is asked of pages
one by one, or of runs of frames that are no more for being fewer pages.
-/

namespace GuestMemory

open Verdict

/-- So many pages of a range, after the first `skip`. -/
structure Piece where
  skip : Nat
  count : Nat

namespace Piece

variable {piece first second : Piece} {pages cut offset address bytes : Nat}

/-- The pages of a piece are among those of the range. -/
structure Within (piece : Piece) (pages : Nat) : Prop where
  positive : 0 < piece.count
  bounded : piece.skip + piece.count ≤ pages

def Has (piece : Piece) (offset : Nat) : Prop :=
  piece.skip ≤ offset ∧ offset < piece.skip + piece.count

/-- Each page of a range is in one of two pieces, and in one only. -/
structure Complements (pages : Nat) (first second : Piece) : Prop where
  within : first.Within pages
  within_other : second.Within pages
  apart : ∀ offset, first.Has offset → ¬ second.Has offset
  cover : ∀ offset < pages, first.Has offset ∨ second.Has offset

theorem complements_of_cut (positive : 0 < cut) (short : cut < pages) :
    Complements pages ⟨0, cut⟩ ⟨cut, pages - cut⟩ where
  within := ⟨positive, by simpa using short.le⟩
  within_other := ⟨Nat.sub_pos_of_lt short, (Nat.add_sub_of_le short.le).le⟩
  apart offset here there := by
    obtain ⟨_, before⟩ := here
    obtain ⟨after, _⟩ := there
    dsimp only at before after
    omega
  cover offset bounded := by
    simp only [Has]
    omega

theorem Complements.symm (complements : Complements pages first second) :
    Complements pages second first where
  within := complements.within_other
  within_other := complements.within
  apart offset there here := complements.apart offset here there
  cover offset bounded := (complements.cover offset bounded).symm

theorem Within.lt (within : piece.Within pages) (has : piece.Has offset) : offset < pages :=
  Nat.lt_of_lt_of_le has.2 within.bounded

theorem has_iff : piece.Has offset ↔ ∃ inner < piece.count, piece.skip + inner = offset := by
  constructor
  · rintro ⟨lower, upper⟩
    exact ⟨offset - piece.skip, by omega, Nat.add_sub_cancel' lower⟩
  · rintro ⟨inner, bounded, rfl⟩
    exact ⟨Nat.le_add_right _ _, Nat.add_lt_add_left bounded _⟩

theorem Within.fits (within : piece.Within pages) (fits : address + pages * pageSize < wordLimit) :
    address + piece.skip * pageSize + piece.count * pageSize < wordLimit := by
  have bounded := within.bounded
  simp only [pageSize_eq] at *
  omega

theorem Within.whole (within : piece.Within pages) :
    Kernel.WholePages (piece.count * pageSize) where
  aligned := Nat.mul_mod_left _ _
  positive := Nat.mul_pos within.positive (by decide)

theorem Within.rangeFits (within : piece.Within (bytes / pageSize))
    (whole : Kernel.WholePages bytes) (fits : Kernel.rangeFits address bytes = true) :
    Kernel.rangeFits (address + piece.skip * pageSize) (piece.count * pageSize) = true :=
  decide_eq_true (within.fits (Setting.fits_of_whole whole fits))

/-- The address so many pages further. -/
def ahead (piece : Piece) (address : UInt64) : UInt64 :=
  address + .ofNat (piece.skip * pageSize)

def size (piece : Piece) : UInt64 :=
  .ofNat (piece.count * pageSize)

theorem Within.toNat_ahead {address : UInt64} (within : piece.Within pages)
    (fits : address.toNat + pages * pageSize < wordLimit) :
    (piece.ahead address).toNat = address.toNat + piece.skip * pageSize := by
  have below := within.fits fits
  simp only [wordLimit] at below
  rw [ahead, UInt64.toNat_add, UInt64.toNat_ofNat']
  omega

theorem Within.toNat_size (within : piece.Within pages)
    (fits : address + pages * pageSize < wordLimit) :
    piece.size.toNat = piece.count * pageSize := by
  have below := within.fits fits
  simp only [wordLimit] at below
  rw [size, UInt64.toNat_ofNat']
  omega

end Piece

/-- The number of pages of the ranges that the call names. -/
def Call.pages : Call → Nat
  | setPermission _ _ size _ | mapMemory _ _ _ size | unmapMemory _ _ _ size
  | mapCode _ _ _ size | unmapCode _ _ _ size => size.toNat / pageSize

/-- The same call on a piece of its ranges. -/
def Call.piece (piece : Piece) : Call → Call
  | setPermission handle address _ permission =>
    setPermission handle (piece.ahead address) piece.size permission
  | mapMemory destination handle source _ =>
    mapMemory (piece.ahead destination) handle (piece.ahead source) piece.size
  | unmapMemory destination handle source _ =>
    unmapMemory (piece.ahead destination) handle (piece.ahead source) piece.size
  | mapCode handle destination source _ =>
    mapCode handle (piece.ahead destination) (piece.ahead source) piece.size
  | unmapCode handle destination source _ =>
    unmapCode handle (piece.ahead destination) (piece.ahead source) piece.size

def Task.piece (task : Task) (piece : Piece) : Task :=
  { task with
    destination := task.destination.advance piece.skip
    source := task.source.advance piece.skip
    pages := piece.count }

namespace Setting

variable {setting : Setting} {piece : Piece} {task : Task} {work : Work} {place : Place}
variable {current address destination source size permission length : Nat} {handle : Handle}
variable {request : Call} {state : MemoryState}

theorem memoryTask_piece
    (came : setting.memoryTask work current destination handle source size = .ok task)
    (within : piece.Within (size / pageSize)) :
    setting.memoryTask work current (destination + piece.skip * pageSize) handle
      (source + piece.skip * pageSize) (piece.count * pageSize) = .ok (task.piece piece) := by
  simp only [memoryTask, Verdict.bind_eq_ok, demand_eq_ok, isPageAligned_add_mul_pageSize,
    Kernel.wholePages_iff] at came ⊢
  obtain ⟨_, first, _, second, _, whole, _, fits, _, sourceFits, owner, resolved, built⟩ := came
  cases built
  refine ⟨(), first, (), second, (), within.whole, (), within.rangeFits whole fits, (),
    within.rangeFits whole sourceFits, owner, resolved, ?_⟩
  rw [Nat.mul_div_cancel _ (by decide)]
  rfl

theorem codeTask_piece
    (came : setting.codeTask work current handle destination source size = .ok task)
    (within : piece.Within (size / pageSize)) :
    setting.codeTask work current handle (destination + piece.skip * pageSize)
      (source + piece.skip * pageSize) (piece.count * pageSize) = .ok (task.piece piece) := by
  simp only [codeTask, Verdict.bind_eq_ok, demand_eq_ok, isPageAligned_add_mul_pageSize,
    Kernel.wholePages_iff] at came ⊢
  obtain ⟨_, aligned, _, whole, _, fits, _, sourceFits, target, resolved, built⟩ := came
  cases built
  refine ⟨(), aligned, (), within.whole, (), within.rangeFits whole fits, (),
    within.rangeFits whole sourceFits, target, resolved, ?_⟩
  rw [Nat.mul_div_cancel _ (by decide)]
  rfl

theorem permissionTask_piece
    (came : setting.permissionTask current handle address size permission = .ok task)
    (within : piece.Within (size / pageSize)) :
    setting.permissionTask current handle (address + piece.skip * pageSize)
      (piece.count * pageSize) permission = .ok (task.piece piece) := by
  simp only [permissionTask, Verdict.bind_eq_ok, demand_eq_ok, isPageAligned_add_mul_pageSize,
    Kernel.wholePages_iff] at came ⊢
  obtain ⟨_, aligned, _, whole, _, fits, came⟩ := came
  refine ⟨(), aligned, (), within.whole, (), within.rangeFits whole fits, ?_⟩
  cases granted : UserPermission.ofRaw? permission with
  | none =>
      rw [granted] at came
      cases came
  | some granted =>
      simp only [granted, Verdict.bind_eq_ok] at came ⊢
      obtain ⟨target, resolved, built⟩ := came
      cases built
      refine ⟨target, resolved, ?_⟩
      rw [Nat.mul_div_cancel _ (by decide)]
      rfl

theorem pages_of_task (came : setting.task current request = .ok task) :
    task.pages = request.pages := by
  cases request with
  | setPermission =>
      obtain ⟨granted, target, _, _, _, rfl⟩ := eq_of_permissionTask came
      rfl
  | mapMemory | unmapMemory =>
      obtain ⟨owner, _, rfl⟩ := eq_of_memoryTask came
      rfl
  | mapCode | unmapCode =>
      obtain ⟨target, _, _, rfl⟩ := eq_of_codeTask came
      rfl

/-- A piece of a call comes to a piece of the task. -/
theorem task_piece (came : setting.task current request = .ok task)
    (within : piece.Within task.pages) :
    setting.task current (request.piece piece) = .ok (task.piece piece) := by
  have valid := valid_of_task came
  have bytes := within.toNat_size valid.destination_fits
  cases request with
  | setPermission handle address size permission =>
      obtain ⟨granted, target, _, _, _, rfl⟩ := eq_of_permissionTask came
      simp only [Call.piece, Setting.task, within.toNat_ahead valid.destination_fits, bytes]
      exact permissionTask_piece came within
  | mapMemory destination handle source size | unmapMemory destination handle source size =>
      obtain ⟨owner, _, rfl⟩ := eq_of_memoryTask came
      simp only [Call.piece, Setting.task, within.toNat_ahead valid.destination_fits,
        within.toNat_ahead valid.source_fits, bytes]
      exact memoryTask_piece came within
  | mapCode handle destination source size | unmapCode handle destination source size =>
      obtain ⟨target, _, _, rfl⟩ := eq_of_codeTask came
      simp only [Call.piece, Setting.task, within.toNat_ahead valid.destination_fits,
        within.toNat_ahead valid.source_fits, bytes]
      exact codeTask_piece came within

theorem requireInside_piece (inside : setting.requireInside place size = .ok ())
    (positive : 0 < length) (within : piece.skip * pageSize + length ≤ size) :
    setting.requireInside (place.advance piece.skip) length = .ok () := by
  simp only [requireInside, Verdict.bind_eq_ok, demand_eq_ok, Checked.verdict_eq_ok] at inside ⊢
  obtain ⟨resident, listed, answer, contained, rfl⟩ := inside
  exact ⟨resident, listed, true, Region.contains_of_subrange contained positive
    ⟨Nat.le_add_right _ _, by simp only [Place.advance]; omega⟩, rfl⟩

theorem requirePlace_piece (placed : setting.requirePlace place size state = .ok ())
    (positive : 0 < length) (within : piece.skip * pageSize + length ≤ size) :
    setting.requirePlace (place.advance piece.skip) length state = .ok () := by
  simp only [requirePlace, Verdict.bind_eq_ok, demand_eq_ok, Checked.verdict_eq_ok] at placed ⊢
  obtain ⟨resident, listed, answer, fits, rfl⟩ := placed
  refine ⟨resident, listed, true, ?_, rfl⟩
  have inner : place.address ≤ (place.advance piece.skip).address ∧
      (place.advance piece.skip).address + length ≤ place.address + size :=
    ⟨Nat.le_add_right _ _, by simp only [Place.advance]; omega⟩
  exact Layout.canContain_of_subrange fits positive inner

/-- Where a task has its place, a piece of it has. -/
theorem requirePlaces_piece (admitted : setting.requirePlaces task = .ok ())
    (within : piece.Within task.pages) :
    setting.requirePlaces (task.piece piece) = .ok () := by
  obtain ⟨_, inside, placed⟩ := Verdict.bind_eq_ok.mp admitted
  have positive : 0 < piece.count * pageSize := Nat.mul_pos within.positive (by decide)
  have bounded : piece.skip * pageSize + piece.count * pageSize ≤ task.pages * pageSize := by
    rw [← Nat.add_mul]
    exact Nat.mul_le_mul_right _ within.bounded
  refine Verdict.bind_eq_ok.mpr ⟨(), requireInside_piece inside positive bounded, ?_⟩
  cases asked : task.work.state? with
  | none => simp [Task.piece, asked]
  | some state =>
      rw [asked] at placed
      simp only [Task.piece, asked]
      exact requirePlace_piece placed positive bounded

end Setting

end GuestMemory
