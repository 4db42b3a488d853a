import GuestMemory.Proofs.Run
import Mathlib.Algebra.GroupWithZero.Nat
import Mathlib.Data.List.SplitBy

/-!
Runs in normal form. Many lists of runs stand for the same frames, but only one of them has no empty
run and no run that is directly followed by the next.
-/

namespace GuestMemory

/-- What the step leads to behind the last number of a stretch. -/
theorem getLast_range'_add {start count step : Nat} (some : List.range' start count step ≠ []) :
    (List.range' start count step).getLast some + step = start + count * step := by
  obtain ⟨before, rfl⟩ :=
    Nat.exists_eq_succ_of_ne_zero ((List.range'_ne_nil_iff start).mp some)
  rw [List.getLast_eq_getElem, List.getElem_range', List.length_range', Nat.succ_sub_one,
    Nat.succ_mul, Nat.mul_comm, Nat.add_assoc]

/-- Stretches of numbers with one step are the maximal ones of their list where none is empty and
none ends where the next starts. -/
theorem splitBy_flatMap_range' {α : Type} {parts : List α} {start count : α → Nat} {step : Nat}
    (nonempty : ∀ part ∈ parts, count part ≠ 0)
    (apart : parts.IsChain fun part next => start part + count part * step ≠ start next) :
    (parts.flatMap fun part => List.range' (start part) (count part) step).splitBy
      (fun number next => next = number + step) =
        parts.map fun part => List.range' (start part) (count part) step := by
  have some (part : α) (member : part ∈ parts) :
      List.range' (start part) (count part) step ≠ [] :=
    (List.range'_ne_nil_iff (start part)).mpr (nonempty part member)
  rw [List.flatMap_def]
  apply List.splitBy_flatten
  · intro empty
    obtain ⟨part, member, none⟩ := List.mem_map.mp empty
    exact some part member none
  · intro numbers member
    obtain ⟨part, _, rfl⟩ := List.mem_map.mp member
    simpa only [decide_eq_true_eq] using List.isChain_range' (start part) (count part) step
  · rw [List.isChain_map]
    refine apart.imp_of_mem_imp fun part next member nextMember apart => ?_
    refine ⟨some part member, some next nextMember, decide_eq_false ?_⟩
    rw [getLast_range'_add, List.head_eq_getElem, List.getElem_range', Nat.mul_zero, Nat.add_zero]
    exact apart.symm

namespace Run

variable {run added : Run} {runs others lower result : List Run}

/-- The addresses of the frames of a run, wherever it starts. -/
def addresses (run : Run) : List Nat :=
  List.range' run.address run.pages pageSize

def addressesOf (runs : List Run) : List Nat :=
  runs.flatMap addresses

@[simp]
theorem addressesOf_nil : addressesOf [] = [] :=
  rfl

@[simp]
theorem addressesOf_cons (run : Run) (rest : List Run) :
    addressesOf (run :: rest) = run.addresses ++ addressesOf rest :=
  rfl

@[simp]
theorem addressesOf_append (front back : List Run) :
    addressesOf (front ++ back) = addressesOf front ++ addressesOf back :=
  List.flatMap_append

@[simp]
theorem length_addresses (run : Run) : run.addresses.length = run.pages :=
  List.length_range'

theorem length_addressesOf (runs : List Run) :
    (addressesOf runs).length = (runs.map (·.pages)).sum := by
  rw [addressesOf, List.length_flatMap]
  simp only [length_addresses]

theorem addresses_single (address : Nat) : addresses ⟨address, 1⟩ = [address] :=
  rfl

theorem addresses_of_empty (empty : run.pages = 0) : run.addresses = [] := by
  rw [addresses, empty, List.range'_zero]

theorem addresses_extend (follows : run.stop = added.address) :
    addresses { run with pages := run.pages + added.pages } = run.addresses ++ added.addresses := by
  rw [addresses, addresses, addresses, ← follows, stop, size, Nat.mul_comm run.pages,
    List.range'_append]

theorem addressesOf_stack (stacked : added.stack lower = .ok result) :
    addressesOf result.reverse = addressesOf lower.reverse ++ added.addresses :=
  flatMap_stack addresses_extend stacked

/-- A run that is not empty starts with its first frame and has as many as it says. -/
theorem eq_of_addresses {other : Run} (nonempty : run.pages ≠ 0)
    (same : run.addresses = other.addresses) : run = other := by
  obtain ⟨address, pages⟩ := run
  obtain ⟨otherAddress, otherPages⟩ := other
  obtain rfl : pages = otherPages := by simpa using congrArg List.length same
  obtain ⟨count, rfl⟩ := Nat.exists_eq_succ_of_ne_zero nonempty
  obtain rfl : address = otherAddress := (List.cons.inj same).1
  rfl

/-- None of the runs is empty and none is directly followed by the next. -/
structure Normal (runs : List Run) : Prop where
  nonempty : ∀ run ∈ runs, run.pages ≠ 0
  apart : runs.IsChain fun run next => run.stop ≠ next.address

theorem normal_nil : Normal [] :=
  ⟨fun _ member => absurd member List.not_mem_nil, .nil⟩

/-- The maximal parts of a list in which every frame lies behind the one before it. -/
def segments (listed : List Nat) : List (List Nat) :=
  listed.splitBy fun address next => next = address + pageSize

/-- Runs in normal form are the maximal ones of the frames that they stand for. -/
theorem Normal.segments_eq (normal : Normal runs) :
    segments (addressesOf runs) = runs.map addresses :=
  splitBy_flatMap_range' normal.nonempty normal.apart

theorem eq_of_map_addresses (nonempty : ∀ run ∈ runs, run.pages ≠ 0)
    (same : runs.map addresses = others.map addresses) : runs = others := by
  induction runs generalizing others with
  | nil => exact (List.map_eq_nil_iff.mp same.symm).symm
  | cons run rest ih =>
      obtain ⟨first, remaining⟩ := List.forall_mem_cons.mp nonempty
      obtain ⟨other, behind, rfl, here, later⟩ := List.map_eq_cons_iff.mp same.symm
      rw [eq_of_addresses first here.symm, ih remaining later.symm]

theorem Normal.eq_of_addressesOf (normal : Normal runs) (other : Normal others)
    (same : addressesOf runs = addressesOf others) : runs = others := by
  refine eq_of_map_addresses normal.nonempty ?_
  rw [← normal.segments_eq, ← other.segments_eq, same]

end Run

end GuestMemory
