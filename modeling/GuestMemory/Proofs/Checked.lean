import GuestMemory.Word
import Mathlib.Data.List.Forall2

/-!
Taking checked computations apart: a sequence that ends without a fault went through answers of
all its steps.
-/

namespace GuestMemory

variable {α β : Type}

namespace Checked

theorem bind_eq_ok {computation : Checked α} {next : α → Checked β} {result : β} :
    (computation >>= next) = .ok result ↔
      ∃ value, computation = .ok value ∧ next value = .ok result := by
  cases computation with
  | error fault => simp [bind, Except.bind]
  | ok value => simp [bind, Except.bind]

theorem pure_eq_ok {value result : α} : (pure value : Checked α) = .ok result ↔ value = result := by
  simp [pure, Except.pure]

@[simp]
theorem ok_bind (value : α) (next : α → Checked β) : (Except.ok value >>= next) = next value :=
  rfl

@[simp]
theorem pure_eq (value : α) : (pure value : Checked α) = .ok value :=
  rfl

/-- A list goes through a checked function exactly when each of its members does. -/
theorem mapM_eq_ok {change : α → Checked β} {values : List α} {results : List β} :
    values.mapM change = .ok results ↔
      List.Forall₂ (fun value result => change value = .ok result) values results := by
  induction values generalizing results with
  | nil =>
      simp only [List.mapM_nil, pure_eq, Except.ok.injEq, List.forall₂_nil_left_iff]
      exact eq_comm
  | cons value rest ih =>
      simp only [List.mapM_cons, bind_eq_ok, pure_eq, Except.ok.injEq,
        List.forall₂_cons_left_iff, ih]
      constructor
      · rintro ⟨first, changed, others, follow, rfl⟩
        exact ⟨first, others, changed, follow, rfl⟩
      · rintro ⟨first, others, changed, follow, rfl⟩
        exact ⟨first, changed, others, follow, rfl⟩

theorem exists_of_mapM {change : α → Checked β} {values : List α} {results : List β} {value : α}
    (mapped : values.mapM change = .ok results) (member : value ∈ values) :
    ∃ result ∈ results, change value = .ok result := by
  induction values generalizing results with
  | nil => cases member
  | cons first rest ih =>
      rw [List.mapM_cons, bind_eq_ok] at mapped
      obtain ⟨result, here, mapped⟩ := mapped
      obtain ⟨others, there, listed⟩ := bind_eq_ok.mp mapped
      obtain rfl := pure_eq_ok.mp listed
      rcases List.mem_cons.mp member with rfl | further
      · exact ⟨result, List.mem_cons_self, here⟩
      · obtain ⟨last, included, changed⟩ := ih there further
        exact ⟨last, List.mem_cons_of_mem _ included, changed⟩

theorem mapM_congr {change other : α → Checked β} {values : List α}
    (same : ∀ value ∈ values, change value = other value) :
    values.mapM change = values.mapM other := by
  induction values with
  | nil => rfl
  | cons value rest ih =>
      rw [List.mapM_cons, List.mapM_cons, same value List.mem_cons_self,
        ih fun other member => same other (List.mem_cons_of_mem _ member)]

end Checked

end GuestMemory
