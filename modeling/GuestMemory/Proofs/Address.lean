import GuestMemory.Address

/-!
Pages in plain arithmetic.
-/

namespace GuestMemory

variable {address page count : Nat}

theorem pageSize_eq : pageSize = 4096 := rfl

theorem isPageAligned_iff : isPageAligned address = true ↔ address % pageSize = 0 :=
  decide_eq_true_iff

@[simp]
theorem pageOf_mul_pageSize (page : Nat) : pageOf (page * pageSize) = page := by
  simp only [pageOf, pageSize_eq]
  omega

theorem pageOf_add_mul_pageSize (address count : Nat) :
    pageOf (address + count * pageSize) = pageOf address + count := by
  simp only [pageOf, pageSize_eq]
  omega

theorem isPageAligned_add_mul_pageSize (address count : Nat) :
    isPageAligned (address + count * pageSize) = isPageAligned address := by
  simp only [isPageAligned, Nat.add_mul_mod_self_right]

end GuestMemory
