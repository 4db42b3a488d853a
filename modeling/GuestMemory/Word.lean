import GuestMemory.Fault

/-!
Bounded arithmetic. Addresses, sizes and counts are natural numbers; a sum, product or
difference that leaves its width is a fault, never a wrapped value.
-/

namespace GuestMemory

/-- The number of values of a 64-bit word. -/
def wordLimit : Nat := 0x10000000000000000

def wordMax : Nat := wordLimit - 1

/-- Lets a result through that stays below `limit`. -/
def below (limit value : Nat) : Checked Nat :=
  if value < limit then .ok value else .error .overflow

/-- Lets a result through that fits into a 64-bit word. -/
def word (value : Nat) : Checked Nat :=
  below wordLimit value

/-- The difference of two words, which must not be negative. -/
def difference (value less : Nat) : Checked Nat :=
  if less ≤ value then .ok (value - less) else .error .overflow

/-- The sum of a list of words, each partial sum of which must be a word. -/
def wordSum (values : List Nat) : Checked Nat :=
  values.foldlM (fun total value => word (total + value)) 0

theorem word_eq_ok_iff {value result : Nat} :
    word value = .ok result ↔ value < wordLimit ∧ value = result := by
  by_cases fits : value < wordLimit <;> simp [word, below, fits]

theorem word_of_le {value : Nat} (long : wordLimit ≤ value) : word value = .error .overflow := by
  simp [word, below, Nat.not_lt.mpr long]

theorem word_of_lt {value : Nat} (fits : value < wordLimit) : word value = .ok value := by
  simp [word, below, fits]

end GuestMemory
