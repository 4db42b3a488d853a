import GuestMemory.Proofs.AddressSpace.Views

/-!
Orderly properties: those that pages have as long as only the operations on address spaces change
them. A page that is lent out is ordinary memory kept from the guest, and is lent out once.
-/

namespace GuestMemory

namespace MemoryState

variable {state : MemoryState}

/-- The memory is a code alias, still code or by now data. -/
def IsAlias (state : MemoryState) : Prop :=
  state = aliasCode ∨ state = aliasCodeData

instance : DecidablePred IsAlias := fun state =>
  inferInstanceAs (Decidable (state = aliasCode ∨ state = aliasCodeData))

theorem has_canCodeAlias_iff : state.has .canCodeAlias = true ↔ state.IsAlias := by
  cases state <;> decide

theorem afterReprotect_isAlias (state : MemoryState) (permission : KernelPermission) :
    (state.afterReprotect permission).IsAlias ↔ state.IsAlias := by
  unfold afterReprotect
  split
  · cases state <;> decide
  · rfl

theorem afterReprotect_eq_sharedCode (state : MemoryState) (permission : KernelPermission) :
    state.afterReprotect permission = .sharedCode ↔ state = .sharedCode := by
  unfold afterReprotect
  split
  · cases state <;> decide
  · rfl

theorem afterReprotect_ne_free (permission : KernelPermission)
    (reprotectable : state.isReprotectable) :
    state.afterReprotect permission ≠ .free := by
  unfold afterReprotect
  split <;> cases state <;> simp_all [isReprotectable]

end MemoryState

/-- The permission has only bits with a meaning. -/
def KernelPermission.Known (permission : KernelPermission) : Prop :=
  permission &&& .all = permission

theorem UserPermission.known_toKernel (permission : UserPermission) :
    permission.toKernel.Known := by
  cases permission <;> rfl

namespace Properties

variable {properties : Properties} {state : MemoryState} {permission : KernelPermission}

/-- The properties of memory that carries no mark. -/
def plain (state : MemoryState) (permission : KernelPermission) : Properties :=
  ⟨state, permission, .empty, 0⟩

/-- The properties of memory that is lent out as code. -/
def lent : Properties :=
  ⟨.normal, .hidden, .locked, 1⟩

theorem plain_ne_lent : plain state permission ≠ lent :=
  fun same => nomatch congrArg Properties.locks same

inductive Orderly : Properties → Prop
  | free : Orderly .free
  | inUse {state : MemoryState} {permission : KernelPermission} (used : state ≠ .free)
    (known : permission.Known) : Orderly (plain state permission)
  | lent : Orderly lent

namespace Orderly

theorem eq_plain (orderly : properties.Orderly)
    (unmarked : properties.attributes &&& .all = .empty) :
    properties = plain properties.state properties.permission := by
  cases orderly with
  | free => rfl
  | inUse _ _ => rfl
  | lent => exact absurd unmarked (by decide)

theorem eq_lent (orderly : properties.Orderly) (marked : properties.attributes &&& .all = .locked) :
    properties = .lent := by
  cases orderly with
  | free => exact absurd marked (by decide)
  | inUse _ _ => exact absurd marked (show ¬ Attributes.empty &&& .all = .locked by decide)
  | lent => rfl

theorem eq_free (orderly : properties.Orderly) (unused : properties.state = .free) :
    properties = .free := by
  cases orderly with
  | free => rfl
  | inUse used _ => exact absurd unused used
  | lent => cases unused

/-- The mark, the lock count and the state of orderly memory go together. -/
theorem summary (orderly : properties.Orderly) :
    (properties.attributes = .empty ∨ properties.attributes = .locked) ∧
      (properties.attributes = .locked ↔ properties.locks = 1) ∧
      (properties.attributes ≠ .locked → properties.locks = 0) ∧
      (properties.attributes = .locked →
        properties.state = .normal ∧ properties.permission = .hidden) ∧
      (properties.state = .free → properties.permission = .empty ∧
        properties.attributes = .empty ∧ properties.locks = 0) := by
  cases orderly with
  | free => decide
  | inUse used _ =>
      have unmarked : Attributes.empty ≠ .locked := by decide
      exact ⟨.inl rfl, iff_of_false unmarked Nat.zero_ne_one, fun _ => rfl,
        fun marked => absurd marked unmarked, fun unused => absurd unused used⟩
  | lent => decide

theorem known (orderly : properties.Orderly) : properties.permission.Known := by
  cases orderly with
  | free => rfl
  | inUse _ known => exact known
  | lent => rfl

theorem attributes_known (orderly : properties.Orderly) :
    properties.attributes &&& .all = properties.attributes := by
  cases orderly with
  | inUse _ _ => exact show Attributes.empty &&& .all = .empty by decide
  | free | lent => decide

theorem locks_le_one (orderly : properties.Orderly) : properties.locks ≤ 1 := by
  cases orderly with
  | free => exact Nat.zero_le 1
  | inUse _ _ => exact Nat.zero_le 1
  | lent => exact Nat.le_refl 1

end Orderly

theorem lock_plain (state : MemoryState) (permission hidden : KernelPermission) :
    (plain state permission).lock hidden = .ok ⟨state, hidden, .locked, 1⟩ := by
  have fits : 0 + 1 < lockLimit := by decide
  have marked : Attributes.empty ||| .locked = .locked := by decide
  simp only [lock, plain, below, if_pos fits, marked, Checked.ok_bind, Checked.pure_eq,
    Nat.zero_add]

theorem unlock_lent (permission : KernelPermission) :
    lent.unlock permission = .ok (plain .normal permission) :=
  rfl

end Properties

end GuestMemory
