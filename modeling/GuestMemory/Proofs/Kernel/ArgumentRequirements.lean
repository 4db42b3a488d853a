import GuestMemory.Proofs.Kernel.Requirements

/-!
What is required of the arguments of calls that name two ranges, and of the places of these. That is
the same whether a call maps memory or takes it away.
-/

namespace GuestMemory

open Verdict

namespace Kernel

variable {kernel : Kernel} {current destination source size : Nat} {handle : Handle}
variable {place : Place} {work : Work} {task : Task} {next : Task → Verdict Unit}
variable {rest : List Requirement}

/-- What a call about shared memory requires before the memory is looked at. -/
def sharingRequirements (kernel : Kernel) (current destination : Nat) (handle : Handle)
    (source size : Nat) : List Requirement :=
  let owner := kernel.opened? current handle
  [⟨destination % pageSize = 0, .invalidAddress⟩,
    ⟨source % pageSize = 0, .invalidAddress⟩,
    ⟨size ≠ 0 ∧ size % pageSize = 0, .invalidSize⟩,
    ⟨destination + size < wordLimit, .invalidCurrentMemory⟩,
    ⟨source + size < wordLimit, .invalidCurrentMemory⟩,
    ⟨¬ handle.isPseudo, .invalidHandle⟩,
    ⟨owner.isSome, .invalidHandle⟩,
    ⟨∀ index ∈ owner, kernel.Encloses ⟨index, source⟩ size, .invalidCurrentMemory⟩,
    ⟨kernel.MayShare ⟨current, destination⟩ size, .invalidMemoryRegion⟩]

theorem opened?_of_isPseudo (pseudo : handle.isPseudo = true) :
    kernel.opened? current handle = none := by
  rw [opened?, Option.bind_eq_none_iff]
  intro process _
  simp [HandleTable.process?, HandleTable.getAs?, HandleTable.get?, pseudo]

/-- A range of whole pages is the range of as many pages. -/
theorem mul_div_of_whole (whole : size % pageSize = 0) : size / pageSize * pageSize = size :=
  Nat.div_mul_cancel (Nat.dvd_of_mod_eq_zero whole)

variable (layouts : ∀ space ∈ kernel.spaces, space.layout.WellFormed) (names : kernel.Named)
variable (present : current < kernel.processes.length)

include layouts names present

/-- A call about shared memory is judged by these requirements, and then by what the memory that it
comes to is judged by. -/
theorem judge_memoryTask (shared : work.state? = some .sharedCode)
    (follows : ∀ owner, kernel.opened? current handle = some owner →
      next ⟨work, ⟨current, destination⟩, ⟨owner, source⟩, size / pageSize⟩ =
        Requirement.judge rest) :
    (do
      let task ← kernel.setting.memoryTask work current destination handle source size
      kernel.setting.requirePlaces task
      next task) = Requirement.judge
        (kernel.sharingRequirements current destination handle source size ++ rest) := by
  simp only [Setting.memoryTask, sharingRequirements, List.cons_append, List.nil_append,
    Requirement.judge_cons, bind_assoc]
  refine demand_bind_eq isPageAligned_iff fun aligned => ?_
  refine demand_bind_eq isPageAligned_iff fun sourceAligned => ?_
  refine demand_bind_eq (by simp [isPageAligned, and_comm]) fun sized => ?_
  refine demand_bind_eq decide_eq_true_iff fun fits => ?_
  refine demand_bind_eq decide_eq_true_iff fun sourceFits => ?_
  obtain ⟨nonzero, whole⟩ := sized
  have positive := Nat.pos_of_ne_zero nonzero
  rw [resolveHandle_eq names present]
  by_cases pseudo : handle.isPseudo = true
  · rw [opened?_of_isPseudo pseudo, demand_of_false (not_not_intro pseudo)]
    rfl
  rw [demand_of_true pseudo, ok_bind]
  refine named_bind_eq fun owner opened => ?_
  have there := opened?_lt names opened
  rw [Verdict.pure_eq, ok_bind, Setting.requirePlaces, mul_div_of_whole whole,
    requireInside_eq layouts there positive sourceFits, bind_assoc]
  refine demand_bind_eq (by simp [opened]) fun _ => ?_
  simp only [shared]
  rw [requirePlace_eq layouts present positive fits]
  exact demand_bind_eq Iff.rfl fun _ => follows owner opened

omit layouts in
theorem eq_of_came_to_memoryTask
    (came : kernel.setting.memoryTask work current destination handle source size = .ok task) :
    ∃ owner, kernel.opened? current handle = some owner ∧
      task = ⟨work, ⟨current, destination⟩, ⟨owner, source⟩, size / pageSize⟩ := by
  obtain ⟨owner, resolved, built⟩ := Setting.eq_of_memoryTask came
  exact ⟨owner, named_eq_ok.mp (resolveHandle_eq names present ▸ resolved), built⟩

omit layouts names present

/-- The range is where code aliases are placed in its process, if that is there. -/
def InAliasCode (kernel : Kernel) (place : Place) (size : Nat) : Prop :=
  ∀ process ∈ kernel.processes[place.process]?,
    process.space.layout.aliasCode.Encloses place.address size

instance : Decidable (kernel.InAliasCode place size) :=
  inferInstanceAs (Decidable (∀ process ∈ kernel.processes[place.process]?,
    process.space.layout.aliasCode.Encloses place.address size))

theorem MayShare.inAliasCode (may : kernel.MayShare place size) : kernel.InAliasCode place size :=
  fun process listed => (may process listed).1

/-- What a call about code memory requires of aligned addresses before the memory is looked at. Code
aliases may be where shared memory may. -/
def aliasRequirements (kernel : Kernel) (current : Nat) (handle : Handle)
    (destination source size : Nat) : List Requirement :=
  let owner := kernel.named? current handle
  [⟨size ≠ 0 ∧ size % pageSize = 0, .invalidSize⟩,
    ⟨destination + size < wordLimit, .invalidCurrentMemory⟩,
    ⟨source + size < wordLimit, .invalidCurrentMemory⟩,
    ⟨owner.isSome, .invalidHandle⟩,
    ⟨∀ index ∈ owner, kernel.Encloses ⟨index, source⟩ size, .invalidCurrentMemory⟩,
    ⟨∀ index ∈ owner, kernel.InAliasCode ⟨index, destination⟩ size, .invalidMemoryRegion⟩,
    ⟨∀ index ∈ owner, kernel.MayShare ⟨index, destination⟩ size, .invalidMemoryRegion⟩]

include layouts in
theorem requirePlace_aliasCode_eq (there : place.process < kernel.processes.length)
    (positive : 0 < size) (fits : place.address + size < wordLimit) :
    kernel.setting.requirePlace place size .aliasCode =
      demand (kernel.InAliasCode place size) (.refused .invalidMemoryRegion) >>= fun _ =>
        demand (kernel.MayShare place size) (.refused .invalidMemoryRegion) := by
  rw [← demand_of_imp MayShare.inAliasCode]
  exact requirePlace_eq layouts there positive fits

include layouts names present in
theorem judge_codeTask (aliased : work.state? = some .aliasCode)
    (follows : ∀ owner, kernel.named? current handle = some owner →
      next ⟨work, ⟨owner, destination⟩, ⟨owner, source⟩, size / pageSize⟩ =
        Requirement.judge rest) :
    (do
      let task ← kernel.setting.codeTask work current handle destination source size
      kernel.setting.requirePlaces task
      next task) = Requirement.judge (⟨destination % pageSize = 0, .invalidAddress⟩ ::
        ⟨source % pageSize = 0, .invalidAddress⟩ ::
          (kernel.aliasRequirements current handle destination source size ++ rest)) := by
  rw [Requirement.judge_both]
  simp only [Setting.codeTask, aliasRequirements, List.cons_append, List.nil_append,
    Requirement.judge_cons, bind_assoc]
  refine demand_bind_eq (by simp [isPageAligned]) fun aligned => ?_
  refine demand_bind_eq (by simp [isPageAligned, and_comm]) fun sized => ?_
  refine demand_bind_eq decide_eq_true_iff fun fits => ?_
  refine demand_bind_eq decide_eq_true_iff fun sourceFits => ?_
  obtain ⟨nonzero, whole⟩ := sized
  have positive := Nat.pos_of_ne_zero nonzero
  rw [resolve_eq names present]
  refine named_bind_eq fun owner named => ?_
  have there := named?_lt names present named
  rw [Verdict.pure_eq, ok_bind, Setting.requirePlaces, mul_div_of_whole whole,
    requireInside_eq layouts there positive sourceFits, bind_assoc]
  refine demand_bind_eq (by simp [named]) fun _ => ?_
  simp only [aliased]
  rw [requirePlace_aliasCode_eq layouts there positive fits, bind_assoc]
  refine demand_bind_eq (by simp [named]) fun _ => ?_
  exact demand_bind_eq (by simp [named]) fun _ => follows owner named

include names present in
theorem eq_of_came_to_codeTask
    (came : kernel.setting.codeTask work current handle destination source size = .ok task) :
    ∃ owner, kernel.named? current handle = some owner ∧ size / pageSize * pageSize = size ∧
      task = ⟨work, ⟨owner, destination⟩, ⟨owner, source⟩, size / pageSize⟩ := by
  obtain ⟨owner, resolved, bytes, built⟩ := Setting.eq_of_codeTask came
  exact ⟨owner, named_eq_ok.mp (resolve_eq names present ▸ resolved), bytes, built⟩

end Kernel

end GuestMemory
