import GuestMemory.AddressSpace.CodeAlias
import GuestMemory.Proofs.Action.Effects

/-!
Guards: what an operation on an address space looks at before it changes anything, and what is known
once it has passed.
-/

namespace GuestMemory.AddressSpace

open GuestMemory.Action

variable {attached after : AttachedSpace} {address pages size destination source : Nat}
variable {state : MemoryState} {check : Check} {group : PageGroup} {operation : Operation}

theorem steady_commit : Steady (commit operation address pages) :=
  (Steady.read _).bind fun _ => (Steady.check _).bind fun _ => Steady.pure _

theorem steady_rangeSize {σ : Type} : Steady (rangeSize address pages : Action σ Nat) :=
  (Steady.require _ _).bind fun _ => Steady.pure _

theorem steady_requireInside : Steady (requireInside address size) :=
  (Steady.inspect _).bind fun _ => Steady.require _ _

theorem steady_requirePlace {error : Error} : Steady (requirePlace address size state error) :=
  (Steady.inspect _).bind fun _ => Steady.require _ _

theorem steady_checkRange : Steady (checkRange address size check) := by
  refine (Steady.read _).bind fun _ => (Steady.check _).bind fun blocks =>
    (Steady.require _ _).bind fun _ => ?_
  split
  · exact Steady.pure _
  · exact Steady.refuse _

theorem steady_isBackedBy : Steady (isBackedBy group address pages) := by
  refine (Steady.inspect _).bind fun _ =>
    (Steady.pure _).ite ((Steady.inspect _).bind fun found => ?_)
  split
  · exact Steady.pure _
  · exact (Steady.inspect _).bind fun _ => Steady.pure _

theorem steady_requireAliasRanges : Steady (requireAliasRanges destination source size) :=
  steady_requireInside.bind fun _ => steady_requirePlace

theorem rangeSize_eq_done {σ : Type} {before final : σ}
    (sized : rangeSize address pages before = .done size final) :
    address + pages * pageSize < wordLimit ∧ size = pages * pageSize ∧ final = before := by
  simp only [rangeSize, bind_eq_done, require_eq_done, pure_eq_done, decide_eq_true_eq] at sized
  obtain ⟨_, _, ⟨fits, rfl⟩, rfl, rfl⟩ := sized
  exact ⟨fits, rfl, rfl⟩

theorem requireInside_eq_done (passed : requireInside address size attached = .done () after) :
    attached.space.layout.contains address size = .ok true := by
  simp only [requireInside, bind_eq_done, inspect_eq_done, require_eq_done] at passed
  obtain ⟨_, _, ⟨inside, rfl⟩, rfl, rfl⟩ := passed
  exact inside

theorem requirePlace_eq_done {error : Error}
    (passed : requirePlace address size state error attached = .done () after) :
    attached.space.layout.canContain address size state = .ok true := by
  simp only [requirePlace, bind_eq_done, inspect_eq_done, require_eq_done] at passed
  obtain ⟨_, _, ⟨placed, rfl⟩, rfl, rfl⟩ := passed
  exact placed

theorem requireAliasRanges_eq_done
    (passed : requireAliasRanges destination source size attached = .done () after) :
    attached.space.layout.contains source size = .ok true ∧
      attached.space.layout.canContain destination size .aliasCode = .ok true := by
  obtain ⟨_, middle, inside, placed⟩ := bind_eq_done.mp passed
  obtain rfl := steady_requireInside.of_done inside
  exact ⟨requireInside_eq_done inside, requirePlace_eq_done placed⟩

/-- A range that has been checked meets a block, and every block that it meets passes. -/
theorem checkRange_eq_done (passed : checkRange address size check attached = .done () after) :
    ∃ blocks, attached.space.blocks.overlapping address size = .ok blocks ∧ blocks ≠ [] ∧
      ∀ block ∈ blocks, check.accepts block = true := by
  simp only [checkRange, bind_eq_done, read_eq_done, check_eq_done, require_eq_done] at passed
  obtain ⟨_, _, ⟨rfl, rfl⟩, blocks, _, ⟨met, rfl⟩, _, _, ⟨some, rfl⟩, passed⟩ := passed
  refine ⟨blocks, met, by simpa using some, fun block member => ?_⟩
  cases failing : blocks.find? fun block => !check.accepts block with
  | none => simpa using List.find?_eq_none.mp failing block member
  | some other =>
      simp only [failing] at passed
      exact absurd passed refuse_ne_done

theorem isBackedBy_eq_done (compared : isBackedBy group address pages attached = .done true after) :
    ∃ runs, group.runs attached.resources.descriptors = .ok runs ∧
      attached.space.directory.runs address pages = .ok (some runs) := by
  simp only [isBackedBy, bind_eq_done, inspect_eq_done] at compared
  obtain ⟨count, _, ⟨_, rfl⟩, compared⟩ := compared
  split at compared
  · cases compared
  · obtain ⟨found, _, looked, compared⟩ := bind_eq_done.mp compared
    obtain ⟨listed, rfl⟩ := inspect_eq_done.mp looked
    cases found with
    | none => cases compared
    | some behind =>
        simp only [bind_eq_done, inspect_eq_done, pure_eq_done, decide_eq_true_eq] at compared
        obtain ⟨runs, _, ⟨held, rfl⟩, rfl, _⟩ := compared
        exact ⟨behind, held, listed⟩

end GuestMemory.AddressSpace
