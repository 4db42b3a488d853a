import GuestMemory.Proofs.AddressSpace.Coherence
import GuestMemory.Proofs.Kernel.Invariants

/-!
Blocks and translations agree in every process and in every state that a kernel can reach.
-/

namespace GuestMemory

theorem AddressSpace.invariant_coherent : Invariant Layout.Paged Coherent where
  create paged _ := .create paged _
  mapPages coherent done := coherent.mapPages done
  unmapRange coherent done := coherent.unmapRange done
  setPermission coherent aligned done := coherent.setPermission aligned done
  mapGroup coherent mapped aligned done := coherent.mapGroup mapped aligned done
  mapCode coherent sound first second done := coherent.mapCode sound first second done
  unmapCode coherent sound _ second done := coherent.unmapCode sound second done

namespace Kernel

open GuestMemory.Action

variable {kernel after initial reached : Kernel} {process : Process} {steps : List Step}

def Coherent (kernel : Kernel) : Prop :=
  ∀ process ∈ kernel.processes, process.space.Coherent

theorem Coherent.of_create {config : Config} {cache : InstructionCache}
    (created : create config cache = .ok kernel) : kernel.Coherent :=
  all_of_create created

theorem Coherent.kept {step : Step} (allowed : step.Allowed Layout.Paged) :
    Keeps (fun kernel => kernel.Sound ∧ kernel.Coherent) step.perform :=
  keeps_all AddressSpace.invariant_coherent allowed.aligned

theorem coherent_run {config : Config} {cache : InstructionCache}
    (created : create config cache = .ok initial) (ordinary : ∀ step ∈ steps, step.Ordinary)
    (ran : initial.run? steps = some reached) : reached.Coherent :=
  all_run AddressSpace.invariant_coherent created
    (fun step member => (ordinary step member).paged.aligned) ran

/-- What a process is told about a page and what stands behind it are the same in every state that
a kernel can reach: the page has a translation exactly when its block is mapped, that is, in use,
and then with the permission of the block. No page outside the address space has a translation. -/
theorem translation_agrees_with_block {config : Config} {cache : InstructionCache}
    (created : create config cache = .ok initial) (ordinary : ∀ step ∈ steps, step.Ordinary)
    (ran : initial.run? steps = some reached) (member : process ∈ reached.processes) (page : Nat) :
    let region := process.space.layout.addressSpace
    let translation := process.space.directory.translate (page * pageSize)
    (region.base ≤ page * pageSize ∧ page * pageSize < region.stop →
      ∃ block, process.space.blocks.find (page * pageSize) = .ok (some block) ∧
        (translation.isSome ↔ block.state.has .mapped = true) ∧
        (translation.isSome ↔ block.state ≠ .free) ∧
        ∀ found, translation = some found → found.permission = block.permission) ∧
    (¬ (region.base ≤ page * pageSize ∧ page * pageSize < region.stop) → translation = none) := by
  intro region translation
  have coherent := coherent_run created ordinary ran process member
  have agree := coherent.agree page
  have entry : translation = process.space.directory.entries[page]? := by
    simp only [translation, Directory.translate, pageOf_mul_pageSize]
  rw [← entry] at agree
  have same : process.space.blocks.region = region := coherent.region_eq
  refine ⟨fun inside => ?_, fun outside => ?_⟩
  · obtain ⟨block, listed, found, holds⟩ :=
      coherent.wellFormed.find_eq_some (same ▸ inside.1) (same ▸ inside.2)
    rw [coherent.wellFormed.at?_of_holds listed holds, Option.bind_some] at agree
    have mapped : translation.isSome ↔ block.state.has .mapped = true := by
      rw [← Option.isSome_map, agree, Properties.mapped?]
      split <;> simp [Block.state, *]
    refine ⟨block, found, mapped, mapped.trans (has_mapped_iff _), fun translated here => ?_⟩
    rw [here, Option.map_some, AddressSpace.mapped?_of_has
      (mapped.mp (Option.isSome_of_eq_some here))] at agree
    exact Option.some.inj agree
  · have absent : process.space.blocks.at? page = none := by
      rw [← Option.not_isSome_iff_eq_none, coherent.wellFormed.isSome_at?, same]
      exact outside
    rw [absent, Option.bind_none, Option.map_eq_none_iff] at agree
    exact agree

/-- The code alias that a process has made and then made executable. -/
theorem translation_agrees_with_block_of_alias :
    ∃ reached process block, small.run? smallRun = some reached ∧
      process ∈ reached.processes ∧ process.space.blocks.find 0x9000000 = .ok (some block) ∧
      block.state = .aliasCode ∧ (process.space.directory.translate 0x9000000).isSome := by
  have shown : ((small.run? smallRun).bind fun reached => reached.processes[1]?.map fun process =>
      (process.space.layout.addressSpace,
        (process.space.blocks.find (0x9000 * pageSize)).toOption.bind fun found =>
          found.map (·.state))) =
      some (⟨0x8000000, 0x7FF8000000⟩, some .aliasCode) := by
    decide +kernel
  obtain ⟨reached, ran, shown⟩ := Option.bind_eq_some_iff.mp shown
  obtain ⟨process, listed, shown⟩ := Option.map_eq_some_iff.mp shown
  obtain ⟨region, state⟩ := Prod.mk.inj shown
  have member := List.mem_of_getElem? listed
  have agrees := (translation_agrees_with_block create_small
    (show ∀ step ∈ smallRun, step.Ordinary by decide +kernel) ran member 0x9000).1
  simp only [region] at agrees
  obtain ⟨block, found, _, used, _⟩ := agrees (by decide)
  rw [found] at state
  have aliased : block.state = .aliasCode := Option.some.inj state
  exact ⟨reached, process, block, ran, member, found, aliased, used.mpr (by rw [aliased]; decide)⟩

end Kernel

end GuestMemory
