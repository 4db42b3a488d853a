import GuestMemory.Proofs.AddressSpace.Placement
import GuestMemory.Proofs.Kernel.Coherence

/-!
Placement in every state that a kernel can reach: memory in use stays in the region of its state and
off the alias region, and only heap is on the heap, however the regions lie to each other.
-/

namespace GuestMemory

theorem AddressSpace.invariant_placed :
    Invariant Layout.Paged (fun space => space.Coherent ∧ space.Placed) where
  create paged _ := ⟨.create paged _, .of_create paged _⟩
  mapPages before done := ⟨before.1.mapPages done, before.2.mapPages before.1 done⟩
  unmapRange before done := ⟨before.1.unmapRange done, before.2.unmapRange before.1 done⟩
  setPermission before aligned done :=
    ⟨before.1.setPermission aligned done, before.2.setPermission before.1 aligned done⟩
  mapGroup before mapped aligned done :=
    ⟨before.1.mapGroup mapped aligned done, before.2.mapGroup before.1 aligned done⟩
  mapCode before sound first second done :=
    ⟨before.1.mapCode sound first second done, before.2.mapCode before.1 sound first second done⟩
  unmapCode before sound _ second done :=
    ⟨before.1.unmapCode sound second done, before.2.unmapCode before.1 sound second done⟩

namespace Kernel

variable {initial reached : Kernel} {config : Config} {cache : InstructionCache}
variable {steps : List Step} {process : Process} {block : Block} {page : Nat}

/-- In every state that a kernel can reach whose processes have address spaces of whole pages,
wherever their other regions are, memory in use lies in the region of its state with every byte of
its pages, shares none with the alias region, and shares some with the heap only if it is heap or
ordinary memory. -/
theorem memory_stays_placed (created : create config cache = .ok initial)
    (aligned : ∀ step ∈ steps, step.Aligned Layout.Paged)
    (ran : initial.run? steps = some reached) (member : process ∈ reached.processes)
    (found : process.space.blocks.find (page * pageSize) = .ok (some block))
    (used : block.state ≠ .free) :
    let layout := process.space.layout
    ∀ address, pageOf address = page →
      (layout.regionFor block.state).Has address ∧ ¬ layout.ipcAlias.Has address ∧
        (layout.heap.Has address → block.state = .normal ∨ block.state = .heap) := by
  intro layout address inside
  obtain ⟨coherent, placed⟩ :=
    all_run AddressSpace.invariant_placed created aligned ran process member
  have properties : (process.space.page page).properties = block.properties := by
    rw [AddressSpace.page, Partition.propertiesOf, coherent.wellFormed.at?_of_find found,
      Option.getD_some]
  have fits := placed page
  rw [properties] at fits
  exact Layout.bytes_of_canContain used inside (fits used)

/-- A process whose regions overlap, start inside pages and reach beyond the address space writes to
its code, makes an alias of ordinary memory and shows a page a second time. -/
def crookedRun : List Step := [
  .createProcess {
    addressSpace := ⟨0x8000000, 0x4000000⟩, code := ⟨0x8000FFF, 0x2000001⟩,
    aliasCode := ⟨0x7000000, 0x6000000⟩, heap := ⟨0xA000000, 0x1000800⟩,
    ipcAlias := ⟨0x9FFF000, 0x800⟩, stack := ⟨0, 0⟩ },
  .mapPages 0 0x8001000 2 .code .readExecute, .setPermission 0 0x8001000 1 .readWrite,
  .mapPages 0 0x8000000 1 .code .read, .mapPages 0 0x9FFF000 1 .sharedCode .read,
  .mapPages 0 0xA000000 2 .normal .readWrite,
  .call 0 (.mapCode .currentProcess 0x9000000 0xA001000 0x1000),
  .makeGroup 0 0xA000000 1, .mapGroup 0 0xB001000 ⟨[0], 0⟩ .shared .userRead]

theorem memory_stays_placed_of_rewritten_code :
    ∃ reached process block, small.run? crookedRun = some reached ∧
      process ∈ reached.processes ∧
      process.space.blocks.find (0x8001 * pageSize) = .ok (some block) ∧
      block.state = .codeData ∧ (process.space.layout.regionFor .codeData).Has 0x8001FFF := by
  have shown : ((small.run? crookedRun).bind fun reached =>
      reached.processes[0]?.bind fun process =>
        (process.space.blocks.find (0x8001 * pageSize)).toOption.bind fun found =>
          found.map (·.state)) = some .codeData := by
    decide +kernel
  obtain ⟨reached, ran, shown⟩ := Option.bind_eq_some_iff.mp shown
  obtain ⟨process, listed, shown⟩ := Option.bind_eq_some_iff.mp shown
  obtain ⟨found, answered, shown⟩ := Option.bind_eq_some_iff.mp shown
  obtain ⟨block, rfl, state⟩ := Option.map_eq_some_iff.mp shown
  have member := List.mem_of_getElem? listed
  have found : process.space.blocks.find (0x8001 * pageSize) = .ok (some block) := by
    cases looked : process.space.blocks.find (0x8001 * pageSize) with
    | error fault => rw [looked] at answered; cases answered
    | ok other => rw [looked] at answered; cases answered; rfl
  have bytes := memory_stays_placed create_small
    (show ∀ step ∈ crookedRun, step.Aligned Layout.Paged by decide +kernel) ran member found
    (by rw [state]; decide) 0x8001FFF (by decide)
  rw [state] at bytes
  exact ⟨reached, process, block, ran, member, found, state, bytes.1⟩

end Kernel

end GuestMemory
