import GuestMemory.Proofs.Action.Verdicts
import GuestMemory.Proofs.Kernel.Coherence

/-!
Groups mapped as memory in any state. The pages get the frames of the group and a block in the state
that is asked for, and the frames one more reference each time. That a page has a translation
exactly when it is in use remains so, unless the state asked for is that of free memory: nothing
turns such a request down.
-/

namespace GuestMemory

open GuestMemory.Action

namespace AddressSpace

variable {space : AddressSpace} {attached after : AttachedSpace} {address offset frame : Nat}
variable {group : PageGroup} {runs : List Run} {state : MemoryState}
variable {permission : KernelPermission}

/-- Of the pages of the address space, exactly those in use have a translation. -/
def Agrees (space : AddressSpace) : Prop :=
  ∀ number, space.layout.addressSpace.Has (number * pageSize) →
    ∃ block, space.blocks.find (number * pageSize) = .ok (some block) ∧
      ((space.directory.translate (number * pageSize)).isSome ↔ block.state ≠ .free)

/-- The page at the address leads to a frame, and its block is in the state, both with the
permission. -/
structure Maps (space : AddressSpace) (address frame : Nat) (state : MemoryState)
    (permission : KernelPermission) : Prop where
  translated : space.directory.translate address = some ⟨frame * pageSize, permission⟩
  inBlock : ∃ block, space.blocks.find address = .ok (some block) ∧ block.state = state ∧
    block.permission = permission

theorem Coherent.agrees (coherent : space.Coherent) : space.Agrees := by
  intro number inside
  rw [← coherent.region_eq] at inside
  obtain ⟨block, _, found, _⟩ := coherent.wellFormed.find_eq_some inside.1 inside.2
  have agree := coherent.agree number
  rw [coherent.wellFormed.at?_of_find found, Option.bind_some] at agree
  refine ⟨block, found, ?_⟩
  rw [Directory.translate, pageOf_mul_pageSize, ← Option.isSome_map, agree, Properties.mapped?,
    ← has_mapped_iff]
  split <;> simp [Block.state, *]

/-- What is mapped as a group has frames, which are then placed on the range. -/
theorem placeGroup_of_mapGroup {result : Commit}
    (done : mapGroup address group state permission attached = .done result after) :
    ∃ runs, group.runs attached.resources.descriptors = .ok runs ∧ Run.framesOf runs ≠ [] ∧
      placeGroup address group state permission attached = .done () after := by
  obtain ⟨pages, counted, _, placed⟩ := mapGroup_eq_done done
  obtain ⟨_, again, fits⟩ := canContain_of_mapGroup done
  obtain ⟨runs, held, _⟩ := Checked.bind_eq_ok.mp counted
  obtain rfl := PageGroup.pages_eq_ok held again
  obtain ⟨_, positive, _⟩ := Region.contains_eq_true (Layout.canContain_eq_true fits)
  refine ⟨runs, held, fun none => ?_, placed⟩
  rw [none, List.length_nil, Nat.zero_mul] at positive
  exact absurd positive (Nat.lt_irrefl 0)

section Placing

variable (coherent : attached.space.Coherent) (aligned : address % pageSize = 0)
variable (held : group.runs attached.resources.descriptors = .ok runs)
variable (placed : placeGroup address group state permission attached = .done () after)

include held placed

theorem held_of_placeGroup (frame : Nat) : after.resources.frames.held frame =
    attached.resources.frames.held frame + (Run.framesOf runs).count frame := by
  obtain ⟨found, blocks, directory, frames, again, retained, _, _, rfl⟩ :=
    placeGroup_eq_done placed
  obtain rfl := Except.ok.inj (again.symm.trans held)
  exact (FramePool.retains_of_retainAll retained).held_eq frame

include coherent aligned

/-- The frames of a group are behind the pages in their order. -/
theorem maps_of_placeGroup (listed : (Run.framesOf runs)[offset]? = some frame) :
    after.space.Maps (address + offset * pageSize) frame state permission := by
  obtain ⟨found, blocks, directory, frames, again, _, gains, assigned, rfl⟩ :=
    placeGroup_eq_done placed
  obtain rfl := Except.ok.inj (again.symm.trans held)
  have bounded := (List.getElem?_eq_some_iff.mp listed).1
  have page : address + offset * pageSize = (pageOf address + offset) * pageSize := by
    simp only [pageOf, pageSize_eq] at *
    omega
  have updates := coherent.wellFormed.updates aligned assigned
  obtain ⟨old, new, _, made, now⟩ := updates.at?_inside coherent.wellFormed aligned
    (Nat.le_add_right _ offset) (Nat.add_lt_add_left bounded _)
  cases made
  obtain ⟨block, inBlock, properties⟩ := updates.wellFormed.find_of_at? now
  rw [page]
  refine ⟨?_, block, inBlock, ?_, ?_⟩
  · have inside := gains.inside (pageOf address + offset) (Nat.le_add_right _ _) (by omega)
    rw [Nat.add_sub_cancel_left, listed] at inside
    rw [Directory.translate, pageOf_mul_pageSize]
    exact inside
  · rw [Block.state, properties]
    rfl
  · rw [Block.permission, properties]
    rfl

/-- Frames are placed inside the address space. -/
theorem has_of_placeGroup (nonempty : Run.framesOf runs ≠ []) :
    after.space.layout.addressSpace.Has address := by
  obtain ⟨found, blocks, directory, frames, again, _, gains, assigned, rfl⟩ :=
    placeGroup_eq_done placed
  obtain rfl := Except.ok.inj (again.symm.trans held)
  have positive := List.length_pos_iff.mpr nonempty
  obtain ⟨lower, upper⟩ := (coherent.wellFormed.updates aligned assigned).covers
  rw [coherent.region_eq] at lower upper
  simp only [pageSize_eq] at upper
  exact ⟨lower, by change address < attached.space.layout.addressSpace.stop; omega⟩

/-- The pages that frames are placed behind have translations, so that blocks and translations agree
afterwards exactly if the pages are in use. -/
theorem agrees_iff_of_placeGroup (nonempty : Run.framesOf runs ≠ []) :
    after.space.Agrees ↔ state ≠ .free := by
  constructor
  · rintro agrees rfl
    have inside := has_of_placeGroup coherent aligned held placed nonempty
    have first := List.getElem?_eq_getElem (List.length_pos_iff.mpr nonempty)
    obtain ⟨translated, block, found, free, _⟩ :=
      maps_of_placeGroup coherent aligned held placed first
    rw [Nat.zero_mul, Nat.add_zero] at translated found
    rw [← Nat.div_mul_cancel (Nat.dvd_of_mod_eq_zero aligned)] at inside translated found
    obtain ⟨other, same, used⟩ := agrees (address / pageSize) inside
    cases same.symm.trans found
    exact used.mp (by rw [translated]; rfl) free
  · intro used
    exact (coherent.placeGroup ((has_mapped_iff state).mpr used) aligned placed).agrees

end Placing

end AddressSpace

namespace Kernel

variable {config : Config} {cache : InstructionCache} {initial reached : Kernel}
variable {steps : List Step} {process : Process} {after : AttachedSpace} {address : Nat}
variable {group : PageGroup} {state : MemoryState} {permission : KernelPermission}
variable {result : Commit}

/-- In every state that a kernel can reach, and whatever groups have been made there, mapping one of
them puts its frames behind the pages of the range in their order, with blocks in the state and with
the permission that are asked for, and adds a reference to a frame each time that the group lists
it. Afterwards exactly the pages in use have a translation if and only if the state is not that of
free memory. -/
theorem mapGroup_keeps_agreement (created : create config cache = .ok initial)
    (aligned : ∀ step ∈ steps, step.Aligned Layout.Paged)
    (ran : initial.run? steps = some reached) (member : process ∈ reached.processes)
    (resources : Resources) (start : address % pageSize = 0)
    (done : AddressSpace.mapGroup address group state permission ⟨process.space, resources⟩ =
      .done result after) :
    ∃ runs, group.runs resources.descriptors = .ok runs ∧
      (∀ offset frame, (Run.framesOf runs)[offset]? = some frame →
        after.space.Maps (address + offset * pageSize) frame state permission) ∧
      (∀ frame, after.resources.frames.held frame =
        resources.frames.held frame + (Run.framesOf runs).count frame) ∧
      (after.space.Agrees ↔ state ≠ .free) := by
  have coherent := all_run AddressSpace.invariant_coherent created aligned ran process member
  obtain ⟨runs, held, nonempty, placed⟩ := AddressSpace.placeGroup_of_mapGroup done
  exact ⟨runs, held,
    fun offset frame => AddressSpace.maps_of_placeGroup coherent start held placed,
    AddressSpace.held_of_placeGroup held placed,
    AddressSpace.agrees_iff_of_placeGroup coherent start held placed nonempty⟩

/-- A page is shown twice more, and a group made of the two. -/
def doublingRun : List Step := [
  .createProcess {}, .mapPages 0 0x1000000000 1 .normal .readWrite, .makeGroup 0 0x1000000000 1,
  .mapGroup 0 0x8000000 ⟨[0], 0⟩ .sharedCode .userRead,
  .mapGroup 0 0x8001000 ⟨[0], 0⟩ .shared .userRead, .makeGroup 0 0x8000000 2]

/-- A group that lists one frame twice is mapped as a stack: the frame has two references more. -/
theorem mapGroup_keeps_agreement_of_doubled_frame :
    ∃ reached process result after, small.run? doublingRun = some reached ∧
      reached.processes[0]? = some process ∧
      AddressSpace.mapGroup 0x3000000000 ⟨[1, 2], 0⟩ .stack .userReadWrite
        ⟨process.space, reached.resources⟩ = .done result after ∧
      after.space.Maps 0x3000001000 0x80000 .stack .userReadWrite ∧
      reached.resources.frames.held 0x80000 = 3 ∧ after.resources.frames.held 0x80000 = 5 ∧
      after.space.Agrees := by
  have shown : ((small.run? doublingRun).bind fun reached =>
      reached.processes[0]?.map fun process =>
        ((AddressSpace.mapGroup 0x3000000000 ⟨[1, 2], 0⟩ .stack .userReadWrite
          ⟨process.space, reached.resources⟩).ending,
        (PageGroup.mk [1, 2] 0).runs reached.resources.descriptors,
        reached.resources.frames.held 0x80000)) =
      some (.ok (), .ok [⟨0x80000000, 1⟩, ⟨0x80000000, 1⟩], 3) := by
    decide +kernel
  obtain ⟨reached, ran, shown⟩ := Option.bind_eq_some_iff.mp shown
  obtain ⟨process, listed, shown⟩ := Option.map_eq_some_iff.mp shown
  obtain ⟨ended, runs, before⟩ : _ ∧ _ ∧ _ := by simpa only [Prod.mk.injEq] using shown
  obtain ⟨result, after, done⟩ := Outcome.ending_eq_ok.mp ended
  obtain ⟨found, again, maps, counts, agrees⟩ := mapGroup_keeps_agreement create_small
    (show ∀ step ∈ doublingRun, step.Aligned Layout.Paged by decide +kernel) ran
    (List.mem_of_getElem? listed) reached.resources (by decide) done
  cases again.symm.trans runs
  have counted := counts 0x80000
  rw [before] at counted
  exact ⟨reached, process, result, after, ran, listed, done, maps 1 0x80000 (by decide +kernel),
    before, counted.trans (by decide +kernel), agrees.mpr (by decide)⟩

/-- A group mapped as free memory leaves a page with a translation that is not in use. -/
theorem free_mapping_disagrees :
    ∃ reached process result after, small.run? (doublingRun.take 3) = some reached ∧
      reached.processes[0]? = some process ∧ process.space.Agrees ∧
      AddressSpace.mapGroup 0x8000000 ⟨[0], 0⟩ .free .userRead
        ⟨process.space, reached.resources⟩ = .done result after ∧ ¬ after.space.Agrees := by
  have shown : ((small.run? (doublingRun.take 3)).bind fun reached =>
      reached.processes[0]?.map fun process =>
        (AddressSpace.mapGroup 0x8000000 ⟨[0], 0⟩ .free .userRead
          ⟨process.space, reached.resources⟩).ending) = some (.ok ()) := by
    decide +kernel
  obtain ⟨reached, ran, shown⟩ := Option.bind_eq_some_iff.mp shown
  obtain ⟨process, listed, ended⟩ := Option.map_eq_some_iff.mp shown
  obtain ⟨result, after, done⟩ := Outcome.ending_eq_ok.mp ended
  have coherent := all_run AddressSpace.invariant_coherent create_small
    (show ∀ step ∈ doublingRun.take 3, step.Aligned Layout.Paged by decide +kernel) ran process
    (List.mem_of_getElem? listed)
  obtain ⟨runs, held, nonempty, placed⟩ := AddressSpace.placeGroup_of_mapGroup done
  have used := AddressSpace.agrees_iff_of_placeGroup coherent (by decide) held placed nonempty
  exact ⟨reached, process, result, after, ran, listed, coherent.agrees, done,
    fun agrees => used.mp agrees rfl⟩

end Kernel

end GuestMemory
