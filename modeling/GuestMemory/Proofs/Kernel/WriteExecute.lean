import GuestMemory.Proofs.Kernel.PageTurns

/-!
Writing and executing: no page lets the guest do both, instructions are not writable, and memory
that has been written as data becomes instructions only by way of being free.
-/

namespace GuestMemory

open GuestMemory.Action AddressSpace Properties

namespace MemoryState

/-- The memory holds instructions that turn into data when they become writable. -/
def IsCode (state : MemoryState) : Prop :=
  state = code ∨ state = aliasCode

instance : DecidablePred IsCode := fun state =>
  inferInstanceAs (Decidable (state = code ∨ state = aliasCode))

/-- Instructions are not asked for with the permission to write them. -/
def Separates (state : MemoryState) (permission : UserPermission) : Prop :=
  state.IsCode → permission ≠ .readWrite

instance (state : MemoryState) (permission : UserPermission) :
    Decidable (state.Separates permission) :=
  inferInstanceAs (Decidable (state.IsCode → permission ≠ .readWrite))

/-- The guest may not both write and execute memory with this permission, nor write it if it holds
instructions. -/
def KeepsApart (state : MemoryState) (permission : KernelPermission) : Prop :=
  ¬ (permission.contains .write = true ∧ permission.contains .execute = true) ∧
    (state.IsCode → ¬ permission.contains .write = true)

instance (state : MemoryState) (permission : KernelPermission) :
    Decidable (state.KeepsApart permission) :=
  inferInstanceAs (Decidable (_ ∧ _))

theorem separates_afterReprotect (state : MemoryState) (permission : UserPermission) :
    (state.afterReprotect permission.toKernel).Separates permission := by
  cases state <;> cases permission <;> decide

theorem Separates.keepsApart {state : MemoryState} {permission : UserPermission}
    (separates : state.Separates permission) : state.KeepsApart permission.toKernel := by
  cases permission with
  | readWrite => exact ⟨by decide, fun code => absurd rfl (separates code)⟩
  | none | read | readExecute => exact ⟨by decide, fun _ => by decide⟩

theorem grantsCalls_separates : GrantsCalls Separates :=
  ⟨by decide, by decide, fun state permission _ => separates_afterReprotect state permission⟩

/-- Data that code turns into when it is written. -/
def IsRewritten (state : MemoryState) : Prop :=
  state = codeData ∨ state = aliasCodeData

theorem IsRewritten.afterReprotect {state : MemoryState} (rewritten : state.IsRewritten)
    (permission : KernelPermission) : state.afterReprotect permission = state := by
  unfold MemoryState.afterReprotect
  rcases rewritten with rfl | rfl <;> exact ite_self _

end MemoryState

open MemoryState

namespace Properties

variable {old new properties : Properties} {grants : MemoryState → UserPermission → Prop}

theorem Granted.keepsApart (granted : Granted Separates properties) :
    properties.state.KeepsApart properties.permission := by
  cases granted with
  | free => decide
  | inUse _ separates => exact separates.keepsApart
  | lent => decide

/-- Rewritten code stays what it is until it is unmapped. -/
theorem Turns.state_of_isRewritten (turns : Turns grants old new)
    (rewritten : old.state.IsRewritten) : new.state = old.state ∨ new.state = .free := by
  cases turns with
  | kept => exact .inl rfl
  | mapped => exact absurd rewritten (by rintro ⟨⟩ <;> contradiction)
  | unmapped => exact .inr rfl
  | reprotected => exact .inl (rewritten.afterReprotect _)
  | lent => exact .inl rfl
  | returned => exact .inl rfl

end Properties

namespace AddressSpace

variable {space : AddressSpace} {address : Nat} {state : MemoryState}

/-- What the memory at an address is used for. -/
def stateAt? (space : AddressSpace) (address : Nat) : Option MemoryState :=
  match space.blocks.find address with
  | .ok (some block) => some block.state
  | _ => none

theorem Coherent.stateAt?_eq_some_iff (coherent : space.Coherent) :
    space.stateAt? address = some state ↔
      (space.layout.addressSpace.base ≤ address ∧ address < space.layout.addressSpace.stop) ∧
        (space.page (pageOf address)).properties.state = state := by
  rw [← coherent.region_eq]
  by_cases inside : space.blocks.region.base ≤ address ∧ address < space.blocks.region.stop
  · obtain ⟨block, _, found, _⟩ := coherent.wellFormed.find_eq_some inside.1 inside.2
    have here := coherent.wellFormed.at?_pageOf_of_find found
    simp [stateAt?, found, inside, page, Partition.propertiesOf, here, Block.state]
  · have outside : address < space.blocks.region.base ∨ space.blocks.region.stop ≤ address := by
      omega
    simp [stateAt?, coherent.wellFormed.find_eq_none outside, inside]

/-- A translation has the permission of the block that is found for its address. -/
theorem Coherent.block_of_translate (coherent : space.Coherent) {translation : Translation}
    (translated : space.directory.translate address = some translation) :
    ∃ block, space.blocks.find address = .ok (some block) ∧
      translation.permission = block.permission := by
  have agree := coherent.agree (pageOf address)
  rw [show space.directory.entries[pageOf address]? = some translation from translated,
    Option.map_some] at agree
  obtain ⟨properties, here, mapped⟩ := Option.bind_eq_some_iff.mp agree.symm
  obtain ⟨block, member, holds, rfl⟩ := coherent.wellFormed.at?_eq_some_iff.mp here
  obtain ⟨lower, upper⟩ := (coherent.wellFormed.holds_pageOf_iff member).mp holds
  refine ⟨block, coherent.wellFormed.find_of_mem member lower upper, ?_⟩
  rw [Properties.mapped?] at mapped
  split at mapped
  · exact (Option.some.inj mapped).symm
  · cases mapped

end AddressSpace

namespace Kernel

variable {kernel after initial reached earlier later : Kernel} {config : Config}
variable {cache : InstructionCache} {step : Step} {steps before between : List Step}
variable {place : Place} {state data : MemoryState} {process : Process}

/-- What the memory at a place is used for. -/
def stateAt? (kernel : Kernel) (place : Place) : Option MemoryState := do
  let process ← kernel.processes[place.process]?
  process.space.stateAt? place.address

/-- Rewritten code stays what it is in a step unless it is unmapped. -/
theorem OrdinaryInvariant.stateAt?_of_isRewritten (inv : OrdinaryInvariant config kernel)
    (ordinary : step.Ordinary)
    (separates : step.Grants Separates) (ended : (step.perform kernel).state? = some after)
    (rewritten : data.IsRewritten) (was : kernel.stateAt? place = some data) :
    after.stateAt? place = some data ∨ after.stateAt? place = some .free := by
  obtain ⟨process, listed, was⟩ := Option.bind_eq_some_iff.mp was
  have coherent := inv.coherent process (List.mem_of_getElem? listed)
  obtain ⟨inside, rfl⟩ := coherent.stateAt?_eq_some_iff.mp was
  obtain ⟨moved, spaceListed, layout_eq⟩ :=
    (inv.step ordinary.paged step.directs_all ended).listed (spaces_listed listed)
  obtain ⟨final, finalListed, rfl⟩ : ∃ final, after.processes[place.process]? = some final ∧
      final.space = moved := Option.map_eq_some_iff.mp (List.getElem?_map ▸ spaceListed)
  have afterInv := inv.kept ordinary ended
  have finalCoherent := afterInv.coherent final (List.mem_of_getElem? finalListed)
  have turns := inv.turns grantsCalls_separates ordinary separates ended
    (place.process, pageOf place.address)
  rw [page_of_listed (spaces_listed listed), page_of_listed (spaces_listed finalListed)] at turns
  have told (state : MemoryState)
      (now : (final.space.page (pageOf place.address)).properties.state = state) :
      after.stateAt? place = some state :=
    Option.bind_eq_some_iff.mpr ⟨final, finalListed,
      finalCoherent.stateAt?_eq_some_iff.mpr ⟨by rwa [layout_eq], now⟩⟩
  exact (turns.state_of_isRewritten rewritten).imp (told _) (told _)

/-- Rewritten code becomes something else only by way of being free. -/
theorem OrdinaryInvariant.free_between (inv : OrdinaryInvariant config kernel)
    (among : ∀ step ∈ steps, step.Ordinary ∧ step.Grants Separates)
    (ran : kernel.run? steps = some reached) (rewritten : data.IsRewritten)
    (was : kernel.stateAt? place = some data) (is : reached.stateAt? place = some state)
    (changed : state ≠ data) :
    ∃ first last middle, steps = first ++ last ∧ kernel.run? first = some middle ∧
      middle.run? last = some reached ∧ middle.stateAt? place = some .free := by
  induction steps generalizing kernel with
  | nil =>
      cases ran
      exact absurd (Option.some.inj (is.symm.trans was)) changed
  | cons step rest ih =>
      obtain ⟨ordinary, separates⟩ := among step List.mem_cons_self
      obtain ⟨next, ended, remaining⟩ := Option.bind_eq_some_iff.mp ran
      rcases inv.stateAt?_of_isRewritten ordinary separates ended rewritten was with still | free
      · obtain ⟨first, last, middle, rfl, early, late, free⟩ := ih (inv.kept ordinary ended)
          (fun other member => among other (List.mem_cons_of_mem _ member)) remaining still
        exact ⟨step :: first, last, middle, rfl,
          Option.bind_eq_some_iff.mpr ⟨next, ended, early⟩, late, free⟩
      · exact ⟨[step], rest, next, rfl, Option.bind_eq_some_iff.mpr ⟨next, ended, rfl⟩, remaining,
          free⟩

/-- Guests can write and execute no page in any state that a kernel can reach as long as no
instructions are mapped writable: neither by its block nor by its translation, and instructions
they cannot write. What has been data since it was code is code again later only if it was free in
between. -/
theorem write_and_execute_stay_apart (created : create config cache = .ok initial)
    (among : ∀ step ∈ before ++ between, step.Ordinary ∧ step.Grants Separates)
    (came : initial.run? before = some earlier) (ran : earlier.run? between = some later) :
    (∀ process ∈ earlier.processes,
      (∀ block ∈ process.space.blocks.blocks, block.state.KeepsApart block.permission) ∧
      ∀ address translation, process.space.directory.translate address = some translation →
        ∃ block, process.space.blocks.find address = .ok (some block) ∧
          block.state.KeepsApart translation.permission) ∧
    ∀ place data instructions,
      (data, instructions) ∈ [(MemoryState.codeData, .code), (.aliasCodeData, .aliasCode)] →
      earlier.stateAt? place = some data → later.stateAt? place = some instructions →
      ∃ first last middle, between = first ++ last ∧ earlier.run? first = some middle ∧
        middle.run? last = some later ∧ middle.stateAt? place = some .free := by
  obtain ⟨amongFirst, amongLast⟩ := List.forall_mem_append.mp among
  have inv := ordinaryInvariant_run created (fun step member => (amongFirst step member).1) came
  have granted := granted_run grantsCalls_separates created amongFirst came
  refine ⟨fun process member => ?_, fun place data instructions pair was is => ?_⟩
  · have apart {block : Block} (included : block ∈ process.space.blocks.blocks) :
        block.state.KeepsApart block.permission :=
      (granted_of_block inv granted member included).keepsApart
    refine ⟨fun block => apart, fun address translation translated => ?_⟩
    obtain ⟨block, found, same⟩ := (inv.coherent process member).block_of_translate translated
    exact ⟨block, found, same ▸ apart (Partition.mem_of_find found).1⟩
  · simp only [List.mem_cons, List.not_mem_nil, or_false, Prod.mk.injEq] at pair
    rcases pair with ⟨rfl, rfl⟩ | ⟨rfl, rfl⟩
    · exact inv.free_between amongLast ran (.inl rfl) was is (by decide)
    · exact inv.free_between amongLast ran (.inr rfl) was is (by decide)

/-- Code is rewritten, unmapped and mapped again. -/
def remapRun : List Step × List Step :=
  ([.createProcess {}, .mapPages 0 0x8000000 1 .code .readExecute,
    .call 0 (.setPermission .currentProcess 0x8000000 0x1000 3)],
  [.unmapPages 0 0x8000000 1 .codeData, .mapPages 0 0x8000000 1 .code .readExecute])

/-- Code that has been rewritten is code again after it was free. -/
theorem write_and_execute_stay_apart_of_remapped_code :
    ∃ earlier later first last middle, small.run? remapRun.1 = some earlier ∧
      earlier.run? remapRun.2 = some later ∧
      earlier.stateAt? ⟨0, 0x8000000⟩ = some .codeData ∧
      later.stateAt? ⟨0, 0x8000000⟩ = some .code ∧
      remapRun.2 = first ++ last ∧ earlier.run? first = some middle ∧
      middle.stateAt? ⟨0, 0x8000000⟩ = some .free := by
  have shown : ((small.run? remapRun.1).bind fun earlier => (earlier.run? remapRun.2).map
      fun later => (earlier.stateAt? ⟨0, 0x8000000⟩, later.stateAt? ⟨0, 0x8000000⟩)) =
      some (some .codeData, some .code) := by
    decide +kernel
  obtain ⟨earlier, came, shown⟩ := Option.bind_eq_some_iff.mp shown
  obtain ⟨later, ran, shown⟩ := Option.map_eq_some_iff.mp shown
  obtain ⟨was, is⟩ := Prod.mk.inj shown
  obtain ⟨_, passes⟩ := write_and_execute_stay_apart create_small
    (show ∀ step ∈ remapRun.1 ++ remapRun.2, step.Ordinary ∧ step.Grants Separates by
      decide +kernel) came ran
  obtain ⟨first, last, middle, split, early, _, free⟩ := passes ⟨0, 0x8000000⟩ _ _ (.head _) was is
  exact ⟨earlier, later, first, last, middle, came, ran, was, is, split, early, free⟩

end Kernel

end GuestMemory
