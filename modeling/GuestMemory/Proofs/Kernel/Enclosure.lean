import GuestMemory.Proofs.Kernel.Safety

/-!
Enclosure: nothing is mapped outside the address space of a process, even where its other regions
reach beyond it. A call may be stopped by a fault then, but only one that would map a range outside.
-/

namespace GuestMemory

open GuestMemory.Action

theorem AddressSpace.Coherent.encloses_of_translate {space : AddressSpace} {address : Nat}
    (coherent : space.Coherent) (translated : (space.directory.translate address).isSome) :
    space.layout.Encloses (pageOf address * pageSize) pageSize := by
  obtain ⟨translation, found⟩ := Option.isSome_iff_exists.mp translated
  have shown : space.directory.frameAt? (pageOf address) = some (pageOf translation.address) := by
    rw [Directory.frameAt?, show space.directory.entries[pageOf address]? = _ from found,
      Option.map_some]
  have covers := coherent.covers_of_frameAt? shown
  rwa [coherent.region_eq, Region.Covers, Nat.one_mul] at covers

namespace Kernel

variable {allowed : Fault → Prop} {kernel initial reached : Kernel} {config : Config}
variable {cache : InstructionCache} {steps : List Step} {place : Place}
variable {size index address pages current : Nat} {state : MemoryState} {request : Call}

/-- The range is inside the address space of its process, if that is there. -/
def Encloses (kernel : Kernel) (place : Place) (size : Nat) : Prop :=
  ∀ process, kernel.processes[place.process]? = some process →
    process.space.layout.Encloses place.address size

/-- Where the fault of a range outside is allowed for those that are not enclosed, every range is
admitted. -/
theorem admits_of_outside (outside : ¬ kernel.Encloses place size → allowed .outsideRegion) :
    kernel.Admits allowed place size state := by
  intro process listed _
  by_cases inside : process.space.layout.Encloses place.address size
  · exact .inr inside
  · exact .inl (outside fun encloses => inside (encloses process listed))

theorem FaultGuarded.safe_mapPages (guarded : FaultGuarded allowed config kernel)
    (present : Present allowed kernel index) (used : state.has .mapped = true)
    (aligned : address % pageSize = 0)
    (admits : kernel.Admits allowed ⟨index, address⟩ (pages * pageSize) state)
    (permission : UserPermission) :
    (onSpace index (AddressSpace.mapPages address pages state permission)).Safe allowed kernel :=
  safe_onSpace present fun process listed =>
    (guarded.space listed).safe_mapPages (.inr used) (.inr aligned) (admits process listed)

/-- Whatever regions a process has, as long as none passes the last address, its translations are
inside its address space. In a state with fewer than 2^30 mapped pages, whose frames lie before the
last address, a call is answered or refused, and so is the mapping of pages, unless the range to map
is not inside the address space and the blocks are asked for what is outside their region. -/
theorem nothing_is_mapped_outside
    (fits : config.frameBase + config.framePages * pageSize < wordLimit)
    (created : create config cache = .ok initial)
    (among : ∀ step ∈ steps, step.Allowed Layout.Regular) (knows : initial.Knows steps)
    (ran : initial.run? steps = some reached) (few : reached.mappedPages < 2 ^ 30) :
    (∀ process ∈ reached.processes, ∀ address,
      (process.space.directory.translate address).isSome →
        process.space.layout.Encloses (pageOf address * pageSize) pageSize) ∧
    (∀ current request, current < reached.processes.length →
      (∃ code, (perform current request reached).code? = some code) ∨
        perform current request reached = .fault .outsideRegion ∧
          ∃ place size, reached.MapsAt current request place size ∧
            ¬ reached.Encloses place size) ∧
    ∀ index address pages state permission, index < reached.processes.length →
      address % pageSize = 0 → state.has .mapped = true →
      let mapping := onSpace index (AddressSpace.mapPages address pages state permission)
      (∃ code, (mapping reached).code? = some code) ∨
        mapping reached = .fault .outsideRegion ∧
          ¬ reached.Encloses ⟨index, address⟩ (pages * pageSize) := by
  refine ⟨fun process member address translated => ?_, fun current request present => ?_,
    fun index address pages state permission present aligned used => ?_⟩
  · have inv := stepInvariant_run (fun _ regular => regular.toPaged) created among ran
    exact (inv.coherent process member).encloses_of_translate translated
  · refine Safe.code?_or_stopped ((faultGuarded_run fits created among knows ran few).safe_perform
      (.inr present) request fun place size state maps => admits_of_outside fun outside => ?_)
    exact ⟨rfl, place, size, maps, outside⟩
  · refine Safe.code?_or_stopped ((faultGuarded_run fits created among knows ran few).safe_mapPages
      (.inr present) used aligned (admits_of_outside fun outside => ?_) permission)
    exact ⟨rfl, outside⟩

/-- An address space of four pages, the last two of which may hold code aliases, and two more may
behind them. -/
def short : Layout where
  addressSpace := ⟨0x8000000, 0x4000⟩
  code := ⟨0x8000000, 0⟩
  aliasCode := ⟨0x8002000, 0x4000⟩
  heap := ⟨0x8000000, 0x2000⟩
  ipcAlias := ⟨0x8000000, 0⟩
  stack := ⟨0x8000000, 0⟩

/-- Heap memory is lent to an alias in the address space, and there is still room behind it. -/
def shortRun : List Step := [
  .createProcess short,
  .mapPages 0 0x8000000 2 .normal .readWrite,
  .call 0 (.mapCode .currentProcess 0x8002000 0x8000000 0x1000)]

/-- The alias is translated, and its page is inside the address space. -/
theorem nothing_is_mapped_outside_of_short_address_space :
    ∃ reached process, small.run? shortRun = some reached ∧ process ∈ reached.processes ∧
      (process.space.directory.translate 0x8002000).isSome ∧
      process.space.layout.Encloses 0x8002000 pageSize := by
  have shown : ((small.run? shortRun).bind fun reached => reached.processes[0]?.map fun process =>
      decide (reached.mappedPages < 2 ^ 30 ∧
        (process.space.directory.translate 0x8002000).isSome)) = some true := by
    decide +kernel
  obtain ⟨reached, ran, shown⟩ := Option.bind_eq_some_iff.mp shown
  obtain ⟨process, listed, shown⟩ := Option.map_eq_some_iff.mp shown
  obtain ⟨few, translated⟩ := of_decide_eq_true shown
  have member := List.mem_of_getElem? listed
  obtain ⟨inside, _⟩ := nothing_is_mapped_outside (show _ < wordLimit by decide +kernel)
    create_small (show ∀ step ∈ shortRun, step.Allowed Layout.Regular by decide +kernel)
    (show small.Knows shortRun by decide +kernel) ran few
  exact ⟨reached, process, ran, member, translated, inside process member _ translated⟩

/-- A code alias of two pages that begins on the last page of the address space is stopped: the
layout may hold it there, and no block is in its way. -/
theorem alias_past_the_end_stops :
    ∃ reached, short.Regular ∧
      (∀ region ∈ short.regions, region.base % pageSize = 0 ∧ region.size % pageSize = 0) ∧
      small.run? (shortRun.take 2) = some reached ∧ reached.mappedPages < 2 ^ 30 ∧
      perform 0 (.mapCode .currentProcess 0x8003000 0x8000000 0x2000) reached =
        .fault .outsideRegion := by
  have shown : ((small.run? (shortRun.take 2)).map fun reached =>
      (decide (reached.mappedPages < 2 ^ 30),
        match perform 0 (.mapCode .currentProcess 0x8003000 0x8000000 0x2000) reached with
        | .fault fault => some fault
        | _ => none)) = some (true, some .outsideRegion) := by
    decide +kernel
  obtain ⟨reached, ran, shown⟩ := Option.map_eq_some_iff.mp shown
  obtain ⟨few, stopped⟩ := Prod.mk.inj shown
  refine ⟨reached, by decide +kernel, by decide +kernel, ran, of_decide_eq_true few, ?_⟩
  split at stopped
  case h_1 fault stop =>
    rw [stop, Option.some.inj stopped]
  case h_2 => cases stopped

end Kernel

end GuestMemory
