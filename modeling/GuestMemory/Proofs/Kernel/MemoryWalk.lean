import GuestMemory.Proofs.Kernel.PageTurns

/-!
The walk of a guest through its memory: it asks about an address, goes on where the answer ends, and
so sees all of its address space once, in pieces that are as large as can be. A guest does not see
all of what the kernel keeps of a page, but what it does not see follows from what it sees.
-/

namespace GuestMemory

open GuestMemory.Action AddressSpace Properties

namespace MemoryInfo

/-- Where the answer ends and the next question is asked. -/
def stop (info : MemoryInfo) : Nat :=
  info.base + info.size

/-- The answer tells what a guest may know of memory with these properties. -/
structure Tells (info : MemoryInfo) (properties : Properties) : Prop where
  state_eq : info.state = properties.state
  permission_eq : info.permission = properties.permission.toUser?.getD .none
  attributes_eq : info.attributes = properties.attributes
  locks_eq : info.locks = properties.locks

/-- A guest sees a difference between the two answers, apart from where they are. -/
def Differs (info other : MemoryInfo) : Prop :=
  info.state ≠ other.state ∨ info.permission ≠ other.permission ∨
    info.attributes ≠ other.attributes ∨ info.locks ≠ other.locks

/-- The answers are about nonempty ranges from `start` to `stop` without gap or overlap. -/
def Tiles : Nat → List MemoryInfo → Nat → Prop
  | start, [], stop => start = stop
  | start, info :: rest, stop => info.base = start ∧ 0 < info.size ∧ Tiles info.stop rest stop

end MemoryInfo

theorem UserPermission.toUser?_toKernel (permission : UserPermission) :
    permission.toKernel.toUser? = some permission := by
  cases permission <;> rfl

namespace Block

variable {block : Block}

/-- What a guest is told about the block. -/
def told (block : Block) : MemoryInfo where
  base := block.start
  size := block.size
  state := block.state
  permission := block.permission.toUser?.getD .none
  attributes := block.attributes
  locks := block.locks

theorem info_eq_ok (fits : block.stop < wordLimit) : block.info = .ok block.told := by
  have short : block.size < wordLimit := Nat.lt_of_le_of_lt (Nat.le_add_left _ _) fits
  rw [info, checkedSize, word_of_lt short]
  rfl

theorem tells_told (block : Block) : block.told.Tells block.properties :=
  ⟨rfl, rfl, rfl, rfl⟩

end Block

/-- Granted properties about which a guest is told the same are the same. -/
theorem Properties.Granted.eq_of_tells {grants : MemoryState → UserPermission → Prop}
    {first second : Properties} {info : MemoryInfo} (granted : Granted grants first)
    (otherGranted : Granted grants second) (tells : info.Tells first)
    (otherTells : info.Tells second) : first = second := by
  have states := tells.state_eq.symm.trans otherTells.state_eq
  have permissions := tells.permission_eq.symm.trans otherTells.permission_eq
  have attributes := tells.attributes_eq.symm.trans otherTells.attributes_eq
  cases granted with
  | free =>
      cases otherGranted with
      | free => rfl
      | inUse used _ => exact absurd states.symm used
      | lent => cases states
  | @inUse state permission used _ =>
      cases otherGranted with
      | free => exact absurd states used
      | @inUse other wanted _ _ =>
          obtain rfl : state = other := states
          simp only [plain, UserPermission.toUser?_toKernel, Option.getD_some] at permissions
          rw [permissions]
      | lent => exact absurd attributes (show Attributes.empty ≠ .locked by decide)
  | lent =>
      cases otherGranted with
      | free => cases states
      | inUse _ _ => exact absurd attributes (show Attributes.locked ≠ .empty by decide)
      | lent => rfl

namespace AddressSpace

variable {space : AddressSpace} {address start : Nat} {block : Block} {blocks : List Block}

/-- A walk asks about an address, then about where each answer ends, until there is none. -/
inductive Walk (space : AddressSpace) : Nat → List MemoryInfo → Nat → Prop
  | done {address : Nat} (none : space.query address = .ok .none) : Walk space address [] address
  | ask {address stop : Nat} {info : MemoryInfo} {further : List MemoryInfo}
    (answer : space.query address = .ok (some info)) (walk : Walk space info.stop further stop) :
    Walk space address (info :: further) stop

namespace Coherent

variable (coherent : space.Coherent)

include coherent

theorem query_of_mem (member : block ∈ space.blocks.blocks) (lower : block.start ≤ address)
    (upper : address < block.stop) : space.query address = .ok (some block.told) := by
  have wellFormed := coherent.wellFormed
  have fits := Nat.lt_of_le_of_lt (wellFormed.tiles.within member).2 wellFormed.fits
  rw [query, wellFormed.find_of_mem member lower upper, Checked.ok_bind]
  simp only [Block.info_eq_ok fits, Checked.ok_bind, Checked.pure_eq]

theorem query_of_outside (outside : ¬ (space.layout.addressSpace.base ≤ address ∧
    address < space.layout.addressSpace.stop)) : space.query address = .ok none := by
  rw [← coherent.region_eq] at outside
  rw [query, coherent.wellFormed.find_eq_none (by omega)]
  rfl

theorem query_of_inside (lower : space.layout.addressSpace.base ≤ address)
    (upper : address < space.layout.addressSpace.stop) :
    ∃ block ∈ space.blocks.blocks, block.start ≤ address ∧ address < block.stop ∧
      space.query address = .ok (some block.told) := by
  rw [← coherent.region_eq] at lower upper
  obtain ⟨block, member, _, before, past⟩ := coherent.wellFormed.find_eq_some lower upper
  exact ⟨block, member, before, past, coherent.query_of_mem member before past⟩

/-- Whatever is told is told of a block. -/
theorem block_of_query {info : MemoryInfo} (answer : space.query address = .ok (some info)) :
    (space.layout.addressSpace.base ≤ address ∧ address < space.layout.addressSpace.stop) ∧
      ∃ block ∈ space.blocks.blocks,
        block.start ≤ address ∧ address < block.stop ∧ block.told = info := by
  by_cases inside : space.layout.addressSpace.base ≤ address ∧
      address < space.layout.addressSpace.stop
  · obtain ⟨block, included, before, past, found⟩ := coherent.query_of_inside inside.1 inside.2
    cases found.symm.trans answer
    exact ⟨inside, block, included, before, past, rfl⟩
  · cases (coherent.query_of_outside inside).symm.trans answer

/-- From the start of a block on, a walk is told about each block. -/
theorem walk_of_tiles (among : ∀ block ∈ blocks, block ∈ space.blocks.blocks)
    (tiles : Block.Tiles start blocks space.layout.addressSpace.stop) :
    space.Walk start (blocks.map Block.told) space.layout.addressSpace.stop ∧
      MemoryInfo.Tiles start (blocks.map Block.told) space.layout.addressSpace.stop := by
  induction blocks generalizing start with
  | nil =>
      obtain rfl : start = _ := tiles
      exact ⟨.done (coherent.query_of_outside fun inside => Nat.lt_irrefl _ inside.2), rfl⟩
  | cons block rest ih =>
      obtain ⟨rfl, nonempty, following⟩ := tiles
      obtain ⟨member, others⟩ := List.forall_mem_cons.mp among
      obtain ⟨walk, tiled⟩ := ih others following
      have longer := block.start_lt_stop nonempty
      have positive : 0 < block.size := Nat.lt_add_right_iff_pos.mp longer
      exact ⟨.ask (coherent.query_of_mem member (Nat.le_refl _) longer) walk, rfl, positive, tiled⟩

end Coherent

end AddressSpace

namespace Kernel

variable {initial reached : Kernel} {config : Config} {cache : InstructionCache}
variable {steps : List Step} {process : Process}

/-- Neighbours that are unlike look unlike. -/
theorem differs_of_granted {block next : Block} {grants : MemoryState → UserPermission → Prop}
    (granted : Granted grants block.properties) (nextGranted : Granted grants next.properties)
    (unlike : block.properties ≠ next.properties) : block.told.Differs next.told := by
  by_contra alike
  simp only [MemoryInfo.Differs, not_or, not_not] at alike
  obtain ⟨state, permission, attributes, locks⟩ := alike
  exact unlike (granted.eq_of_tells nextGranted block.tells_told ⟨state, permission, attributes,
    locks⟩)

/-- In every state that a kernel can reach, a guest that asks about an address is told about a range
around it, all of which is as it is told, and is told nothing only outside its address space. A
walk from the start of the address space ends at its end, sees every part of it once, and no two
answers in a row look the same. -/
theorem walk_is_complete_and_minimal (created : create config cache = .ok initial)
    (ordinary : ∀ step ∈ steps, step.Ordinary) (ran : initial.run? steps = some reached)
    (member : process ∈ reached.processes) :
    let space := process.space
    let region := space.layout.addressSpace
    (∀ address,
      (region.base ≤ address ∧ address < region.stop ↔
        ∃ info, space.query address = .ok (some info)) ∧
      (¬ (region.base ≤ address ∧ address < region.stop) → space.query address = .ok none) ∧
      ∀ info, space.query address = .ok (some info) →
        info.base ≤ address ∧ address < info.stop ∧
        (∀ number, info.base ≤ number * pageSize → number * pageSize < info.stop →
          ∃ properties, space.blocks.at? number = some properties ∧ info.Tells properties) ∧
        ∀ other, info.base ≤ other → other < info.stop →
          space.query other = .ok (some info)) ∧
    ∃ infos, space.Walk region.base infos region.stop ∧
      MemoryInfo.Tiles region.base infos region.stop ∧ infos.IsChain MemoryInfo.Differs := by
  intro space region
  have inv := ordinaryInvariant_run created ordinary ran
  have coherent : space.Coherent := inv.coherent process member
  refine ⟨fun address => ⟨⟨fun inside => ?_, fun ⟨_, answer⟩ =>
    (coherent.block_of_query answer).1⟩, coherent.query_of_outside, fun info answer => ?_⟩,
    space.blocks.blocks.map Block.told, ?_⟩
  · obtain ⟨block, _, _, _, found⟩ := coherent.query_of_inside inside.1 inside.2
    exact ⟨_, found⟩
  · obtain ⟨_, block, included, before, past, rfl⟩ := coherent.block_of_query answer
    exact ⟨before, past, fun number lower upper =>
      ⟨_, coherent.wellFormed.at?_of_holds included ⟨lower, upper⟩, block.tells_told⟩,
      fun other lower upper => coherent.query_of_mem included lower upper⟩
  · have tiles := coherent.wellFormed.tiles
    rw [coherent.region_eq] at tiles
    obtain ⟨walk, tiled⟩ := coherent.walk_of_tiles (fun _ included => included) tiles
    refine ⟨walk, tiled, (List.isChain_map Block.told).mpr ?_⟩
    have granted := granted_run grantsCalls_all created
      (fun step listed => ⟨ordinary step listed, step.grants_all⟩) ran
    exact coherent.wellFormed.apart.imp_of_mem_imp fun block next included nextIncluded unlike =>
      differs_of_granted (granted_of_block inv granted member included)
        (granted_of_block inv granted member nextIncluded) (unlike trivial)

/-- A process with a code alias walks through its memory and is told of the alias on the way. -/
theorem walk_is_complete_and_minimal_of_alias :
    ∃ reached process infos info, small.run? smallRun = some reached ∧
      process ∈ reached.processes ∧ process.space.Walk 0x8000000 infos 0x8000000000 ∧
      infos.IsChain MemoryInfo.Differs ∧ process.space.query 0x9000123 = .ok (some info) ∧
      info.base ≤ 0x9000123 ∧ 0x9000123 < info.stop := by
  have shown : ((small.run? smallRun).bind fun reached => reached.processes[1]?.map fun process =>
      process.space.layout.addressSpace) = some ⟨0x8000000, 0x7FF8000000⟩ := by
    decide +kernel
  obtain ⟨reached, ran, shown⟩ := Option.bind_eq_some_iff.mp shown
  obtain ⟨process, listed, region⟩ := Option.map_eq_some_iff.mp shown
  have member := List.mem_of_getElem? listed
  obtain ⟨answers, infos, walk, _, unlike⟩ := walk_is_complete_and_minimal create_small
    (show ∀ step ∈ smallRun, step.Ordinary by decide +kernel) ran member
  rw [region] at walk
  obtain ⟨inside, _, tells⟩ := answers 0x9000123
  obtain ⟨info, answer⟩ := inside.mp (by rw [region]; decide)
  obtain ⟨before, past, _⟩ := tells info answer
  exact ⟨reached, process, infos, info, ran, member, walk, unlike, answer, before, past⟩

end Kernel

end GuestMemory
