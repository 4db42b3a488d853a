import GuestMemory.Commit
import GuestMemory.Directory
import GuestMemory.Layout
import GuestMemory.PageGroup

/-!
Address spaces: the block partition of a process beside the translations of its pages. Every
operation checks the whole of the ranges that it is about to touch before it changes anything.
-/

namespace GuestMemory

/-- The memory of one guest process. -/
structure AddressSpace where
  id : Nat
  layout : Layout
  blocks : Partition
  directory : Directory
  deriving DecidableEq

/-- An address space together with what it shares with all others. -/
structure AttachedSpace where
  space : AddressSpace
  resources : Resources
  deriving DecidableEq

/-- An action on one address space. -/
abbrev SpaceAction := Action AttachedSpace

namespace AddressSpace

def create (id : Nat) (layout : Layout) : AddressSpace :=
  ⟨id, layout, .ofRegion layout.addressSpace, .empty⟩

def name (space : AddressSpace) : String :=
  s!"as{space.id}"

def translate (space : AddressSpace) (address : Nat) : Option Nat :=
  (space.directory.translate address).map fun translation =>
    translation.address + address % pageSize

/-- What a guest is told about an address; nothing outside the address space. -/
def query (space : AddressSpace) (address : Nat) : Checked (Option MemoryInfo) := do
  match ← space.blocks.find address with
  | none => return none
  | some block =>
    let info ← block.info
    return some info

def changeBlocks (change : Partition → Checked Partition) : SpaceAction Unit :=
  .update fun attached => do
    let blocks ← change attached.space.blocks
    return { attached with space.blocks := blocks }

def changeDirectory (change : Directory → Checked Directory) : SpaceAction Unit :=
  .update fun attached => do
    let directory ← change attached.space.directory
    return { attached with space.directory := directory }

def changeFrames (change : FramePool → Checked FramePool) : SpaceAction Unit :=
  .update fun attached => do
    let frames ← change attached.resources.frames
    return { attached with resources.frames := frames }

def onFrames {α : Type} (action : Action FramePool α) : SpaceAction α :=
  action.focus (·.resources.frames) fun attached frames =>
    { attached with resources.frames := frames }

def onDescriptors {α : Type} (action : Action DescriptorPool α) : SpaceAction α :=
  action.focus (·.resources.descriptors) fun attached descriptors =>
    { attached with resources.descriptors := descriptors }

def invalidate (invalidation : Invalidation) : SpaceAction Unit :=
  .update fun attached =>
    .ok { attached with resources.cache := attached.resources.cache.request invalidation }

def commit (operation : Operation) (address pages : Nat) : SpaceAction Commit := do
  let space ← .read (·.space)
  let commit : Commit := ⟨operation, space.id, address, pages, space.blocks.blocks⟩
  .check (space.blocks.requireListable [commit.heading])
  return commit

/-- The bytes of a range of pages, which must not pass the last address. -/
def rangeSize {σ : Type} (address pages : Nat) : Action σ Nat := do
  .require (address + pages * pageSize < wordLimit) (.plain .invalidCurrentMemory)
  return pages * pageSize

def requireInside (address size : Nat) : SpaceAction Unit := do
  let inside ← .inspect (·.space.layout.contains address size)
  .require inside (.plain .invalidCurrentMemory)

/-- Turns the request down unless the range may hold memory in the given state. -/
def requirePlace (address size : Nat) (state : MemoryState) (error : Error) : SpaceAction Unit := do
  let fits ← .inspect (·.space.layout.canContain address size state)
  .require fits (.plain error)

/-- Turns the request down unless the range meets a block and every block that it meets passes the
check. -/
def checkRange (address size : Nat) (check : Check) : SpaceAction Unit := do
  let space ← .read (·.space)
  let blocks ← .check (space.blocks.overlapping address size)
  .require (!blocks.isEmpty) (.plain .invalidCurrentMemory)
  match blocks.find? fun block => !check.accepts block with
  | none => return ()
  | some block => .refuse (.failedCheck space.id block check)

/-- Unmaps a range of pages that has been checked: the references to the frames behind it go, and
its blocks are free. -/
def unmapRange (address pages : Nat) : SpaceAction Unit := do
  let runs ← .inspect (·.space.directory.runs address pages)
  changeDirectory (·.unmap address pages)
  changeFrames (·.releaseAll (runs.getD []))
  changeBlocks (·.assign address pages .free .empty .empty)

def text (space : AddressSpace) : String :=
  s!"PageTable \x7b id: AddressSpaceId({space.id}), layout: {space.layout.text}, .. \x7d"

end AddressSpace

end GuestMemory
