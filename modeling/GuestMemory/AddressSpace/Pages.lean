import GuestMemory.AddressSpace

/-!
Pages of their own: mapping fresh frames, unmapping pages, and changing permissions.
-/

namespace GuestMemory.AddressSpace

/-- Maps fresh frames on a free range that may hold memory in the given state. -/
def mapPages (address pages : Nat) (state : MemoryState)
    (permission : UserPermission) : SpaceAction Commit := do
  if !state.has .mapped then
    .check (.error (.stateNotMapped state))
  let size ← rangeSize address pages
  requirePlace address size state .invalidMemoryRegion
  checkRange address size (.exactly .free)
  let physical ← onFrames (FramePool.allocate pages)
  changeDirectory (·.map address ⟨physical, pages⟩ permission.toKernel)
  changeBlocks (·.assign address pages state permission.toKernel .empty)
  commit .mapPages address pages

/-- Unmaps a range whose blocks are all in the given state and unmarked. -/
def unmapPages (address pages : Nat) (state : MemoryState) : SpaceAction Commit := do
  let size ← rangeSize address pages
  requireInside address size
  checkRange address size (.exactly state)
  unmapRange address pages
  commit .unmapPages address pages

/-- Changes the permission of a range, as a process may ask for. When the guest may execute the
range afterwards, the instruction cache forgets it. -/
def setPermission (address pages : Nat) (permission : UserPermission) : SpaceAction Commit := do
  let size ← rangeSize address pages
  requireInside address size
  checkRange address size (.ofState .reprotectable)
  changeBlocks (·.reprotect address pages permission.toKernel)
  changeDirectory (·.protect address pages permission.toKernel)
  if permission.toKernel.isUserExecutable then
    invalidate (.range address size)
  commit .setPermission address pages

end GuestMemory.AddressSpace
