import GuestMemory.AddressSpace.Groups

/-!
Code aliases: ordinary memory mapped a second time as instructions. As long as the alias is there,
the source is locked and hidden from the process.
-/

namespace GuestMemory.AddressSpace

/-- What both requests ask of the two ranges: the source inside the address space, and the
destination where code aliases may be. -/
def requireAliasRanges (destination source size : Nat) : SpaceAction Unit := do
  requireInside source size
  requirePlace destination size .aliasCode .invalidMemoryRegion

/-- Maps the frames of the source, readable and writable so far, as code at the destination. -/
def mapCode (destination source size : Nat) : SpaceAction Commit := do
  let pages := size / pageSize
  requireAliasRanges destination source size
  checkRange source size ((Check.exactly .normal).withPermission .all .userReadWrite)
  checkRange destination size (.exactly .free)
  let group ← makeGroup source pages
  .ensuring (discard group) do
    changeBlocks (·.lock source pages .hidden)
    changeDirectory (·.protect source pages .hidden)
    placeGroup destination group .aliasCode .hidden
    commit .mapCode destination pages

/-- Takes a code alias away and gives the source back to the process. The instruction cache is told
if the alias still holds instructions somewhere. -/
def unmapCode (destination source size : Nat)
    (strategy : InvalidationStrategy) : SpaceAction Commit := do
  let pages := size / pageSize
  requireAliasRanges destination source size
  checkRange source size ((Check.exactly .normal).withAttributes .all .locked)
  checkRange destination size (.hasFlags .canCodeAlias)
  let group ← makeGroup source pages
  .ensuring (discard group) do
    let same ← isBackedBy group destination pages
    .require same (.plain .invalidCurrentMemory)
    let blocks ← .inspect (·.space.blocks.overlapping destination size)
    unmapRange destination pages
    changeBlocks (·.unlock source pages .userReadWrite)
    changeDirectory (·.protect source pages .userReadWrite)
    if blocks.any (·.state.has .code) then
      invalidate (strategy.request destination size)
    commit .unmapCode destination pages

end GuestMemory.AddressSpace
