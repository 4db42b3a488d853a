import GuestMemory.AddressSpace

/-!
Page groups of an address space: collecting the frames behind a range, comparing them with those
of another, and mapping them a second time.
-/

namespace GuestMemory.AddressSpace

def discard (group : PageGroup) (attached : AttachedSpace) : Checked AttachedSpace := do
  let resources ← group.discard attached.resources
  return { attached with resources }

/-- The group of the frames behind a range, every page of which must have one. -/
def makeGroup (address pages : Nat) : SpaceAction PageGroup := do
  match ← .inspect (·.space.directory.runs address pages) with
  | none => .refuse (.plain .invalidCurrentMemory)
  | some runs => onDescriptors (PageGroup.ofRuns runs)

def retainGroup (group : PageGroup) : SpaceAction PageGroup := fun attached =>
  match group.retain attached.resources with
  | .ok (group, resources) => .done group { attached with resources }
  | .error fault => .fault fault

/-- The group of the frames behind a range that passes a check, with a reference to each. -/
def makeHeldGroup (address pages : Nat) (check : Check) : SpaceAction PageGroup := do
  let size ← rangeSize address pages
  checkRange address size check
  let group ← makeGroup address pages
  retainGroup group

/-- The frames behind the range are those of the group, in order. -/
def isBackedBy (group : PageGroup) (address pages : Nat) : SpaceAction Bool := do
  let count ← .inspect (group.pages ·.resources.descriptors)
  if count ≠ pages then
    return false
  match ← .inspect (·.space.directory.runs address pages) with
  | none => return false
  | some runs =>
    let expected ← .inspect (group.runs ·.resources.descriptors)
    return runs = expected

/-- Maps runs of frames one after another, with a reference to each frame. -/
def mapRuns (permission : KernelPermission) : Nat → List Run → SpaceAction Unit
  | _, [] => return ()
  | address, run :: rest => do
    changeFrames (·.retain run)
    changeDirectory (·.map address run permission)
    let next ← .check (word (address + run.size))
    mapRuns permission next rest

/-- Maps the frames of a group on a range that has been checked. -/
def placeGroup (address : Nat) (group : PageGroup) (state : MemoryState)
    (permission : KernelPermission) : SpaceAction Unit := do
  let runs ← .inspect (group.runs ·.resources.descriptors)
  mapRuns permission address runs
  let pages ← .inspect (group.pages ·.resources.descriptors)
  changeBlocks (·.assign address pages state permission .empty)

/-- Maps the frames of a group on a free range that may hold memory in the given state. -/
def mapGroup (address : Nat) (group : PageGroup) (state : MemoryState)
    (permission : KernelPermission) : SpaceAction Commit := do
  let pages ← .inspect (group.pages ·.resources.descriptors)
  let size ← rangeSize address pages
  requirePlace address size state .invalidCurrentMemory
  checkRange address size (.exactly .free)
  placeGroup address group state permission
  commit .mapGroup address pages

end GuestMemory.AddressSpace
