import GuestMemory.Partition.Merge
import GuestMemory.Partition.Split
import GuestMemory.Region

/-!
Partitions: the blocks of one address space. They cover its region without gap or overlap, and no
two neighbours have the same properties. An operation on a range splits the blocks at the edges of
the range, changes the properties of those inside and joins neighbours that have become alike.
-/

namespace GuestMemory

/-- The blocks of a region, listed by rising start. -/
structure Partition where
  region : Region
  blocks : List Block
  deriving DecidableEq

namespace Partition

/-- The partition of a region that has no use yet: one free block. -/
def ofRegion (region : Region) : Partition :=
  ⟨region, [⟨region.base, region.size / pageSize, .free⟩]⟩

variable (partition : Partition)

def find (address : Nat) : Checked (Option Block) :=
  match (partition.blocks.filter (·.start ≤ address)).getLast? with
  | none => .ok none
  | some block => do
    let stop ← block.checkedStop
    return if address < stop then some block else none

def startingIn (address stop : Nat) : List Block :=
  partition.blocks.filter fun block => address ≤ block.start && block.start < stop

/-- The blocks that a range of `size` bytes meets: the one that holds its first byte, and those
that start inside. A range that passes the last address is cut off there. -/
def overlapping (address size : Nat) : Checked (List Block) := do
  let found ← partition.find address
  let first := (found.map (·.start)).getD address
  let stop := min (address + size) wordMax
  return partition.startingIn first stop

/-- Splits the blocks at both edges of a range of pages inside the region. Answers the address
just past the range beside the partition. -/
def isolate (address pages : Nat) : Checked (Nat × Partition) := do
  let stop ← word (address + pages * pageSize)
  if ← partition.region.contains address (pages * pageSize) then
    let blocks ← splitAt address partition.blocks
    let blocks ← splitAt stop blocks
    return (stop, { partition with blocks })
  else
    .error .outsideRegion

/-- Changes the properties of the pages of a range. -/
def updateWith (address pages : Nat)
    (change : Properties → Checked Properties) : Checked Partition := do
  let (stop, isolated) ← partition.isolate address pages
  let blocks ← isolated.blocks.mapM fun block =>
    if address ≤ block.start && block.start < stop then do
      let properties ← change block.properties
      return { block with properties }
    else
      return block
  let blocks ← mergeAdjacent address stop blocks
  return { partition with blocks }

/-- Gives the pages of a range another use. -/
def assign (address pages : Nat) (state : MemoryState)
    (permission : KernelPermission) (attributes : Attributes) : Checked Partition :=
  partition.updateWith address pages fun properties =>
    .ok (properties.assign state permission attributes)

def lock (address pages : Nat) (permission : KernelPermission) : Checked Partition :=
  partition.updateWith address pages fun properties => properties.lock permission

def unlock (address pages : Nat) (permission : KernelPermission) : Checked Partition :=
  partition.updateWith address pages fun properties => properties.unlock permission

/-- Changes the permission of the pages of a range on request of their process. -/
def reprotect (address pages : Nat) (permission : KernelPermission) : Checked Partition :=
  partition.updateWith address pages fun properties => .ok (properties.reprotect permission)

/-- Shows the blocks that an operation on the range would change, and leaves their properties
as they are. -/
def visit (address pages : Nat) : Checked (List Block × Partition) := do
  let (stop, isolated) ← partition.isolate address pages
  let after ← partition.updateWith address pages .ok
  return (isolated.startingIn address stop, after)

/-- The blocks follow one another without gap from `expected` on, none is empty and no two
neighbours are alike. Answers where they end, or nothing if they do not follow. -/
def follow (expected : Nat) (previous : Option Block) : List Block → Checked (Option Nat)
  | [] => .ok (some expected)
  | block :: rest =>
    if block.start ≠ expected || block.pages = 0 then
      .ok none
    else if previous.any (·.sameProperties block) then
      .ok none
    else do
      let stop ← block.checkedStop
      follow stop (some block) rest

/-- The blocks are an exact partition of the region, with no two neighbours alike. -/
def isConsistent : Checked Bool := do
  match ← follow partition.region.base none partition.blocks with
  | none => return false
  | some reached =>
    let stop ← partition.region.checkedStop
    return reached = stop

def listing (blocks : List Block) : List Record :=
  blocks.map fun block => ⟨.trace, block.text⟩

/-- The blocks can be listed after a heading: each ends at an address. Otherwise the listing breaks
off before the first that does not. -/
def requireListable (heading : List Record) : Checked Unit :=
  let fits (block : Block) : Bool := block.stop < wordLimit
  if partition.blocks.all fits then
    .ok ()
  else
    .error (.listingOverflow (heading ++ listing (partition.blocks.takeWhile fits)))

def list : Checked (List Record) := do
  partition.requireListable []
  return listing partition.blocks

end Partition

end GuestMemory
