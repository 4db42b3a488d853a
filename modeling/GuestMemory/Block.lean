import GuestMemory.Address
import GuestMemory.Attributes
import GuestMemory.Permission

/-!
Blocks: runs of pages of virtual memory with one set of properties.
-/

namespace GuestMemory

/-- What an address space knows of a page, apart from the frame behind it. -/
structure Properties where
  state : MemoryState
  permission : KernelPermission
  attributes : Attributes
  /-- How often the page is lent out. -/
  locks : Nat
  deriving DecidableEq

namespace Properties

/-- Those of memory that has no use. -/
def free : Properties :=
  ⟨.free, .empty, .empty, 0⟩

variable (properties : Properties)

/-- Gives the page another use; who has lent it stays recorded. -/
def assign (state : MemoryState) (permission : KernelPermission) (attributes : Attributes) :
    Properties :=
  { properties with state, permission, attributes }

/-- The number of values of a lock count. -/
def lockLimit : Nat := 0x10000

/-- Lends the page out once more. -/
def lock (permission : KernelPermission) : Checked Properties := do
  let locks ← below lockLimit (properties.locks + 1)
  return { properties with locks, permission, attributes := properties.attributes ||| .locked }

/-- Takes the page back once. The mark goes with the last lock. -/
def unlock (permission : KernelPermission) : Checked Properties :=
  match properties.locks with
  | 0 => .error .notLocked
  | locks + 1 =>
    let attributes :=
      if locks = 0 then properties.attributes.without .locked else properties.attributes
    .ok { properties with locks, permission, attributes }

/-- Changes the permission on request of the process. -/
def reprotect (permission : KernelPermission) : Properties :=
  { properties with state := properties.state.afterReprotect permission, permission }

end Properties

/-- What a guest is told about the block that holds an address. -/
structure MemoryInfo where
  base : Nat
  size : Nat
  state : MemoryState
  permission : UserPermission
  attributes : Attributes
  locks : Nat
  deriving DecidableEq

/-- The `pages` pages from `start` on, all with the same properties. -/
structure Block where
  start : Nat
  pages : Nat
  properties : Properties
  deriving DecidableEq

namespace Block

variable (block : Block)

def size : Nat :=
  block.pages * pageSize

def stop : Nat :=
  block.start + block.size

def checkedSize : Checked Nat :=
  word block.size

def checkedStop : Checked Nat :=
  word block.stop

def last : Checked Nat := do
  let stop ← block.checkedStop
  difference stop 1

def state : MemoryState := block.properties.state
def permission : KernelPermission := block.properties.permission
def attributes : Attributes := block.properties.attributes
def locks : Nat := block.properties.locks

/-- The blocks may be one when they meet. -/
def sameProperties (other : Block) : Bool :=
  block.properties = other.properties

/-- The block as a guest sees it. Rights that a guest cannot ask for look like none. -/
def info : Checked MemoryInfo := do
  let size ← block.checkedSize
  return {
    base := block.start
    size
    state := block.state
    permission := block.permission.toUser?.getD .none
    attributes := block.attributes
    locks := block.locks }

def text : String :=
  s!"  [{wideHex block.start}, {wideHex block.stop}) {block.state.name} " ++
    s!"{block.permission.text} {block.attributes.text} locks={block.locks}"

end Block

end GuestMemory
