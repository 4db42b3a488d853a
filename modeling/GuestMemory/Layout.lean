import GuestMemory.Region

/-!
Layouts: the fixed regions of an address space, and where memory in each state may be placed.
-/

namespace GuestMemory

/-- The regions of an address space, by default those of one with 39 bits. -/
structure Layout where
  /-- Every address that a process may ever map. -/
  addressSpace : Region := ⟨0x8000000, 0x7FF8000000⟩
  /-- Where the process's own instructions and data are loaded. -/
  code : Region := ⟨0x8000000, 0x40000000⟩
  /-- Where code aliases and the memory of other processes go. -/
  aliasCode : Region := ⟨0x8000000, 0xFF8000000⟩
  heap : Region := ⟨0x1000000000, 0x200000000⟩
  /-- Where memory lent through messages appears. -/
  ipcAlias : Region := ⟨0x2000000000, 0x1000000000⟩
  stack : Region := ⟨0x3000000000, 0x80000000⟩
  deriving DecidableEq

namespace Layout

variable (layout : Layout) (address size : Nat)

def contains : Checked Bool :=
  layout.addressSpace.contains address size

/-- The nonempty range lies inside the region of code aliases, whose addresses are chosen at
random. -/
def inAliasCode : Checked Bool :=
  layout.aliasCode.contains address size

/-- The region that memory in this state is placed in. -/
def regionFor : MemoryState → Region
  | .free => layout.addressSpace
  | .normal | .heap => layout.heap
  | .code | .codeData => layout.code
  | .stack => layout.stack
  | .shared | .aliasCode | .aliasCodeData | .sharedCode => layout.aliasCode

/-- Memory in this state may be placed on the range: it lies inside the region of the state and,
unless it is free, touches neither the alias region nor, unless it is heap, the heap. -/
def canContain (state : MemoryState) : Checked Bool := do
  let inRegion ← (layout.regionFor state).contains address size
  let inHeap ← layout.heap.overlaps address size
  let inAlias ← layout.ipcAlias.overlaps address size
  return match state with
    | .free => inRegion
    | .normal | .heap => inRegion && !inAlias
    | _ => inRegion && !inHeap && !inAlias

def text : String :=
  let fields := ", ".intercalate [
    "address_space: " ++ layout.addressSpace.text,
    "code: " ++ layout.code.text,
    "alias_code: " ++ layout.aliasCode.text,
    "heap: " ++ layout.heap.text,
    "alias: " ++ layout.ipcAlias.text,
    "stack: " ++ layout.stack.text]
  s!"AddressSpaceLayout \x7b {fields} \x7d"

end Layout

end GuestMemory
