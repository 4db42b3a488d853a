import GuestMemory.MemoryState
import GuestMemory.Record

/-!
Faults: the ways in which an operation stops for good because its caller broke a promise or a
number left its width. A fault leaves no state behind; a refused request does.
-/

namespace GuestMemory

/-- Why an operation stopped for good. -/
inductive Fault where
  | overflow
  | alignmentNotPowerOfTwo
  | outsideRegion
  | notLocked
  | poolBaseUnaligned
  | retainedFreeFrame
  | releasedFreeFrame
  | virtualUnaligned
  | physicalUnaligned
  | pageMappedTwice (page : Nat)
  | descriptorNotAllocated
  | descriptorFreedTwice
  | groupGrownWhileHeld
  | groupNotHeld
  | stateNotMapped (state : MemoryState)
  | handleTableTooLarge (capacity : Nat)
  | processMissing
  /-- A listing met a block that ends past the last address, after writing `written`. -/
  | listingOverflow (written : List Record)
  deriving DecidableEq

namespace Fault

def message : Fault → String
  | overflow => "arithmetic overflow"
  | alignmentNotPowerOfTwo => "alignment must be a power of two"
  | outsideRegion => "update outside the managed region"
  | notLocked => "unlocking a block that is not locked"
  | poolBaseUnaligned => "frame pool base must be page-aligned"
  | retainedFreeFrame => "opened a frame that is not allocated"
  | releasedFreeFrame => "closed a frame that is not allocated"
  | virtualUnaligned => "virtual address must be page-aligned"
  | physicalUnaligned => "physical address must be page-aligned"
  | pageMappedTwice page => s!"page PageNumber({hex page}) mapped twice"
  | descriptorNotAllocated => "block info node is not allocated"
  | descriptorFreedTwice => "block info node freed twice"
  | groupGrownWhileHeld => "cannot grow an open page group"
  | groupNotHeld => "closed a page group that is not open"
  | stateNotMapped state => s!"map_pages requires a mapped state, got {state.name}"
  | handleTableTooLarge capacity => s!"handle table capacity {capacity} too large"
  | processMissing => "no such process"
  | listingOverflow _ => "arithmetic overflow"

/-- What was logged on the way into the fault. -/
def records : Fault → List Record
  | listingOverflow written => written
  | _ => []

end Fault

/-- A computation that a fault may stop. -/
abbrev Checked (α : Type) := Except Fault α

end GuestMemory
