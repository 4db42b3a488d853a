import GuestMemory.Action
import GuestMemory.Run
import Std.Data.ExtTreeMap

/-!
The pool of descriptors: a fixed number of nodes that hold one run of frames each, shared by all
page groups.
-/

namespace GuestMemory

def descriptorText (id : Nat) : String :=
  s!"BlockInfoId({id})"

/-- The nodes of the pool, by number: those in use with what they hold, and the free ones in the
order in which they are handed out. -/
structure DescriptorPool where
  capacity : Nat
  nodes : Std.ExtTreeMap Nat Run
  free : List Nat
  deriving DecidableEq

namespace DescriptorPool

/-- The number of nodes that can be numbered: by half words. -/
def idLimit : Nat := 0x100000000

/-- A pool with all nodes free. The lowest is handed out first. What the capacity has beyond a half
word is lost when the nodes are numbered. -/
def ofCapacity (capacity : Nat) : DescriptorPool :=
  ⟨capacity, ∅, List.range (capacity % idLimit)⟩

/-- How many nodes of the capacity are not free. -/
def inUse (pool : DescriptorPool) : Nat :=
  pool.capacity - pool.free.length

/-- Stores a run in a free node; the node freed last is taken first. -/
def allocate (run : Run) : Action DescriptorPool Nat := fun pool =>
  match pool.free with
  | [] => .refused (.descriptorsExhausted pool.capacity) pool
  | id :: free => .done id { pool with nodes := pool.nodes.insert id run, free }

def get (pool : DescriptorPool) (id : Nat) : Checked Run :=
  match pool.nodes[id]? with
  | none => .error .descriptorNotAllocated
  | some run => .ok run

/-- Stores another run in a node that is in use. -/
def set (pool : DescriptorPool) (id : Nat) (run : Run) : Checked DescriptorPool :=
  if pool.nodes.contains id then
    .ok { pool with nodes := pool.nodes.insert id run }
  else
    .error .descriptorNotAllocated

def release (pool : DescriptorPool) (id : Nat) : Checked DescriptorPool :=
  if pool.nodes.contains id then
    .ok { pool with nodes := pool.nodes.erase id, free := id :: pool.free }
  else
    .error .descriptorFreedTwice

end DescriptorPool

end GuestMemory
