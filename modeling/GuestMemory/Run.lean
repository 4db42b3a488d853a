import GuestMemory.Address

/-!
Runs: consecutive frames of physical memory.
-/

namespace GuestMemory

/-- The `pages` frames from `address` on. -/
structure Run where
  address : Nat
  pages : Nat
  deriving DecidableEq

namespace Run

variable (run : Run)

def size : Nat :=
  run.pages * pageSize

def stop : Nat :=
  run.address + run.size

def checkedSize : Checked Nat :=
  word run.size

def checkedStop : Checked Nat :=
  word run.stop

def isFollowedBy (address : Nat) : Checked Bool := do
  let stop ← run.checkedStop
  return stop = address

/-- The run with more frames at its end. -/
def extend (pages : Nat) : Checked Run := do
  let pages ← word (run.pages + pages)
  return { run with pages }

def text : String :=
  s!"BlockInfo \x7b address: {physicalText run.address}, num_pages: {run.pages} \x7d"

def total : List Run → Nat
  | [] => 0
  | run :: rest => run.pages + total rest

/-- Puts a run on a stack of runs, as part of the top one where it follows that. Listed from the
bottom, the frames of the stack are those put on it, in their order. -/
def stack (added : Run) : List Run → Checked (List Run)
  | [] => .ok [added]
  | top :: lower => do
    if ← top.isFollowedBy added.address then
      let top ← top.extend added.pages
      return top :: lower
    else
      return added :: top :: lower

end Run

end GuestMemory
