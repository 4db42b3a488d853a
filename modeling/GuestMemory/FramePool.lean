import GuestMemory.Action
import GuestMemory.Run
import Std.Data.ExtTreeMap

/-!
The pool of frames: guest physical memory, handed out in runs and counted by reference. A frame
that loses its last reference is free again.
-/

namespace GuestMemory

/-- How often each allocated frame is referred to. -/
abbrev References := Std.ExtTreeMap Nat Nat

namespace References

/-- The number of values of a reference count. -/
def limit : Nat := 0x100000000

/-- Gives each of the `count` frames from `frame` on its first reference. -/
def start : (count : Nat) → Nat → References → References
  | 0, _, references => references
  | count + 1, frame, references => start count (frame + 1) (references.insert frame 1)

def retain : (count : Nat) → Nat → References → Checked References
  | 0, _, references => .ok references
  | count + 1, frame, references =>
    match references[frame]? with
    | none => .error .retainedFreeFrame
    | some held => do
      let more ← below limit (held + 1)
      retain count (frame + 1) (references.insert frame more)

end References

/-- The frames of guest physical memory. -/
structure FramePool where
  base : Nat
  total : Nat
  /-- The free runs by rising address; none follows another directly. -/
  free : List Run
  references : References
  deriving DecidableEq

namespace FramePool

/-- The pool of the `total` frames from `base` on, all free. -/
def create (base : Nat) (total : Nat) : Checked FramePool :=
  if isPageAligned base then
    .ok ⟨base, total, if total = 0 then [] else [⟨base, total⟩], ∅⟩
  else
    .error .poolBaseUnaligned

variable (pool : FramePool)

def freePages : Nat :=
  Run.total pool.free

/-- The references to the frame that holds the address. -/
def referenceCount (address : Nat) : Nat :=
  pool.references[pageOf address]?.getD 0

/-- Cuts `pages` frames off the first free run that has as many. -/
def takeFirstFit (pages : Nat) : List Run → Checked (Option (Nat × List Run))
  | [] => .ok none
  | run :: rest =>
    if run.pages < pages then do
      let taken ← takeFirstFit pages rest
      return taken.map fun (address, rest) => (address, run :: rest)
    else if run.pages = pages then
      .ok (some (run.address, rest))
    else do
      let address ← word (run.address + pages * pageSize)
      return some (run.address, ⟨address, run.pages - pages⟩ :: rest)

/-- Hands out the lowest free run of `pages` frames, with one reference to each. -/
def allocate (pages : Nat) : Action FramePool Nat := fun pool =>
  if pages = 0 then
    .refused (.plain .outOfMemory) pool
  else
    match takeFirstFit pages pool.free with
    | .error fault => .fault fault
    | .ok none => .refused (.framesExhausted pages) pool
    | .ok (some (address, free)) =>
      let references := pool.references.start pages (pageOf address)
      .done address { pool with free, references }

/-- Adds a reference to every frame of the run. -/
def retain (run : Run) : Checked FramePool := do
  let references ← pool.references.retain run.pages (pageOf run.address)
  return { pool with references }

/-- Takes up the first of the later free runs where it follows the given one. -/
def joinNext (run : Run) : List Run → Checked (Run × List Run)
  | [] => .ok (run, [])
  | next :: rest => do
    if ← run.isFollowedBy next.address then
      let run ← run.extend next.pages
      return (run, rest)
    else
      return (run, next :: rest)

/-- Returns a run to the free ones, as part of its neighbours where it touches them. -/
def giveBack (run : Run) (free : List Run) : Checked (List Run) := do
  let before := free.takeWhile (·.address < run.address)
  let (run, after) ← joinNext run (free.dropWhile (·.address < run.address))
  let upTo ← run.stack before.reverse
  return upTo.reverse ++ after

/-- Drops a reference to one frame, which is free again with the last. -/
def releaseFrame (frame : Nat) : Checked FramePool :=
  match pool.references[frame]? with
  | none => .error .releasedFreeFrame
  | some held => do
    let left ← difference held 1
    if left = 0 then
      let free ← giveBack ⟨pageStart frame, 1⟩ pool.free
      return { pool with free, references := pool.references.erase frame }
    else
      return { pool with references := pool.references.insert frame left }

/-- Drops a reference to each of the `count` frames from `frame` on. -/
def releaseFrames : (count : Nat) → Nat → FramePool → Checked FramePool
  | 0, _, pool => .ok pool
  | count + 1, frame, pool => do
    let pool ← pool.releaseFrame frame
    releaseFrames count (frame + 1) pool

def release (run : Run) : Checked FramePool :=
  pool.releaseFrames run.pages (pageOf run.address)

def retainAll (runs : List Run) : Checked FramePool :=
  runs.foldlM retain pool

def releaseAll (runs : List Run) : Checked FramePool :=
  runs.foldlM release pool

/-- The address of a frame of the pool, counted from its base. A pool that passes the last address
goes on at the first. -/
def frameStart (index : Nat) : Nat :=
  pageStart (pageOf pool.base + index)

/-- Adds a frame and its references to a stack of groups of adjacent frames with the same number of
them. A group is the index of its first frame, the number of its frames and their references. -/
def gather (groups : List (Nat × Nat × Nat)) (index : Nat) (held : Nat) : List (Nat × Nat × Nat) :=
  match groups with
  | (first, count, shared) :: lower =>
    if first + count = index && shared = held then
      (first, count + 1, shared) :: lower
    else
      (index, 1, held) :: groups
  | [] => [(index, 1, held)]

/-- The allocated frames of the pool, in its order, in maximal runs of adjacent frames with the same
number of references, which stands beside each run. -/
def referenceRuns : List (Run × Nat) :=
  let groups := (List.range pool.total).foldl
    (fun groups index =>
      let held := pool.referenceCount (pool.frameStart index)
      if held = 0 then groups else gather groups index held)
    []
  groups.reverse.map fun (first, count, held) => (⟨pool.frameStart first, count⟩, held)

end FramePool

end GuestMemory
