import GuestMemory.DescriptorPool
import GuestMemory.FramePool
import GuestMemory.InstructionCache

/-!
Page groups: lists of frames kept as runs in the descriptor pool. A group can hold references to
its frames; it gives them up, and its descriptors, when it is discarded.
-/

namespace GuestMemory

/-- What all address spaces share. -/
structure Resources where
  descriptors : DescriptorPool
  frames : FramePool
  cache : InstructionCache
  deriving DecidableEq

/-- A list of frames. -/
structure PageGroup where
  /-- The descriptors of the runs, in order. -/
  descriptors : List Nat
  /-- How many references the group holds on each of its frames. -/
  holds : Nat
  deriving DecidableEq

namespace PageGroup

def empty : PageGroup := ⟨[], 0⟩

/-- The number of values of a hold count. -/
def holdLimit : Nat := 0x100000000

variable (group : PageGroup)

def runs (pool : DescriptorPool) : Checked (List Run) :=
  group.descriptors.mapM pool.get

def pages (pool : DescriptorPool) : Checked Nat := do
  let runs ← group.runs pool
  wordSum (runs.map (·.pages))

/-- Adds a run in a descriptor of its own. -/
def addDescriptor (run : Run) : Action DescriptorPool PageGroup := do
  let id ← DescriptorPool.allocate run
  return { group with descriptors := group.descriptors ++ [id] }

/-- Adds a run at the end. A run that follows the last one makes that longer and takes no
descriptor; one without frames adds nothing. -/
def add (run : Run) : Action DescriptorPool PageGroup :=
  if group.holds ≠ 0 then
    .check (.error .groupGrownWhileHeld)
  else if run.pages = 0 then
    pure group
  else
    match group.descriptors.getLast? with
    | none => group.addDescriptor run
    | some id => do
      let last ← .inspect (·.get id)
      if ← .check (last.isFollowedBy run.address) then
        let last ← .check (last.extend run.pages)
        .update (·.set id last)
        return group
      else
        group.addDescriptor run

/-- Frees the descriptors of the group. -/
def releaseDescriptors (pool : DescriptorPool) : Checked DescriptorPool :=
  group.descriptors.foldlM DescriptorPool.release pool

/-- Adds runs one after another. When the descriptors run out, those that the group has are freed
again. -/
def addAll (group : PageGroup) : List Run → Action DescriptorPool PageGroup
  | [] => pure group
  | run :: rest => do
    let group ← (group.add run).onRefusal group.releaseDescriptors
    addAll group rest

def ofRuns (runs : List Run) : Action DescriptorPool PageGroup :=
  empty.addAll runs

/-- Adds a reference to every frame of the group. -/
def retain (resources : Resources) : Checked (PageGroup × Resources) := do
  let runs ← group.runs resources.descriptors
  let frames ← resources.frames.retainAll runs
  let holds ← below holdLimit (group.holds + 1)
  return ({ group with holds }, { resources with frames })

/-- Drops the references that were added last. -/
def release (resources : Resources) : Checked (PageGroup × Resources) :=
  match group.holds with
  | 0 => .error .groupNotHeld
  | holds + 1 => do
    let runs ← group.runs resources.descriptors
    let frames ← resources.frames.releaseAll runs
    return ({ group with holds }, { resources with frames })

/-- Drops the references of the group `holds` times over. -/
def releaseHolds (runs : List Run) : (holds : Nat) → FramePool → Checked FramePool
  | 0, frames => .ok frames
  | holds + 1, frames => do
    let frames ← frames.releaseAll runs
    releaseHolds runs holds frames

/-- Gives up all references of the group, then its descriptors. -/
def discard (resources : Resources) : Checked Resources := do
  let runs ← group.runs resources.descriptors
  let frames ← releaseHolds runs group.holds resources.frames
  let descriptors ← group.releaseDescriptors resources.descriptors
  return { resources with frames, descriptors }

def text (pool : DescriptorPool) : Checked String := do
  let runs ← group.runs pool
  let items := ", ".intercalate (runs.map (·.text))
  return s!"PageGroup \x7b blocks: [{items}], open_count: {group.holds} \x7d"

end PageGroup

end GuestMemory
