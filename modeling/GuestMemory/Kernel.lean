import GuestMemory.AddressSpace
import GuestMemory.HandleTable

/-!
Kernels: the guest processes, each with an address space and a table of handles, and the resources
that all of them share.
-/

namespace GuestMemory

/-- What a process can open. -/
inductive KernelObject where
  /-- The process at a position in the kernel's list. -/
  | process (index : Nat)
  /-- An object that is no process. No call does anything with it. -/
  | other (number : Nat)
  deriving DecidableEq

def KernelObject.process? : KernelObject → Option Nat
  | process index => some index
  | other _ => none

/-- The process that a handle names, if it names one. -/
def HandleTable.process? (table : HandleTable KernelObject) (handle : Handle) : Option Nat :=
  table.getAs? KernelObject.process? handle

structure Process where
  space : AddressSpace
  handles : HandleTable KernelObject
  deriving DecidableEq

/-- What is chosen when a kernel is created. -/
structure Config where
  descriptorCapacity : Nat := 4096
  frameBase : Nat := 0x80000000
  framePages : Nat := 0x10000
  handleCapacity : Nat := 1024
  /-- The layout of processes that ask for no other. -/
  layout : Layout := {}
  /-- What the instruction cache is told when a code alias goes away. -/
  invalidation : InvalidationStrategy := .all
  deriving DecidableEq

/-- All guest processes, in the order of their creation, and what they share. -/
structure Kernel where
  config : Config
  processes : List Process
  resources : Resources
  deriving DecidableEq

namespace Process

/-- The number by which a process is known: that of its address space. -/
def id (process : Process) : Nat :=
  process.space.id

def text (process : Process) : String :=
  s!"Process \x7b id: {process.id}, page_table: {process.space.text}, .. \x7d"

end Process

namespace Kernel

def create (config : Config) (cache : InstructionCache) : Checked Kernel := do
  let frames ← FramePool.create config.frameBase config.framePages
  return ⟨config, [], ⟨.ofCapacity config.descriptorCapacity, frames, cache⟩⟩

def nextId (kernel : Kernel) : Nat :=
  kernel.processes.length + 1

/-- What the creation of the next process leaves in the log. -/
def creationRecord (kernel : Kernel) : Record :=
  ⟨.debug, s!"created process {kernel.nextId}"⟩

/-- Creates a process with an empty address space. Answers its position in the list. -/
def createProcess (layout : Layout) : Action Kernel Nat := fun kernel =>
  match HandleTable.create kernel.config.handleCapacity with
  | .error fault => .fault fault
  | .ok handles =>
    let process : Process := ⟨.create kernel.nextId layout, handles⟩
    .done kernel.processes.length { kernel with processes := kernel.processes ++ [process] }

def process (index : Nat) : Action Kernel Process :=
  .inspect fun kernel =>
    match kernel.processes[index]? with
    | some process => .ok process
    | none => .error .processMissing

/-- Puts another process in place of the one at a position. -/
def setProcess (kernel : Kernel) (index : Nat) (process : Process) : Kernel :=
  { kernel with processes := kernel.processes.set index process }

/-- Acts on the address space of the process at a position. -/
def onSpace {α : Type} (index : Nat) (action : SpaceAction α) : Action Kernel α := do
  let process ← Kernel.process index
  action.focus (fun kernel => ⟨process.space, kernel.resources⟩) fun kernel attached =>
    { kernel.setProcess index { process with space := attached.space } with
      resources := attached.resources }

def onHandles {α : Type} (index : Nat) (action : Action (HandleTable KernelObject) α) :
    Action Kernel α := do
  let process ← Kernel.process index
  action.focus (fun _ => process.handles) fun kernel handles =>
    kernel.setProcess index { process with handles }

def openHandle (index : Nat) (object : KernelObject) : Action Kernel Handle :=
  onHandles index (HandleTable.add object)

/-- Closes a handle of the process at a position; false if it named nothing. -/
def closeHandle (index : Nat) (handle : Handle) : Action Kernel Bool :=
  onHandles index fun table =>
    let (closed, table) := table.remove handle
    .done closed table

/-- The process that a handle of the current process names; the handle that stands for the caller
is none of them. -/
def resolveHandle (current : Nat) (handle : Handle) : Action Kernel (Option Nat) := do
  let process ← Kernel.process current
  return process.handles.process? handle

/-- The process that a handle of the current process names, or the current process itself. -/
def resolve (current : Nat) (handle : Handle) : Action Kernel (Option Nat) :=
  if handle = .currentProcess then
    pure (some current)
  else
    resolveHandle current handle

def changeResources (change : Resources → Checked Resources) (kernel : Kernel) :
    Checked Kernel := do
  let resources ← change kernel.resources
  return { kernel with resources }

end Kernel

end GuestMemory
