import GuestMemory.Hexadecimal

/-!
Handles: the 32-bit names by which a process refers to what it has opened. The low fifteen bits
are the index of a slot, the rest is the generation of what the slot holds.
-/

namespace GuestMemory

structure Handle where
  raw : UInt32
  deriving DecidableEq

namespace Handle

/-- The number of slots that a handle can tell apart. -/
def indexLimit : Nat := 0x8000

/-- The last generation. Generations have fifteen bits, so that the topmost bit tells real
handles from those that stand for the caller. -/
def lastGeneration : Nat := 0x7FFF

/-- Names nothing. -/
def invalid : Handle := ⟨0⟩

/-- Stands for the calling thread. -/
def currentThread : Handle := ⟨0xFFFF8000⟩

/-- Stands for the calling process. -/
def currentProcess : Handle := ⟨0xFFFF8001⟩

/-- The handle stands for the caller, and for no slot. -/
def isPseudo (handle : Handle) : Bool :=
  handle = currentThread || handle = currentProcess

def ofParts (index generation : Nat) : Handle :=
  ⟨.ofNat (generation * indexLimit + index)⟩

def index (handle : Handle) : Nat :=
  handle.raw.toNat % indexLimit

def generation (handle : Handle) : Nat :=
  handle.raw.toNat / indexLimit

def text (handle : Handle) : String :=
  s!"Handle({hex handle.raw.toNat})"

end Handle

end GuestMemory
