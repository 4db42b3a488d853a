import GuestMemory.NamedBits

/-!
Attributes: marks on memory beside its state and permission.
-/

namespace GuestMemory

/-- A set of marks. Bits without a meaning are kept and compared like the others. -/
structure Attributes where
  bits : UInt8
  deriving DecidableEq

namespace Attributes

instance : OrOp Attributes := ⟨fun left right => ⟨left.bits ||| right.bits⟩⟩

instance : AndOp Attributes := ⟨fun left right => ⟨left.bits &&& right.bits⟩⟩

def empty : Attributes := ⟨0⟩

/-- The memory is lent out and may not change on its own. -/
def locked : Attributes := ⟨1⟩
def ipcLocked : Attributes := ⟨2⟩
def deviceShared : Attributes := ⟨4⟩
def uncached : Attributes := ⟨8⟩

def all : Attributes := locked ||| ipcLocked ||| deviceShared ||| uncached

def without (attributes other : Attributes) : Attributes :=
  ⟨attributes.bits &&& ~~~other.bits⟩

def names : BitNames := [
  (0, "LOCKED"),
  (1, "IPC_LOCKED"),
  (2, "DEVICE_SHARED"),
  (3, "UNCACHED")]

def text (attributes : Attributes) : String :=
  names.text "MemoryAttribute" attributes.bits.toNat

end Attributes

end GuestMemory
