import GuestMemory.NamedBits

/-!
What a page of guest memory is used for, and what each use permits.
-/

namespace GuestMemory

/-- The uses of guest memory. `free` is the absence of one. -/
inductive MemoryState where
  | free
  | code
  | codeData
  | normal
  | heap
  | shared
  | aliasCode
  | aliasCodeData
  | stack
  | sharedCode
  deriving DecidableEq

/-- A set of things that a use of memory permits. -/
structure StateFlags where
  bits : UInt32
  deriving DecidableEq

namespace StateFlags

instance : OrOp StateFlags := ⟨fun left right => ⟨left.bits ||| right.bits⟩⟩

def contains (flags other : StateFlags) : Bool :=
  flags.bits &&& other.bits == other.bits

def empty : StateFlags := ⟨0⟩

/-- The set of the one flag at a position. -/
def single (position : Nat) : StateFlags := ⟨.ofNat (1 <<< position)⟩

/-- The owner may change the permission of the memory. -/
def canReprotect : StateFlags := single 8
def canUseIpc : StateFlags := single 10

/-- The memory has frames behind it. -/
def mapped : StateFlags := single 13

/-- The memory holds instructions. -/
def code : StateFlags := single 14
def canAlias : StateFlags := single 15

/-- The memory is a code alias, and may be taken away again as one. -/
def canCodeAlias : StateFlags := single 16
def referenceCounted : StateFlags := single 22

/-- Another process may map the memory. -/
def canMapProcess : StateFlags := single 23
def canChangeAttribute : StateFlags := single 24
def canCodeMemory : StateFlags := single 25

/-- What all writable data permits. -/
def data : StateFlags :=
  canReprotect ||| canUseIpc ||| mapped ||| canAlias ||| referenceCounted ||| canChangeAttribute

/-- What all instructions permit. -/
def instructions : StateFlags :=
  canUseIpc ||| mapped ||| code ||| referenceCounted

def names : BitNames := [
  (8, "CAN_REPROTECT"),
  (10, "CAN_USE_IPC"),
  (13, "MAPPED"),
  (14, "CODE"),
  (15, "CAN_ALIAS"),
  (16, "CAN_CODE_ALIAS"),
  (22, "REFERENCE_COUNTED"),
  (23, "CAN_MAP_PROCESS"),
  (24, "CAN_CHANGE_ATTRIBUTE"),
  (25, "CAN_CODE_MEMORY")]

def text (flags : StateFlags) : String :=
  names.text "MemoryStateFlags" flags.bits.toNat

end StateFlags

namespace MemoryState

def all : List MemoryState :=
  [free, code, codeData, normal, heap, shared, aliasCode, aliasCodeData, stack, sharedCode]

theorem mem_all (state : MemoryState) : state ∈ all := by
  cases state <;> decide

def value : MemoryState → Nat
  | free => 0
  | code => 3
  | codeData => 4
  | normal => 5
  | heap => 6
  | shared => 7
  | aliasCode => 8
  | aliasCodeData => 9
  | stack => 11
  | sharedCode => 15

def name : MemoryState → String
  | free => "Free"
  | code => "Code"
  | codeData => "CodeData"
  | normal => "Normal"
  | heap => "Heap"
  | shared => "Shared"
  | aliasCode => "AliasCode"
  | aliasCodeData => "AliasCodeData"
  | stack => "Stack"
  | sharedCode => "SharedCode"

open StateFlags in
/-- What memory in this state permits. -/
def flags : MemoryState → StateFlags
  | free => .empty
  | code => instructions ||| canMapProcess
  | codeData => data ||| canMapProcess ||| canCodeMemory
  | normal => data ||| canMapProcess ||| canCodeMemory
  | heap => data
  | shared => mapped ||| referenceCounted
  | aliasCode => instructions ||| canMapProcess ||| canCodeAlias
  | aliasCodeData => data ||| canMapProcess ||| canCodeAlias ||| canCodeMemory
  | stack => mapped ||| canUseIpc ||| referenceCounted ||| canChangeAttribute
  | sharedCode => mapped ||| referenceCounted ||| canUseIpc

/-- Memory in this state permits everything in `wanted`. -/
def has (state : MemoryState) (wanted : StateFlags) : Bool :=
  state.flags.contains wanted

/-- A process may ask for another permission on memory in this state. -/
def isReprotectable : MemoryState → Bool
  | code | codeData | normal | aliasCode | aliasCodeData => true
  | free | heap | shared | stack | sharedCode => false

end MemoryState

end GuestMemory
