import GuestMemory.Hexadecimal

/-!
The errors a guest can be answered with, and the result codes that carry them.
-/

namespace GuestMemory

/-- Why a request was turned down. -/
inductive Error where
  | invalidSize
  | invalidAddress
  | outOfResource
  | outOfMemory
  | outOfHandles
  | invalidCurrentMemory
  | invalidNewMemoryPermission
  | invalidMemoryRegion
  | invalidHandle
  deriving DecidableEq

/-- The number a guest receives for an answer; zero stands for success. -/
structure ResultCode where
  raw : Nat
  deriving DecidableEq

namespace ResultCode

def success : ResultCode := ⟨0⟩

/-- The code of an error: nine bits tell the module that reports it, the thirteen above them
what went wrong. -/
def ofParts (moduleNumber description : Nat) : ResultCode :=
  ⟨moduleNumber % 0x200 + description % 0x2000 * 0x200⟩

def isSuccess (code : ResultCode) : Bool :=
  code.raw = 0

def text (code : ResultCode) : String :=
  s!"ResultCode({hex code.raw})"

end ResultCode

namespace Error

def all : List Error := [
  invalidSize,
  invalidAddress,
  outOfResource,
  outOfMemory,
  outOfHandles,
  invalidCurrentMemory,
  invalidNewMemoryPermission,
  invalidMemoryRegion,
  invalidHandle]

def description : Error → Nat
  | invalidSize => 101
  | invalidAddress => 102
  | outOfResource => 103
  | outOfMemory => 104
  | outOfHandles => 105
  | invalidCurrentMemory => 106
  | invalidNewMemoryPermission => 108
  | invalidMemoryRegion => 110
  | invalidHandle => 114

/-- The module that reports all memory errors. -/
def moduleNumber : Nat := 1

def code (error : Error) : ResultCode :=
  .ofParts moduleNumber error.description

def message : Error → String
  | invalidSize => "invalid size"
  | invalidAddress => "invalid address"
  | outOfResource => "out of block info resources"
  | outOfMemory => "out of physical memory"
  | outOfHandles => "out of handles"
  | invalidCurrentMemory => "invalid current memory"
  | invalidNewMemoryPermission => "invalid new memory permission"
  | invalidMemoryRegion => "invalid memory region"
  | invalidHandle => "invalid handle"

def name : Error → String
  | invalidSize => "InvalidSize"
  | invalidAddress => "InvalidAddress"
  | outOfResource => "OutOfResource"
  | outOfMemory => "OutOfMemory"
  | outOfHandles => "OutOfHandles"
  | invalidCurrentMemory => "InvalidCurrentMemory"
  | invalidNewMemoryPermission => "InvalidNewMemoryPermission"
  | invalidMemoryRegion => "InvalidMemoryRegion"
  | invalidHandle => "InvalidHandle"

end Error

end GuestMemory
