import GuestMemory.AddressSpace.CodeAlias
import GuestMemory.AddressSpace.Pages
import GuestMemory.Call
import GuestMemory.Kernel.Sharing

/-!
Performing the calls: each looks at its arguments in a fixed order and is turned down for the first
that is wrong, before anything changes.
-/

namespace GuestMemory.Kernel

/-- The range does not pass the last address. -/
def rangeFits (address size : Nat) : Bool :=
  address + size < wordLimit

def setPermission (current : Nat) (handle : Handle) (address size permission : Nat) :
    Action Kernel Commit := do
  .require (isPageAligned address) (.plain .invalidAddress)
  .require (isPageAligned size && size ≠ 0) (.plain .invalidSize)
  .require (rangeFits address size) (.plain .invalidCurrentMemory)
  let permission ← .expect (UserPermission.ofRaw? permission)
    (.plain .invalidNewMemoryPermission)
  let target ← .expect (← resolve current handle) (.plain .invalidHandle)
  onSpace target do
    AddressSpace.requireInside address size
    AddressSpace.setPermission address (size / pageSize) permission

/-- Looks at the arguments of a call about shared memory. Answers the process that holds the
source. -/
def checkMemoryArguments (current destination : Nat) (handle : Handle)
    (source size : Nat) : Action Kernel Nat := do
  .require (isPageAligned destination) (.plain .invalidAddress)
  .require (isPageAligned source) (.plain .invalidAddress)
  .require (isPageAligned size && size ≠ 0) (.plain .invalidSize)
  .require (rangeFits destination size) (.plain .invalidCurrentMemory)
  .require (rangeFits source size) (.plain .invalidCurrentMemory)
  let owner ← .expect (← resolveHandle current handle) (.plain .invalidHandle)
  onSpace owner (AddressSpace.requireInside source size)
  onSpace current (AddressSpace.requirePlace destination size .sharedCode .invalidMemoryRegion)
  return owner

def mapMemory (current destination : Nat) (handle : Handle) (source size : Nat) :
    Action Kernel Commit := do
  let owner ← checkMemoryArguments current destination handle source size
  mapShared ⟨current, destination⟩ ⟨owner, source⟩ (size / pageSize)

def unmapMemory (current destination : Nat) (handle : Handle) (source size : Nat) :
    Action Kernel Commit := do
  let owner ← checkMemoryArguments current destination handle source size
  unmapShared ⟨current, destination⟩ ⟨owner, source⟩ size

/-- Turns a request about code memory down unless an address is the first of a page. -/
def requireAligned (request : CodeRequest) (role : RangeRole) (address : Nat) :
    Action Kernel Unit :=
  .require (isPageAligned address) (.codeArguments request (.unaligned role address))

/-- Looks at the alignment of both addresses, first at that of the range which the request is to
take something from. -/
def requireBothAligned (request : CodeRequest) (destination source : Nat) : Action Kernel Unit :=
  match request with
  | .map => do
    requireAligned request .source source
    requireAligned request .destination destination
  | .unmap => do
    requireAligned request .destination destination
    requireAligned request .source source

/-- Looks at the arguments of a request about code memory. Answers the process that it is about. -/
def checkCodeArguments (request : CodeRequest) (current : Nat) (handle : Handle)
    (destination source size : Nat) : Action Kernel Nat := do
  let problem := Refusal.codeArguments request
  requireBothAligned request destination source
  .require (isPageAligned size && size ≠ 0) (problem (.badSize size))
  .require (rangeFits destination size) (problem (.overflows .destination destination size))
  .require (rangeFits source size) (problem (.overflows .source source size))
  let target ← .expect (← resolve current handle) (problem (.unknownHandle handle))
  let process ← Kernel.process target
  let inside ← .check (process.space.layout.contains source size)
  .require inside (problem (.sourceOutside source size))
  let inside ← .check (process.space.layout.inAliasCode destination size)
  .require inside (problem (.destinationOutside destination size))
  return target

def mapCode (current : Nat) (handle : Handle) (destination source size : Nat) :
    Action Kernel Commit := do
  let target ← checkCodeArguments .map current handle destination source size
  onSpace target (AddressSpace.mapCode destination source size)

def unmapCode (current : Nat) (handle : Handle) (destination source size : Nat) :
    Action Kernel Commit := do
  let target ← checkCodeArguments .unmap current handle destination source size
  let config ← .read (·.config)
  onSpace target (AddressSpace.unmapCode destination source size config.invalidation)

def perform (current : Nat) : Call → Action Kernel Commit
  | .setPermission handle address size permission =>
    setPermission current handle address.toNat size.toNat permission.toNat
  | .mapMemory destination handle source size =>
    mapMemory current destination.toNat handle source.toNat size.toNat
  | .unmapMemory destination handle source size =>
    unmapMemory current destination.toNat handle source.toNat size.toNat
  | .mapCode handle destination source size =>
    mapCode current handle destination.toNat source.toNat size.toNat
  | .unmapCode handle destination source size =>
    unmapCode current handle destination.toNat source.toNat size.toNat

end GuestMemory.Kernel
