import GuestMemory.Word

/-!
Addresses and the pages and frames they lie in. An address is a natural number below the word
limit, virtual or physical by what it is an address of. The number of its page of virtual memory,
or of its frame of physical memory, is the address without the twelve low bits.
-/

namespace GuestMemory

/-- The bytes of a page. -/
def pageSize : Nat := 4096

def isPageAligned (address : Nat) : Bool :=
  address % pageSize = 0

def isPowerOfTwo (value : Nat) : Bool :=
  value != 0 && value &&& (value - 1) == 0

def isAligned (address alignment : Nat) : Checked Bool :=
  if isPowerOfTwo alignment then .ok (address % alignment = 0) else .error .alignmentNotPowerOfTwo

/-- The largest multiple of `alignment` that is not past the address. -/
def alignDown (address alignment : Nat) : Checked Nat :=
  if isPowerOfTwo alignment then
    .ok (address - address % alignment)
  else
    .error .alignmentNotPowerOfTwo

/-- The page or frame that holds the address. -/
def pageOf (address : Nat) : Nat :=
  address / pageSize

/-- The first address of a page or frame. The address space is a ring here: the bits that leave
the word are lost. -/
def pageStart (number : Nat) : Nat :=
  number * pageSize % wordLimit

def virtualText (address : Nat) : String :=
  s!"VirtualAddress({hex address})"

def physicalText (address : Nat) : String :=
  s!"PhysicalAddress({hex address})"

def pageText (page : Nat) : String :=
  s!"PageNumber({hex page})"

def frameText (frame : Nat) : String :=
  s!"FrameNumber({hex frame})"

end GuestMemory
