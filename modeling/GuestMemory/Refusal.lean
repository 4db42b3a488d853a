import GuestMemory.Check
import GuestMemory.Error
import GuestMemory.Handle

/-!
Refusals: the causes for which a request is turned down. Each cause stands for one error code,
and some leave a record in the log.
-/

namespace GuestMemory

/-- The two ranges of a request that names both. -/
inductive RangeRole where
  | source
  | destination
  deriving DecidableEq

/-- What is wrong with the arguments of a request about code memory. -/
inductive CodeArgumentProblem where
  | unaligned (role : RangeRole) (address : Nat)
  | badSize (size : Nat)
  | overflows (role : RangeRole) (address size : Nat)
  | unknownHandle (handle : Handle)
  | sourceOutside (address size : Nat)
  | destinationOutside (address size : Nat)
  deriving DecidableEq

/-- The two requests about code memory. -/
inductive CodeRequest where
  | map
  | unmap
  deriving DecidableEq

/-- Why a request was turned down. -/
inductive Refusal where
  /-- A requirement failed that nothing but its error is known of. -/
  | plain (error : Error)
  /-- A block of the address space failed a check. -/
  | failedCheck (space : Nat) (block : Block) (check : Check)
  | descriptorsExhausted (capacity : Nat)
  | framesExhausted (pages : Nat)
  | handlesExhausted (capacity : Nat)
  | codeArguments (request : CodeRequest) (problem : CodeArgumentProblem)
  deriving DecidableEq

namespace RangeRole

def name : RangeRole → String
  | source => "source"
  | destination => "destination"

def field : RangeRole → String
  | source => "src_address"
  | destination => "dst_address"

end RangeRole

def CodeRequest.name : CodeRequest → String
  | map => "map_process_code_memory"
  | unmap => "unmap_process_code_memory"

namespace CodeArgumentProblem

def error : CodeArgumentProblem → Error
  | unaligned _ _ => .invalidAddress
  | badSize _ => .invalidSize
  | overflows _ _ _ => .invalidCurrentMemory
  | unknownHandle _ => .invalidHandle
  | sourceOutside _ _ => .invalidCurrentMemory
  | destinationOutside _ _ => .invalidMemoryRegion

def rangeText (role : RangeRole) (address size : Nat) : String :=
  s!"({role.field}={hex address}, size={hex size})"

def text : CodeArgumentProblem → String
  | unaligned role address => s!"{role.field} is not page-aligned ({hex address})"
  | badSize size => s!"size is zero or not page-aligned ({hex size})"
  | overflows role address size =>
    s!"{role.name} address range overflows the address space {rangeText role address size}"
  | unknownHandle handle => s!"invalid process handle {handle.text}"
  | sourceOutside address size =>
    "source address range is not within the address space " ++ rangeText .source address size
  | destinationOutside address size =>
    "destination address range is not within the ASLR region " ++
      rangeText .destination address size

end CodeArgumentProblem

namespace Refusal

def error : Refusal → Error
  | plain error => error
  | failedCheck _ _ _ => .invalidCurrentMemory
  | descriptorsExhausted _ => .outOfResource
  | framesExhausted _ => .outOfMemory
  | handlesExhausted _ => .outOfHandles
  | codeArguments _ problem => problem.error

def records : Refusal → List Record
  | plain _ => []
  | failedCheck space block check => [⟨.debug,
      s!"as{space}: block at {wideHex block.start} ({block.state.name}, " ++
        s!"{block.permission.text}, {block.attributes.text}) fails {check.text}"⟩]
  | descriptorsExhausted capacity => [⟨.error, s!"block info pool exhausted ({capacity} nodes)"⟩]
  | framesExhausted pages =>
    [⟨.error, s!"frame pool out of memory: failed to allocate {pages} pages"⟩]
  | handlesExhausted capacity => [⟨.error, s!"handle table full ({capacity} handles)"⟩]
  | codeArguments request problem => [⟨.error, s!"{request.name}: {problem.text}"⟩]

end Refusal

end GuestMemory
