import GuestMemory.Partition

/-!
Commits: what an operation on an address space reports when it is complete.
-/

namespace GuestMemory

/-- The operations that change an address space. -/
inductive Operation where
  | mapPages
  | unmapPages
  | setPermission
  | mapCode
  | unmapCode
  | mapGroup
  | unmapShared
  deriving DecidableEq

def Operation.name : Operation → String
  | mapPages => "map_pages"
  | unmapPages => "unmap_pages"
  | setPermission => "set_process_memory_permission"
  | mapCode => "map_code_memory"
  | unmapCode => "unmap_code_memory"
  | mapGroup => "map_page_group"
  | unmapShared => "unmap_process_memory"

/-- An operation that is complete, and the blocks that it left. -/
structure Commit where
  operation : Operation
  space : Nat
  address : Nat
  pages : Nat
  blocks : List Block
  deriving DecidableEq

namespace Commit

variable (commit : Commit)

def heading : Record :=
  let place := s!"{commit.operation.name} at {wideHex commit.address} ({commit.pages} pages)"
  ⟨.debug, s!"as{commit.space}: {place}, {commit.blocks.length} blocks"⟩

def records : List Record :=
  commit.heading :: Partition.listing commit.blocks

end Commit

end GuestMemory
