import GuestMemory.AddressSpace

/-!
The physical memory behind a block, page for page.
-/

namespace GuestMemory.AddressSpace

/-- Adds a page to a stack of groups of pages: those with consecutive frames, or those without. -/
def gatherBacking (groups : List (Option Nat × Nat))
    (physical : Option Nat) : List (Option Nat × Nat) :=
  match groups, physical with
  | (some first, count) :: lower, some address =>
    if first + count * pageSize = address then
      (some first, count + 1) :: lower
    else
      (some address, 1) :: groups
  | (none, count) :: lower, none => (none, count + 1) :: lower
  | _, _ => (physical, 1) :: groups

/-- What is behind the pages of a block: groups of pages with consecutive frames, each with the
address of its first frame, and groups of pages without a translation. -/
def backing (space : AddressSpace) (block : Block) : List (Option Nat × Nat) :=
  ((List.range block.pages).foldl
    (fun groups index =>
      gatherBacking groups (space.translate (block.start + index * pageSize)))
    []).reverse

end GuestMemory.AddressSpace
