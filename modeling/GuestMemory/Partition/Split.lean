import GuestMemory.Block

/-!
Splitting: making a block start at a given address. Blocks are listed by rising start.
-/

namespace GuestMemory

namespace Block

/-- The part of the block before the address, in whole pages. -/
def head (block : Block) (address : Nat) : Block :=
  { block with pages := (address - block.start) / pageSize }

/-- The part of the block from the address on: the pages that the head leaves over. -/
def tail (block : Block) (address : Nat) : Block :=
  { block with start := address, pages := block.pages - (address - block.start) / pageSize }

end Block

/-- Splits the block that holds `address` so that one starts there. Nothing changes when the
address starts a block or lies in none. The tail takes the place of a block at the same start. -/
def splitAt (address : Nat) : List Block → Checked (List Block)
  | [] => .ok []
  | block :: rest =>
    if address ≤ block.start then
      .ok (block :: rest)
    else if rest.head?.any (·.start < address) then do
      let rest ← splitAt address rest
      return block :: rest
    else do
      let stop ← block.checkedStop
      if address < stop then
        return block.head address :: block.tail address ::
          rest.dropWhile (·.start = address)
      else
        return block :: rest

end GuestMemory
