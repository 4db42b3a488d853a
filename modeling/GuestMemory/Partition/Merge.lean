import GuestMemory.Block

/-!
Merging: joining neighbours with the same properties. Blocks are listed by rising start.
-/

namespace GuestMemory

/-- The block at the start of another's end, if it can become part of that. -/
def absorbable (block : Block) (stop : Nat) (rest : List Block) : Option Block :=
  (rest.find? (·.start = stop)).filter block.sameProperties

theorem length_eraseP_of_absorbable {block next : Block} {stop : Nat}
    {rest : List Block} (found : absorbable block stop rest = some next) :
    (rest.eraseP (·.start = stop)).length < rest.length := by
  have lookup := (Option.filter_eq_some_iff.mp found).1
  have member := List.mem_of_find?_eq_some lookup
  have here := List.find?_some (p := fun block : Block => decide (block.start = stop)) lookup
  have shorter := List.length_eraseP_of_mem (p := fun block : Block => decide (block.start = stop))
    member here
  have nonempty := List.length_pos_of_mem member
  omega

theorem length_dropWhile_le (p : Block → Bool) (blocks : List Block) :
    (blocks.dropWhile p).length ≤ blocks.length :=
  (blocks.dropWhile_suffix p).length_le

/-- Joins blocks from the head of the list on, up to those that start after `last`. A block takes
up the one that starts at its end, if that has the same properties, and is looked at again;
otherwise the walk goes on at its end. A block without pages starts at its own end and is taken up
by itself: it goes away. -/
def mergeFrom (last : Nat) : List Block → Checked (List Block)
  | [] => .ok []
  | block :: rest =>
    if last < block.start then
      .ok (block :: rest)
    else do
      let stop ← block.checkedStop
      if block.pages = 0 then
        mergeFrom last rest
      else
        match _ : absorbable block stop rest with
        | some next => do
          let pages ← word (block.pages + next.pages)
          mergeFrom last ({ block with pages } :: rest.eraseP (·.start = stop))
        | none => do
          let passed ← mergeFrom last (rest.dropWhile (·.start < stop))
          return block :: rest.takeWhile (·.start < stop) ++ passed
termination_by blocks => blocks.length
decreasing_by
  · simp
  · rename_i found
    simpa using length_eraseP_of_absorbable found
  · have shorter := length_dropWhile_le (fun block => decide (block.start < stop)) rest
    simp only [List.length_cons]
    omega

/-- Joins neighbours with the same properties among the blocks that touch the addresses from
`start` to `last`: the block before `start` and the one that starts at `last` take part. -/
def mergeAdjacent (start last : Nat) : List Block → Checked (List Block)
  | [] => .ok []
  | block :: rest =>
    if rest.head?.any (·.start < start) then do
      let rest ← mergeAdjacent start last rest
      return block :: rest
    else
      mergeFrom last (block :: rest)

end GuestMemory
