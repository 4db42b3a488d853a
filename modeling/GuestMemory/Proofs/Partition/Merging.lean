import GuestMemory.Proofs.Partition.Splitting

/-!
Merging a tiling: no page changes its properties, and afterwards neighbours differ wherever the
walk has looked. Joints outside its range stay as they were.
-/

namespace GuestMemory

open GuestMemory.Block

variable {start first last stop : Nat} {block next : Block} {blocks rest : List Block}

/-- In a tiling the block at another's end is the one that follows it. -/
theorem find?_following (tiles : Tiles start rest stop) :
    rest.find? (·.start = start) = rest.head? := by
  cases rest with
  | nil => rfl
  | cons next _ => simp [tiles.1]

theorem eraseP_following (tiles : Tiles start rest stop) :
    rest.eraseP (·.start = start) = rest.tail := by
  cases rest with
  | nil => rfl
  | cons next _ => simp [tiles.1]

theorem takeWhile_following (tiles : Tiles start rest stop) :
    rest.takeWhile (·.start < start) = [] := by
  cases rest with
  | nil => rfl
  | cons next _ => simp [tiles.1]

theorem dropWhile_following (tiles : Tiles start rest stop) :
    rest.dropWhile (·.start < start) = rest := by
  cases rest with
  | nil => rfl
  | cons next _ => simp [tiles.1]

theorem absorbable_eq_some (tiles : Tiles block.stop rest stop) :
    absorbable block block.stop rest = some next ↔
      rest.head? = some next ∧ block.properties = next.properties := by
  simp only [absorbable, find?_following tiles, Option.filter_eq_some_iff, sameProperties,
    decide_eq_true_eq]

theorem absorbable_eq_none (tiles : Tiles block.stop rest stop) :
    absorbable block block.stop rest = none ↔
      ∀ next, rest.head? = some next → block.properties ≠ next.properties := by
  simp only [absorbable, find?_following tiles, Option.filter_eq_none_iff, sameProperties,
    decide_eq_true_eq]

/-- A block that takes up the one behind it ends where that did. -/
theorem Block.stop_extend (meet : next.start = block.stop) :
    { block with pages := block.pages + next.pages }.stop = next.stop := by
  simp only [Block.stop, size, pageSize_eq] at *
  omega

theorem Block.word_pages (fits : block.stop < wordLimit) : word block.pages = .ok block.pages := by
  simp only [Block.stop, size, pageSize_eq] at fits
  exact word_of_lt (by omega)

theorem Block.Tiles.extend (tiles : Tiles block.stop (next :: rest) stop) :
    Tiles { block with pages := block.pages + next.pages }.stop rest stop := by
  obtain ⟨begins, _, following⟩ := tiles
  rw [stop_extend begins]
  exact following

theorem mergeFrom_of_beyond (beyond : last < block.start) :
    mergeFrom last (block :: rest) = .ok (block :: rest) := by
  rw [mergeFrom, if_pos beyond]

theorem mergeFrom_of_empty (within : block.start ≤ last) (fits : block.stop < wordLimit)
    (empty : block.pages = 0) : mergeFrom last (block :: rest) = mergeFrom last rest := by
  rw [mergeFrom, if_neg (Nat.not_lt.mpr within), checkedStop_eq_ok fits, Checked.ok_bind,
    if_pos empty]

theorem mergeFrom_of_absorbable (within : block.start ≤ last) (fits : block.stop < wordLimit)
    (nonempty : block.pages ≠ 0) (found : absorbable block block.stop rest = some next)
    (further : { block with pages := block.pages + next.pages }.stop < wordLimit) :
    mergeFrom last (block :: rest) =
      mergeFrom last ({ block with pages := block.pages + next.pages } ::
        rest.eraseP (·.start = block.stop)) := by
  rw [mergeFrom, if_neg (Nat.not_lt.mpr within), checkedStop_eq_ok fits, Checked.ok_bind,
    if_neg nonempty]
  split
  · rename_i other same
    obtain rfl := Option.some.inj (found.symm.trans same)
    rw [word_pages further, Checked.ok_bind]
  · rename_i apart
    cases found.symm.trans apart

theorem mergeFrom_of_apart (within : block.start ≤ last) (fits : block.stop < wordLimit)
    (nonempty : block.pages ≠ 0) (apart : absorbable block block.stop rest = none) :
    mergeFrom last (block :: rest) = do
      let passed ← mergeFrom last (rest.dropWhile (·.start < block.stop))
      return block :: rest.takeWhile (·.start < block.stop) ++ passed := by
  rw [mergeFrom, if_neg (Nat.not_lt.mpr within), checkedStop_eq_ok fits, Checked.ok_bind,
    if_neg nonempty]
  split
  · rename_i found
    cases apart.symm.trans found
  · rfl

/-- A tiling with the same array, in which neighbours differ at the given joints. -/
structure Merges (start stop : Nat) (places : Nat → Prop) (blocks merged : List Block) : Prop where
  tiles : Tiles start merged stop
  expand_eq : expand merged = expand blocks
  apart : Apart places merged

namespace Merges

variable {places : Nat → Prop} {merged : List Block}

/-- A block that differs from its neighbour at a given joint stays in front of it. -/
theorem cons (nonempty : 0 < block.pages) (following : Tiles block.stop rest stop)
    (differs : ∀ next, rest.head? = some next → places block.stop →
      block.properties ≠ next.properties)
    (merges : Merges block.stop stop places rest merged) :
    Merges block.start stop places (block :: rest) (block :: merged) where
  tiles := ⟨rfl, nonempty, merges.tiles⟩
  expand_eq := by
    simp only [expand_cons, merges.expand_eq]
  apart :=
    Apart.cons_of_expand differs following merges.tiles (merges.expand_eq ▸ List.prefix_refl _)
      merges.apart

/-- A block may take up a neighbour with the same properties first. -/
theorem absorb (alike : block.properties = next.properties)
    (merges : Merges block.start stop places
      ({ block with pages := block.pages + next.pages } :: rest) merged) :
    Merges block.start stop places (block :: next :: rest) merged where
  tiles := merges.tiles
  expand_eq := by
    rw [merges.expand_eq]
    simp only [expand_cons, alike, List.replicate_add, List.append_assoc]
  apart := merges.apart

end Merges

theorem mergeFrom_eq_ok (kept : Nat → Prop) (tiles : Tiles start blocks stop)
    (fits : stop < wordLimit) (apart : Apart (fun joint => last < joint ∧ kept joint) blocks) :
    ∃ merged, mergeFrom last blocks = .ok merged ∧
      Merges start stop (fun joint => joint ≤ last ∨ kept joint) blocks merged := by
  induction length : blocks.length using Nat.strong_induction_on generalizing start blocks with
  | _ count ih =>
      subst length
      cases blocks with
      | nil =>
          refine ⟨[], ?_, tiles, rfl, List.IsChain.nil⟩
          rw [mergeFrom]
      | cons block rest =>
          have whole := tiles
          obtain ⟨rfl, nonempty, following⟩ := tiles
          have limit := Nat.lt_of_le_of_lt following.start_le fits
          by_cases beyond : last < block.start
          · refine ⟨block :: rest, mergeFrom_of_beyond beyond, whole, rfl,
              apart.weaken whole fun joint later selected => ?_⟩
            exact ⟨Nat.lt_trans beyond later, selected.resolve_left (by omega)⟩
          · have within := Nat.le_of_not_lt beyond
            have occupied := Nat.ne_of_gt nonempty
            cases found : absorbable block block.stop rest with
            | some next =>
                -- The block takes up its neighbour and is looked at again: the list is shorter.
                obtain ⟨head, alike⟩ := (absorbable_eq_some following).mp found
                obtain ⟨others, rfl⟩ := List.head?_eq_some_iff.mp head
                have joined := following.extend
                have further := Nat.lt_of_le_of_lt joined.start_le fits
                have longer : Tiles block.start
                    ({ block with pages := block.pages + next.pages } :: others) stop :=
                  ⟨rfl, Nat.add_pos_left nonempty _, joined⟩
                have differs : Apart (fun joint => last < joint ∧ kept joint)
                    ({ block with pages := block.pages + next.pages } :: others) :=
                  List.IsChain.cons apart.tail.tail fun other found => by
                    simpa only [alike] using apart.tail.rel_head? found
                obtain ⟨merged, result, merges⟩ := ih (others.length + 1) (by simp)
                  longer differs rfl
                rw [mergeFrom_of_absorbable within limit occupied found further,
                  eraseP_following following, List.tail_cons]
                exact ⟨merged, result, merges.absorb alike⟩
            | none =>
                have differs := (absorbable_eq_none following).mp found
                obtain ⟨passed, merged, merges⟩ := ih rest.length (by simp) following apart.tail rfl
                refine ⟨block :: passed, ?_, merges.cons nonempty following fun next head _ =>
                  differs next head⟩
                simp only [mergeFrom_of_apart within limit occupied found,
                  takeWhile_following following, dropWhile_following following, merged,
                  Checked.ok_bind, Checked.pure_eq, List.cons_append, List.nil_append]

/-- Joining neighbours around a range brings every joint from `first` to `last` in order and keeps
the order of the others. -/
theorem mergeAdjacent_eq_ok (kept : Nat → Prop) (tiles : Tiles start blocks stop)
    (fits : stop < wordLimit)
    (apart : Apart (fun joint => (joint < first ∨ last < joint) ∧ kept joint) blocks) :
    ∃ merged, mergeAdjacent first last blocks = .ok merged ∧
      Merges start stop (fun joint => first ≤ joint ∧ joint ≤ last ∨ kept joint) blocks merged := by
  induction blocks generalizing start with
  | nil => exact ⟨[], rfl, tiles, rfl, List.IsChain.nil⟩
  | cons block rest ih =>
      rw [mergeAdjacent]
      split
      · rename_i skips
        obtain ⟨next, head, before⟩ := (Option.any_eq_true _ _).mp skips
        have joint : block.stop < first := by
          rw [← tiles.2.2.head?_start head]
          exact of_decide_eq_true before
        obtain ⟨rfl, nonempty, following⟩ := tiles
        obtain ⟨passed, merged, merges⟩ := ih following apart.tail
        refine ⟨block :: passed, ?_, merges.cons nonempty following fun next head selected => ?_⟩
        · simp only [merged, Checked.ok_bind, Checked.pure_eq]
        · rw [← following.head?_start head] at joint selected
          exact apart.rel_head? head ⟨.inl joint, selected.resolve_left (by omega)⟩
      · obtain ⟨merged, result, merges⟩ := mergeFrom_eq_ok kept tiles fits
          (apart.imp fun _ _ differs selected => differs ⟨.inr selected.1, selected.2⟩)
        refine ⟨merged, result, merges.tiles, merges.expand_eq, ?_⟩
        refine merges.apart.imp fun _ _ differs selected => differs ?_
        exact selected.imp_left And.right

end GuestMemory
