import GuestMemory.Proofs.Partition.Tiling

/-!
Splitting a tiling at an address between its ends: no page changes its properties, and the list
falls into a tiling up to the address and one from there on.
-/

namespace GuestMemory

open GuestMemory.Block

variable {start stop address : Nat} {block : Block} {blocks rest : List Block}

theorem Block.checkedStop_eq_ok (fits : block.stop < wordLimit) :
    block.checkedStop = .ok block.stop :=
  word_of_lt fits

theorem Block.stop_aligned (aligned : block.start % pageSize = 0) :
    block.stop % pageSize = 0 := by
  simp only [stop, size, pageSize_eq] at *
  omega

theorem Block.head_stop (aligned : block.start % pageSize = 0) (cut : address % pageSize = 0)
    (inside : block.start ≤ address) : (block.head address).stop = address := by
  simp only [head, stop, size, pageSize_eq] at *
  omega

theorem Block.tail_stop (aligned : block.start % pageSize = 0) (cut : address % pageSize = 0)
    (inside : block.start ≤ address) (before : address < block.stop) :
    (block.tail address).stop = block.stop := by
  simp only [tail, stop, size, pageSize_eq] at *
  omega

theorem Block.head_pages_pos (aligned : block.start % pageSize = 0)
    (cut : address % pageSize = 0) (past : block.start < address) :
    0 < (block.head address).pages := by
  simp only [head, pageSize_eq] at *
  omega

theorem Block.tail_pages_pos (aligned : block.start % pageSize = 0)
    (cut : address % pageSize = 0) (past : block.start < address) (before : address < block.stop) :
    0 < (block.tail address).pages := by
  simp only [tail, stop, size, pageSize_eq] at *
  omega

theorem Block.expand_head_tail (aligned : block.start % pageSize = 0)
    (before : address < block.stop) :
    expand [block.head address, block.tail address] = expand [block] := by
  have pages : (address - block.start) / pageSize +
      (block.pages - (address - block.start) / pageSize) = block.pages := by
    simp only [stop, size, pageSize_eq] at *
    omega
  simp only [expand_cons, expand_nil, List.append_nil, head, tail, ← List.replicate_add, pages]

/-- What splitting at an address leaves: the blocks before it and those from there on. -/
structure SplitsAt (start address stop : Nat) (blocks front back : List Block) : Prop where
  front_tiles : Tiles start front address
  back_tiles : Tiles address back stop
  expand_eq : expand front ++ expand back = expand blocks
  front_apart : ∀ {places : Nat → Prop}, Apart places blocks → Apart places front
  back_apart : ∀ {places : Nat → Prop}, Apart places blocks → Apart places back

namespace SplitsAt

variable {front back : List Block}

theorem at_start (tiles : Tiles address blocks stop) :
    SplitsAt address address stop blocks [] blocks where
  front_tiles := rfl
  back_tiles := tiles
  expand_eq := rfl
  front_apart := fun _ => List.IsChain.nil
  back_apart := id

/-- A block that ends at the address or before it stays whole. -/
theorem cons (nonempty : 0 < block.pages) (following : Tiles block.stop rest stop)
    (splits : SplitsAt block.stop address stop rest front back) :
    SplitsAt block.start address stop (block :: rest) (block :: front) back where
  front_tiles := ⟨rfl, nonempty, splits.front_tiles⟩
  back_tiles := splits.back_tiles
  expand_eq := by
    simp only [expand_cons, List.append_assoc, splits.expand_eq]
  front_apart := by
    intro places apart
    refine Apart.cons_of_expand (fun next head selected => ?_) following splits.front_tiles
      ⟨expand back, splits.expand_eq⟩ (splits.front_apart apart.tail)
    rw [← following.head?_start head] at selected
    exact apart.rel_head? head selected
  back_apart := fun apart => splits.back_apart apart.tail

/-- A block that the address lies in is cut there. -/
theorem cut_first (following : Tiles block.stop rest stop) (aligned : block.start % pageSize = 0)
    (cut : address % pageSize = 0) (past : block.start < address) (before : address < block.stop) :
    SplitsAt block.start address stop (block :: rest) [block.head address]
      (block.tail address :: rest) where
  front_tiles :=
    ⟨rfl, Block.head_pages_pos aligned cut past, Block.head_stop aligned cut (Nat.le_of_lt past)⟩
  back_tiles := by
    refine ⟨rfl, Block.tail_pages_pos aligned cut past before, ?_⟩
    rw [Block.tail_stop aligned cut (Nat.le_of_lt past) before]
    exact following
  expand_eq := by
    have joined := Block.expand_head_tail aligned before
    simp only [expand_cons, expand_nil, List.append_nil] at joined
    simp only [expand_cons, expand_nil, List.append_nil, ← List.append_assoc, joined]
  front_apart := fun _ => List.IsChain.singleton _
  back_apart := fun apart => apart.tail.cons fun next head => apart.rel_head? head

end SplitsAt

/-- Where the next block does not start before the address, neither does the rest. -/
theorem stop_of_not_before (following : Tiles block.stop rest stop) (upper : address ≤ stop)
    (last : ¬ rest.head?.any (·.start < address) = true) : address ≤ block.stop := by
  cases rest with
  | nil =>
      have ends : block.stop = stop := following
      omega
  | cons next _ =>
      have begins := following.1
      simp only [List.head?_cons, Option.any_some, decide_eq_true_eq] at last
      omega

theorem dropWhile_past (following : Tiles block.stop rest stop) (before : address < block.stop) :
    rest.dropWhile (·.start = address) = rest := by
  cases rest with
  | nil => rfl
  | cons next _ =>
      have begins : next.start ≠ address := by
        rw [following.1]
        omega
      simp [begins]

theorem splitAt_eq_ok (tiles : Tiles start blocks stop) (fits : stop < wordLimit)
    (aligned : start % pageSize = 0) (cut : address % pageSize = 0)
    (lower : start ≤ address) (upper : address ≤ stop) :
    ∃ front back, splitAt address blocks = .ok (front ++ back) ∧
      SplitsAt start address stop blocks front back := by
  induction blocks generalizing start with
  | nil =>
      obtain rfl : start = stop := tiles
      obtain rfl : start = address := Nat.le_antisymm lower upper
      exact ⟨[], [], rfl, .at_start rfl⟩
  | cons block rest ih =>
      have whole := tiles
      obtain ⟨rfl, nonempty, following⟩ := tiles
      have limit := following.start_le
      by_cases here : address ≤ block.start
      · obtain rfl : address = block.start := Nat.le_antisymm here lower
        refine ⟨[], block :: rest, ?_, .at_start whole⟩
        simp only [splitAt, if_pos here, List.nil_append]
      have past : block.start < address := Nat.lt_of_not_le here
      simp only [splitAt, if_neg here]
      split
      · -- The next block starts before the address too, so this one stays whole.
        obtain ⟨next, head, before⟩ := (Option.any_eq_true _ _).mp ‹_›
        have reached : block.stop < address := by
          rw [← following.head?_start head]
          exact of_decide_eq_true before
        obtain ⟨front, back, split, splits⟩ := ih following (Block.stop_aligned aligned)
          (Nat.le_of_lt reached)
        refine ⟨block :: front, back, ?_, splits.cons nonempty following⟩
        simp only [split, Checked.ok_bind, Checked.pure_eq, List.cons_append]
      · rename_i last
        rw [checkedStop_eq_ok (Nat.lt_of_le_of_lt limit fits), Checked.ok_bind]
        split
        · have before : address < block.stop := ‹_›
          refine ⟨[block.head address], block.tail address :: rest, ?_,
            .cut_first following aligned cut past before⟩
          simp only [dropWhile_past following before, List.singleton_append, Checked.pure_eq]
        · have reached : block.stop = address := by
            have ends := stop_of_not_before following upper last
            omega
          subst reached
          exact ⟨[block], rest, rfl, SplitsAt.cons nonempty following (.at_start following)⟩

/-- Blocks that end before the address stay out of the way. -/
theorem splitAt_append {middle : Nat} {front : List Block} (first : Tiles start front middle)
    (second : Tiles middle rest stop) (past : middle < address) (upper : address ≤ stop) :
    splitAt address (front ++ rest) = do
      let split ← splitAt address rest
      return front ++ split := by
  induction front generalizing start with
  | nil =>
      rw [List.nil_append]
      cases splitAt address rest <;> rfl
  | cons block others ih =>
      obtain ⟨rfl, nonempty, following⟩ := first
      have whole := following.append second
      have limit := following.start_le
      have longer := block.start_lt_stop nonempty
      have skips : (others ++ rest).head?.any (·.start < address) := by
        cases all : others ++ rest with
        | nil =>
            rw [all] at whole
            have ends : block.stop = stop := whole
            omega
        | cons next _ =>
            rw [all] at whole
            have begins := whole.1
            simp only [List.head?_cons, Option.any_some, decide_eq_true_eq]
            omega
      rw [List.cons_append, splitAt, if_neg (by omega), if_pos skips, ih following]
      cases splitAt address rest <;> rfl

end GuestMemory
