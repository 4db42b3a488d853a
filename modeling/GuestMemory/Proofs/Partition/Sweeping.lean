import GuestMemory.Proofs.Partition.Merging
import Mathlib.Data.List.TakeWhile

/-!
The walk that joins neighbours, as a sweep: a cursor in the blocks that one round after the other
moves on. However the blocks lie, empty, over one another or with gaps between them, each round
leaves fewer of them ahead. So every sweep comes to its end, and it leaves what the walk leaves.
-/

namespace GuestMemory

open GuestMemory.Block

variable {first last stop cursor moved : Nat} {block next : Block}
variable {front back ahead behind blocks rest : List Block}

/-- Where the sweep goes on, and the blocks as they are by now. -/
structure Sweep where
  cursor : Nat
  blocks : List Block

namespace Sweep

/-- A sweep that begins with the last block that starts before `first`, or else with the next. -/
def initial (first : Nat) (blocks : List Block) : Sweep :=
  ⟨((blocks.filter (·.start < first)).getLast?.map (·.start)).getD first, blocks⟩

/-- Gives the block at an address other pages. -/
def resize (start pages : Nat) (blocks : List Block) : List Block :=
  blocks.map fun block => if block.start = start then { block with pages } else block

/-- One round. The first block from the cursor on takes up the one that starts at its end, if that
has the same properties, and is looked at again; otherwise the sweep goes on at its end. It is over
when there is no such block or that starts after `last`. -/
def step (last : Nat) (sweep : Sweep) : Checked (Option Sweep) :=
  match sweep.blocks.find? (sweep.cursor ≤ ·.start) with
  | none => .ok none
  | some block =>
    if last < block.start then
      .ok none
    else do
      let stop ← block.checkedStop
      match absorbable block stop sweep.blocks with
      | some next => do
        let pages ← word (block.pages + next.pages)
        let resized := resize block.start pages sweep.blocks
        return some ⟨block.start, resized.eraseP (·.start = stop)⟩
      | none => return some { sweep with cursor := stop }

/-- The sweep is over after so many rounds and leaves these blocks. -/
inductive Ends (last : Nat) : Nat → Sweep → List Block → Prop
  | stop {sweep : Sweep} (stops : sweep.step last = .ok none) : Ends last 0 sweep sweep.blocks
  | round {rounds : Nat} {sweep next : Sweep} {merged : List Block}
      (moves : sweep.step last = .ok (some next)) (rest : Ends last rounds next merged) :
      Ends last (rounds + 1) sweep merged

/-- The cursor lies between the first blocks and the others, which are listed by rising start and
end at addresses. -/
structure Cut (cursor : Nat) (front back : List Block) : Prop where
  passed : ∀ block ∈ front, block.start < cursor
  remaining : ∀ block ∈ back, cursor ≤ block.start
  keyed : back.Pairwise fun block next => block.start < next.start
  fits : ∀ block ∈ back, block.stop < wordLimit

/-- What a round does to the blocks behind the cursor and to those ahead. -/
inductive Round (last : Nat) (front : List Block) :
    List Block → Nat → List Block → List Block → Prop
  /-- A block without pages starts at its own end: it is taken up by itself, and goes away. -/
  | vanish {block : Block} {back : List Block} (within : block.start ≤ last)
      (empty : block.pages = 0) : Round last front (block :: back) block.start front back
  | absorb {block next : Block} {back : List Block} (within : block.start ≤ last)
      (nonempty : block.pages ≠ 0) (found : absorbable block block.stop back = some next) :
      Round last front (block :: back) block.start front
        ({ block with pages := block.pages + next.pages } ::
          back.eraseP (·.start = block.stop))
  | pass {block : Block} {back : List Block} (within : block.start ≤ last)
      (nonempty : block.pages ≠ 0) (apart : absorbable block block.stop back = none) :
      Round last front (block :: back) block.stop
        (front ++ block :: back.takeWhile (·.start < block.stop))
        (back.dropWhile (·.start < block.stop))

/-- Each round leaves fewer blocks ahead. -/
theorem Round.shorter (round : Round last front back moved behind ahead) :
    ahead.length < back.length := by
  cases round with
  | vanish => simp
  | absorb _ _ found => simpa using length_eraseP_of_absorbable found
  | pass => simpa using Nat.lt_succ_of_le (length_dropWhile_le _ _)

theorem start_le_stop (block : Block) : block.start ≤ block.stop :=
  Nat.le_add_right _ _

theorem start_eq_stop_iff : block.start = block.stop ↔ block.pages = 0 := by
  simp only [Block.stop, Block.size, pageSize_eq]
  omega

theorem mem_of_absorbable (found : absorbable block stop blocks = some next) :
    next ∈ blocks ∧ next.start = stop := by
  have lookup := (Option.filter_eq_some_iff.mp found).1
  have here := List.find?_some lookup
  exact ⟨List.mem_of_find?_eq_some lookup, by simpa using here⟩

theorem absorbable_self (empty : block.pages = 0) :
    absorbable block block.stop (block :: back) = some block := by
  simp [absorbable, start_eq_stop_iff.mpr empty, sameProperties]

theorem absorbable_cons (nonempty : block.pages ≠ 0) :
    absorbable block block.stop (block :: back) = absorbable block block.stop back := by
  simp [absorbable, mt start_eq_stop_iff.mp nonempty]

/-- Two blocks that become one end at an address. -/
theorem stop_lt_of_absorbable (fits : ∀ other ∈ back, other.stop < wordLimit)
    (found : absorbable block block.stop back = some next) :
    { block with pages := block.pages + next.pages }.stop < wordLimit := by
  obtain ⟨member, meets⟩ := mem_of_absorbable found
  exact stop_extend meets ▸ fits next member

theorem le_of_mem_dropWhile (keyed : blocks.Pairwise fun block next => block.start < next.start) :
    ∀ block ∈ blocks.dropWhile (·.start < cursor), cursor ≤ block.start := by
  induction blocks with
  | nil => simp
  | cons block rest ih =>
      obtain ⟨later, keyed⟩ := List.pairwise_cons.mp keyed
      rw [List.dropWhile_cons]
      split
      · exact ih keyed
      · rename_i past
        have here : cursor ≤ block.start := by simpa using past
        exact List.forall_mem_cons.mpr
          ⟨here, fun next member => Nat.le_trans here (Nat.le_of_lt (later next member))⟩

theorem lt_of_mem_takeWhile :
    ∀ block ∈ blocks.takeWhile (·.start < cursor), block.start < cursor := fun block member => by
  simpa using List.mem_takeWhile_imp member

namespace Cut

theorem at_cursor (keyed : blocks.Pairwise fun block next => block.start < next.start)
    (fits : ∀ block ∈ blocks, block.stop < wordLimit) (cursor : Nat) :
    Cut cursor (blocks.takeWhile (·.start < cursor)) (blocks.dropWhile (·.start < cursor)) where
  passed := lt_of_mem_takeWhile
  remaining := le_of_mem_dropWhile keyed
  keyed := keyed.sublist (List.dropWhile_sublist _)
  fits := fun block member => fits block ((List.dropWhile_sublist _).subset member)

theorem find?_remaining (cut : Cut cursor front back) :
    (front ++ back).find? (cursor ≤ ·.start) = back.head? := by
  have none : front.find? (cursor ≤ ·.start) = none := by
    simpa using cut.passed
  rw [List.find?_append, none, Option.none_or]
  cases back with
  | nil => rfl
  | cons block back => simp [cut.remaining block List.mem_cons_self]

theorem absorbable_eq (cut : Cut cursor front back) (later : cursor ≤ stop) (block : Block) :
    absorbable block stop (front ++ back) = absorbable block stop back := by
  have none : front.find? (·.start = stop) = none := by
    simp only [List.find?_eq_none, decide_eq_true_eq]
    exact fun other member same => absurd (cut.passed other member) (by omega)
  rw [absorbable, List.find?_append, none, Option.none_or, absorbable]

theorem eraseP_eq (cut : Cut cursor front back) (later : cursor ≤ stop) (rest : List Block) :
    (front ++ rest).eraseP (·.start = stop) = front ++ rest.eraseP (·.start = stop) := by
  refine List.eraseP_append_right _ fun other member => ?_
  have before := cut.passed other member
  simp only [decide_eq_true_eq]
  omega

section Round

variable (cut : Cut cursor front (block :: back))

include cut

theorem here : cursor ≤ block.start :=
  cut.remaining block List.mem_cons_self

theorem later : ∀ other ∈ back, block.start < other.start :=
  (List.pairwise_cons.mp cut.keyed).1

theorem before : ∀ other ∈ front, other.start < block.start := fun other member =>
  Nat.lt_of_lt_of_le (cut.passed other member) cut.here

theorem vanish : Cut block.start front back where
  passed := cut.before
  remaining := fun other member => Nat.le_of_lt (cut.later other member)
  keyed := (List.pairwise_cons.mp cut.keyed).2
  fits := (List.forall_mem_cons.mp cut.fits).2

theorem absorb (found : absorbable block block.stop back = some next) :
    Cut block.start front ({ block with pages := block.pages + next.pages } ::
      back.eraseP (·.start = block.stop)) where
  passed := cut.before
  remaining := List.forall_mem_cons.mpr ⟨Nat.le_refl _, fun other member =>
    cut.vanish.remaining other (List.mem_of_mem_eraseP member)⟩
  keyed := List.pairwise_cons.mpr ⟨fun other member =>
    cut.later other (List.mem_of_mem_eraseP member), cut.vanish.keyed.sublist List.eraseP_sublist⟩
  fits := List.forall_mem_cons.mpr ⟨stop_lt_of_absorbable cut.vanish.fits found,
    fun other member => cut.vanish.fits other (List.mem_of_mem_eraseP member)⟩

theorem pass (nonempty : block.pages ≠ 0) :
    Cut block.stop (front ++ block :: back.takeWhile (·.start < block.stop))
      (back.dropWhile (·.start < block.stop)) where
  passed := by
    have longer := block.start_lt_stop (Nat.pos_of_ne_zero nonempty)
    exact List.forall_mem_append.mpr
      ⟨fun other member => Nat.lt_trans (cut.before other member) longer,
        List.forall_mem_cons.mpr ⟨longer, lt_of_mem_takeWhile⟩⟩
  remaining := le_of_mem_dropWhile cut.vanish.keyed
  keyed := cut.vanish.keyed.sublist (List.dropWhile_sublist _)
  fits := fun other member => cut.vanish.fits other ((List.dropWhile_sublist _).subset member)

theorem resize_eq (pages : Nat) :
    resize block.start pages (front ++ block :: back) = front ++ { block with pages } :: back := by
  have same {blocks : List Block} (apart : ∀ other ∈ blocks, other.start ≠ block.start) :
      resize block.start pages blocks = blocks := by
    rw [resize, List.map_congr_left fun other member => if_neg (apart other member)]
    exact List.map_id' blocks
  have behind := same fun other member => Nat.ne_of_lt (cut.before other member)
  have ahead := same fun other member => Nat.ne_of_gt (cut.later other member)
  simp only [resize] at behind ahead
  rw [resize, List.map_append, List.map_cons, behind, ahead, if_pos rfl]

theorem step_eq (within : block.start ≤ last) :
    step last ⟨cursor, front ++ block :: back⟩ =
      match absorbable block block.stop (block :: back) with
      | some next => do
        let pages ← word (block.pages + next.pages)
        return some ⟨block.start,
          (front ++ { block with pages } :: back).eraseP (·.start = block.stop)⟩
      | none => .ok (some ⟨block.stop, front ++ block :: back⟩) := by
  have fits := cut.fits block List.mem_cons_self
  have reached := Nat.le_trans cut.here (start_le_stop block)
  simp only [step, cut.find?_remaining, List.head?_cons, if_neg (Nat.not_lt.mpr within),
    checkedStop_eq_ok fits, Checked.ok_bind, cut.absorbable_eq reached, cut.resize_eq,
    Checked.pure_eq]

end Round

/-- A round ends the sweep or moves the cursor on, between blocks again. -/
theorem step_cases (cut : Cut cursor front back) (last : Nat) :
    step last ⟨cursor, front ++ back⟩ = .ok none ∧ (∀ block ∈ back, last < block.start) ∨
      ∃ moved behind ahead,
        step last ⟨cursor, front ++ back⟩ = .ok (some ⟨moved, behind ++ ahead⟩) ∧
          Round last front back moved behind ahead ∧ Cut moved behind ahead := by
  cases back with
  | nil => exact .inl ⟨by simp only [step, cut.find?_remaining, List.head?_nil], by simp⟩
  | cons block back =>
      by_cases beyond : last < block.start
      · refine .inl ⟨by simp only [step, cut.find?_remaining, List.head?_cons, if_pos beyond], ?_⟩
        exact List.forall_mem_cons.mpr
          ⟨beyond, fun other member => Nat.lt_trans beyond (cut.later other member)⟩
      have within := Nat.le_of_not_lt beyond
      have reached := Nat.le_trans cut.here (start_le_stop block)
      rw [cut.step_eq within]
      by_cases empty : block.pages = 0
      · refine .inr ⟨_, _, _, ?_, .vanish within empty, cut.vanish⟩
        have twice : block.pages + block.pages = block.pages := by omega
        have whole : { block with pages := block.pages + block.pages } = block :=
          congrArg (fun pages => { block with pages }) twice
        have counted : word (block.pages + block.pages) = .ok (block.pages + block.pages) := by
          rw [empty]
          rfl
        simp only [absorbable_self empty, counted, Checked.ok_bind, Checked.pure_eq, whole,
          cut.eraseP_eq reached]
        simp [start_eq_stop_iff.mpr empty]
      · rw [absorbable_cons empty]
        cases found : absorbable block block.stop back with
        | none =>
            refine .inr ⟨_, _, _, ?_, .pass within empty found, cut.pass empty⟩
            simp only [List.append_assoc, List.cons_append, List.takeWhile_append_dropWhile]
        | some next =>
            refine .inr ⟨_, _, _, ?_, .absorb within empty found, cut.absorb found⟩
            have counted : word (block.pages + next.pages) = .ok (block.pages + next.pages) :=
              word_pages (stop_lt_of_absorbable cut.vanish.fits found)
            have apart := mt start_eq_stop_iff.mp empty
            simp only [counted, Checked.ok_bind, Checked.pure_eq, cut.eraseP_eq reached]
            simp [apart]

/-- What every round keeps, a sweep has kept when it is over. It takes at most as many rounds as
there are blocks ahead. -/
theorem run (property : List Block → List Block → Prop) (cut : Cut cursor front back)
    (holds : property front back)
    (kept : ∀ {cursor moved : Nat} {front back behind ahead : List Block}, Cut cursor front back →
      Round last front back moved behind ahead → property front back → property behind ahead) :
    ∃ rounds behind ahead, rounds ≤ back.length ∧
      Ends last rounds ⟨cursor, front ++ back⟩ (behind ++ ahead) ∧
      property behind ahead ∧ ∀ block ∈ ahead, last < block.start := by
  induction length : back.length using Nat.strong_induction_on generalizing cursor front back with
  | _ count ih =>
      subst length
      rcases cut.step_cases last with
        ⟨stops, beyond⟩ | ⟨moved, behind, ahead, moves, round, further⟩
      · exact ⟨0, front, back, Nat.zero_le _, .stop stops, holds, beyond⟩
      · have shorter := round.shorter
        obtain ⟨rounds, left, right, few, ends, reached⟩ :=
          ih ahead.length shorter further (kept cut round holds) rfl
        exact ⟨rounds + 1, left, right, by omega, .round moves ends, reached⟩

end Cut

/-- What is left to do: to walk over the blocks ahead. -/
def finish (last : Nat) (front back : List Block) : Checked (List Block) := do
  let passed ← mergeFrom last back
  return front ++ passed

/-- A round is a part of the walk: what is left to do after it is what was left before. -/
theorem finish_eq (cut : Cut cursor front back) (round : Round last front back moved behind ahead) :
    finish last behind ahead = finish last front back := by
  cases round with
  | vanish within empty =>
      rw [finish, finish, mergeFrom_of_empty within (cut.fits _ List.mem_cons_self) empty]
  | absorb within nonempty found =>
      rw [finish, finish, mergeFrom_of_absorbable within (cut.fits _ List.mem_cons_self) nonempty
        found (stop_lt_of_absorbable cut.vanish.fits found)]
  | @pass block back within nonempty apart =>
      rw [finish, finish, mergeFrom_of_apart within (cut.fits _ List.mem_cons_self) nonempty apart]
      cases mergeFrom last (back.dropWhile (·.start < block.stop)) with
      | error fault => rfl
      | ok passed => simp only [Checked.ok_bind, Checked.pure_eq, List.append_assoc]

theorem finish_of_beyond (beyond : ∀ block ∈ back, last < block.start) :
    finish last front back = .ok (front ++ back) := by
  rw [finish]
  cases back with
  | nil => rw [mergeFrom]; rfl
  | cons block back =>
      rw [mergeFrom_of_beyond (beyond block List.mem_cons_self)]
      rfl

/-- A sweep begins with a block that starts before `first`, or all blocks start later. -/
theorem initial_cases (first : Nat) (blocks : List Block) :
    (initial first blocks).cursor = first ∧ (∀ block ∈ blocks, first ≤ block.start) ∨
      (initial first blocks).cursor < first ∧
        ∃ block ∈ blocks, block.start = (initial first blocks).cursor := by
  rw [initial]
  cases found : (blocks.filter (·.start < first)).getLast? with
  | none =>
      rw [List.getLast?_eq_none_iff, List.filter_eq_nil_iff] at found
      exact .inl ⟨rfl, by simpa using found⟩
  | some block =>
      obtain ⟨member, before⟩ := List.mem_filter.mp (List.mem_of_getLast? found)
      exact .inr ⟨by simpa using before, block, member, rfl⟩

/-- A block in front of another one that starts before `first` is left behind. -/
theorem initial_cons_of_skip (skips : rest.head?.any (·.start < first)) :
    (initial first (block :: rest)).cursor = (initial first rest).cursor := by
  cases rest with
  | nil => cases skips
  | cons next rest =>
      have before : next.start < first := by simpa using skips
      have begins : (next :: rest).filter (·.start < first) =
          next :: rest.filter (·.start < first) :=
        List.filter_cons_of_pos (by simpa using before)
      rw [initial, initial, List.filter_cons, begins]
      split
      · rw [List.getLast?_cons_cons]
      · rfl

theorem initial_cons_of_stay (later : ∀ other ∈ rest, block.start < other.start)
    (keyed : rest.Pairwise fun block next => block.start < next.start)
    (stays : ¬ rest.head?.any (·.start < first)) :
    (initial first (block :: rest)).cursor ≤ block.start := by
  rcases initial_cases first (block :: rest) with ⟨begins, all⟩ | ⟨before, other, member, begins⟩
  · rw [begins]
    exact all block List.mem_cons_self
  · rcases List.mem_cons.mp member with rfl | further
    · exact Nat.le_of_eq begins.symm
    · cases rest with
      | nil => cases further
      | cons next rest =>
          have after : first ≤ next.start := by simpa using stays
          rcases List.mem_cons.mp further with rfl | further
          · omega
          · have beyond := (List.pairwise_cons.mp keyed).1 other further
            omega

theorem mergeAdjacent_eq (keyed : blocks.Pairwise fun block next => block.start < next.start) :
    mergeAdjacent first last blocks =
      finish last (blocks.takeWhile (·.start < (initial first blocks).cursor))
        (blocks.dropWhile (·.start < (initial first blocks).cursor)) := by
  induction blocks with
  | nil =>
      rw [mergeAdjacent, List.takeWhile_nil, List.dropWhile_nil, finish, mergeFrom]
      rfl
  | cons block rest ih =>
      obtain ⟨later, keyed⟩ := List.pairwise_cons.mp keyed
      rw [mergeAdjacent]
      split
      · rename_i skips
        have behind : block.start < (initial first rest).cursor := by
          rcases initial_cases first rest with ⟨_, all⟩ | ⟨_, other, member, begins⟩
          · obtain ⟨next, head, before⟩ := (Option.any_eq_true _ _).mp skips
            have after := all next (List.mem_of_mem_head? head)
            exact absurd (of_decide_eq_true before) (Nat.not_lt.mpr after)
          · rw [← begins]
            exact later other member
        rw [initial_cons_of_skip skips, List.takeWhile_cons_of_pos (by simpa using behind),
          List.dropWhile_cons_of_pos (by simpa using behind), ih keyed, finish, finish]
        cases mergeFrom last (rest.dropWhile (·.start < (initial first rest).cursor)) <;> rfl
      · rename_i stays
        have reached := initial_cons_of_stay later keyed stays
        rw [List.takeWhile_cons_of_neg (by simpa using reached),
          List.dropWhile_cons_of_neg (by simpa using reached), finish]
        cases mergeFrom last (block :: rest) <;> rfl

/-- A sweep over blocks that are listed by rising start and end at addresses is over after at most
as many rounds as there are blocks. It leaves what the walk leaves, and has kept what every round
keeps. -/
theorem run_initial (property : List Block → List Block → Prop)
    (keyed : blocks.Pairwise fun block next => block.start < next.start)
    (fits : ∀ block ∈ blocks, block.stop < wordLimit)
    (holds : property (blocks.takeWhile (·.start < (initial first blocks).cursor))
      (blocks.dropWhile (·.start < (initial first blocks).cursor)))
    (kept : ∀ {cursor moved : Nat} {front back behind ahead : List Block}, Cut cursor front back →
      Round last front back moved behind ahead → property front back → property behind ahead) :
    ∃ rounds behind ahead, rounds ≤ blocks.length ∧
      Ends last rounds (initial first blocks) (behind ++ ahead) ∧
      mergeAdjacent first last blocks = .ok (behind ++ ahead) ∧
      property behind ahead ∧ ∀ block ∈ ahead, last < block.start := by
  have cut := Cut.at_cursor keyed fits (initial first blocks).cursor
  obtain ⟨rounds, behind, ahead, few, ends, ⟨left, holds⟩, beyond⟩ :=
    cut.run (fun front back =>
        finish last front back = mergeAdjacent first last blocks ∧ property front back)
      ⟨(mergeAdjacent_eq keyed).symm, holds⟩
      fun cut round before => ⟨(finish_eq cut round).trans before.1, kept cut round before.2⟩
  rw [List.takeWhile_append_dropWhile] at ends
  rw [finish_of_beyond beyond] at left
  exact ⟨rounds, behind, ahead, Nat.le_trans few (length_dropWhile_le _ _), ends, left.symm, holds,
    beyond⟩

end Sweep

end GuestMemory
