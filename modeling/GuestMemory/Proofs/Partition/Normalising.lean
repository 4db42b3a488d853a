import GuestMemory.Proofs.Partition.Encoding
import GuestMemory.Proofs.Partition.Sweeping
import Mathlib.Logic.Relation

/-!
Joining neighbours as a normal form. In a tiling the walk does nothing but join neighbours with the
same properties, none of those meet in its range afterwards, and a second walk finds nothing to do.
-/

namespace GuestMemory

open GuestMemory.Block

variable {first last start stop cursor moved : Nat} {block next : Block}
variable {front back behind ahead blocks merged rest : List Block}

namespace Block

/-- Two neighbours with the same properties become one block. -/
inductive JoinsOnce : List Block → List Block → Prop
  | neighbours {front back : List Block} {block next : Block} (meet : next.start = block.stop)
      (alike : block.properties = next.properties) :
      JoinsOnce (front ++ block :: next :: back)
        (front ++ { block with pages := block.pages + next.pages } :: back)

/-- The second list arises from the first by joining neighbours with the same properties, two blocks
at a time. -/
abbrev Joins : List Block → List Block → Prop :=
  Relation.ReflTransGen JoinsOnce

theorem JoinsOnce.tiles (joins : JoinsOnce blocks merged) (tiles : Tiles start blocks stop) :
    Tiles start merged stop := by
  cases joins with
  | neighbours =>
      obtain ⟨middle, before, begins, nonempty, following⟩ := tiles.exists_of_append
      exact before.append ⟨begins, Nat.add_pos_left nonempty _, following.extend⟩

theorem JoinsOnce.expand_eq (joins : JoinsOnce blocks merged) : expand merged = expand blocks := by
  cases joins with
  | neighbours _ alike =>
      simp only [expand_append, expand_cons, alike, List.replicate_add, List.append_assoc]

theorem JoinsOnce.fits (joins : JoinsOnce blocks merged)
    (fits : ∀ block ∈ blocks, block.stop < wordLimit) :
    ∀ block ∈ merged, block.stop < wordLimit := by
  cases joins with
  | neighbours meet =>
      simp only [List.forall_mem_append, List.forall_mem_cons] at fits ⊢
      obtain ⟨before, _, limit, after⟩ := fits
      exact ⟨before, stop_extend meet ▸ limit, after⟩

theorem Joins.expand_eq (joins : Joins blocks merged) : expand merged = expand blocks := by
  induction joins with
  | refl => rfl
  | tail _ once ih => exact once.expand_eq.trans ih

theorem Joins.fits (joins : Joins blocks merged)
    (fits : ∀ block ∈ blocks, block.stop < wordLimit) :
    ∀ block ∈ merged, block.stop < wordLimit := by
  induction joins with
  | refl => exact fits
  | tail _ once ih => exact once.fits ih

/-- Blocks that meet from `first` on differ, if the one in front starts at `last` or before. -/
def Settled (first last : Nat) (blocks : List Block) : Prop :=
  blocks.IsChain fun block next =>
    first ≤ next.start → block.start ≤ last → block.properties ≠ next.properties

theorem Settled.apart (settled : Settled first last blocks) (tiles : Tiles start blocks stop) :
    Apart (fun joint => first ≤ joint ∧ joint ≤ last) blocks := by
  induction blocks generalizing start with
  | nil => exact List.IsChain.nil
  | cons block rest ih =>
      obtain ⟨rfl, nonempty, following⟩ := tiles
      refine List.IsChain.cons (ih settled.tail following) fun next head selected => ?_
      have longer := block.start_lt_stop nonempty
      rw [← following.head?_start head] at longer
      exact settled.rel_head? head selected.1 (by omega)

end Block

theorem mergeFrom_eq_self (tiles : Tiles start blocks stop)
    (fits : ∀ block ∈ blocks, block.stop < wordLimit)
    (differ : blocks.IsChain fun block next =>
      block.start ≤ last → block.properties ≠ next.properties) :
    mergeFrom last blocks = .ok blocks := by
  induction blocks generalizing start with
  | nil => rw [mergeFrom]
  | cons block rest ih =>
      obtain ⟨rfl, nonempty, following⟩ := tiles
      obtain ⟨limit, fits⟩ := List.forall_mem_cons.mp fits
      by_cases beyond : last < block.start
      · exact mergeFrom_of_beyond beyond
      · have within := Nat.le_of_not_lt beyond
        have alone : absorbable block block.stop rest = none :=
          (absorbable_eq_none following).mpr fun next head => differ.rel_head? head within
        simp only [mergeFrom_of_apart within limit (Nat.ne_of_gt nonempty) alone,
          takeWhile_following following, dropWhile_following following,
          ih following fits differ.tail, Checked.ok_bind, Checked.pure_eq, List.cons_append,
          List.nil_append]

/-- A walk over settled blocks changes nothing. -/
theorem mergeAdjacent_eq_self (tiles : Tiles start blocks stop)
    (fits : ∀ block ∈ blocks, block.stop < wordLimit)
    (settled : Settled first last blocks) : mergeAdjacent first last blocks = .ok blocks := by
  induction blocks generalizing start with
  | nil => rfl
  | cons block rest ih =>
      have whole := tiles
      obtain ⟨rfl, nonempty, following⟩ := tiles
      rw [mergeAdjacent]
      split
      · rw [ih following (List.forall_mem_cons.mp fits).2 settled.tail]
        rfl
      · rename_i stays
        refine mergeFrom_eq_self whole fits ?_
        refine List.IsChain.imp_of_mem_tail_imp (fun before next _ member differs => ?_) settled
        refine differs ?_
        cases rest with
        | nil => cases member
        | cons head rest =>
            have after : first ≤ head.start := by simpa using stays
            rw [following.1] at after
            exact Nat.le_trans after (following.within member).1

namespace Sweep

/-- What a sweep has done to a tiling so far: it has joined neighbours, and the blocks behind it,
with the first ahead, differ where they meet from `first` on. -/
structure Normalises (first start stop : Nat) (blocks front back : List Block) : Prop where
  tiles : Tiles start (front ++ back) stop
  joins : Joins blocks (front ++ back)
  apart : Apart (first ≤ ·) (front ++ back.take 1)

theorem apart_of_before (before : ∀ block ∈ blocks, block.start < first) :
    Apart (first ≤ ·) blocks :=
  (List.pairwise_of_forall_mem_list fun _ _ next member later =>
    absurd (before next member) (Nat.not_lt.mpr later)).isChain

/-- From its own start on the blocks begin with a block. -/
theorem head?_dropWhile (keyed : blocks.Pairwise fun block next => block.start < next.start)
    (member : block ∈ blocks) : (blocks.dropWhile (·.start < block.start)).head? = some block := by
  induction blocks with
  | nil => cases member
  | cons other rest ih =>
      obtain ⟨later, keyed⟩ := List.pairwise_cons.mp keyed
      rcases List.mem_cons.mp member with rfl | further
      · simp
      · rw [List.dropWhile_cons_of_pos (by simpa using later block further)]
        exact ih keyed further

namespace Normalises

/-- In front of `first` nothing has to differ, and the sweep begins there. -/
theorem at_start (tiles : Tiles start blocks stop) (first : Nat) :
    Normalises first start stop blocks
      (blocks.takeWhile (·.start < (initial first blocks).cursor))
      (blocks.dropWhile (·.start < (initial first blocks).cursor)) where
  tiles := by rwa [List.takeWhile_append_dropWhile]
  joins := by rw [List.takeWhile_append_dropWhile]
  apart := by
    rcases initial_cases first blocks with ⟨begins, all⟩ | ⟨before, block, member, begins⟩
    · have none : blocks.takeWhile (·.start < first) = [] :=
        List.takeWhile_eq_nil_iff.mpr fun some => by simpa using all _ (List.getElem_mem some)
      rw [begins, none, List.nil_append]
      cases blocks.dropWhile (·.start < first) with
      | nil => exact .nil
      | cons block rest => exact .singleton block
    · rw [← begins] at before ⊢
      rw [List.take_one, head?_dropWhile tiles.starts_increase member]
      exact apart_of_before <| List.forall_mem_append.mpr
        ⟨fun other behind => Nat.lt_trans (lt_of_mem_takeWhile other behind) before,
          by simpa using before⟩

/-- A round joins the first block ahead with its neighbour, or finds that they differ. -/
theorem round (normalises : Normalises first start stop blocks front back)
    (round : Round last front back moved behind ahead) :
    Normalises first start stop blocks behind ahead := by
  cases round with
  | @vanish block _ within empty =>
      obtain ⟨_, _, _, nonempty, _⟩ := normalises.tiles.exists_of_append
      exact absurd empty (Nat.ne_of_gt nonempty)
  | @absorb block next back within nonempty found =>
      obtain ⟨_, _, rfl, _, following⟩ := normalises.tiles.exists_of_append
      obtain ⟨head, alike⟩ := (absorbable_eq_some following).mp found
      obtain ⟨others, rfl⟩ := List.head?_eq_some_iff.mp head
      have once : JoinsOnce (front ++ block :: next :: others)
          (front ++ { block with pages := block.pages + next.pages } :: others) :=
        .neighbours following.1 alike
      rw [eraseP_following following, List.tail_cons]
      refine ⟨once.tiles normalises.tiles, normalises.joins.tail once, ?_⟩
      -- The extended block has the start and the properties of the one that it comes from.
      obtain ⟨before, _, joint⟩ := List.isChain_append.mp normalises.apart
      exact List.isChain_append.mpr ⟨before, .singleton _, fun left last _ here => by
        cases Option.some.inj here
        exact joint left last block rfl⟩
  | @pass block back within nonempty apart =>
      obtain ⟨_, _, rfl, _, following⟩ := normalises.tiles.exists_of_append
      have differs := (absorbable_eq_none following).mp apart
      rw [takeWhile_following following, dropWhile_following following]
      refine ⟨by simpa using normalises.tiles, by simpa using normalises.joins, ?_⟩
      cases back with
      | nil => simpa using normalises.apart
      | cons next back =>
          refine List.isChain_append.mpr
            ⟨normalises.apart, .singleton _, fun left last right here _ => ?_⟩
          rw [List.getLast?_concat] at last
          cases Option.some.inj last
          exact differs right here

/-- When the sweep is over the blocks are settled: it has looked at every joint of those behind it,
and the others start after its range. -/
theorem settled (normalises : Normalises first start stop blocks behind ahead)
    (beyond : ∀ block ∈ ahead, last < block.start) : Settled first last (behind ++ ahead) := by
  obtain ⟨before, _, joint⟩ := List.isChain_append.mp normalises.apart
  refine List.isChain_append.mpr ⟨before.imp fun _ _ differs later _ => differs later, ?_, ?_⟩
  · exact (List.pairwise_of_forall_mem_list fun block member _ _ _ within =>
      absurd (beyond block member) (Nat.not_lt.mpr within)).isChain
  · intro block last next head later _
    refine joint block last next ?_ later
    rwa [List.head?_take, if_neg Nat.one_ne_zero]

end Normalises

end Sweep

/-- However the blocks lie, the sweep comes to its end after at most as many rounds as there are
blocks, with what the walk leaves. Of a tiling it has only joined neighbours with the same
properties, none of those meet from `first` to `last` any more, and a second walk changes
nothing. -/
theorem mergeAdjacent_normalises
    (keyed : blocks.Pairwise fun block next => block.start < next.start)
    (fits : ∀ block ∈ blocks, block.stop < wordLimit) (first last : Nat) :
    ∃ rounds merged, rounds ≤ blocks.length ∧
      Sweep.Ends last rounds (Sweep.initial first blocks) merged ∧
      mergeAdjacent first last blocks = .ok merged ∧
      ∀ start stop, Tiles start blocks stop →
        Joins blocks merged ∧ Tiles start merged stop ∧ expand merged = expand blocks ∧
          Apart (fun joint => first ≤ joint ∧ joint ≤ last) merged ∧
          mergeAdjacent first last merged = .ok merged := by
  obtain ⟨rounds, behind, ahead, few, ends, walked, normalises, beyond⟩ :=
    @Sweep.run_initial first last blocks
      (fun front back => ∀ start stop, Tiles start blocks stop →
        Sweep.Normalises first start stop blocks front back)
      keyed fits (fun _ _ tiles => .at_start tiles first)
      fun _ round holds _ _ tiles => (holds _ _ tiles).round round
  refine ⟨rounds, behind ++ ahead, few, ends, walked, fun start stop tiles => ?_⟩
  have reached := normalises start stop tiles
  have settled := reached.settled beyond
  exact ⟨reached.joins, reached.tiles, reached.joins.expand_eq, settled.apart reached.tiles,
    mergeAdjacent_eq_self reached.tiles (reached.joins.fits fits) settled⟩

/-- Two free blocks before the range and one in it, then one that differs, and two after it. -/
def sampleTiling : List Block := [
  ⟨0x1000, 1, .free⟩, ⟨0x2000, 1, .free⟩, ⟨0x3000, 2, .free⟩,
  ⟨0x5000, 1, .normal, .userRead, .empty, 0⟩, ⟨0x6000, 1, .free⟩, ⟨0x7000, 1, .free⟩]

/-- A block without pages, one that reaches over another, and one at its end. -/
def sampleStray : List Block := [
  ⟨0x1000, 0, .free⟩, ⟨0x2000, 3, .free⟩, ⟨0x3000, 1, .free⟩, ⟨0x5000, 1, .free⟩]

/-- The block before the range takes part, those that meet outside of it stay, and blocks that are
no tiling are walked over as well. -/
theorem mergeAdjacent_normalises_sample :
    (∃ rounds merged, rounds ≤ 6 ∧
      Sweep.Ends 0x5000 rounds (Sweep.initial 0x3000 sampleTiling) merged ∧
      merged = [⟨0x1000, 1, .free⟩, ⟨0x2000, 3, .free⟩,
        ⟨0x5000, 1, .normal, .userRead, .empty, 0⟩, ⟨0x6000, 1, .free⟩, ⟨0x7000, 1, .free⟩] ∧
      Joins sampleTiling merged ∧ Apart (fun joint => 0x3000 ≤ joint ∧ joint ≤ 0x5000) merged ∧
      mergeAdjacent 0x3000 0x5000 merged = .ok merged) ∧
    ∃ rounds merged, rounds ≤ 4 ∧
      Sweep.Ends 0x5000 rounds (Sweep.initial 0x1000 sampleStray) merged ∧
      merged = [⟨0x2000, 4, .free⟩, ⟨0x3000, 1, .free⟩] := by
  constructor
  · have tiles : Tiles 0x1000 sampleTiling 0x8000 := by
      simp [Tiles, sampleTiling, Block.stop, Block.size, pageSize_eq]
    obtain ⟨rounds, merged, few, ends, walked, normal⟩ :=
      @mergeAdjacent_normalises sampleTiling (by decide) (by decide) 0x3000 0x5000
    obtain ⟨joins, _, _, apart, again⟩ := normal 0x1000 0x8000 tiles
    refine ⟨rounds, merged, few, ends, Except.ok.inj (walked.symm.trans ?_), joins, apart, again⟩
    decide +kernel
  · obtain ⟨rounds, merged, few, ends, walked, _⟩ :=
      @mergeAdjacent_normalises sampleStray (by decide) (by decide) 0x1000 0x5000
    refine ⟨rounds, merged, few, ends, Except.ok.inj (walked.symm.trans ?_)⟩
    decide +kernel

end GuestMemory
