import GuestMemory.Partition
import GuestMemory.Proofs.Address
import GuestMemory.Proofs.Checked
import Mathlib.Data.List.Chain

/-!
Tilings: lists of nonempty blocks that follow one another without gap. Page by page such a list is
an array of properties, and a block list is read through that array.
-/

namespace GuestMemory

namespace Block

variable {block : Block} {page : Nat}

def Holds (block : Block) (page : Nat) : Prop :=
  block.start ≤ page * pageSize ∧ page * pageSize < block.stop

instance : Decidable (block.Holds page) :=
  inferInstanceAs (Decidable (_ ∧ _))

theorem start_lt_stop (block : Block) (nonempty : 0 < block.pages) : block.start < block.stop := by
  simp only [stop, size, pageSize_eq]
  omega

/-- The properties of all pages of some blocks, in the order of the pages. -/
def expand (blocks : List Block) : List Properties :=
  blocks.flatMap fun block => List.replicate block.pages block.properties

@[simp]
theorem expand_nil : expand [] = [] :=
  rfl

@[simp]
theorem expand_cons (block : Block) (rest : List Block) :
    expand (block :: rest) = List.replicate block.pages block.properties ++ expand rest :=
  rfl

@[simp]
theorem expand_append (front back : List Block) :
    expand (front ++ back) = expand front ++ expand back :=
  List.flatMap_append

/-- The blocks follow one another from `start` to `stop` without gap or overlap, and none of them
is empty. -/
def Tiles : Nat → List Block → Nat → Prop
  | start, [], stop => start = stop
  | start, block :: rest, stop => block.start = start ∧ 0 < block.pages ∧ Tiles block.stop rest stop

/-- Where two blocks meet at an address that `places` selects, their properties differ. -/
def Apart (places : Nat → Prop) (blocks : List Block) : Prop :=
  blocks.IsChain fun block next => places next.start → block.properties ≠ next.properties

namespace Tiles

variable {start middle stop : Nat} {block : Block} {front back rest blocks : List Block}

theorem start_le (tiles : Tiles start blocks stop) : start ≤ stop := by
  induction blocks generalizing start with
  | nil => exact Nat.le_of_eq tiles
  | cons block rest ih =>
      obtain ⟨rfl, _, following⟩ := tiles
      exact Nat.le_trans (Nat.le_add_right _ _) (ih following)

theorem append (first : Tiles start front middle) (second : Tiles middle back stop) :
    Tiles start (front ++ back) stop := by
  induction front generalizing start with
  | nil =>
      obtain rfl : start = middle := first
      exact second
  | cons block rest ih =>
      obtain ⟨begins, nonempty, following⟩ := first
      exact ⟨begins, nonempty, ih following⟩

theorem exists_of_append (tiles : Tiles start (front ++ back) stop) :
    ∃ middle, Tiles start front middle ∧ Tiles middle back stop := by
  induction front generalizing start with
  | nil => exact ⟨start, rfl, tiles⟩
  | cons block rest ih =>
      obtain ⟨begins, nonempty, following⟩ := tiles
      obtain ⟨middle, first, second⟩ := ih following
      exact ⟨middle, ⟨begins, nonempty, first⟩, second⟩

/-- Every block of a tiling lies between its ends, and no other block reaches into it. -/
theorem within (tiles : Tiles start blocks stop) (member : block ∈ blocks) :
    start ≤ block.start ∧ block.stop ≤ stop := by
  induction blocks generalizing start with
  | nil => cases member
  | cons first rest ih =>
      obtain ⟨rfl, _, following⟩ := tiles
      rcases List.mem_cons.mp member with rfl | member
      · exact ⟨Nat.le_refl _, following.start_le⟩
      · obtain ⟨lower, upper⟩ := ih following member
        exact ⟨Nat.le_trans (Nat.le_add_right _ _) lower, upper⟩

theorem pages_pos (tiles : Tiles start blocks stop) (member : block ∈ blocks) :
    0 < block.pages := by
  induction blocks generalizing start with
  | nil => cases member
  | cons first rest ih =>
      obtain ⟨_, nonempty, following⟩ := tiles
      rcases List.mem_cons.mp member with rfl | member
      · exact nonempty
      · exact ih following member

theorem stop_eq (tiles : Tiles start blocks stop) :
    stop = start + (expand blocks).length * pageSize := by
  induction blocks generalizing start with
  | nil => simpa using tiles.symm
  | cons block rest ih =>
      obtain ⟨rfl, _, following⟩ := tiles
      have reached := ih following
      simp only [expand_cons, List.length_append, List.length_replicate, Nat.add_mul]
      simp only [Block.stop, Block.size] at reached
      omega

theorem head?_expand (tiles : Tiles start blocks stop) :
    (expand blocks).head? = blocks.head?.map (·.properties) := by
  cases blocks with
  | nil => rfl
  | cons block rest =>
      obtain ⟨_, nonempty, _⟩ := tiles
      obtain ⟨more, pages⟩ : ∃ more, block.pages = more + 1 := ⟨block.pages - 1, by omega⟩
      simp [pages, List.replicate_succ]

theorem head?_start (tiles : Tiles start blocks stop) (head : blocks.head? = some block) :
    block.start = start := by
  cases blocks with
  | nil => cases head
  | cons _ _ =>
      cases head
      exact tiles.1

/-- Two tilings from one address whose arrays begin alike have the same properties there. -/
theorem head?_of_expand {other : Nat} {others : List Block}
    (tiles : Tiles start blocks stop) (otherTiles : Tiles start others other)
    (alike : expand others <+: expand blocks) (head : others.head? = some block) :
    ∃ first, blocks.head? = some first ∧ first.start = block.start ∧
      first.properties = block.properties := by
  obtain ⟨more, same⟩ := alike
  have begins : (expand blocks).head? = some block.properties := by
    rw [← same, List.head?_append, otherTiles.head?_expand, head]
    rfl
  rw [tiles.head?_expand] at begins
  obtain ⟨first, found, properties⟩ := Option.map_eq_some_iff.mp begins
  refine ⟨first, found, ?_, properties⟩
  rw [tiles.head?_start found, otherTiles.head?_start head]

end Tiles

theorem Apart.weaken {places kept : Nat → Prop} {block : Block} {rest : List Block} {stop : Nat}
    (apart : Apart places (block :: rest)) (tiles : Tiles block.start (block :: rest) stop)
    (weaker : ∀ joint, block.start < joint → kept joint → places joint) :
    Apart kept (block :: rest) := by
  refine List.IsChain.imp_of_mem_tail_imp (fun first next _ member differs selected => ?_) apart
  have later := (tiles.2.2.within member).1
  have longer := block.start_lt_stop tiles.2.1
  exact differs (weaker next.start (Nat.lt_of_lt_of_le longer later) selected)

/-- A block stays apart from what follows it when only the joints further on are changed. -/
theorem Apart.cons_of_expand {places : Nat → Prop} {block : Block} {rest others : List Block}
    {start stop other : Nat}
    (differs : ∀ next, rest.head? = some next → places start → block.properties ≠ next.properties)
    (tiles : Tiles start rest stop) (otherTiles : Tiles start others other)
    (alike : expand others <+: expand rest) (following : Apart places others) :
    Apart places (block :: others) := by
  refine List.IsChain.cons following fun next head selected => ?_
  obtain ⟨first, found, _, properties⟩ := tiles.head?_of_expand otherTiles alike head
  rw [otherTiles.head?_start head] at selected
  rw [← properties]
  exact differs first found selected

end Block

end GuestMemory
