import GuestMemory.Proofs.Partition.Updates

/-!
The blocks of a partition as the maximal runs of its array of pages. A partition that has gone
through any sequence of operations is determined by what each page has become.
-/

namespace GuestMemory

open GuestMemory.Block

variable {start stop : Nat} {block next : Block} {blocks rest : List Block}

namespace Block

/-- The maximal runs of equal entries of an array of pages that starts at the given address. -/
def maximalRuns (start : Nat) : List Properties → List Block
  | [] => []
  | properties :: rest =>
    match maximalRuns (start + pageSize) rest with
    | [] => [⟨start, 1, properties⟩]
    | next :: others =>
      if properties = next.properties then
        ⟨start, next.pages + 1, properties⟩ :: others
      else
        ⟨start, 1, properties⟩ :: next :: others

/-- A run grows over equal entries in front of it. -/
theorem maximalRuns_replicate {array : List Properties} {properties : Properties} {count : Nat}
    (runs : maximalRuns (start + (count + 1) * pageSize) array = blocks)
    (differs : ∀ next, blocks.head? = some next → properties ≠ next.properties) :
    maximalRuns start (List.replicate (count + 1) properties ++ array) =
      ⟨start, count + 1, properties⟩ :: blocks := by
  induction count generalizing start with
  | zero =>
      rw [Nat.zero_add, Nat.one_mul] at runs
      simp only [List.replicate_succ, List.replicate_zero, List.singleton_append, maximalRuns, runs]
      cases blocks with
      | nil => rfl
      | cons next others => simp only [if_neg (differs next rfl)]
  | succ count ih =>
      have shifted : start + pageSize + (count + 1) * pageSize =
          start + (count + 1 + 1) * pageSize := by
        rw [Nat.add_mul (count + 1), Nat.one_mul]
        omega
      rw [List.replicate_succ, List.cons_append, maximalRuns, ih (shifted ▸ runs)]
      exact if_pos rfl

/-- A tiling without equal neighbours consists of the maximal runs of its array. -/
theorem Tiles.eq_maximalRuns (tiles : Tiles start blocks stop)
    (apart : Apart (fun _ => True) blocks) : blocks = maximalRuns start (expand blocks) := by
  induction blocks generalizing start with
  | nil => rfl
  | cons block rest ih =>
      obtain ⟨rfl, nonempty, following⟩ := tiles
      obtain ⟨more, pages⟩ : ∃ more, block.pages = more + 1 := ⟨block.pages - 1, by omega⟩
      have runs := ih following apart.tail
      rw [Block.stop, Block.size, pages] at runs
      rw [expand_cons, pages, maximalRuns_replicate runs.symm fun next head =>
        apart.rel_head? head trivial, ← pages]

theorem Tiles.starts_increase (tiles : Tiles start blocks stop) :
    blocks.Pairwise fun block next => block.start < next.start := by
  induction blocks generalizing start with
  | nil => exact List.Pairwise.nil
  | cons block rest ih =>
      obtain ⟨rfl, nonempty, following⟩ := tiles
      refine List.Pairwise.cons (fun next member => ?_) (ih following)
      exact Nat.lt_of_lt_of_le (block.start_lt_stop nonempty) (following.within member).1

end Block

namespace Partition

variable {partition after : Partition}

theorem follow_eq_ok {previous : Option Block} (tiles : Tiles start blocks stop)
    (fits : stop < wordLimit) (apart : Apart (fun _ => True) (previous.toList ++ blocks)) :
    follow start previous blocks = .ok (some stop) := by
  induction blocks generalizing start previous with
  | nil =>
      obtain rfl : start = stop := tiles
      rfl
  | cons block rest ih =>
      obtain ⟨rfl, nonempty, following⟩ := tiles
      have limit := following.start_le
      have regular : ¬ ((block.start ≠ block.start || block.pages = 0) = true) := by
        simp [Nat.ne_of_gt nonempty]
      have differs : ¬ previous.any (·.sameProperties block) = true := by
        cases previous with
        | none => simp
        | some before => simpa [sameProperties] using apart.rel_head? rfl
      rw [follow, if_neg regular, if_neg differs, checkedStop_eq_ok (Nat.lt_of_le_of_lt limit fits),
        Checked.ok_bind]
      refine ih following ?_
      cases previous with
      | none => exact apart
      | some before => exact apart.tail

theorem WellFormed.isConsistent (wellFormed : partition.WellFormed) :
    partition.isConsistent = .ok true := by
  have follows := follow_eq_ok wellFormed.tiles wellFormed.fits
    (show Apart _ (none.toList ++ _) from wellFormed.apart)
  rw [Partition.isConsistent, follows, Region.checkedStop, word_of_lt wellFormed.fits]
  simp only [Checked.ok_bind, Checked.pure_eq, decide_true]

inductive RangeOperation where
  | assign (address count : Nat) (state : MemoryState) (permission : KernelPermission)
    (attributes : Attributes)
  | lock (address count : Nat) (permission : KernelPermission)
  | unlock (address count : Nat) (permission : KernelPermission)
  /-- Any other change of the properties of a page, which may depend on what they are. -/
  | change (address count : Nat) (rewrite : Properties → Checked Properties)

namespace RangeOperation

def address : RangeOperation → Nat
  | assign address .. | lock address .. | unlock address .. | change address .. => address

def count : RangeOperation → Nat
  | assign _ count .. | lock _ count _ | unlock _ count _ | change _ count _ => count

/-- What the operation makes of the properties of a page. -/
def rewrite : RangeOperation → Properties → Checked Properties
  | assign _ _ state permission attributes => fun properties =>
    .ok (properties.assign state permission attributes)
  | lock _ _ permission => fun properties => properties.lock permission
  | unlock _ _ permission => fun properties => properties.unlock permission
  | change _ _ rewrite => rewrite

def onBlocks (operation : RangeOperation) (partition : Partition) : Checked Partition :=
  match operation with
  | assign address count state permission attributes =>
    partition.assign address count state permission attributes
  | lock address count permission => partition.lock address count permission
  | unlock address count permission => partition.unlock address count permission
  | change address count rewrite => partition.updateWith address count rewrite

/-- The operation on the array of the pages from address `base` on. -/
def onArray (base : Nat) (array : List Properties) (operation : RangeOperation) :
    Checked (List Properties) :=
  changeRange ((operation.address - base) / pageSize) operation.count operation.rewrite array

theorem updates {operation : RangeOperation} (wellFormed : partition.WellFormed)
    (aligned : operation.address % pageSize = 0) (done : operation.onBlocks partition = .ok after) :
    partition.Updates operation.address operation.count operation.rewrite after := by
  cases operation <;> exact wellFormed.updates aligned done

end RangeOperation

/-- Operations on the blocks of a partition do to its array what they do to each page. -/
theorem WellFormed.array_of_operations {operations : List RangeOperation}
    (wellFormed : partition.WellFormed)
    (aligned : ∀ operation ∈ operations, operation.address % pageSize = 0)
    (ran : operations.foldlM (fun partition operation => operation.onBlocks partition) partition =
      .ok after) :
    after.region = partition.region ∧ after.WellFormed ∧
      operations.foldlM (RangeOperation.onArray partition.region.base) partition.pages =
        .ok after.pages := by
  induction operations generalizing partition with
  | nil =>
      cases ran
      exact ⟨rfl, wellFormed, rfl⟩
  | cons operation rest ih =>
      rw [List.foldlM_cons, Checked.bind_eq_ok] at ran
      obtain ⟨next, done, ran⟩ := ran
      have updates := RangeOperation.updates wellFormed (aligned operation List.mem_cons_self) done
      obtain ⟨region, ends, array⟩ := ih updates.wellFormed
        (fun other member => aligned other (List.mem_cons_of_mem _ member)) ran
      refine ⟨region.trans updates.region_eq, ends, ?_⟩
      rw [updates.region_eq] at array
      rw [List.foldlM_cons, RangeOperation.onArray, updates.pages_eq, Checked.ok_bind, array]

/-- The blocks are the maximal runs of the array in which all pages were free at first and which
each operation has changed page by page. In particular their starts increase, none is empty, they
leave no gap in the region, and no two neighbours are alike. -/
theorem blocks_eq_maximalRuns {region : Region} {operations : List RangeOperation}
    (aligned : region.base % pageSize = 0) (whole : region.size % pageSize = 0)
    (nonempty : 0 < region.size) (fits : region.stop < wordLimit)
    (ranges : ∀ operation ∈ operations, operation.address % pageSize = 0)
    (ran : operations.foldlM (fun partition operation => operation.onBlocks partition)
      (ofRegion region) = .ok after) :
    (∃ array, operations.foldlM (RangeOperation.onArray region.base)
        (List.replicate (region.size / pageSize) .free) = .ok array ∧
      after.blocks = maximalRuns region.base array) ∧
    after.blocks.Pairwise (fun block next => block.start < next.start) ∧
    (∀ block ∈ after.blocks, 0 < block.pages) ∧
    Tiles region.base after.blocks region.stop ∧
    after.blocks.IsChain (fun block next => block.properties ≠ next.properties) ∧
    after.isConsistent = .ok true := by
  have initial := ofRegion_wellFormed aligned whole nonempty fits
  obtain ⟨region_eq, wellFormed, array⟩ := initial.array_of_operations ranges ran
  have tiles := wellFormed.tiles
  rw [region_eq] at tiles
  refine ⟨⟨after.pages, ?_, tiles.eq_maximalRuns wellFormed.apart⟩, tiles.starts_increase,
    fun block => tiles.pages_pos, tiles, ?_, wellFormed.isConsistent⟩
  · simpa only [ofRegion, pages, expand_cons, expand_nil, List.append_nil] using array
  · exact wellFormed.apart.imp fun _ _ differs => differs trivial

/-- Memory is put to use, lent out, partly taken back and made read-only from the page before on. -/
def sampleOperations : List RangeOperation := [
  .assign 0x102000 4 .normal .userReadWrite .empty,
  .lock 0x103000 2 .hidden,
  .unlock 0x103000 1 .userReadWrite,
  .change 0x101000 4 fun properties => .ok (properties.reprotect .userRead)]

theorem blocks_eq_maximalRuns_sample :
    ∃ array, sampleOperations.foldlM (RangeOperation.onArray 0x100000)
        (List.replicate 16 .free) = .ok array ∧
      [⟨0x100000, 1, .free⟩, ⟨0x101000, 1, .free, .userRead, .empty, 0⟩,
        ⟨0x102000, 2, .normal, .userRead, .empty, 0⟩, ⟨0x104000, 1, .normal, .userRead, .locked, 1⟩,
        ⟨0x105000, 1, .normal, .userReadWrite, .empty, 0⟩, ⟨0x106000, 10, .free⟩] =
        maximalRuns 0x100000 array :=
  (@blocks_eq_maximalRuns ⟨⟨0x100000, 0x10000⟩, _⟩ ⟨0x100000, 0x10000⟩ sampleOperations
    (by decide) (by decide) (by decide) (by decide) (by decide) (by decide +kernel)).1

end Partition

end GuestMemory
