import GuestMemory.Kernel.Sharing
import GuestMemory.Proofs.AddressSpace.Moves
import GuestMemory.Proofs.Describing
import Mathlib.Data.List.ReduceOption

/-!
Tasks: what is left of a call once its arguments have been looked at. A task names its ranges, asks
a fixed list of things of the pages there, and when it gets them all it makes new pages of these,
each out of what was at the same offset of the two ranges.
-/

namespace GuestMemory

open Verdict

/-- All pages of all processes, by the position of the process and the number of the page. -/
abbrev Pages := Nat × Nat → Page

instance (check : Check) : DecidablePred check.Meets := fun properties =>
  decidable_of_iff
    (check.state.accepts properties.state = true ∧
      properties.permission &&& check.permissionMask = check.permission ∧
        properties.attributes &&& check.attributesMask = check.attributes)
    ⟨fun ⟨state, permission, attributes⟩ => ⟨state, permission, attributes⟩,
      fun meets => ⟨meets.state, meets.permission, meets.attributes⟩⟩

/-- The cache after it has been told what to forget, if anything. -/
def InstructionCache.told (cache : InstructionCache) (invalidation : Option Invalidation) :
    InstructionCache :=
  invalidation.elim cache cache.request

namespace Place

variable {place : Place} {count skip : Nat} {key : Nat × Nat}

/-- The page at an offset from a place. -/
def page (place : Place) (offset : Nat) : Nat × Nat :=
  (place.process, pageOf place.address + offset)

def pages (place : Place) (count : Nat) : List (Nat × Nat) :=
  (List.range count).map place.page

def advance (place : Place) (skip : Nat) : Place :=
  { place with address := place.address + skip * pageSize }

theorem page_injective (place : Place) : Function.Injective place.page := by
  intro offset other same
  simpa [page] using same

theorem mem_pages : key ∈ place.pages count ↔ ∃ offset < count, place.page offset = key := by
  simp [pages]

theorem mem_pages_iff : key ∈ place.pages count ↔
    key.1 = place.process ∧ AddressSpace.Within (pageOf place.address) count key.2 := by
  rw [mem_pages]
  constructor
  · rintro ⟨offset, bounded, rfl⟩
    exact ⟨rfl, Nat.le_add_right _ _, Nat.add_lt_add_left bounded _⟩
  · rintro ⟨same, lower, upper⟩
    refine ⟨key.2 - pageOf place.address, by omega, Prod.ext same.symm ?_⟩
    exact Nat.add_sub_cancel' lower

@[simp]
theorem page_mem_pages {offset : Nat} : place.page offset ∈ place.pages count ↔ offset < count := by
  rw [mem_pages]
  exact ⟨fun ⟨_, bounded, same⟩ => place.page_injective same ▸ bounded,
    fun bounded => ⟨offset, bounded, rfl⟩⟩

theorem page_advance (offset : Nat) :
    (place.advance skip).page offset = place.page (skip + offset) := by
  simp only [page, advance, pageOf_add_mul_pageSize, Nat.add_assoc]

/-- The pages of a range that is cut in two. -/
theorem pages_append (first second : Nat) :
    place.pages first ++ (place.advance first).pages second = place.pages (first + second) := by
  simp only [pages, List.range_add, List.map_append, List.map_map]
  congr 2
  funext offset
  exact page_advance offset

end Place

/-- The frames behind pages. -/
def Pages.behind (pages : Pages) (keys : List (Nat × Nat)) : List (Option Nat) :=
  keys.map fun key => (pages key).frame

/-- What the calls do. -/
inductive Work where
  | setPermission (permission : UserPermission)
  | mapMemory
  | unmapMemory
  | mapCode
  | unmapCode
  deriving DecidableEq

/-- What a call is to do with which pages. A task with one range has it in both places. -/
structure Task where
  work : Work
  destination : Place
  source : Place
  pages : Nat
  deriving DecidableEq

/-- What tasks ask of the memory that they find. -/
inductive Demand where
  /-- All pages of a range pass a check. -/
  | meets (role : RangeRole) (check : Check)
  /-- The frames behind the source can be described. -/
  | described
  /-- The frames behind the source can take so many more references each time they appear. -/
  | retainable (times : Nat)
  /-- The frames behind the destination are those behind the source. -/
  | backed
  deriving DecidableEq

/-- What decides on tasks: the number of free descriptors, the references to each frame and the
pages. -/
structure View where
  capacity : Nat
  held : Nat → Nat
  pages : Pages

namespace Work

/-- What is asked, in the order in which it is looked at. -/
def demands : Work → List Demand
  | setPermission _ => [.meets .destination (.ofState .reprotectable)]
  | mapMemory => [
    .meets .source (.hasFlags .canMapProcess), .described, .retainable 1,
    .meets .destination (.exactly .free), .retainable 2]
  | unmapMemory => [
    .meets .destination ((Check.exactly .sharedCode).withPermission .userReadWrite .userReadWrite),
    .meets .source (.hasFlags .canMapProcess), .described, .backed]
  | mapCode => [
    .meets .source ((Check.exactly .normal).withPermission .all .userReadWrite),
    .meets .destination (.exactly .free), .described, .retainable 1]
  | unmapCode => [
    .meets .source ((Check.exactly .normal).withAttributes .all .locked),
    .meets .destination (.hasFlags .canCodeAlias), .described, .backed]

/-- What becomes of a page of the source. -/
def onSource : Work → Page → Page
  | mapCode, page => { page with properties := .lent }
  | unmapCode, page => { page with properties := .plain .normal .userReadWrite }
  | setPermission _, page | mapMemory, page | unmapMemory, page => page

/-- What becomes of a page of the destination, given the page at the same offset of the source. -/
def onDestination : Work → Page → Page → Page
  | setPermission permission, page, _ =>
    { page with properties := page.properties.reprotect permission.toKernel }
  | mapMemory, _, source => ⟨.plain .sharedCode .userReadWrite, source.frame⟩
  | mapCode, _, source => ⟨.plain .aliasCode .hidden, source.frame⟩
  | unmapMemory, _, _ | unmapCode, _, _ => .blank

/-- The source changes too. -/
def changesSource : Work → Bool
  | mapCode | unmapCode => true
  | setPermission _ | mapMemory | unmapMemory => false

theorem onSource_of_not_changesSource {work : Work} (kept : work.changesSource = false)
    (page : Page) : work.onSource page = page := by
  cases work <;> first | rfl | cases kept

end Work

namespace Task

variable (task : Task)

def place : RangeRole → Place
  | .source => task.source
  | .destination => task.destination

def range (role : RangeRole) : List (Nat × Nat) :=
  (task.place role).pages task.pages

/-- The frames behind one of the ranges. -/
def behind (pages : Pages) (role : RangeRole) : List (Option Nat) :=
  pages.behind (task.range role)

/-- The frames behind the source, without those that are missing. -/
def frames (pages : Pages) : List Nat :=
  (task.behind pages .source).reduceOption

/-- Whether the memory is as it is asked for. -/
def judgeDemand (view : View) : Demand → Verdict Unit
  | .meets role check =>
    demand (∀ key ∈ task.range role, check.Meets (view.pages key).properties)
      (.refused .invalidCurrentMemory)
  | .described => do
    let _ ← describe view.capacity (task.behind view.pages .source)
    return ()
  | .retainable times =>
    demand (∀ frame ∈ task.frames view.pages,
      view.held frame + times * (task.frames view.pages).count frame < References.limit) .faulted
  | .backed => do
    let _ ← (Run.gather (task.behind view.pages .destination) []).verdict
    demand (task.behind view.pages .destination = task.behind view.pages .source)
      (.refused .invalidCurrentMemory)

/-- How the task ends: as the first demand that is not met has it. -/
def judge (view : View) : Verdict Unit :=
  forM task.work.demands (task.judgeDemand view)

/-- The page at the same offset of the source. -/
def mirror (key : Nat × Nat) : Nat × Nat :=
  task.source.page (key.2 - pageOf task.destination.address)

/-- The pages after the task has been done. -/
def effect (pages : Pages) : Pages := fun key =>
  if key ∈ task.range .destination then
    task.work.onDestination (pages key) (pages (task.mirror key))
  else if key ∈ task.range .source then
    task.work.onSource (pages key)
  else
    pages key

/-- What the instruction cache is to forget when the task has been done. -/
def invalidation? (strategy : InvalidationStrategy) (pages : Pages) : Option Invalidation :=
  match task.work with
  | .setPermission permission =>
    if permission.toKernel.isUserExecutable then
      some (.range task.destination.address (task.pages * pageSize))
    else
      none
  | .unmapCode =>
    if ∃ key ∈ task.range .destination, (pages key).properties.state.has .code = true then
      some (strategy.request task.destination.address (task.pages * pageSize))
    else
      none
  | .mapMemory | .unmapMemory | .mapCode => none

/-- All pages that the task is about. -/
def reads : Set (Nat × Nat) :=
  { key | key ∈ task.range .destination ∨ key ∈ task.range .source }

/-- The pages that the task may change. -/
def writes : Set (Nat × Nat) :=
  { key | key ∈ task.range .destination ∨
    task.work.changesSource = true ∧ key ∈ task.range .source }

/-- The task does not find pages that it changes at another offset of its other range. -/
def Apart : Prop :=
  ∀ offset < task.pages, ∀ other < task.pages,
    task.destination.page offset = task.source.page other → offset = other

variable {task} {view : View} {pages : Pages} {key : Nat × Nat} {offset : Nat}

theorem forM_eq_ok {α : Type} {values : List α} {judge : α → Verdict Unit} :
    forM values judge = .ok () ↔ ∀ value ∈ values, judge value = .ok () := by
  induction values with
  | nil => simp
  | cons value rest ih =>
      rw [List.forM_cons, Verdict.bind_eq_ok, List.forall_mem_cons, ← ih]
      exact ⟨fun ⟨_, first, others⟩ => ⟨first, others⟩, fun ⟨first, others⟩ => ⟨(), first, others⟩⟩

theorem judge_eq_ok :
    task.judge view = .ok () ↔ ∀ asked ∈ task.work.demands, task.judgeDemand view asked = .ok () :=
  forM_eq_ok

theorem judgeDemand_meets {role : RangeRole} {check : Check} :
    task.judgeDemand view (.meets role check) = .ok () ↔
      ∀ key ∈ task.range role, check.Meets (view.pages key).properties :=
  demand_eq_ok

theorem judgeDemand_described_congr {other : Task} {after : View}
    (capacity : after.capacity = view.capacity)
    (behind : other.behind after.pages .source = task.behind view.pages .source) :
    other.judgeDemand after .described = task.judgeDemand view .described := by
  simp only [judgeDemand, capacity, behind]

theorem judgeDemand_retainable_iff {times : Nat} :
    task.judgeDemand view (.retainable times) = .ok () ↔ ∀ frame ∈ task.frames view.pages,
      view.held frame + times * (task.frames view.pages).count frame < References.limit :=
  demand_eq_ok

/-- No page passes two checks that no state passes. -/
theorem outside_of_meets {check other : Check}
    (destination : task.judgeDemand view (.meets .destination check) = .ok ())
    (source : task.judgeDemand view (.meets .source other) = .ok ())
    (exclusive : ∀ state, check.state.accepts state = true → ¬ other.state.accepts state = true)
    (inside : key ∈ task.range .destination) : key ∉ task.range .source := fun also =>
  exclusive _ (judgeDemand_meets.mp destination key inside).state
    (judgeDemand_meets.mp source key also).state

/-- A task with two ranges has them apart where its demands are met. -/
theorem outside_of_judge (judged : task.judge view = .ok ())
    (two : ∀ permission, task.work ≠ .setPermission permission)
    (inside : key ∈ task.range .destination) : key ∉ task.range .source := by
  rw [judge_eq_ok] at judged
  cases work : task.work with
  | setPermission permission => exact absurd work (two permission)
  | mapMemory =>
      simp only [work, Work.demands, List.forall_mem_cons] at judged
      obtain ⟨source, _, _, destination, _⟩ := judged
      exact outside_of_meets destination source (fun state => by cases state <;> decide) inside
  | unmapMemory | mapCode | unmapCode =>
      simp only [work, Work.demands, List.forall_mem_cons] at judged
      obtain ⟨first, second, _⟩ := judged
      first
        | exact outside_of_meets first second (fun state => by cases state <;> decide) inside
        | exact outside_of_meets second first (fun state => by cases state <;> decide) inside

/-- Frames behind two ranges are the same if they are at each offset. -/
theorem behind_eq_iff {role other : RangeRole} {others : Pages} :
    task.behind pages role = task.behind others other ↔
      ∀ offset < task.pages, (pages ((task.place role).page offset)).frame =
        (others ((task.place other).page offset)).frame := by
  simp only [behind, range, Pages.behind, Place.pages, List.map_map, List.map_inj_left,
    List.mem_range, Function.comp_apply]

theorem mirror_page (offset : Nat) :
    task.mirror (task.destination.page offset) = task.source.page offset := by
  simp [mirror, Place.page]

theorem mirror_mem (inside : key ∈ task.range .destination) :
    task.mirror key ∈ task.range .source := by
  obtain ⟨offset, bounded, rfl⟩ := Place.mem_pages.mp inside
  rw [place, mirror_page]
  exact Place.page_mem_pages.mpr bounded

theorem effect_of_mem_destination (inside : key ∈ task.range .destination) :
    task.effect pages key = task.work.onDestination (pages key) (pages (task.mirror key)) :=
  if_pos inside

theorem effect_destination (bounded : offset < task.pages) :
    task.effect pages (task.destination.page offset) =
      task.work.onDestination (pages (task.destination.page offset))
        (pages (task.source.page offset)) := by
  have member : task.destination.page offset ∈ task.range .destination :=
    Place.page_mem_pages.mpr bounded
  rw [effect_of_mem_destination member, mirror_page]

theorem effect_source (outside : key ∉ task.range .destination)
    (inside : key ∈ task.range .source) :
    task.effect pages key = task.work.onSource (pages key) := by
  rw [effect, if_neg outside, if_pos inside]

theorem mem_reads : key ∈ task.reads ↔
    key ∈ task.range .destination ∨ key ∈ task.range .source :=
  Iff.rfl

theorem mem_writes : key ∈ task.writes ↔
    key ∈ task.range .destination ∨ task.work.changesSource = true ∧ key ∈ task.range .source :=
  Iff.rfl

theorem effect_of_not_mem_writes (outside : key ∉ task.writes) :
    task.effect pages key = pages key := by
  simp only [mem_writes, not_or, not_and] at outside
  rw [effect, if_neg outside.1]
  by_cases inside : key ∈ task.range .source
  · have kept : task.work.changesSource = false :=
      Bool.eq_false_iff.mpr fun changes => outside.2 changes inside
    rw [if_pos inside, task.work.onSource_of_not_changesSource kept]
  · rw [if_neg inside]

theorem writes_subset_reads : task.writes ⊆ task.reads := by
  rintro key (inside | ⟨_, inside⟩)
  · exact .inl inside
  · exact .inr inside

theorem effect_of_not_mem_reads (outside : key ∉ task.reads) :
    task.effect pages key = pages key :=
  effect_of_not_mem_writes fun inside => outside (writes_subset_reads inside)

end Task

end GuestMemory
