import GuestMemory.AddressSpace.Groups
import GuestMemory.Proofs.Describing
import GuestMemory.Proofs.Run.NormalForm

/-!
Comparing what is behind two ranges. The runs of a range and those of a group are in normal form, so
they are the same exactly when the same frames stand behind the pages, one by one.
-/

namespace GuestMemory

open GuestMemory.Action

namespace Run

variable {run added : Run} {lower : List Run}

theorem pages_lt_of_stop (fits : run.stop < wordLimit) : run.pages < wordLimit := by
  simp only [stop, size, pageSize_eq] at fits
  omega

/-- Only the top of the stack matters, and a run that ends at an address can be put there. -/
theorem stack_exists (lowerFits : ∀ top ∈ lower.head?, top.stop < wordLimit)
    (fits : added.stop < wordLimit) :
    ∃ result, added.stack lower = .ok result ∧ ∀ top ∈ result.head?, top.stop < wordLimit := by
  cases lower with
  | nil => exact ⟨[added], rfl, by simpa using fits⟩
  | cons top below =>
      have topFits : top.stop < wordLimit := lowerFits top rfl
      by_cases joins : top.stop = added.address
      · have longer := (stop_extend joins).symm ▸ fits
        exact ⟨_, stack_of_joins joins topFits (pages_lt_of_stop longer), by simpa using longer⟩
      · exact ⟨_, stack_of_apart joins topFits, by simpa using fits⟩

theorem Separate.normal {runs : List Run} (separate : Separate runs) : Normal runs :=
  ⟨separate.nonempty, separate.apart.imp fun _ _ between => between.2⟩

end Run

namespace Directory

variable {directory other : Directory} {address otherAddress pages first count : Nat}
variable {collected runs : List Run} {found : Option (List Run)}

/-- The address of the frame behind a page of a range, counted from the first page on. -/
def behind? (directory : Directory) (address index : Nat) : Option Nat :=
  (directory.translate (address + index * pageSize)).map (·.address)

/-- Every frame ends below the limit. -/
def EndsBelow (directory : Directory) (limit : Nat) : Prop :=
  ∀ (page : Nat) translation, directory.entries[page]? = some translation →
    translation.address + pageSize < limit

/-- What is found behind a range: nothing where a page has no frame, or else the frames in order, as
runs in normal form. -/
structure Describes (directory : Directory) (address pages : Nat)
    (found : Option (List Run)) : Prop where
  isSome_iff : found.isSome ↔ ∀ index < pages, (directory.behind? address index).isSome
  normal : ∀ runs, found = some runs → Run.Normal runs
  frames_eq : ∀ runs, found = some runs →
    (Run.addressesOf runs).map some = (List.range pages).map (directory.behind? address)

theorem collectRuns_exists (bounded : directory.EndsBelow wordLimit) (count first : Nat)
    (fits : ∀ top ∈ collected.head?, top.stop < wordLimit) :
    ∃ found, directory.collectRuns count first collected = .ok found := by
  induction count generalizing first collected with
  | zero => exact ⟨_, rfl⟩
  | succ count ih =>
      rw [collectRuns]
      cases here : directory.entries[first]? with
      | none => exact ⟨none, rfl⟩
      | some translation =>
          have single : Run.stop ⟨translation.address, 1⟩ < wordLimit := by
            simpa [Run.stop, Run.size] using bounded first translation here
          obtain ⟨more, stacked, topFits⟩ := Run.stack_exists fits single
          obtain ⟨found, rest⟩ := ih (first + 1) topFits
          exact ⟨found, by simp only [stacked, Checked.ok_bind, rest]⟩

/-- Each page adds its frame behind those collected so far. -/
theorem addresses_of_collectRuns
    (found : directory.collectRuns count first collected = .ok (some runs)) :
    (Run.addressesOf runs).map some = (Run.addressesOf collected.reverse).map some ++
      (List.range' first count).map fun page => (directory.entries[page]?).map (·.address) := by
  induction count generalizing first collected with
  | zero =>
      cases found
      simp
  | succ count ih =>
      rw [collectRuns] at found
      split at found
      · cases found
      · rename_i translation here
        obtain ⟨more, stacked, found⟩ := Checked.bind_eq_ok.mp found
        rw [ih found, Run.addressesOf_stack stacked, List.range'_succ, List.map_cons, here,
          List.map_append, Run.addresses_single, List.append_assoc]
        rfl

theorem separate_of_collectRuns (separate : Run.Separate collected.reverse)
    (found : directory.collectRuns count first collected = .ok (some runs)) :
    Run.Separate runs := by
  induction count generalizing first collected with
  | zero =>
      cases found
      exact separate
  | succ count ih =>
      rw [collectRuns] at found
      split at found
      · cases found
      · obtain ⟨more, stacked, found⟩ := Checked.bind_eq_ok.mp found
        exact ih (Run.separate_of_stack separate Nat.one_ne_zero stacked) found

theorem separate_of_runs (found : directory.runs address pages = .ok (some runs)) :
    Run.Separate runs :=
  separate_of_collectRuns ⟨by simp, .nil⟩ found

theorem behind?_eq (directory : Directory) (address index : Nat) :
    directory.behind? address index =
      (directory.entries[pageOf address + index]?).map (·.address) := by
  rw [behind?, translate, pageOf_add_mul_pageSize]

theorem runs_describes (bounded : directory.EndsBelow wordLimit) (address pages : Nat) :
    ∃ found, directory.runs address pages = .ok found ∧
      directory.Describes address pages found := by
  obtain ⟨found, answered⟩ : ∃ found, directory.runs address pages = .ok found :=
    collectRuns_exists bounded pages (pageOf address) (by simp)
  have frames (runs : List Run) (same : found = some runs) :
      (Run.addressesOf runs).map some = (List.range pages).map (directory.behind? address) := by
    subst same
    rw [addresses_of_collectRuns answered, List.range'_eq_map_range, List.map_map]
    exact List.map_congr_left fun index _ => (behind?_eq directory address index).symm
  refine ⟨found, answered, ⟨?_, ?_, frames⟩⟩
  · cases found with
    | none =>
        obtain ⟨page, lower, upper, absent⟩ := collectRuns_eq_none answered
        refine iff_of_false (by simp) fun all => ?_
        have here := all (page - pageOf address) (by omega)
        rw [behind?_eq, Nat.add_sub_cancel' lower, absent] at here
        cases here
    | some runs =>
        refine iff_of_true rfl fun index inside => ?_
        have listed : directory.behind? address index ∈ (Run.addressesOf runs).map some := by
          rw [frames runs rfl]
          exact List.mem_map_of_mem (List.mem_range.mpr inside)
        obtain ⟨frame, _, same⟩ := List.mem_map.mp listed
        rw [← same]
        rfl
  · rintro runs rfl
    exact (separate_of_runs answered).normal

/-- Ranges have the same runs behind them when they have the same frames behind their pages. -/
theorem Describes.eq_some_iff (describes : directory.Describes address pages (some runs))
    (others : other.Describes otherAddress pages found) :
    found = some runs ↔ ∀ index < pages, ∃ frame,
      directory.behind? address index = some frame ∧
        other.behind? otherAddress index = some frame := by
  have whole := describes.isSome_iff.mp rfl
  have frames := describes.frames_eq runs rfl
  constructor
  · rintro rfl index inside
    obtain ⟨frame, here⟩ := Option.isSome_iff_exists.mp (whole index inside)
    refine ⟨frame, here, ?_⟩
    rw [others.frames_eq runs rfl] at frames
    rw [← here]
    exact List.map_inj_left.mp frames index (List.mem_range.mpr inside)
  · intro same
    have present : found.isSome := others.isSome_iff.mpr fun index inside => by
      obtain ⟨frame, _, there⟩ := same index inside
      rw [there]
      rfl
    obtain ⟨otherRuns, rfl⟩ := Option.isSome_iff_exists.mp present
    refine congrArg some ((others.normal _ rfl).eq_of_addressesOf (describes.normal _ rfl) ?_)
    refine List.map_injective_iff.mpr (Option.some_injective _) ?_
    rw [frames, others.frames_eq otherRuns rfl]
    refine List.map_congr_left fun index listed => ?_
    obtain ⟨frame, here, there⟩ := same index (List.mem_range.mp listed)
    rw [here, there]

end Directory

namespace AddressSpace

variable {space other : AddressSpace} {resources : Resources} {attached made : AttachedSpace}
variable {group : PageGroup} {address otherAddress pages : Nat} {runs : List Run}

/-- A group is made of the runs behind the range, as they are. -/
theorem runs_of_makeGroup (sound : attached.resources.descriptors.Sound)
    (grouped : makeGroup address pages attached = .done group made) :
    ∃ runs, attached.space.directory.runs address pages = .ok (some runs) ∧
      group.runs made.resources.descriptors = .ok runs := by
  obtain ⟨found, _, inspected, grouped⟩ := bind_eq_done.mp grouped
  obtain ⟨listed, rfl⟩ := inspect_eq_done.mp inspected
  cases found with
  | none => exact absurd grouped refuse_ne_done
  | some runs =>
      obtain ⟨descriptors, taken, rfl⟩ := focus_eq_done.mp grouped
      exact ⟨runs, listed,
        (PageGroup.occupies_of_separate sound (Directory.separate_of_runs listed) taken).held⟩

/-- A group with as many frames as the range has pages is compared run by run. -/
theorem isBackedBy_eq {found : Option (List Run)}
    (held : group.runs resources.descriptors = .ok runs)
    (length : (Run.addressesOf runs).length = pages) (few : pages < wordLimit)
    (listed : other.directory.runs otherAddress pages = .ok found) :
    isBackedBy group otherAddress pages ⟨other, resources⟩ =
      .done (decide (found = some runs)) ⟨other, resources⟩ := by
  have counted := PageGroup.pages_eq_word held
  rw [← Run.length_addressesOf, length, word_of_lt few] at counted
  simp only [isBackedBy, bind_apply, inspect_apply, check_ok, pure_apply, counted, ne_eq,
    not_true_eq_false, ↓reduceIte, listed]
  cases found with
  | none => simp
  | some behind => simp only [bind_apply, inspect_apply, held, check_ok, pure_apply,
      Option.some.injEq]

/-- What is behind a range is told page for page: the runs of a range exist when each page has a
frame, are in normal form and stand for these frames in order; and a group that has been made of one
range is behind another, of whichever of the two address spaces, when the pages at the same places
have the same frames. -/
theorem isBackedBy_is_exact (sound : resources.descriptors.Sound)
    (ends : space.directory.EndsBelow wordLimit) (otherEnds : other.directory.EndsBelow wordLimit)
    (few : pages < wordLimit) :
    (∃ found, space.directory.runs address pages = .ok found ∧
      space.directory.Describes address pages found) ∧
    ∀ group made, makeGroup address pages ⟨space, resources⟩ = .done group made →
      ∀ otherAddress, ∃ answer, isBackedBy group otherAddress pages ⟨other, made.resources⟩ =
          .done answer ⟨other, made.resources⟩ ∧
        (answer = true ↔ ∀ index < pages, ∃ frame,
          space.directory.behind? address index = some frame ∧
            other.directory.behind? otherAddress index = some frame) := by
  obtain ⟨found, listed, describes⟩ := Directory.runs_describes ends address pages
  refine ⟨⟨found, listed, describes⟩, fun group made grouped otherAddress => ?_⟩
  obtain ⟨others, otherListed, otherDescribes⟩ :=
    Directory.runs_describes otherEnds otherAddress pages
  obtain ⟨runs, behind, held⟩ := runs_of_makeGroup sound grouped
  obtain rfl := Except.ok.inj (listed.symm.trans behind)
  have length : (Run.addressesOf runs).length = pages := by
    simpa using congrArg List.length (describes.frames_eq runs rfl)
  refine ⟨_, isBackedBy_eq held length few otherListed, ?_⟩
  rw [decide_eq_true_iff, describes.eq_some_iff otherDescribes]

/-- Three ranges of three pages on two frames, the first two of which have them in the same
order. -/
def folded : AddressSpace :=
  let pages : List (Nat × Nat) := [
    (0x8000, 0x80001000), (0x8001, 0x80000000), (0x8002, 0x80001000),
    (0x9000, 0x80001000), (0x9001, 0x80000000), (0x9002, 0x80001000),
    (0xA000, 0x80000000), (0xA001, 0x80001000), (0xA002, 0x80001000)]
  { create 1 {} with directory :=
      ⟨pages.foldl (fun entries page => entries.insert page.1 ⟨page.2, .userRead⟩) ∅⟩ }

theorem folded_ends : folded.directory.EndsBelow wordLimit := by
  intro page translation listed
  simp only [folded, List.foldl_cons, List.foldl_nil, getElem?_insert_of_nat,
    Std.ExtTreeMap.getElem?_empty] at listed
  split_ifs at listed <;> cases listed <;> decide

/-- The group of the first range is behind the second one, but not behind the third. -/
theorem isBackedBy_is_exact_of_folded : ∃ group made,
    makeGroup 0x8000000 3 ⟨folded, ⟨.ofCapacity 2, ⟨0x80000000, 2, [], ∅⟩, .ignoring⟩⟩ =
        .done group made ∧
      isBackedBy group 0x9000000 3 ⟨folded, made.resources⟩ =
        .done true ⟨folded, made.resources⟩ ∧
      isBackedBy group 0xA000000 3 ⟨folded, made.resources⟩ =
        .done false ⟨folded, made.resources⟩ := by
  have grouped : (makeGroup 0x8000000 3
      ⟨folded, ⟨.ofCapacity 2, ⟨0x80000000, 2, [], ∅⟩, .ignoring⟩⟩).verdict = .ok ⟨[0, 1], 0⟩ := by
    decide +kernel
  obtain ⟨made, grouped⟩ := Outcome.verdict_eq_ok.mp grouped
  have compared := (isBackedBy_is_exact (DescriptorPool.sound_ofCapacity 2) folded_ends folded_ends
    (by decide)).2 _ made grouped
  obtain ⟨same, answered, same_iff⟩ := compared 0x9000000
  obtain ⟨turned, refused, turned_iff⟩ := compared 0xA000000
  obtain rfl : same = true := same_iff.mpr fun index inside => by
    obtain rfl | rfl | rfl : index = 0 ∨ index = 1 ∨ index = 2 := by omega
    all_goals exact ⟨_, rfl, by decide +kernel⟩
  obtain rfl : turned = false := Bool.eq_false_iff.mpr fun backed => by
    obtain ⟨frame, here, there⟩ := turned_iff.mp backed 0 (by decide)
    exact absurd (here.trans there.symm) (by decide +kernel)
  exact ⟨_, made, grouped, answered, refused⟩

end AddressSpace

end GuestMemory
