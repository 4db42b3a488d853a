import GuestMemory.Run
import GuestMemory.Proofs.Address
import GuestMemory.Proofs.Checked

/-!
Runs as lists of frames. However runs are joined, the frames they stand for stay the same, in the
same order.
-/

namespace GuestMemory.Run

variable {run added : Run} {lower result : List Run} {address count : Nat}

def frames (run : Run) : List Nat :=
  List.range' (pageOf run.address) run.pages

def framesOf (runs : List Run) : List Nat :=
  runs.flatMap frames

@[simp]
theorem framesOf_nil : framesOf [] = [] :=
  rfl

@[simp]
theorem framesOf_cons (run : Run) (rest : List Run) :
    framesOf (run :: rest) = run.frames ++ framesOf rest :=
  rfl

@[simp]
theorem framesOf_append (front back : List Run) :
    framesOf (front ++ back) = framesOf front ++ framesOf back :=
  List.flatMap_append

theorem length_frames (run : Run) : run.frames.length = run.pages :=
  List.length_range'

theorem mem_frames {frame : Nat} :
    frame ∈ run.frames ↔ pageOf run.address ≤ frame ∧ frame < pageOf run.address + run.pages := by
  rw [frames, List.mem_range'_1]

theorem isFollowedBy_eq_ok {answer : Bool} (followed : run.isFollowedBy address = .ok answer) :
    run.stop < wordLimit ∧ answer = decide (run.stop = address) := by
  rw [isFollowedBy, checkedStop, Checked.bind_eq_ok] at followed
  obtain ⟨stop, fits, decided⟩ := followed
  obtain ⟨bounded, rfl⟩ := word_eq_ok_iff.mp fits
  exact ⟨bounded, (Except.ok.inj decided).symm⟩

theorem extend_eq_ok (extended : run.extend count = .ok added) :
    added = { run with pages := run.pages + count } := by
  rw [extend, Checked.bind_eq_ok] at extended
  obtain ⟨pages, fits, built⟩ := extended
  obtain ⟨_, rfl⟩ := word_eq_ok_iff.mp fits
  exact (Except.ok.inj built).symm

/-- A run that another follows takes it up frame by frame. -/
theorem frames_extend (followed : run.stop = added.address) :
    frames { run with pages := run.pages + added.pages } = run.frames ++ added.frames := by
  have next : pageOf added.address = pageOf run.address + run.pages := by
    rw [← followed, stop, size, pageOf_add_mul_pageSize]
  rw [frames, frames, frames, next, List.range'_append_1]

theorem stack_of_joins (joins : run.stop = added.address) (fits : run.stop < wordLimit)
    (few : run.pages + added.pages < wordLimit) :
    added.stack (run :: lower) = .ok ({ run with pages := run.pages + added.pages } :: lower) := by
  simp only [stack, isFollowedBy, checkedStop, extend, word_of_lt fits, word_of_lt few]
  simp [joins]

theorem stack_of_apart (apart : run.stop ≠ added.address) (fits : run.stop < wordLimit) :
    added.stack (run :: lower) = .ok (added :: run :: lower) := by
  simp [stack, isFollowedBy, checkedStop, word_of_lt fits, apart]

/-- What putting a run on a stack can do. -/
theorem stack_cases (stacked : added.stack (run :: lower) = .ok result) :
    run.stop < wordLimit ∧
      (run.stop = added.address ∧ run.pages + added.pages < wordLimit ∧
          result = { run with pages := run.pages + added.pages } :: lower ∨
        run.stop ≠ added.address ∧ result = added :: run :: lower) := by
  obtain ⟨follows, followed, stacked⟩ := Checked.bind_eq_ok.mp stacked
  obtain ⟨fits, rfl⟩ := isFollowedBy_eq_ok followed
  refine ⟨fits, ?_⟩
  by_cases joins : run.stop = added.address
  · rw [if_pos (decide_eq_true joins)] at stacked
    obtain ⟨longer, extended, built⟩ := Checked.bind_eq_ok.mp stacked
    obtain ⟨pages, few, whole⟩ := Checked.bind_eq_ok.mp extended
    obtain ⟨bounded, rfl⟩ := word_eq_ok_iff.mp few
    cases whole
    cases built
    exact .inl ⟨joins, bounded, rfl⟩
  · rw [if_neg (by simpa using joins)] at stacked
    cases stacked
    exact .inr ⟨joins, rfl⟩

/-- Whatever runs stand for, so long as one that another follows takes that up: a stack stands for
the same as before, and for what the new run does. -/
theorem flatMap_stack {expand : Run → List Nat}
    (expand_extend : ∀ {run added : Run}, run.stop = added.address →
      expand { run with pages := run.pages + added.pages } = expand run ++ expand added)
    (stacked : added.stack lower = .ok result) :
    result.reverse.flatMap expand = lower.reverse.flatMap expand ++ expand added := by
  cases lower with
  | nil =>
      cases stacked
      simp
  | cons top below =>
      obtain ⟨_, ⟨joins, _, rfl⟩ | ⟨_, rfl⟩⟩ := stack_cases stacked
      · simp only [List.reverse_cons, List.flatMap_append, List.flatMap_singleton,
          expand_extend joins, List.append_assoc]
      · simp

theorem framesOf_stack (stacked : added.stack lower = .ok result) :
    framesOf result.reverse = framesOf lower.reverse ++ added.frames :=
  flatMap_stack frames_extend stacked

theorem stop_extend (follows : run.stop = added.address) :
    stop { run with pages := run.pages + added.pages } = added.stop := by
  simp only [stop, size, Nat.add_mul] at *
  omega

/-- The run starts with a frame and does not pass the limit. -/
structure Lies (limit : Nat) (run : Run) : Prop where
  aligned : run.address % pageSize = 0
  bounded : run.stop ≤ limit

variable {limit : Nat}

theorem Lies.extend (lies : run.Lies limit) (follows : run.stop = added.address)
    (addedLies : added.Lies limit) : Lies limit { run with pages := run.pages + added.pages } :=
  ⟨lies.aligned, Nat.le_trans (Nat.le_of_eq (stop_extend follows)) addedLies.bounded⟩

theorem lies_of_stack (stacked : added.stack lower = .ok result) (lies : added.Lies limit)
    (lowerLie : ∀ other ∈ lower, other.Lies limit) : ∀ other ∈ result, other.Lies limit := by
  cases lower with
  | nil =>
      cases stacked
      simpa using lies
  | cons top below =>
      obtain ⟨topLies, belowLie⟩ := List.forall_mem_cons.mp lowerLie
      obtain ⟨_, ⟨joins, _, rfl⟩ | ⟨_, rfl⟩⟩ := stack_cases stacked
      · exact List.forall_mem_cons.mpr ⟨topLies.extend joins lies, belowLie⟩
      · exact List.forall_mem_cons.mpr ⟨lies, lowerLie⟩

end GuestMemory.Run
