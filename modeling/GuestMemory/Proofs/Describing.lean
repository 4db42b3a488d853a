import GuestMemory.Proofs.Action.Verdicts
import GuestMemory.Proofs.Directory
import GuestMemory.Proofs.Resources.Safety
import GuestMemory.Proofs.Run.NormalForm
import Mathlib.Data.List.Chain

/-!
Describing frames: the frames behind a range of pages become runs, none directly followed by the
next, and each run takes one descriptor. Whether that succeeds is settled by the frames and by the
number of free descriptors.
-/

namespace GuestMemory

open GuestMemory.Action Verdict

variable {frames front back : List (Option Nat)} {collected lower runs result : List Run}
variable {run next added : Run} {capacity : Nat}

namespace Run

/-- Puts frames on a stack of runs, like the frames behind the pages of a range. -/
def gather : List (Option Nat) → List Run → Checked (Option (List Run))
  | [], collected => .ok (some collected.reverse)
  | none :: _, _ => .ok none
  | some frame :: rest, collected => do
    let collected ← stack ⟨frame * pageSize, 1⟩ collected
    gather rest collected

theorem frames_single (frame : Nat) : Run.frames ⟨frame * pageSize, 1⟩ = [frame] := by
  rw [Run.frames, pageOf_mul_pageSize]
  rfl

/-- Runs that have been gathered stand for the frames that they have been gathered from. -/
theorem framesOf_gather (gathered : gather frames collected = .ok (some runs)) :
    (framesOf runs).map some = (framesOf collected.reverse).map some ++ frames := by
  induction frames generalizing collected with
  | nil =>
      cases gathered
      simp
  | cons first rest ih =>
      cases first with
      | none => cases gathered
      | some frame =>
          obtain ⟨more, stacked, gathered⟩ := Checked.bind_eq_ok.mp gathered
          rw [ih gathered, framesOf_stack stacked, frames_single]
          simp

theorem framesOf_gathered (gathered : gather frames [] = .ok (some runs)) :
    (framesOf runs).map some = frames := by
  simpa using framesOf_gather gathered

/-- None of the runs is empty and none is directly followed by the next. -/
structure Separate (runs : List Run) : Prop where
  nonempty : ∀ run ∈ runs, run.pages ≠ 0
  apart : runs.IsChain fun run next => run.stop < wordLimit ∧ run.stop ≠ next.address

theorem Separate.left (separate : Separate (lower ++ runs)) : Separate lower where
  nonempty run member := separate.nonempty run (List.mem_append_left _ member)
  apart := (List.isChain_append.mp separate.apart).1

theorem separate_of_stack (separate : Separate lower.reverse) (nonempty : added.pages ≠ 0)
    (stacked : added.stack lower = .ok result) : Separate result.reverse := by
  have nonempties := separate.nonempty
  have chain := List.isChain_reverse.mp separate.apart
  cases lower with
  | nil =>
      cases stacked
      exact ⟨by simpa using nonempty, List.isChain_singleton _⟩
  | cons top below =>
      simp only [List.mem_reverse, List.forall_mem_cons] at nonempties
      obtain ⟨fits, ⟨joins, _, rfl⟩ | ⟨apart, rfl⟩⟩ := stack_cases stacked <;>
        refine ⟨?_, List.isChain_reverse.mpr ?_⟩
      · simp only [List.mem_reverse, List.forall_mem_cons]
        exact ⟨by simp [nonempty], nonempties.2⟩
      · cases chain with
        | singleton => exact List.isChain_singleton _
        | cons_cons before rest => exact .cons_cons before rest
      · simp only [List.mem_reverse, List.forall_mem_cons]
        exact ⟨nonempty, nonempties⟩
      · exact .cons_cons ⟨fits, apart⟩ chain

theorem separate_of_gather (separate : Separate collected.reverse)
    (gathered : gather frames collected = .ok (some runs)) : Separate runs := by
  induction frames generalizing collected with
  | nil =>
      cases gathered
      exact separate
  | cons first rest ih =>
      cases first with
      | none => cases gathered
      | some frame =>
          obtain ⟨more, stacked, gathered⟩ := Checked.bind_eq_ok.mp gathered
          exact ih (separate_of_stack separate Nat.one_ne_zero stacked) gathered

theorem separate_gathered (gathered : gather frames [] = .ok (some runs)) : Separate runs :=
  separate_of_gather ⟨by simp, .nil⟩ gathered

section Maximal

variable {listed : List Nat} {limit : Nat}

/-- The maximal parts of a list in which every frame is the one after that before it. -/
def contiguous (listed : List Nat) : List (List Nat) :=
  listed.splitBy fun frame next => next = frame + 1

/-- Separate runs are the maximal ones of the frames that they stand for. -/
theorem contiguous_framesOf (separate : Separate runs) (lie : ∀ run ∈ runs, run.Lies limit) :
    contiguous (framesOf runs) = runs.map Run.frames := by
  refine splitBy_flatMap_range' separate.nonempty ?_
  refine separate.apart.imp_of_mem_imp fun run next member nextMember between => ?_
  have apart := between.2
  have first := (lie run member).aligned
  have second := (lie next nextMember).aligned
  simp only [stop, size, pageOf, pageSize_eq] at *
  omega

variable (fits : limit < wordLimit) (lie : ∀ frame ∈ listed, Run.Lies limit ⟨frame * pageSize, 1⟩)

include lie

theorem lies_of_gather (collectedLie : ∀ run ∈ collected, run.Lies limit)
    (gathered : gather (listed.map some) collected = .ok (some runs)) :
    ∀ run ∈ runs, run.Lies limit := by
  induction listed generalizing collected with
  | nil =>
      cases gathered
      simpa using collectedLie
  | cons frame rest ih =>
      obtain ⟨first, others⟩ := List.forall_mem_cons.mp lie
      obtain ⟨more, stacked, gathered⟩ := Checked.bind_eq_ok.mp gathered
      exact ih others (lies_of_stack stacked first collectedLie) gathered

include fits

theorem gather_exists (collectedLie : ∀ run ∈ collected, run.Lies limit) :
    ∃ runs, gather (listed.map some) collected = .ok (some runs) := by
  induction listed generalizing collected with
  | nil => exact ⟨_, rfl⟩
  | cons frame rest ih =>
      obtain ⟨first, others⟩ := List.forall_mem_cons.mp lie
      obtain ⟨more, stacked⟩ :=
        (safe_stack (.inr ⟨fits, first, collectedLie⟩)).exists_of_none
      obtain ⟨runs, gathered⟩ := ih others (lies_of_stack stacked first collectedLie)
      exact ⟨runs, by rw [List.map_cons, gather, stacked, Checked.ok_bind, gathered]⟩

/-- Frames before the last address take as many runs as there are maximal ones. -/
theorem gather_eq : ∃ runs, gather (listed.map some) [] = .ok (some runs) ∧
    runs.length = (contiguous listed).length := by
  obtain ⟨runs, gathered⟩ :=
    gather_exists fits lie fun run member => absurd member List.not_mem_nil
  have placed := lies_of_gather lie (fun run member => absurd member List.not_mem_nil) gathered
  have frames : framesOf runs = listed :=
    List.map_injective_iff.mpr (Option.some_injective _) (framesOf_gathered gathered)
  refine ⟨runs, gathered, ?_⟩
  rw [← frames, contiguous_framesOf (separate_gathered gathered) placed, List.length_map]

end Maximal

/-- A stack that ends like another one, with fewer runs or a shorter one on top. -/
inductive Trails : List Run → List Run → Prop
  | nothing {other : List Run} : Trails [] other
  | top {run upper : Run} {lower other : List Run} (stop_eq : run.stop = upper.stop)
    (pages_le : run.pages ≤ upper.pages) (length_le : lower.length ≤ other.length) :
    Trails (run :: lower) (upper :: other)

theorem Trails.length_le (trails : Trails lower collected) : lower.length ≤ collected.length := by
  cases trails with
  | nothing => exact Nat.zero_le _
  | top _ _ length_le => exact Nat.succ_le_succ length_le

theorem Trails.stack (trails : Trails lower collected)
    (stacked : added.stack collected = .ok result) :
    ∃ shorter, added.stack lower = .ok shorter ∧ Trails shorter result := by
  cases trails with
  | nothing =>
      refine ⟨[added], rfl, ?_⟩
      cases collected with
      | nil =>
          cases stacked
          exact .top rfl (Nat.le_refl _) (Nat.le_refl _)
      | cons upper other =>
          obtain ⟨_, ⟨joins, _, rfl⟩ | ⟨_, rfl⟩⟩ := stack_cases stacked
          · exact .top (stop_extend joins).symm (Nat.le_add_left _ _) (Nat.zero_le _)
          · exact .top rfl (Nat.le_refl _) (Nat.zero_le _)
  | top stop_eq pages_le length_le =>
      obtain ⟨fits, ⟨joins, few, rfl⟩ | ⟨apart, rfl⟩⟩ := stack_cases stacked
      · have follows := stop_eq.trans joins
        refine ⟨_, stack_of_joins follows (stop_eq ▸ fits) (by omega), .top ?_ ?_ length_le⟩
        · rw [stop_extend joins, stop_extend follows]
        · exact Nat.add_le_add_right pages_le _
      · exact ⟨_, stack_of_apart (stop_eq ▸ apart) (stop_eq ▸ fits),
          .top rfl (Nat.le_refl _) (Nat.succ_le_succ length_le)⟩

theorem Trails.gather (trails : Trails lower collected)
    (gathered : gather frames collected = .ok (some runs)) :
    ∃ fewer, Run.gather frames lower = .ok (some fewer) ∧ fewer.length ≤ runs.length := by
  induction frames generalizing lower collected with
  | nil =>
      cases gathered
      exact ⟨_, rfl, by simpa using trails.length_le⟩
  | cons first rest ih =>
      cases first with
      | none => cases gathered
      | some frame =>
          obtain ⟨more, stacked, gathered⟩ := Checked.bind_eq_ok.mp gathered
          obtain ⟨shorter, placed, trails⟩ := trails.stack stacked
          obtain ⟨fewer, rest, length⟩ := ih trails gathered
          exact ⟨fewer, by rw [Run.gather, placed, Checked.ok_bind, rest], length⟩

theorem length_le_of_stack (stacked : added.stack lower = .ok result) :
    lower.length ≤ result.length := by
  cases lower with
  | nil => exact Nat.zero_le _
  | cons top below =>
      obtain ⟨_, ⟨_, _, rfl⟩ | ⟨_, rfl⟩⟩ := stack_cases stacked
      · exact Nat.le_refl _
      · exact Nat.le_succ _

theorem length_le_of_gather (gathered : gather frames collected = .ok (some runs)) :
    collected.length ≤ runs.length := by
  induction frames generalizing collected with
  | nil =>
      cases gathered
      simp
  | cons first rest ih =>
      cases first with
      | none => cases gathered
      | some frame =>
          obtain ⟨more, stacked, gathered⟩ := Checked.bind_eq_ok.mp gathered
          exact Nat.le_trans (length_le_of_stack stacked) (ih gathered)

theorem gather_append (gathered : gather (front ++ back) collected = .ok (some runs)) :
    ∃ middle, gather front collected = .ok (some middle.reverse) ∧
      gather back middle = .ok (some runs) := by
  induction front generalizing collected with
  | nil => exact ⟨collected, rfl, gathered⟩
  | cons first rest ih =>
      cases first with
      | none => cases gathered
      | some frame =>
          obtain ⟨more, stacked, gathered⟩ := Checked.bind_eq_ok.mp gathered
          obtain ⟨middle, before, after⟩ := ih gathered
          exact ⟨middle, by rw [gather, stacked, Checked.ok_bind, before], after⟩

/-- Cutting a range in two needs no more runs for either part. -/
theorem gather_parts (gathered : gather (front ++ back) [] = .ok (some runs)) :
    (∃ first, gather front [] = .ok (some first) ∧ first.length ≤ runs.length) ∧
      ∃ second, gather back [] = .ok (some second) ∧ second.length ≤ runs.length := by
  obtain ⟨middle, before, after⟩ := gather_append gathered
  exact ⟨⟨_, before, by simpa using length_le_of_gather after⟩, Trails.nothing.gather after⟩

end Run

/-- The runs of the frames behind a range. They must not need more descriptors than are free. -/
def describe (capacity : Nat) (frames : List (Option Nat)) : Verdict (List Run) := do
  match ← (Run.gather frames []).verdict with
  | none => .error (.refused .invalidCurrentMemory)
  | some runs =>
    demand (runs.length ≤ capacity) (.refused .outOfResource)
    return runs

theorem describe_eq_ok : describe capacity frames = .ok runs ↔
    Run.gather frames [] = .ok (some runs) ∧ runs.length ≤ capacity := by
  rw [describe, Verdict.bind_eq_ok]
  constructor
  · rintro ⟨found, gathered, described⟩
    rw [Checked.verdict_eq_ok] at gathered
    cases found with
    | none => cases described
    | some gatheredRuns =>
        obtain ⟨_, few, built⟩ := Verdict.bind_eq_ok.mp described
        cases built
        exact ⟨gathered, demand_eq_ok.mp few⟩
  · rintro ⟨gathered, few⟩
    exact ⟨some runs, Checked.verdict_eq_ok.mpr gathered, by simp [demand_of_true few]⟩

theorem describe_parts (described : describe capacity (front ++ back) = .ok runs) :
    (∃ first, describe capacity front = .ok first) ∧
      ∃ second, describe capacity back = .ok second := by
  obtain ⟨gathered, few⟩ := describe_eq_ok.mp described
  obtain ⟨⟨first, before, fewer⟩, second, after, less⟩ := Run.gather_parts gathered
  exact ⟨⟨first, describe_eq_ok.mpr ⟨before, Nat.le_trans fewer few⟩⟩,
    second, describe_eq_ok.mpr ⟨after, Nat.le_trans less few⟩⟩

/-- The frames behind the pages of a range, gathered. -/
theorem Directory.runs_eq_gather {directory : Directory} {address pages : Nat}
    (aligned : ∀ (page : Nat) translation, directory.entries[page]? = some translation →
      translation.address % pageSize = 0) :
    directory.runs address pages =
      Run.gather ((List.range' (pageOf address) pages).map directory.frameAt?) [] := by
  rw [runs]
  generalize pageOf address = first
  generalize ([] : List Run) = collected
  induction pages generalizing first collected with
  | zero => rfl
  | succ count ih =>
      rw [List.range'_succ, List.map_cons, collectRuns, frameAt?]
      cases found : directory.entries[first]? with
      | none => rfl
      | some translation =>
          have whole : pageOf translation.address * pageSize = translation.address :=
            Nat.div_mul_cancel (Nat.dvd_of_mod_eq_zero (aligned first translation found))
          simp only [Option.map_some, Run.gather, whole, ih]

namespace PageGroup

variable {group : PageGroup} {before pool after : DescriptorPool} {held : List Run}

namespace Occupies

/-- The run in the last descriptor of a group is the last of its runs. -/
theorem last (occupies : Occupies before group held pool) {id : Nat}
    (listed : group.descriptors.getLast? = some id) :
    ∃ front last, held = front ++ [last] ∧ pool.get id = .ok last := by
  obtain ⟨descriptors, ends⟩ := List.getLast?_eq_some_iff.mp listed
  have runs := occupies.held
  rw [PageGroup.runs, ends, List.mapM_append] at runs
  simp only [List.mapM_cons, List.mapM_nil, Checked.bind_eq_ok, Checked.pure_eq_ok] at runs
  obtain ⟨front, _, _, ⟨last, got, _, rfl, rfl⟩, rfl⟩ := runs
  exact ⟨front, last, rfl, got⟩

/-- A run that does not follow the last one takes a descriptor. -/
theorem add_eq_addDescriptor (occupies : Occupies before group held pool)
    (unheld : group.holds = 0) (separate : Run.Separate (held ++ [run])) :
    group.add run pool = group.addDescriptor run pool := by
  have nonempty := separate.nonempty run (by simp)
  rw [PageGroup.add, if_neg (by simpa using unheld), if_neg nonempty]
  cases listed : group.descriptors.getLast? with
  | none => rfl
  | some id =>
      obtain ⟨front, last, rfl, got⟩ := occupies.last listed
      have chain := separate.apart
      rw [List.append_assoc, List.isChain_append] at chain
      obtain ⟨fits, apart⟩ := (List.isChain_cons_cons.mp chain.2.1).1
      simp [got, Run.isFollowedBy, Run.checkedStop, word_of_lt fits, apart]

/-- Separate runs take one descriptor each. -/
theorem ending_addAll (occupies : Occupies before group held pool) (sound : pool.Sound)
    (unheld : group.holds = 0) (separate : Run.Separate (held ++ runs)) :
    (group.addAll runs pool).ending =
        demand (runs.length ≤ pool.free.length) (.refused .outOfResource) ∧
      ∀ grown after, group.addAll runs pool = .done grown after →
        Occupies before grown (held ++ runs) after := by
  induction runs generalizing group held pool with
  | nil =>
      refine ⟨(demand_of_true (Nat.zero_le _)).symm, fun grown after done => ?_⟩
      cases done
      rwa [List.append_nil]
  | cons run rest ih =>
      rw [List.append_cons] at separate ⊢
      have added := occupies.add_eq_addDescriptor unheld separate.left
      have adding : group.addAll (run :: rest) pool =
          ((group.addDescriptor run).onRefusal group.releaseDescriptors >>=
            fun grown => grown.addAll rest) pool := by
        rw [PageGroup.addAll, bind_apply, bind_apply, onRefusal, onRefusal, added]
      cases free : pool.free with
      | nil =>
          obtain ⟨freed, cleaned⟩ := occupies.releaseDescriptors_exists
          have refused : group.addAll (run :: rest) pool =
              .refused (.descriptorsExhausted pool.capacity) freed := by
            rw [adding, bind_apply, onRefusal, addDescriptor_of_full free]
            simp only [cleaned]
          rw [refused]
          exact ⟨rfl, fun _ _ done => by cases done⟩
      | cons id others =>
          obtain ⟨grown, after, done, rest_eq⟩ :
              ∃ grown after, group.addDescriptor run pool = .done grown after ∧
                after.free = others := addDescriptor_of_free free
          obtain ⟨grows, holds⟩ := occupies.addDescriptor sound done
          have kept := keeps_addDescriptor _ _ sound (by rw [done]; rfl)
          obtain ⟨ending, described⟩ := ih grows kept (holds.trans unheld) separate
          rw [adding, bind_apply, onRefusal, done]
          refine ⟨ending.trans (demand_congr ?_), described⟩
          rw [rest_eq, List.length_cons, List.length_cons]
          omega

end Occupies

theorem ending_ofRuns (sound : pool.Sound) (separate : Run.Separate runs) :
    (ofRuns runs pool).ending =
      demand (runs.length ≤ pool.free.length) (.refused .outOfResource) :=
  ((Occupies.empty pool).ending_addAll sound rfl separate).1

theorem occupies_of_separate (sound : pool.Sound) (separate : Run.Separate runs)
    (made : ofRuns runs pool = .done group after) : Occupies pool group runs after :=
  ((Occupies.empty pool).ending_addAll sound rfl separate).2 group after made

end PageGroup

end GuestMemory
