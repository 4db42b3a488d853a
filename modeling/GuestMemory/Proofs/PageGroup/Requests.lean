import GuestMemory.Proofs.Action.Verdicts
import GuestMemory.Proofs.FramePool.Wrapping
import GuestMemory.Proofs.PageGroup.Sharing
import Mathlib.Data.List.ReduceOption

/-!
Requests to page groups that share descriptors and frames. Whatever is asked of them in whatever
order, each group is a list of runs that only requests to itself change, and each frame has the
references that the groups and the direct requests for frames account for.
-/

namespace GuestMemory.PageGroup

open GuestMemory.Action

/-- Page groups by number, and what they share. Nothing is left under the number of a group that has
been discarded. -/
structure Groups where
  slots : List (Option PageGroup)
  resources : Resources
  deriving DecidableEq

/-- What can be asked of the groups, and of the pool of frames past them. -/
inductive Request where
  | create
  | add (index : Nat) (run : Run)
  | retain (index : Nat)
  | release (index : Nat)
  | discard (index : Nat)
  | allocateFrames (pages : Nat)
  | releaseFrames (run : Run)
  deriving DecidableEq

inductive Answer where
  | done
  | absent
  | allocated (address : Nat)
  | refused (error : Error)
  deriving DecidableEq

/-- Acts on a group. What is left of the group stays under its number. -/
def onGroup (index : Nat) (action : PageGroup → Action Resources (Option PageGroup)) :
    Action Groups Answer := fun groups =>
  match groups.slots[index]? with
  | some (some group) =>
    match action group groups.resources with
    | .done left resources => .done .done ⟨groups.slots.set index left, resources⟩
    | .refused cause resources => .done (.refused cause.error) { groups with resources }
    | .fault fault => .fault fault
  | _ => .done .absent groups

def change (step : Resources → Checked (PageGroup × Resources)) :
    Action Resources (Option PageGroup) := fun resources =>
  match step resources with
  | .ok (group, resources) => .done (some group) resources
  | .error fault => .fault fault

def addRun (run : Run) (group : PageGroup) : Action Resources (Option PageGroup) :=
  .focus (·.descriptors) (fun resources descriptors => { resources with descriptors }) do
    let group ← group.add run
    return some group

def onFrames (action : Action FramePool Answer) : Action Groups Answer :=
  .focus (·.resources.frames)
    (fun groups frames => { groups with resources := { groups.resources with frames } }) action

/-- The frames that a request past the groups was given. -/
def Request.granted : Request → Answer → Nat
  | allocateFrames pages, .allocated _ => pages
  | _, _ => 0

/-- The frames that requests past the groups were given, all together. -/
def granted (requests : List Request) (answers : List Answer) : Nat :=
  (List.zipWith Request.granted requests answers).sum

/-- The number of the group that is asked. -/
def Request.index? : Request → Option Nat
  | add index _ | retain index | release index | discard index => some index
  | create | allocateFrames _ | releaseFrames _ => none

/-- Serves a request. To be refused is an answer like any other, after which the groups go on. -/
def Request.serve : Request → Action Groups Answer
  | create => fun groups => .done .done { groups with slots := groups.slots ++ [some .empty] }
  | add index run => onGroup index (addRun run)
  | retain index => onGroup index fun group => change group.retain
  | release index => onGroup index fun group => change group.release
  | discard index => onGroup index fun group => do
    .update group.discard
    return none
  | allocateFrames pages =>
    onFrames (.settle .allocated (fun cause => .refused cause.error) (FramePool.allocate pages))
  | releaseFrames run => onFrames do
    .update (FramePool.release · run)
    return .done

/-- A group without its descriptors. -/
structure Listing where
  runs : List Run
  holds : Nat

/-- The references of the group to a frame. -/
def Listing.references (listing : Listing) (frame : Nat) : Nat :=
  listing.holds * (Run.framesOf listing.runs).count frame

/-- What groups amount to: lists of runs, and the references that requests past them have added to
each frame and dropped. -/
structure Ledger where
  slots : List (Option Listing)
  direct : Nat → Int

namespace Ledger

variable (ledger : Ledger)

def live : List Listing :=
  ledger.slots.reduceOption

def inUse : Nat :=
  (ledger.live.map (·.runs.length)).sum

def references (frame : Nat) : Int :=
  ledger.direct frame + ((ledger.live.map (·.references frame)).sum : Nat)

def put (index : Nat) (left : Option Listing) : Ledger :=
  { ledger with slots := ledger.slots.set index left }

/-- What a request and its answer do to the lists of runs. Where the frames are that are allocated
is left open. -/
inductive Step (capacity : Nat) (ledger : Ledger) : Request → Answer → Ledger → Prop
  | created :
      Step capacity ledger .create .done { ledger with slots := ledger.slots ++ [some ⟨[], 0⟩] }
  | absent {request : Request} {index : Nat} (names : request.index? = some index)
      (none : ∀ listing, ledger.slots[index]? ≠ some (some listing)) :
      Step capacity ledger request .absent ledger
  | added {index : Nat} {run : Run} {listing : Listing}
      (found : ledger.slots[index]? = some (some listing)) (unheld : listing.holds = 0)
      (room : ¬ (Opens listing.runs run ∧ ledger.inUse = capacity)) :
      Step capacity ledger (.add index run) .done
        (ledger.put index (some ⟨appended listing.runs run, 0⟩))
  | full {index : Nat} {run : Run} {listing : Listing}
      (found : ledger.slots[index]? = some (some listing)) (unheld : listing.holds = 0)
      (full : Opens listing.runs run ∧ ledger.inUse = capacity) :
      Step capacity ledger (.add index run) (.refused .outOfResource) ledger
  | retained {index : Nat} {listing : Listing}
      (found : ledger.slots[index]? = some (some listing)) :
      Step capacity ledger (.retain index) .done
        (ledger.put index (some ⟨listing.runs, listing.holds + 1⟩))
  | released {index holds : Nat} {listing : Listing}
      (found : ledger.slots[index]? = some (some listing)) (held : listing.holds = holds + 1) :
      Step capacity ledger (.release index) .done (ledger.put index (some ⟨listing.runs, holds⟩))
  | discarded {index : Nat} {listing : Listing}
      (found : ledger.slots[index]? = some (some listing)) :
      Step capacity ledger (.discard index) .done (ledger.put index none)
  | framesAllocated {pages address : Nat}
      (vacant : ∀ frame ∈ (⟨address, pages⟩ : Run).frames, ledger.references frame = 0) :
      Step capacity ledger (.allocateFrames pages) (.allocated address)
        { ledger with direct := fun frame =>
            ledger.direct frame + (⟨address, pages⟩ : Run).frames.count frame }
  | framesRefused {pages : Nat} {error : Error} :
      Step capacity ledger (.allocateFrames pages) (.refused error) ledger
  | framesReleased {run : Run} :
      Step capacity ledger (.releaseFrames run) .done
        { ledger with direct := fun frame => ledger.direct frame - run.frames.count frame }

/-- Requests and their answers one after the other, from one ledger to another. -/
inductive Run (capacity : Nat) : Ledger → List Request → List Answer → Ledger → Prop
  | nil (ledger : Ledger) : Run capacity ledger [] [] ledger
  | cons {ledger middle final : Ledger} {request : Request} {answer : Answer}
      {requests : List Request} {answers : List Answer}
      (step : Step capacity ledger request answer middle)
      (rest : Run capacity middle requests answers final) :
      Run capacity ledger (request :: requests) (answer :: answers) final

/-- A run is turned down when it needs a descriptor and all are in use, and then only. -/
theorem Step.refused_iff {capacity index : Nat} {run : GuestMemory.Run} {answer : Answer}
    {listing : Listing} {ledger after : Ledger}
    (step : Step capacity ledger (.add index run) answer after)
    (found : ledger.slots[index]? = some (some listing)) :
    answer = .refused .outOfResource ↔ Opens listing.runs run ∧ ledger.inUse = capacity := by
  have same {other : Listing} (there : ledger.slots[index]? = some (some other)) :
      other = listing :=
    Option.some.inj (Option.some.inj (there.symm.trans found))
  cases step with
  | absent names none =>
      cases names
      exact absurd found (none listing)
  | added there _ room =>
      obtain rfl := same there
      exact iff_of_false (fun refused => by cases refused) room
  | full there _ full =>
      obtain rfl := same there
      exact iff_of_true rfl full

end Ledger

variable {groups reached : Groups} {ledger : Ledger} {group held : PageGroup}
variable {resources after : Resources} {request : Request} {requests : List Request}
variable {answer : Answer} {answers : List Answer} {runs : List Run} {cause : Refusal}
variable {left : Option PageGroup} {capacity index holds due : Nat} {place : Nat → Nat}

theorem release_eq_ok (released : group.release resources = .ok (held, after)) :
    ∃ holds runs frames, group.holds = holds + 1 ∧
      group.runs resources.descriptors = .ok runs ∧
      resources.frames.releaseAll runs = .ok frames ∧
      held = { group with holds } ∧ after = { resources with frames } := by
  rw [release] at released
  split at released
  · cases released
  · rename_i holds enough
    obtain ⟨runs, listed, released⟩ := Checked.bind_eq_ok.mp released
    obtain ⟨frames, dropped, built⟩ := Checked.bind_eq_ok.mp released
    cases built
    exact ⟨holds, runs, frames, enough, listed, dropped, rfl, rfl⟩

theorem apart_of_releaseHolds {frames dropped : FramePool} (apart : frames.Apart place due)
    (released : releaseHolds runs holds frames = .ok dropped) :
    dropped.Apart place due ∧ ∀ frame,
      dropped.held frame + holds * (Run.framesOf runs).count frame = frames.held frame := by
  induction holds generalizing frames with
  | zero =>
      cases released
      exact ⟨apart, fun frame => by rw [Nat.zero_mul, Nat.add_zero]⟩
  | succ holds ih =>
      rw [releaseHolds, Checked.bind_eq_ok] at released
      obtain ⟨middle, once, remaining⟩ := released
      obtain ⟨kept, dropped⟩ := ih (apart.releaseAll once) remaining
      refine ⟨kept, fun frame => ?_⟩
      rw [← FramePool.held_of_releaseAll once, ← dropped, Nat.succ_mul, Nat.add_assoc]

theorem onGroup_eq_done {action : PageGroup → Action Resources (Option PageGroup)}
    (served : onGroup index action groups = .done answer reached) :
    answer = .absent ∧ reached = groups ∧ (∀ group, groups.slots[index]? ≠ some (some group)) ∨
      ∃ group, groups.slots[index]? = some (some group) ∧
        ((∃ left after, action group groups.resources = .done left after ∧ answer = .done ∧
            reached = ⟨groups.slots.set index left, after⟩) ∨
          ∃ cause after, action group groups.resources = .refused cause after ∧
            answer = .refused cause.error ∧ reached = { groups with resources := after }) := by
  rw [onGroup] at served
  split at served
  · rename_i group slot
    refine .inr ⟨group, slot, ?_⟩
    split at served <;> cases served
    · exact .inl ⟨_, _, ‹_›, rfl, rfl⟩
    · exact .inr ⟨_, _, ‹_›, rfl, rfl⟩
  · rename_i missing
    cases served
    exact .inl ⟨rfl, rfl, missing⟩

theorem change_eq_done {step : Resources → Checked (PageGroup × Resources)}
    (changed : change step resources = .done left after) :
    ∃ group, step resources = .ok (group, after) ∧ left = some group := by
  rw [change] at changed
  split at changed <;> cases changed
  exact ⟨_, ‹_›, rfl⟩

theorem accepts_change (step : Resources → Checked (PageGroup × Resources)) :
    Accepts (change step) := by
  intro resources cause after
  rw [change]
  split <;> exact nofun

theorem addRun_eq_done {run : Run} (ended : addRun run group resources = .done left after) :
    ∃ grown descriptors, group.add run resources.descriptors = .done grown descriptors ∧
      left = some grown ∧ after = { resources with descriptors } := by
  obtain ⟨descriptors, done, rfl⟩ := focus_eq_done.mp ended
  obtain ⟨grown, _, added, built⟩ := bind_eq_done.mp done
  obtain ⟨rfl, rfl⟩ := pure_eq_done.mp built
  exact ⟨grown, _, added, rfl, rfl⟩

theorem addRun_eq_refused {run : Run}
    (ended : addRun run group resources = .refused cause after) :
    after = resources ∧
      group.add run resources.descriptors = .refused cause resources.descriptors := by
  obtain ⟨descriptors, stopped, rfl⟩ := focus_eq_refused.mp ended
  rcases bind_eq_refused.mp stopped with refused | ⟨_, _, _, built⟩
  · obtain rfl := add_refusesFirst _ _ _ trivial refused
    exact ⟨rfl, refused⟩
  · cases built

/-- What is refused changes nothing. -/
theorem eq_of_serve_refused {error : Error}
    (served : request.serve groups = .done (.refused error) reached) : reached = groups := by
  have onGroup {index : Nat} {action : PageGroup → Action Resources (Option PageGroup)}
      (first : ∀ group, RefusesFirst (action group))
      (served : onGroup index action groups = .done (.refused error) reached) :
      reached = groups := by
    rcases onGroup_eq_done served with ⟨absent, _⟩ |
      ⟨group, _, ⟨_, _, _, done, _⟩ | ⟨cause, after, refused, _, rfl⟩⟩
    · cases absent
    · cases done
    · rw [first group _ _ _ trivial refused]
  cases request with
  | create => cases served
  | add index run =>
      exact onGroup (fun group _ _ _ _ refused => (addRun_eq_refused refused).1) served
  | retain index => exact onGroup (fun group => (accepts_change _).restores) served
  | release index => exact onGroup (fun group => (accepts_change _).restores) served
  | discard index =>
      exact onGroup (fun group => ((Accepts.update _).bind fun _ => Accepts.pure _).restores) served
  | allocateFrames pages =>
      rw [Request.serve, onFrames, focus_eq_done] at served
      obtain ⟨frames, settled, rfl⟩ := served
      rcases settle_eq_done.mp settled with ⟨_, _, done⟩ | ⟨cause, refused, _⟩
      · cases done
      · rw [FramePool.allocate_eq_refused refused]
  | releaseFrames run =>
      rw [Request.serve, onFrames, focus_eq_done] at served
      obtain ⟨frames, served, rfl⟩ := served
      obtain ⟨_, _, _, ended⟩ := bind_eq_done.mp served
      cases (pure_eq_done.mp ended).1

def Groups.live (groups : Groups) : List PageGroup :=
  groups.slots.reduceOption

def listing (pool : DescriptorPool) (group : PageGroup) : Listing :=
  ⟨group.contents pool, group.holds⟩

section Slots

variable {slots : List (Option PageGroup)} {others : List PageGroup}
variable {pool changed : DescriptorPool}

theorem exists_of_slot (slot : slots[index]? = some (some group)) (left : Option PageGroup) :
    ∃ front back, slots = front ++ some group :: back ∧ front.length = index ∧
      slots.set index left = front ++ left :: back ∧
      slots.reduceOption = front.reduceOption ++ group :: back.reduceOption ∧
      (slots.set index left).reduceOption =
        front.reduceOption ++ (left.toList ++ back.reduceOption) := by
  obtain ⟨bounded, here⟩ := List.getElem?_eq_some_iff.mp slot
  obtain ⟨front, back, split, length, replaced⟩ := here ▸ List.exists_of_set bounded
  refine ⟨front, back, split, length, replaced, ?_, ?_⟩
  · rw [split, List.reduceOption_append, List.reduceOption_cons_of_some]
  · rw [replaced, List.reduceOption_append]
    cases left <;> rfl

theorem divided_create (divided : Divided capacity slots.reduceOption pool) :
    Divided capacity (slots ++ [some PageGroup.empty]).reduceOption pool := by
  rw [List.reduceOption_append]
  have last : ([PageGroup.empty] ++ slots.reduceOption).Perm
      (slots.reduceOption ++ [PageGroup.empty]) := List.perm_append_comm
  exact divided.create.perm last

theorem live_of_slots (slots_eq : ledger.slots = slots.map (Option.map (listing pool))) :
    ledger.live = slots.reduceOption.map (listing pool) := by
  rw [Ledger.live, slots_eq, List.reduceOption_map]

theorem references_of_slots (slots_eq : ledger.slots = slots.map (Option.map (listing pool)))
    (frame : Nat) : ledger.references frame = ledger.direct frame +
      ((slots.reduceOption.map fun group => (listing pool group).references frame).sum : Nat) := by
  rw [Ledger.references, live_of_slots slots_eq, List.map_map]
  rfl

theorem map_listing_congr
    (same : ∀ other ∈ slots.reduceOption, other.contents changed = other.contents pool) :
    slots.map (Option.map (listing changed)) = slots.map (Option.map (listing pool)) := by
  refine List.map_congr_left fun slot member => ?_
  cases slot with
  | none => rfl
  | some other =>
      have unchanged := same other (List.reduceOption_mem_iff.mpr member)
      rw [Option.map_some, Option.map_some, listing, listing, unchanged]

theorem references_congr (same : ∀ other ∈ others, other.contents changed = other.contents pool)
    (frame : Nat) : (others.map fun other => (listing changed other).references frame) =
      others.map fun other => (listing pool other).references frame :=
  List.map_congr_left fun other member => by rw [listing, listing, same other member]

end Slots

/-- The group has the runs and the holds that are listed. -/
def Shows (pool : DescriptorPool) (group : PageGroup) (listing : Listing) : Prop :=
  group.runs pool = .ok listing.runs ∧ group.holds = listing.holds

/-- The slots are those of the ledger, the descriptors in use are divided among the groups, and the
frames are referred to as the ledger says, of which as many as are due may still be given out. -/
structure Represents (capacity : Nat) (place : Nat → Nat) (due : Nat) (groups : Groups)
    (ledger : Ledger) : Prop where
  divided : Divided capacity groups.live groups.resources.descriptors
  slots_eq : ledger.slots = groups.slots.map (Option.map (listing groups.resources.descriptors))
  apart : groups.resources.frames.Apart place due
  held_eq : ∀ frame, (groups.resources.frames.held frame : Int) = ledger.references frame
  few : capacity < DescriptorPool.idLimit

namespace Represents

theorem of_create {frames : FramePool} {base total : Nat} (cache : InstructionCache)
    (created : FramePool.create base total = .ok frames) (apart : frames.Apart place due)
    (few : capacity < DescriptorPool.idLimit) :
    Represents capacity place due ⟨[], ⟨.ofCapacity capacity, frames, cache⟩⟩ ⟨[], fun _ => 0⟩ where
  divided := divided_ofCapacity capacity
  slots_eq := rfl
  apart := apart
  held_eq := fun frame => by
    rw [FramePool.create] at created
    split at created <;> cases created
    rw [FramePool.held, Std.ExtTreeMap.getElem?_empty]
    rfl
  few := few

/-- Requests past the groups leave those alone. -/
theorem reframe {frames : FramePool} {direct : Nat → Int} {more : Nat}
    (represents : Represents capacity place more groups ledger) (apart : frames.Apart place due)
    (counts : ∀ frame, (frames.held frame : Int) + ledger.direct frame =
      groups.resources.frames.held frame + direct frame) :
    Represents capacity place due { groups with resources := { groups.resources with frames } }
      { ledger with direct } where
  divided := represents.divided
  slots_eq := represents.slots_eq
  apart := apart
  held_eq := fun frame => by
    have before := represents.held_eq frame
    have changed := counts frame
    simp only [Ledger.references, Ledger.live] at before ⊢
    omega
  few := represents.few

theorem allocateFrames {frames : FramePool} {pages address : Nat}
    (represents : Represents capacity place (due + pages) groups ledger)
    (allocated : FramePool.allocate pages groups.resources.frames = .done address frames) :
    ∃ further, Ledger.Step capacity ledger (.allocateFrames pages) (.allocated address) further ∧
      Represents capacity place due
        { groups with resources := { groups.resources with frames } } further := by
  obtain ⟨apart, counts⟩ := represents.apart.allocate allocated
  refine ⟨_, .framesAllocated fun frame member => ?_, represents.reframe apart fun frame => ?_⟩
  · rw [← represents.held_eq, FramePool.held, represents.apart.unallocated]
    · rfl
    · obtain ⟨_, free, taken, _⟩ := FramePool.allocate_eq_done allocated
      exact (FramePool.framesOf_takeFirstFit taken).mem_iff.mpr (List.mem_append_left _ member)
  · rw [counts]
    omega

section Groups

variable (represents : Represents capacity place due groups ledger)

include represents

theorem live_eq : ledger.live = groups.live.map (listing groups.resources.descriptors) :=
  live_of_slots represents.slots_eq

theorem inUse_eq : groups.resources.descriptors.inUse = ledger.inUse := by
  rw [represents.divided.inUse_eq represents.few, Ledger.inUse, represents.live_eq, List.map_map]
  exact congrArg List.sum (List.map_congr_left fun group member =>
    (represents.divided.length_contents member).symm)

theorem found (slot : groups.slots[index]? = some (some group)) :
    ledger.slots[index]? = some (some (listing groups.resources.descriptors group)) := by
  rw [represents.slots_eq, List.getElem?_map, slot]
  rfl

theorem missing (none : ∀ group, groups.slots[index]? ≠ some (some group)) (listing : Listing) :
    ledger.slots[index]? ≠ some (some listing) := by
  intro found
  rw [represents.slots_eq, List.getElem?_map, Option.map_eq_some_iff] at found
  obtain ⟨slot, there, mapped⟩ := found
  obtain ⟨group, rfl, _⟩ := Option.map_eq_some_iff.mp mapped
  exact none group there

/-- What happens to one group concerns no other, whatever is left of it. -/
theorem replace (left : Option PageGroup) (slot : groups.slots[index]? = some (some group))
    (divided : ∀ others, Divided capacity (group :: others) groups.resources.descriptors →
      Divided capacity (left.toList ++ others) after.descriptors ∧
        ∀ other ∈ others, other.contents after.descriptors =
          other.contents groups.resources.descriptors)
    (apart : after.frames.Apart place due)
    (counts : ∀ frame, after.frames.held frame +
        (listing groups.resources.descriptors group).references frame =
      groups.resources.frames.held frame +
        (left.map fun group => (listing after.descriptors group).references frame).getD 0) :
    Represents capacity place due ⟨groups.slots.set index left, after⟩
      (ledger.put index (left.map (listing after.descriptors))) := by
  obtain ⟨front, back, split, length, replaced, live, liveAfter⟩ := exists_of_slot slot left
  rw [← Groups.live] at live
  obtain ⟨whole, same⟩ := divided (front.reduceOption ++ back.reduceOption)
    (represents.divided.perm (live ▸ List.perm_middle))
  obtain ⟨early, late⟩ := List.forall_mem_append.mp same
  have slots_eq : (ledger.put index (left.map (listing after.descriptors))).slots =
      (groups.slots.set index left).map (Option.map (listing after.descriptors)) := by
    rw [Ledger.put, represents.slots_eq, replaced, split, List.map_append, List.map_append,
      map_listing_congr early, List.map_cons, List.map_cons, map_listing_congr late,
      List.set_append_right _ _ (by simp [length])]
    simp [length]
  refine ⟨?_, slots_eq, apart, fun frame => ?_, represents.few⟩
  · rw [Groups.live, liveAfter]
    exact whole.perm (List.perm_append_comm_assoc _ _ _)
  · have before := represents.held_eq frame
    have changed := counts frame
    have remaining : (left.toList.map fun group =>
        (listing after.descriptors group).references frame).sum =
          (left.map fun group => (listing after.descriptors group).references frame).getD 0 := by
      cases left <;> simp
    rw [references_of_slots represents.slots_eq, ← Groups.live, live, List.map_append,
      List.map_cons, List.sum_append, List.sum_cons] at before
    rw [references_of_slots slots_eq, liveAfter, List.map_append, List.map_append, List.sum_append,
      List.sum_append, references_congr early, references_congr late, remaining]
    simp only [Ledger.put]
    omega

theorem create :
    Represents capacity place due { groups with slots := groups.slots ++ [some .empty] }
      { ledger with slots := ledger.slots ++ [some ⟨[], 0⟩] } where
  divided := divided_create represents.divided
  slots_eq := by
    rw [represents.slots_eq, List.map_append]
    rfl
  apart := represents.apart
  held_eq := fun frame => by
    rw [represents.held_eq, Ledger.references, Ledger.references, Ledger.live, Ledger.live,
      List.reduceOption_append, List.map_append, List.sum_append]
    simp [List.reduceOption, Listing.references]
  few := represents.few

/-- The groups of the table with the one under a number in front. -/
theorem divided_cons (slot : groups.slots[index]? = some (some group)) :
    ∃ others, Divided capacity (group :: others) groups.resources.descriptors :=
  ⟨_, represents.divided.perm
    (List.perm_cons_erase (List.reduceOption_mem_iff.mpr (List.mem_of_getElem? slot)))⟩

theorem runs_eq (slot : groups.slots[index]? = some (some group)) :
    group.runs groups.resources.descriptors =
      .ok (group.contents groups.resources.descriptors) := by
  obtain ⟨others, divided⟩ := represents.divided_cons slot
  exact divided.runs_eq List.mem_cons_self

theorem add (slot : groups.slots[index]? = some (some group)) {run : Run} {grown : PageGroup}
    {descriptors : DescriptorPool}
    (added : group.add run groups.resources.descriptors = .done grown descriptors) :
    ∃ further, Ledger.Step capacity ledger (.add index run) .done further ∧
      Represents capacity place due
        ⟨groups.slots.set index (some grown), { groups.resources with descriptors }⟩ further := by
  obtain ⟨others, divided⟩ := represents.divided_cons slot
  obtain ⟨unheld, closed, room, _, contents, _⟩ := divided.add added
  have listed : listing descriptors grown =
      ⟨appended (listing groups.resources.descriptors group).runs run, 0⟩ := by
    rw [listing, listing, contents, closed]
  refine ⟨_, .added (represents.found slot) unheld (by rwa [← represents.inUse_eq]),
    listed ▸ represents.replace (some grown) slot (fun others divided => ?_)
      represents.apart fun frame => ?_⟩
  · obtain ⟨_, _, _, grows, _, same⟩ := divided.add added
    exact ⟨grows, same⟩
  · simp [listing, Listing.references, unheld, closed]

theorem add_refused (slot : groups.slots[index]? = some (some group)) {run : Run}
    (refused : group.add run groups.resources.descriptors =
      .refused cause groups.resources.descriptors) :
    Ledger.Step capacity ledger (.add index run) (.refused cause.error) ledger := by
  obtain ⟨others, divided⟩ := represents.divided_cons slot
  obtain ⟨unheld, opens, full, error, _⟩ := divided.add_refused refused
  rw [error]
  exact .full (represents.found slot) unheld ⟨opens, represents.inUse_eq ▸ full⟩

theorem retain (slot : groups.slots[index]? = some (some group))
    (retained : group.retain groups.resources = .ok (held, after)) :
    ∃ further, Ledger.Step capacity ledger (.retain index) .done further ∧
      Represents capacity place due ⟨groups.slots.set index (some held), after⟩ further := by
  obtain ⟨runs, frames, listed, counted, rfl, rfl⟩ := retain_eq_ok retained
  obtain rfl := Except.ok.inj (listed.symm.trans (represents.runs_eq slot))
  have retains := FramePool.retains_of_retainAll counted
  refine ⟨_, .retained (represents.found slot), represents.replace
    (some { group with holds := group.holds + 1 }) slot
    (fun others divided => ⟨divided.hold _, fun _ _ => rfl⟩)
    (represents.apart.retains retains) fun frame => ?_⟩
  rw [retains.held_eq]
  simp only [listing, Listing.references, contents, Option.map_some, Option.getD_some,
    Nat.succ_mul]
  omega

theorem release (slot : groups.slots[index]? = some (some group))
    (released : group.release groups.resources = .ok (held, after)) :
    ∃ further, Ledger.Step capacity ledger (.release index) .done further ∧
      Represents capacity place due ⟨groups.slots.set index (some held), after⟩ further := by
  obtain ⟨holds, runs, frames, enough, listed, dropped, rfl, rfl⟩ := release_eq_ok released
  obtain rfl := Except.ok.inj (listed.symm.trans (represents.runs_eq slot))
  refine ⟨_, .released (represents.found slot) enough, represents.replace
    (some { group with holds }) slot
    (fun others divided => ⟨divided.hold _, fun _ _ => rfl⟩)
    (represents.apart.releaseAll dropped) fun frame => ?_⟩
  rw [← FramePool.held_of_releaseAll dropped]
  simp only [listing, Listing.references, contents, Option.map_some, Option.getD_some, enough,
    Nat.succ_mul]
  omega

theorem discard (slot : groups.slots[index]? = some (some group))
    (discarded : group.discard groups.resources = .ok after) :
    ∃ further, Ledger.Step capacity ledger (.discard index) .done further ∧
      Represents capacity place due ⟨groups.slots.set index none, after⟩ further := by
  obtain ⟨runs, frames, descriptors, listed, dropped, freed, rfl⟩ := discard_eq_ok discarded
  obtain rfl := Except.ok.inj (listed.symm.trans (represents.runs_eq slot))
  obtain ⟨apart, counts⟩ := apart_of_releaseHolds represents.apart dropped
  exact ⟨_, .discarded (represents.found slot), represents.replace none slot
    (fun others divided => divided.leave freed) apart counts⟩

theorem releaseFrames {frames : FramePool}
    {run : Run} (released : groups.resources.frames.release run = .ok frames) :
    ∃ further, Ledger.Step capacity ledger (.releaseFrames run) .done further ∧
      Represents capacity place due
        { groups with resources := { groups.resources with frames } } further := by
  refine ⟨_, .framesReleased, represents.reframe (represents.apart.releaseFrames released)
    fun frame => ?_⟩
  rw [← FramePool.held_of_releaseFrames released, Run.frames]
  omega

/-- A request to a group that is not there is told so; what the others do is settled by what they
do to the group. -/
theorem onGroup {action : PageGroup → Action Resources (Option PageGroup)}
    (names : request.index? = some index)
    (served : PageGroup.onGroup index action groups = .done answer reached)
    (completed : ∀ group left after, groups.slots[index]? = some (some group) →
      action group groups.resources = .done left after →
      ∃ further, Ledger.Step capacity ledger request .done further ∧
        Represents capacity place due ⟨groups.slots.set index left, after⟩ further)
    (declined : ∀ group cause after, groups.slots[index]? = some (some group) →
      action group groups.resources = .refused cause after →
      Ledger.Step capacity ledger request (.refused cause.error) ledger ∧
        after = groups.resources) :
    ∃ further, Ledger.Step capacity ledger request answer further ∧
      Represents capacity place due reached further := by
  rcases onGroup_eq_done served with ⟨rfl, rfl, none⟩ |
    ⟨group, slot, ⟨left, after, done, rfl, rfl⟩ | ⟨cause, after, refused, rfl, rfl⟩⟩
  · exact ⟨ledger, .absent names (represents.missing none), represents⟩
  · exact completed group left after slot done
  · obtain ⟨step, rfl⟩ := declined group cause after slot refused
    exact ⟨ledger, step, represents⟩

theorem shows_slots :
    List.Forall₂ (Option.Rel (Shows groups.resources.descriptors)) groups.slots ledger.slots := by
  rw [represents.slots_eq, List.forall₂_map_right_iff, List.forall₂_same]
  intro slot member
  cases slot with
  | none => exact .none
  | some group =>
      obtain ⟨index, slot⟩ := List.mem_iff_getElem?.mp member
      exact .some ⟨represents.runs_eq slot, rfl⟩

theorem referenceCount_eq (address : Nat) :
    (groups.resources.frames.referenceCount address : Int) = ledger.references (pageOf address) :=
  represents.held_eq (pageOf address)

/-- Groups that have all been discarded leave nothing behind. -/
theorem of_none_live (none : groups.live = []) :
    groups.resources.descriptors.inUse = 0 ∧
      ∀ address, (groups.resources.frames.referenceCount address : Int) =
        ledger.direct (pageOf address) := by
  have empty : ledger.live = [] := by rw [represents.live_eq, none, List.map_nil]
  refine ⟨by rw [represents.inUse_eq, Ledger.inUse, empty]; rfl, fun address => ?_⟩
  rw [represents.referenceCount_eq, Ledger.references, empty]
  exact Int.add_zero _

end Groups

theorem step
    (represents : Represents capacity place (due + request.granted answer) groups ledger)
    (served : request.serve groups = .done answer reached) :
    ∃ further, Ledger.Step capacity ledger request answer further ∧
      Represents capacity place due reached further := by
  cases request with
  | create =>
      cases served
      exact ⟨_, .created, represents.create⟩
  | add index run =>
      refine represents.onGroup rfl served (fun group left after slot done => ?_)
        fun group cause after slot ended => ?_
      · obtain ⟨grown, descriptors, added, rfl, rfl⟩ := addRun_eq_done done
        exact represents.add slot added
      · obtain ⟨same, refused⟩ := addRun_eq_refused ended
        exact ⟨represents.add_refused slot refused, same⟩
  | retain index =>
      refine represents.onGroup rfl served (fun group left after slot done => ?_)
        fun group cause after slot refused => absurd refused (accepts_change _ _ _ _)
      obtain ⟨held, retained, rfl⟩ := change_eq_done done
      exact represents.retain slot retained
  | release index =>
      refine represents.onGroup rfl served (fun group left after slot done => ?_)
        fun group cause after slot refused => absurd refused (accepts_change _ _ _ _)
      obtain ⟨held, released, rfl⟩ := change_eq_done done
      exact represents.release slot released
  | discard index =>
      refine represents.onGroup rfl served (fun group left after slot done => ?_)
        fun group cause after slot refused => ?_
      · obtain ⟨_, _, discarded, built⟩ := bind_eq_done.mp done
        obtain ⟨rfl, rfl⟩ := pure_eq_done.mp built
        exact represents.discard slot (update_eq_done.mp discarded)
      · exact absurd refused ((Accepts.update _).bind (fun _ => Accepts.pure _) _ _ _)
  | allocateFrames pages =>
      rw [Request.serve, onFrames, focus_eq_done] at served
      obtain ⟨frames, settled, rfl⟩ := served
      rcases settle_eq_done.mp settled with ⟨address, done, rfl⟩ | ⟨cause, refused, rfl⟩
      · exact represents.allocateFrames done
      · rw [FramePool.allocate_eq_refused refused]
        exact ⟨ledger, .framesRefused, represents⟩
  | releaseFrames run =>
      rw [Request.serve, onFrames, focus_eq_done] at served
      obtain ⟨frames, served, rfl⟩ := served
      obtain ⟨_, _, updated, ended⟩ := bind_eq_done.mp served
      obtain ⟨rfl, rfl⟩ := pure_eq_done.mp ended
      exact represents.releaseFrames (update_eq_done.mp updated)

theorem run (represents : Represents capacity place (granted requests answers) groups ledger)
    (ran : requests.mapM Request.serve groups = .done answers reached) :
    ∃ further, Ledger.Run capacity ledger requests answers further ∧
      Represents capacity place 0 reached further := by
  induction requests generalizing groups ledger answers with
  | nil =>
      obtain ⟨rfl, rfl⟩ := mapM_nil_eq_done.mp ran
      exact ⟨ledger, .nil ledger, represents⟩
  | cons request requests ih =>
      obtain ⟨answer, middle, rest, served, others, rfl⟩ := mapM_cons_eq_done.mp ran
      rw [granted, List.zipWith_cons_cons, List.sum_cons, Nat.add_comm] at represents
      obtain ⟨between, step, represents⟩ := represents.step served
      obtain ⟨further, run, represents⟩ := ih represents others
      exact ⟨further, .cons step run, represents⟩

end Represents

/-- Whatever has been asked of groups that share a pool of descriptors and a pool of frames: each is
the list of runs that the requests to it make, the descriptors in use are as many as the groups have
runs, a run is turned down exactly when it needs a descriptor and all are in use, and each frame has
the references that the groups hold and those added past them. The frames may lie anywhere, past the
last address too; where there are more of them than addresses, not all of them are given out past
the groups. -/
theorem serves_as_lists {frames : FramePool} {base total : Nat} (requests : List Request)
    (cache : InstructionCache) (few : capacity < DescriptorPool.idLimit)
    (created : FramePool.create base total = .ok frames)
    (bounded : total * pageSize ≤ wordLimit ∨ granted requests answers < total)
    (ran : requests.mapM Request.serve ⟨[], ⟨.ofCapacity capacity, frames, cache⟩⟩ =
      .done answers reached) :
    ∃ ledger, Ledger.Run capacity ⟨[], fun _ => 0⟩ requests answers ledger ∧
      List.Forall₂ (Option.Rel (Shows reached.resources.descriptors)) reached.slots ledger.slots ∧
      reached.resources.descriptors.inUse = (reached.live.map (·.descriptors.length)).sum ∧
      (∀ index run listing answer after, ledger.slots[index]? = some (some listing) →
        (Request.add index run).serve reached = .done answer after →
        (answer = .refused .outOfResource ↔
          Opens listing.runs run ∧ reached.resources.descriptors.inUse = capacity)) ∧
      (∀ request error after, Request.serve request reached = .done (.refused error) after →
        after = reached) ∧
      (∀ address, (reached.resources.frames.referenceCount address : Int) =
        ledger.references (pageOf address)) ∧
      (reached.live = [] → reached.resources.descriptors.inUse = 0 ∧
        ∀ address, (reached.resources.frames.referenceCount address : Int) =
          ledger.direct (pageOf address)) := by
  obtain ⟨place, apart⟩ := FramePool.apart_create created bounded
  obtain ⟨ledger, run, represents⟩ := (Represents.of_create cache created apart few).run ran
  refine ⟨ledger, run, represents.shows_slots, represents.divided.inUse_eq few,
    fun index run listing answer after found served => ?_,
    fun request error after => eq_of_serve_refused, represents.referenceCount_eq,
    represents.of_none_live⟩
  obtain ⟨further, step, _⟩ := represents.step served
  rw [represents.inUse_eq]
  exact step.refused_iff found

/-- Two groups with the same frames and a node each. A third run does not fit, and the frames are
free when both groups and the request that allocated them have given them up. -/
def sampleRequests : List Request := [
  .allocateFrames 2, .create, .create, .add 0 ⟨0x80000000, 1⟩, .add 0 ⟨0x80001000, 1⟩,
  .add 1 ⟨0x80000000, 2⟩, .add 1 ⟨0x80000000, 1⟩, .retain 0, .retain 0, .retain 1,
  .releaseFrames ⟨0x80000000, 2⟩, .discard 0, .release 1, .discard 1, .retain 0]

theorem serves_as_lists_sample : ∃ frames answers reached ledger,
    FramePool.create 0x80000000 4 = .ok frames ∧
      sampleRequests.mapM Request.serve ⟨[], ⟨.ofCapacity 2, frames, .ignoring⟩⟩ =
        .done answers reached ∧
      Ledger.Run 2 ⟨[], fun _ => 0⟩ sampleRequests answers ledger ∧
      answers[6]? = some (.refused .outOfResource) ∧
      reached.resources.descriptors.inUse = (reached.live.map (·.descriptors.length)).sum := by
  have created : FramePool.create 0x80000000 4 =
      .ok ⟨0x80000000, 4, [⟨0x80000000, 4⟩], ∅⟩ := rfl
  have answered : (sampleRequests.mapM Request.serve ⟨[], ⟨.ofCapacity 2,
      ⟨0x80000000, 4, [⟨0x80000000, 4⟩], ∅⟩, .ignoring⟩⟩).verdict =
        .ok [.allocated 0x80000000, .done, .done, .done, .done, .done, .refused .outOfResource,
          .done, .done, .done, .done, .done, .done, .done, .absent] := by
    decide +kernel
  obtain ⟨reached, ran⟩ := Outcome.verdict_eq_ok.mp answered
  obtain ⟨ledger, run, _, inUse, _⟩ :=
    serves_as_lists sampleRequests .ignoring (by decide) created (.inl (by decide)) ran
  exact ⟨_, _, reached, ledger, created, ran, run, rfl, inUse⟩

end GuestMemory.PageGroup
