import GuestMemory.Proofs.Kernel.Lending

/-!
Withdrawals: what calls have in common that take mapped memory away. They compare what is behind two
ranges, leave the pages of one of them free, and drop a reference to a frame for each such page that
has shown it, but never the last one.
-/

namespace GuestMemory

open Verdict

/-- The same frames are free in pools that differ in the number of references only. -/
theorem FramePool.Recounted.held_eq_zero_iff {pool other : FramePool} {extent : Run} {frame : Nat}
    (recounted : pool.Recounted other) (wellFormed : pool.WellFormed extent)
    (otherWellFormed : other.WellFormed extent) : other.held frame = 0 ↔ pool.held frame = 0 := by
  have free : other.free = pool.free := by rw [recounted]
  by_cases inside : frame ∈ extent.frames
  · calc other.held frame = 0
        ↔ frame ∈ Run.framesOf other.free := by
          rw [otherWellFormed.free_iff_held, and_iff_right inside]
      _ ↔ pool.held frame = 0 := by
          rw [free, wellFormed.free_iff_held, and_iff_right inside]
  · rw [wellFormed.positive.held_eq_zero_iff, otherWellFormed.positive.held_eq_zero_iff]
    have before := mt (wellFormed.owned frame) inside
    have after := mt (otherWellFormed.owned frame) inside
    exact iff_of_true (not_not.mp after) (not_not.mp before)

/-- The check lets pages with these properties pass, and none of them is free. -/
structure Check.Selects (check : Check) (May : Properties → Prop) : Prop where
  meets_iff : ∀ {properties : Properties}, properties.Orderly →
    (check.Meets properties ↔ May properties)
  used : ∀ {properties : Properties}, May properties → properties.state ≠ .free

namespace Kernel

variable {config : Config} {kernel after : Kernel} {task : Task} {range : List (Nat × Nat)}
variable {key : Nat × Nat} {frame : Nat}

/-- Frames that lie before the last address can be compared, page by page. -/
theorem OrdinaryInvariant.judgeDemand_backed (inv : OrdinaryInvariant config kernel)
    (fits : kernel.extent.stop < wordLimit)
    (backed : ∀ key ∈ task.range .destination, (kernel.page key).frame ≠ none) :
    task.judgeDemand kernel.view .backed =
      demand (∀ offset < task.pages, (kernel.page (task.destination.page offset)).frame =
        (kernel.page (task.source.page offset)).frame) (.refused .invalidCurrentMemory) := by
  obtain ⟨runs, gathered, _⟩ := inv.gather_exists fits backed
  rw [Task.judgeDemand, Task.behind, view_pages, gathered]
  exact demand_congr Task.behind_eq_iff

/-- A withdrawal is judged by a check of each range, whichever comes first, and then by the frames
behind both, which are there because neither check lets free pages pass. -/
theorem OrdinaryInvariant.judge_withdrawal (inv : OrdinaryInvariant config kernel)
    (ends : kernel.extent.stop < wordLimit) {first second : RangeRole} {check other : Check}
    {May MayThen : Properties → Prop} [DecidablePred May] [DecidablePred MayThen]
    (demands : task.work.demands = [.meets first check, .meets second other, .described, .backed])
    (both : first ≠ second) (selects : check.Selects May) (selectsThen : other.Selects MayThen) :
    task.judge kernel.view = (do
      demand (∀ key ∈ task.range first, May (kernel.page key).properties)
        (.refused .invalidCurrentMemory)
      demand (∀ key ∈ task.range second, MayThen (kernel.page key).properties)
        (.refused .invalidCurrentMemory)
      demand ((Run.contiguous (kernel.framesBehind (task.range .source))).length ≤
        kernel.resources.descriptors.free.length) (.refused .outOfResource)
      demand (∀ offset < task.pages, (kernel.page (task.destination.page offset)).frame =
        (kernel.page (task.source.page offset)).frame) (.refused .invalidCurrentMemory)) := by
  rw [Task.judge, demands]
  simp only [List.forM_cons, List.forM_nil]
  refine demand_bind_eq (forall₂_congr fun key _ =>
    selects.meets_iff (inv.regular key).orderly) fun selected => ?_
  refine demand_bind_eq (forall₂_congr fun key _ =>
    selectsThen.meets_iff (inv.regular key).orderly) fun selectedThen => ?_
  have backed (role : RangeRole) (key) (member : key ∈ task.range role) :
      (kernel.page key).frame ≠ none := by
    refine (inv.regular key).frame_ne_none ?_
    obtain rfl | rfl : role = first ∨ role = second := by
      cases role <;> cases first <;> cases second <;> simp_all
    · exact selects.used (selected key member)
    · exact selectsThen.used (selectedThen key member)
  rw [inv.judgeDemand_described ends (backed .source)]
  refine demand_bind_eq Iff.rfl fun _ => ?_
  rw [inv.judgeDemand_backed ends (backed .destination)]
  exact bind_unit _

/-- The page is free, and nothing is behind it. -/
structure Vacant (kernel : Kernel) (key : Nat × Nat) : Prop where
  properties : (kernel.page key).properties = .free
  unmapped : kernel.translation? key = none

theorem OrdinaryInvariant.vacant (inv : OrdinaryInvariant config kernel)
    (blank : kernel.page key = .blank) :
    kernel.Vacant key where
  properties := by
    rw [blank]
    rfl
  unmapped := by
    rw [inv.translation?_eq, blank]
    rfl

theorem count_framesBehind (distinct : range.Nodup) (frame : Nat) :
    (kernel.framesBehind range).count frame = (kernel.showing frame ∩ range.toFinset).card := by
  rw [framesBehind, List.count_filterMap, List.countP_eq_length_filter,
    ← List.toFinset_card_of_nodup (distinct.filter _)]
  congr 1
  ext key
  simp [mem_showing, and_comm]

/-- The pages of a range have no frames any more, and all others have theirs. -/
structure Clears (range : List (Nat × Nat)) (before after : Kernel) : Prop where
  gone : ∀ key ∈ range, (after.page key).frame = none
  kept : ∀ key ∉ range, (after.page key).frame = (before.page key).frame

namespace Clears

variable (clears : kernel.Clears range after)

include clears

theorem showing_eq (frame : Nat) :
    after.showing frame = kernel.showing frame \ range.toFinset := by
  ext key
  rw [Finset.mem_sdiff, List.mem_toFinset, mem_showing, mem_showing]
  by_cases inside : key ∈ range
  · simp [clears.gone key inside, inside]
  · simp [clears.kept key inside, inside]

/-- Each page that loses its frame drops a reference to it. -/
theorem held_add (inv : OrdinaryInvariant config kernel) (afterInv : OrdinaryInvariant config after)
    (distinct : range.Nodup) (frame : Nat) :
    after.resources.frames.held frame + (kernel.framesBehind range).count frame =
      kernel.resources.frames.held frame := by
  calc after.resources.frames.held frame + (kernel.framesBehind range).count frame
      = (after.showing frame).card + (kernel.showing frame ∩ range.toFinset).card := by
        rw [count_framesBehind distinct, ← shown_eq_card]
        exact congrArg (· + _) (afterInv.held_eq frame)
    _ = (kernel.showing frame).card := by
        rw [clears.showing_eq, Finset.card_sdiff_add_card_inter]
    _ = kernel.resources.frames.held frame := by
        rw [← shown_eq_card]
        exact (inv.held_eq frame).symm

end Clears

variable (leads : task.Leads kernel after)
variable (clears : ∀ page source, task.work.onDestination page source = .blank)

include leads clears

theorem vacant_of_leads (afterInv : OrdinaryInvariant config after)
    (inside : key ∈ task.range .destination) :
    after.Vacant key := by
  apply afterInv.vacant
  rw [leads.page_eq, Task.effect_of_mem_destination inside, clears]

theorem clears_of_leads : kernel.Clears (task.range .destination) after where
  gone key inside := by
    rw [leads.page_eq, Task.effect_of_mem_destination inside, clears]
    rfl
  kept key outside := by
    rw [leads.page_eq, Task.frame_effect_of_not_mem _ outside]

theorem held_add_of_leads (inv : OrdinaryInvariant config kernel)
    (afterInv : OrdinaryInvariant config after)
    (frame : Nat) : after.resources.frames.held frame +
      (kernel.framesBehind (task.range .destination)).count frame =
        kernel.resources.frames.held frame :=
  (clears_of_leads leads clears).held_add inv afterInv (Task.nodup_range _) frame

omit clears in
/-- No frame becomes free, or is no longer free. -/
theorem held_eq_zero_iff_of_leads (inv : OrdinaryInvariant config kernel)
    (afterInv : OrdinaryInvariant config after) (frame : Nat) :
    after.resources.frames.held frame = 0 ↔ kernel.resources.frames.held frame = 0 :=
  leads.frames.held_eq_zero_iff inv.accounts.frames
    (inv.extent_eq afterInv.toResourcesAccounted ▸ afterInv.accounts.frames)

end Kernel

end GuestMemory
