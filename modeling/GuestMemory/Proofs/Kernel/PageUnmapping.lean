import GuestMemory.Proofs.Kernel.FreeRuns
import GuestMemory.Proofs.Kernel.Ranges
import GuestMemory.Proofs.Kernel.Withdrawals

/-!
Unmapping pages: what is required of the range, whatever calls have mapped its pages, and what
becomes of the memory where nothing is missing. Frames that no page shows any more are free.
-/

namespace GuestMemory

open GuestMemory.Action Verdict

theorem Properties.Orderly.meets_exactly_iff {properties : Properties}
    (orderly : properties.Orderly) (state : MemoryState) :
    (Check.exactly state).Meets properties ↔
      properties.state = state ∧ properties.attributes = .empty := by
  refine (Check.meets_ofState_iff orderly).trans (and_congr_left' ?_)
  exact decide_eq_true_iff

namespace Kernel

variable {config : Config} {kernel after : Kernel} {place : Place} {count : Nat}
variable {state : MemoryState} {process : Process} {result : Commit}
variable {range : List (Nat × Nat)}

/-- What is required of a request to unmap pages, in the order in which it is looked at. -/
def unmappingRequirements (kernel : Kernel) (place : Place) (count : Nat)
    (state : MemoryState) : List Requirement :=
  [⟨place.address + count * pageSize < wordLimit, .invalidCurrentMemory⟩,
    ⟨0 < count ∧ kernel.Encloses place (count * pageSize), .invalidCurrentMemory⟩,
    ⟨∀ key ∈ place.pages count, (kernel.page key).properties.state = state ∧
      (kernel.page key).properties.attributes = .empty, .invalidCurrentMemory⟩]

/-- The pages of a range have been unmapped: each has dropped a reference to the frame behind it,
and the frames that have none left are free, but none that a page still shows. -/
structure Releases (range : List (Nat × Nat)) (before after : Kernel) : Prop where
  vacant : ∀ key ∈ range, after.Vacant key
  held_add : ∀ frame, after.resources.frames.held frame + (before.framesBehind range).count frame =
    before.resources.frames.held frame
  free_iff : ∀ frame, frame ∈ Run.framesOf after.resources.frames.free ↔
    frame ∈ Run.framesOf before.resources.frames.free ∨
      before.resources.frames.held frame ≠ 0 ∧ after.resources.frames.held frame = 0
  allocated : ∀ key frame, (after.page key).frame = some frame →
    frame ∉ Run.framesOf after.resources.frames.free

/-- Where a range has turned blank, its references are dropped, since they follow the pages. -/
theorem releases_of_blank (inv : OrdinaryInvariant config kernel)
    (afterInv : OrdinaryInvariant config after)
    (blank : ∀ key ∈ range, after.page key = .blank)
    (same : ∀ key ∉ range, after.page key = kernel.page key) (distinct : range.Nodup) :
    kernel.Releases range after := by
  have clears : kernel.Clears range after :=
    ⟨fun key inside => by rw [blank key inside]; rfl, fun key outside => by rw [same key outside]⟩
  have held_add := clears.held_add inv afterInv distinct
  have extent := inv.extent_eq afterInv.toResourcesAccounted
  have frames := inv.accounts.frames
  have afterFrames := afterInv.accounts.frames
  refine ⟨fun key inside => afterInv.vacant (blank key inside), held_add, fun frame => ?_,
    fun key frame shown free => ?_⟩
  · have less := held_add frame
    rw [afterFrames.free_iff_held, extent, frames.free_iff_held]
    constructor
    · rintro ⟨inside, none⟩
      by_cases before : kernel.resources.frames.held frame = 0
      · exact .inl ⟨inside, before⟩
      · exact .inr ⟨before, none⟩
    · rintro (⟨inside, none⟩ | ⟨held, none⟩)
      · exact ⟨inside, by omega⟩
      · exact ⟨frames.owned frame (mt frames.positive.held_eq_zero_iff.mpr held), none⟩
  · have none : after.shown frame = 0 :=
      (afterInv.held_eq frame).symm.trans (afterFrames.free_iff_held.mp free).2
    rw [shown_eq_card, Finset.card_eq_zero] at none
    exact Finset.notMem_empty key (none ▸ mem_showing.mpr shown)

namespace Compact

variable (compact : Compact config kernel) (ends : kernel.extent.stop < wordLimit)

include compact

theorem unmapPages
    (done : onSpace place.process (AddressSpace.unmapPages place.address count state) kernel =
      .done result after) : Compact config after := by
  have kept : Keeps (Compact config)
      (Step.unmapPages place.process place.address count state).perform := Compact.kept trivial
  exact kept kernel after compact (state?_silent.trans (by rw [done]; rfl))

include ends

/-- Whatever is behind the pages, the request is done once they have been looked at. -/
theorem ending_unmapPages (listed : kernel.processes[place.process]? = some process)
    (aligned : place.address % pageSize = 0) :
    (AddressSpace.unmapPages place.address count state
      ⟨process.space, kernel.resources⟩).ending =
        Requirement.judge (kernel.unmappingRequirements place count state) := by
  have inv : OrdinaryInvariant config kernel := compact.toStepInvariant
  have coherent := inv.coherent process (List.mem_of_getElem? listed)
  simp only [unmappingRequirements, Requirement.judge_cons, Requirement.judge_nil]
  refine AddressSpace.ending_rangeSize fun fits => ?_
  have sized : 0 < count * pageSize ↔ 0 < count := Nat.mul_pos_iff_of_pos_right (by decide)
  refine ending_guard AddressSpace.steady_requireInside
    ((inv.verdict_requireInside listed fits).trans (demand_congr (and_congr_left' sized)))
    fun within => ?_
  obtain ⟨nonempty, inside⟩ := within
  have covers : process.space.blocks.region.Covers place.address count := by
    rw [coherent.region_eq]
    exact (encloses_of_listed listed).mp inside
  have checking := (inv.verdict_checkRange listed aligned nonempty covers).trans (demand_congr
    (forall₂_congr fun key _ => (inv.regular key).orderly.meets_exactly_iff state))
  refine ending_guard AddressSpace.steady_checkRange checking fun _ => ?_
  have guarded : FaultGuarded (fun _ => True) config kernel := inv.guarded trivial trivial
  obtain ⟨final, removed⟩ :=
    (guarded.space listed).unmapRange_exists compact.spaced ends aligned nonempty covers
  obtain ⟨_, committed⟩ :=
    AddressSpace.commit_exists (coherent.unmapRange removed).wellFormed .unmapPages
  rw [ending_bind_of_done removed]
  exact ending_of_done committed

omit ends

theorem of_unmapPages
    (done : onSpace place.process (AddressSpace.unmapPages place.address count state) kernel =
      .done result after) :
    kernel.Releases (place.pages count) after ∧ kernel.TouchesOnly place count after := by
  have inv : OrdinaryInvariant config kernel := compact.toStepInvariant
  have afterInv : OrdinaryInvariant config after := (compact.unmapPages done).toStepInvariant
  obtain ⟨process, attached, listed, acted, rfl⟩ := onSpace_eq_done.mp done
  have coherent := inv.coherent process (List.mem_of_getElem? listed)
  have orderly := inv.orderly _ (space_mem listed)
  obtain ⟨checked, removed⟩ := AddressSpace.unmapPages_eq_done acted
  obtain ⟨aligned, covers, _⟩ := AddressSpace.covers_of_unmapRange removed coherent
  obtain ⟨blank, same⟩ := AddressSpace.blank_of_unmapRange coherent
    (fun _ => AddressSpace.plain_of_checked checked coherent orderly aligned covers rfl rfl) removed
  have touches := touchesOnly_withSpace listed inv afterInv
    (AddressSpace.rebuilt_of_unmapRange removed) same (AddressSpace.resources_of_unmapPages acted)
  refine ⟨releases_of_blank inv afterInv (fun key inside => ?_) touches.page_eq
    (List.nodup_range.map place.page_injective), touches⟩
  obtain ⟨offset, bounded, rfl⟩ := Place.mem_pages.mp inside
  rw [page_withSpace listed]
  exact blank _ ⟨Nat.le_add_right _ _, Nat.add_lt_add_left bounded _⟩

end Compact

variable {cache : InstructionCache} {initial reached : Kernel} {steps : List Step}

/-- In every state that a kernel can reach whose frames lie before the last address, a request to
unmap pages ends in the error of the first requirement that is violated and is done if none is,
whatever calls the pages come from. The references of the range are then dropped, the frames that
have none left are free, and nothing else is another. -/
theorem unmapPages_is_exact (fits : config.frameBase + config.framePages * pageSize < wordLimit)
    (created : create config cache = .ok initial) (ordinary : ∀ step ∈ steps, step.Ordinary)
    (ran : initial.run? steps = some reached) (place : Place)
    (present : place.process < reached.processes.length) (aligned : place.address % pageSize = 0)
    (count : Nat) (state : MemoryState) :
    let outcome := onSpace place.process
      (AddressSpace.unmapPages place.address count state) reached
    outcome.ending = Requirement.judge (reached.unmappingRequirements place count state) ∧
    ∀ result after, outcome = .done result after →
      reached.Releases (place.pages count) after ∧ reached.TouchesOnly place count after := by
  intro outcome
  have compact := compact_run created ordinary ran
  have ends := compact.stop_lt fits
  have listed := List.getElem?_eq_getElem present
  exact ⟨(ending_onSpace listed).trans (compact.ending_unmapPages ends listed aligned),
    fun result after done => compact.of_unmapPages done⟩

/-- Two mappings lie next to each other, and another process maps a page of each. -/
def patchedRun : List Step := [
  .createProcess {}, .createProcess {}, .openHandle 0 (.process 1),
  .mapPages 1 0x8001000 2 .code .readExecute, .mapPages 1 0x8000000 1 .code .readExecute,
  .call 0 (.mapMemory 0x9000000 ⟨0x8000⟩ 0x8000000 0x2000)]

/-- Both mappings are unmapped at once. The one frame that nothing else shows is free then. -/
theorem unmapPages_is_exact_of_patched_code :
    ∃ reached result after, small.run? patchedRun = some reached ∧
      onSpace 1 (AddressSpace.unmapPages 0x8000000 3 .code) reached = .done result after ∧
      after.Vacant (1, 0x8002) ∧ 0x80001 ∈ Run.framesOf after.resources.frames.free ∧
      reached.resources.frames.held 0x80002 = 2 ∧ after.resources.frames.held 0x80002 = 1 ∧
      (after.page (0, 0x9000)).frame = some 0x80002 ∧
      0x80002 ∉ Run.framesOf after.resources.frames.free := by
  have shown : ((small.run? patchedRun).map fun reached =>
      (decide (1 < reached.processes.length ∧ reached.resources.frames.held 0x80001 = 1 ∧
          reached.resources.frames.held 0x80002 = 2 ∧
          (reached.page (0, 0x9000)).frame = some 0x80002),
        Requirement.judge (reached.unmappingRequirements ⟨1, 0x8000000⟩ 3 .code),
        reached.framesBehind (Place.pages ⟨1, 0x8000000⟩ 3))) =
      some (true, .ok (), [0x80002, 0x80000, 0x80001]) := by
    decide +kernel
  obtain ⟨reached, ran, shown⟩ := Option.map_eq_some_iff.mp shown
  obtain ⟨ready, met, behind⟩ : _ ∧ _ ∧ _ := by simpa only [Prod.mk.injEq] using shown
  obtain ⟨present, once, twice, lent⟩ := of_decide_eq_true ready
  obtain ⟨ending, exact⟩ := unmapPages_is_exact (show _ < wordLimit by decide +kernel) create_small
    (show ∀ step ∈ patchedRun, step.Ordinary by decide +kernel) ran ⟨1, 0x8000000⟩ present
    (by decide) 3 .code
  obtain ⟨result, after, done⟩ := Outcome.ending_eq_ok.mp (ending.trans met)
  obtain ⟨releases, touches⟩ := exact result after done
  have dropped := releases.held_add 0x80001
  have kept := releases.held_add 0x80002
  rw [behind, once] at dropped
  rw [behind, twice] at kept
  have still : (after.page (0, 0x9000)).frame = some 0x80002 := by
    rw [touches.page_eq (0, 0x9000) (by decide +kernel), lent]
  refine ⟨reached, result, after, ran, done, releases.vacant _ (by decide +kernel),
    (releases.free_iff _).mpr (.inr ⟨by omega, Nat.succ.inj dropped⟩), twice, Nat.succ.inj kept,
    still, releases.allocated _ _ still⟩

/-- Where a frame is the last there is, a request is stopped that meets all requirements, even if
its pages have been mapped one by one. -/
theorem unmapping_the_last_frame_stops :
    let run : List Step := [.createProcess {}, .mapPages 0 0x8001000 1 .code .readExecute,
      .mapPages 0 0x8000000 1 .code .readExecute]
    create topmost.config topmost.resources.cache = .ok topmost ∧
    (∀ step ∈ run, step.Ordinary) ∧
    ∃ reached, topmost.run? run = some reached ∧ 0 < reached.processes.length ∧
      Requirement.judge (reached.unmappingRequirements ⟨0, 0x8000000⟩ 2 .code) = .ok () ∧
      onSpace 0 (AddressSpace.unmapPages 0x8000000 2 .code) reached = .fault .overflow := by
  intro run
  have shown : ((topmost.run? run).map fun reached =>
      (reached.processes.length,
        Requirement.judge (reached.unmappingRequirements ⟨0, 0x8000000⟩ 2 .code),
        (onSpace 0 (AddressSpace.unmapPages 0x8000000 2 .code) reached).fault?)) =
      some (1, .ok (), some .overflow) := by
    decide +kernel
  obtain ⟨reached, ran, shown⟩ := Option.map_eq_some_iff.mp shown
  obtain ⟨length, met, stopped⟩ : _ ∧ _ ∧ _ := by simpa only [Prod.mk.injEq] using shown
  exact ⟨rfl, by decide +kernel, reached, ran, by omega, met, Outcome.fault?_eq_some.mp stopped⟩

end Kernel

end GuestMemory
