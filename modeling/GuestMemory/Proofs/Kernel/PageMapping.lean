import GuestMemory.Proofs.FramePool.FirstFit
import GuestMemory.Proofs.Kernel.FreeRuns
import GuestMemory.Proofs.Kernel.Lending
import GuestMemory.Proofs.Kernel.Ranges

/-!
Mapping pages: what is required of the range and of the pool, in which order, and what becomes of
the memory where nothing is missing. The pages get the lowest frames that can be had in one piece.
-/

namespace GuestMemory

open GuestMemory.Action Verdict

namespace AddressSpace

variable {attached : AttachedSpace} {extent : Run} {address count : Nat} {state : MemoryState}
variable {permission : KernelPermission} {operation : Operation}

/-- Fresh frames are mapped on a blank range exactly if there is a window for them. -/
theorem ending_mapFresh (coherent : attached.space.Coherent)
    (frames : attached.resources.frames.WellFormed extent)
    (spaced : Run.Spaced attached.resources.frames.free) (bounded : extent.stop ≤ wordLimit)
    (aligned : address % pageSize = 0) (nonempty : 0 < count)
    (covers : attached.space.blocks.region.Covers address count)
    (vacant : attached.space.Blank (pageOf address) count) :
    Outcome.ending ((do
      let physical ← onFrames (FramePool.allocate count)
      changeDirectory (·.map address ⟨physical, count⟩ permission)
      changeBlocks (·.assign address count state permission .empty)
      commit operation address count : SpaceAction Commit) attached) =
        demand (∃ physical, attached.resources.frames.Window count physical)
          (.refused .outOfMemory) := by
  have taking : (onFrames (FramePool.allocate count) attached).ending =
      demand (∃ physical, attached.resources.frames.Window count physical)
        (.refused .outOfMemory) := by
    rw [← frames.ending_allocate spaced bounded nonempty, Outcome.ending, onFrames, verdict_focus]
    rfl
  rw [← bind_unit (demand _ _), ← taking]
  apply ending_bind_eq
  intro physical middle taken
  obtain ⟨pool, allocated, rfl⟩ := onFrames_eq_done.mp taken
  obtain ⟨start, addressable⟩ := frames.of_allocate allocated
  have safe : Action.Safe (fun _ => False) (do
      changeDirectory (·.map address ⟨physical, count⟩ permission)
      changeBlocks (·.assign address count state permission .empty)
      commit operation address count)
      { attached with resources.frames := pool } :=
    safe_mapRun coherent (.inr aligned) start (.inr (addressable bounded)) (fun _ => vacant)
      (assignable_of_covers coherent.wellFormed nonempty covers)
  obtain ⟨result, after, done⟩ := safe.done_of_accepts
    (accepts_changeDirectory.bind fun _ => accepts_changeBlocks.bind fun _ => accepts_commit)
  exact ending_of_done done

end AddressSpace

namespace Kernel

variable {config : Config} {kernel after : Kernel} {place : Place} {count first : Nat}
variable {state : MemoryState} {process : Process} {key : Nat × Nat} {result : Commit}

/-- What is required of a request to map pages, in the order in which it is looked at. -/
def mappingRequirements (kernel : Kernel) (place : Place) (count : Nat)
    (state : MemoryState) : List Requirement :=
  [⟨place.address + count * pageSize < wordLimit, .invalidCurrentMemory⟩,
    ⟨kernel.MayHold place (count * pageSize) state, .invalidMemoryRegion⟩,
    ⟨∀ key ∈ place.pages count, (kernel.page key).properties.state = .free,
      .invalidCurrentMemory⟩,
    ⟨∃ address, kernel.resources.frames.Window count address, .outOfMemory⟩]

/-- A page leads to a frame, with the permission that it has. -/
structure MapsTo (kernel : Kernel) (key : Nat × Nat) (properties : Properties)
    (address : Nat) : Prop where
  page_eq : kernel.page key = ⟨properties, some (pageOf address)⟩
  translated : kernel.translation? key = some ⟨address, properties.permission⟩

/-- The pages of a range lead, in order, to the frames from an address on, each of which has one
reference. -/
structure Fills (place : Place) (count : Nat) (properties : Properties) (first : Nat)
    (before after : Kernel) : Prop where
  mapsTo : ∀ offset < count,
    after.MapsTo (place.page offset) properties (first + offset * pageSize)
  referenceCount_eq : ∀ address, after.resources.frames.referenceCount address =
    if first ≤ address ∧ address < first + count * pageSize then 1
    else before.resources.frames.referenceCount address

theorem OrdinaryInvariant.mapsTo (inv : OrdinaryInvariant config kernel) {properties : Properties}
    {address : Nat}
    (aligned : address % pageSize = 0)
    (page : kernel.page key = ⟨properties, some (pageOf address)⟩) :
    kernel.MapsTo key properties address := by
  refine ⟨page, ?_⟩
  rw [inv.translation?_eq, page, Option.map_some,
    show pageOf address * pageSize = address from
      Nat.div_mul_cancel (Nat.dvd_of_mod_eq_zero aligned)]

namespace Compact

variable (compact : Compact config kernel)
variable (listed : kernel.processes[place.process]? = some process)

include compact listed

theorem ending_mapPages (bounded : kernel.extent.stop ≤ wordLimit)
    (aligned : place.address % pageSize = 0) (used : state.has .mapped = true)
    (permission : UserPermission) :
    (AddressSpace.mapPages place.address count state permission
      ⟨process.space, kernel.resources⟩).ending =
        Requirement.judge (kernel.mappingRequirements place count state) := by
  have inv : OrdinaryInvariant config kernel := compact.toStepInvariant
  have coherent := inv.coherent process (List.mem_of_getElem? listed)
  have layout := inv.layouts _ (space_mem listed)
  simp only [AddressSpace.mapPages_of_mapped used, mappingRequirements, Requirement.judge_cons,
    Requirement.judge_nil, bind_unit]
  refine AddressSpace.ending_rangeSize fun fits => ?_
  refine ending_guard AddressSpace.steady_requirePlace (inv.verdict_requirePlace listed fits)
    fun holds => ?_
  obtain ⟨nonempty, covers⟩ : 0 < count ∧
      process.space.blocks.region.Covers place.address count := by
    have placed : process.space.layout.canContain place.address (count * pageSize) state =
        .ok true := by
      rw [layout.regular.canContain_eq fits, decide_eq_true ((mayHold_of_listed listed).mp holds)]
    obtain ⟨some, inside⟩ := layout.within_of_canContain placed
    exact ⟨Nat.pos_of_mul_pos_right some, coherent.region_eq ▸ inside⟩
  have checking := (inv.verdict_checkRange listed aligned nonempty covers).trans
    (demand_congr (forall₂_congr fun key _ => (inv.regular key).orderly.meets_free_iff))
  refine ending_guard AddressSpace.steady_checkRange checking fun free => ?_
  refine AddressSpace.ending_mapFresh coherent compact.accounts.frames compact.spaced bounded
    aligned nonempty covers fun number inside => ?_
  rw [← among_of_listed listed number]
  exact (inv.regular _).eq_blank (free _ (Place.mem_pages_iff.mpr ⟨rfl, inside⟩))

omit listed

theorem mapPages {permission : UserPermission}
    (done : onSpace place.process (AddressSpace.mapPages place.address count state permission)
      kernel = .done result after) : Compact config after := by
  have kept : Keeps (Compact config)
      (Step.mapPages place.process place.address count state permission).perform :=
    Compact.kept trivial
  exact kept kernel after compact (state?_silent.trans (by rw [done]; rfl))

/-- Pages that have been mapped lead to the lowest window that there was, in order. -/
theorem of_mapPages (bounded : kernel.extent.stop ≤ wordLimit) {permission : UserPermission}
    (done : onSpace place.process (AddressSpace.mapPages place.address count state permission)
      kernel = .done result after) :
    ∃ first, IsLeast {address | kernel.resources.frames.Window count address} first ∧
      kernel.Fills place count (.plain state permission.toKernel) first after ∧
      kernel.TouchesOnly place count after := by
  have frames := compact.accounts.frames
  have afterInv : OrdinaryInvariant config after := (compact.mapPages done).toStepInvariant
  obtain ⟨process, attached, listed, acted, rfl⟩ := onSpace_eq_done.mp done
  obtain ⟨_, rebuilt, first, allocated, _, shown, same⟩ := AddressSpace.shows_of_mapPages
    (compact.coherent process (List.mem_of_getElem? listed))
    (compact.orderly _ (space_mem listed)) acted
  obtain ⟨aligned, _⟩ := frames.of_allocate allocated
  rw [Run.length_frames] at same
  refine ⟨first, frames.isLeast_of_allocate compact.spaced allocated,
    ⟨fun offset inside => ?_, frames.referenceCount_of_allocate compact.spaced bounded allocated⟩,
    touchesOnly_withSpace listed compact.toStepInvariant afterInv rebuilt same
      (AddressSpace.resources_of_mapPages acted)⟩
  obtain ⟨properties, frame⟩ := shown offset (pageOf first + offset)
    (by rw [Run.frames, List.getElem?_range' inside, Nat.one_mul])
  refine afterInv.mapsTo ?_ ?_
  · rw [Nat.add_mul_mod_self_right]
    exact aligned
  · rw [page_withSpace listed, pageOf_add_mul_pageSize]
    exact Page.ext properties frame

end Compact

variable {cache : InstructionCache} {initial reached : Kernel} {steps : List Step}

/-- In every state that a kernel can reach whose frames do not pass the last address, a request to
map pages ends in the error of the first requirement that is violated and is done if none is. The
pages then lead, in order, to the frames of the lowest window that there was, each of which has one
reference, and nothing else is another. -/
theorem mapPages_is_exact (fits : config.frameBase + config.framePages * pageSize ≤ wordLimit)
    (created : create config cache = .ok initial) (ordinary : ∀ step ∈ steps, step.Ordinary)
    (ran : initial.run? steps = some reached) (place : Place)
    (present : place.process < reached.processes.length) (aligned : place.address % pageSize = 0)
    (count : Nat) (state : MemoryState) (used : state.has .mapped = true)
    (permission : UserPermission) :
    let outcome := onSpace place.process
      (AddressSpace.mapPages place.address count state permission) reached
    outcome.ending = Requirement.judge (reached.mappingRequirements place count state) ∧
    ∀ result after, outcome = .done result after →
      ∃ first, IsLeast {address | reached.resources.frames.Window count address} first ∧
        reached.Fills place count (.plain state permission.toKernel) first after ∧
        reached.TouchesOnly place count after := by
  intro outcome
  have compact := compact_run created ordinary ran
  have bounded : reached.extent.stop ≤ wordLimit := by
    rw [extent, compact.config_eq]
    exact fits
  have listed := List.getElem?_eq_getElem present
  rw [show outcome.ending = _ from ending_onSpace listed]
  exact ⟨compact.ending_mapPages listed bounded aligned used permission,
    fun result after done => compact.of_mapPages bounded done⟩

/-- Of three pages the one in the middle is unmapped again. -/
def gapRun : List Step := [
  .createProcess {}, .mapPages 0 0x1000000000 3 .normal .readWrite,
  .unmapPages 0 0x1000001000 1 .normal]

/-- Two pages of code do not get the free frame in the gap, but those behind the frames in use. -/
theorem mapPages_is_exact_behind_gap :
    ∃ reached result after, small.run? gapRun = some reached ∧
      onSpace 0 (AddressSpace.mapPages 0x8000000 2 .code .readExecute) reached =
        .done result after ∧
      IsLeast {address | reached.resources.frames.Window 2 address} 0x80003000 ∧
      after.translation? (0, 0x8001) = some ⟨0x80004000, .userReadExecute⟩ ∧
      after.resources.frames.referenceCount 0x80004000 = 1 ∧
      after.page (0, 0x1000002) = reached.page (0, 0x1000002) := by
  have shown : ((small.run? gapRun).map fun reached =>
      (reached.processes.length,
        Requirement.judge (reached.mappingRequirements ⟨0, 0x8000000⟩ 2 .code),
        (onSpace 0 (AddressSpace.mapPages 0x8000000 2 .code .readExecute) reached).state?.bind
          (·.translation? (0, 0x8001)))) =
      some (1, .ok (), some ⟨0x80004000, .userReadExecute⟩) := by
    decide +kernel
  obtain ⟨reached, ran, shown⟩ := Option.map_eq_some_iff.mp shown
  obtain ⟨length, met, led⟩ : _ ∧ _ ∧ _ := by simpa only [Prod.mk.injEq] using shown
  obtain ⟨ending, exact⟩ := mapPages_is_exact (show _ ≤ wordLimit by decide +kernel) create_small
    (by decide +kernel) ran ⟨0, 0x8000000⟩ (show 0 < _ by omega) (by decide) 2 .code (by decide)
    .readExecute
  obtain ⟨result, after, done⟩ := Outcome.ending_eq_ok.mp (ending.trans met)
  obtain ⟨first, least, fills, touches⟩ := exact result after done
  have translated : after.translation? (0, 0x8001) = some ⟨first + pageSize, _⟩ :=
    (fills.mapsTo 1 (by decide)).translated
  obtain rfl : first = 0x80003000 := by
    rw [show onSpace 0 _ reached = _ from done] at led
    cases translated.symm.trans led
    rfl
  exact ⟨reached, result, after, ran, done, least, translated, fills.referenceCount_eq 0x80004000,
    touches.page_eq (0, 0x1000002) (by decide +kernel)⟩

end Kernel

end GuestMemory
