import GuestMemory.Proofs.AddressSpace.SafeOperations
import GuestMemory.Proofs.Kernel.Handles
import GuestMemory.Proofs.Kernel.Moves

/-!
Safety of calls: in a kernel in order no call ends in a fault, whatever its arguments. What remains
is a number that leaves its width, where there is too much memory, and a process that is not there.
-/

namespace GuestMemory

open GuestMemory.Action

variable {allowed : Fault → Prop}

namespace Kernel

variable {α : Type} {kernel after : Kernel} {index current frame page first size pages : Nat}
variable {destination source : Nat} {process : Process} {config : Config} {frames : List Nat}
variable {action : SpaceAction α} {handle : Handle} {target origin : Place}

/-- The process is in the list, unless it may be missing. -/
def Present (allowed : Fault → Prop) (kernel : Kernel) (index : Nat) : Prop :=
  allowed .processMissing ∨ index < kernel.processes.length

/-- What keeps faults from calls, but for the allowed ones and for that of a range outside an
address space. -/
structure FaultGuarded (allowed : Fault → Prop) (config : Config) (kernel : Kernel) : Prop
    extends StepInvariant Layout.Regular config kernel where
  room : allowed .overflow ∨
    kernel.extent.stop < wordLimit ∧ ∀ frame, kernel.shown frame < AddressSpace.pageLimit
  named : allowed .processMissing ∨ kernel.Named

theorem OrdinaryInvariant.guarded (inv : OrdinaryInvariant config kernel)
    (overflow : allowed .overflow) (missing : allowed .processMissing) :
    FaultGuarded allowed config kernel :=
  ⟨inv.imp fun _ wellFormed => wellFormed.regular, .inl overflow, .inl missing⟩

theorem safe_process (present : Present allowed kernel index) :
    (Kernel.process index).Safe allowed kernel := by
  refine .inspect ?_
  cases listed : kernel.processes[index]? with
  | some process => exact .ok _
  | none =>
      have beyond := List.getElem?_eq_none_iff.mp listed
      exact .error (present.resolve_right (Nat.not_lt_of_le beyond))

theorem safe_onSpace (present : Present allowed kernel index)
    (safe : ∀ process, kernel.processes[index]? = some process →
      action.Safe allowed ⟨process.space, kernel.resources⟩) :
    (onSpace index action).Safe allowed kernel := by
  refine .after_steady steady_process (safe_process present) fun process found => ?_
  exact .focus (safe process (process_eq_done found).1)

theorem safe_resolveHandle (present : Present allowed kernel current) :
    (resolveHandle current handle).Safe allowed kernel :=
  .bind (safe_process present) fun _ _ _ => .pure _

theorem safe_resolve (present : Present allowed kernel current) :
    (resolve current handle).Safe allowed kernel :=
  .ite (fun _ => .pure _) fun _ => safe_resolveHandle present

theorem card_pagesOn_le_shown (listed : kernel.processes[index]? = some process) (frame : Nat) :
    (process.space.directory.pagesOn frame).card ≤ kernel.shown frame :=
  List.le_sum_of_mem (List.mem_map_of_mem
    (f := fun process : Process => (process.space.directory.pagesOn frame).card)
    (List.mem_of_getElem? listed))

/-- A frame that a page outside a range of a process shows too has more pages than the range. -/
theorem count_lt_shown {other : Nat} {owner : Process}
    (listed : kernel.processes[index]? = some process)
    (backs : process.space.directory.Backs first frames)
    (ownerListed : kernel.processes[other]? = some owner)
    (backed : owner.space.directory.frameAt? page = some frame)
    (outside : index = other → ¬ (first ≤ page ∧ page < first + frames.length)) :
    frames.count frame < kernel.shown frame := by
  -- Without the range the process shows the frame that much less often, and the page remains.
  let directory := Directory.erasePages frames.length first process.space.directory
  let attached : AttachedSpace := ⟨{ process.space with directory }, kernel.resources⟩
  have erased := Directory.frameAt?_erasePages process.space.directory first frames.length
  have lost := Directory.card_pagesOn_of_erased backs erased frame
  have total := sum_map_set { process with space := attached.space }
    (fun process => (process.space.directory.pagesOn frame).card) listed
  have remains : 0 < (kernel.withSpace index process attached).shown frame := by
    refine shown_pos_withSpace ownerListed listed backed fun own => ?_
    obtain rfl : process = owner := Option.some.inj (listed.symm.trans (own ▸ ownerListed))
    change directory.frameAt? page = some frame
    rw [erased, if_neg (outside own)]
    exact backed
  simp only [withSpace, setProcess, shown, attached, directory] at *
  omega

/-- Whatever comes of mapping a group, it keeps its descriptors, and what could be spared before
still can be. -/
theorem spares_of_mapGroup {address : Nat} {group : PageGroup} {runs : List Run} {extent : Run}
    {held middle : Kernel} (wellFormed : held.resources.frames.WellFormed extent)
    (listed : group.runs held.resources.descriptors = .ok runs)
    (spares : held.resources.frames.Spares frames)
    (ended : (onSpace index (AddressSpace.mapGroup address group .sharedCode .userReadWrite)
      held).state? = some middle) :
    middle.resources.descriptors = held.resources.descriptors ∧
      middle.resources.frames.Spares frames := by
  rcases Outcome.state?_eq_some.mp ended with ⟨result, done⟩ | ⟨cause, refused⟩
  · obtain ⟨shower, final, _, mapping, rfl⟩ := onSpace_eq_done.mp done
    obtain ⟨_, _, _, placed⟩ := AddressSpace.mapGroup_eq_done mapping
    obtain ⟨_, descriptors, more, _⟩ :=
      AddressSpace.placeGroup_accounts placed wellFormed listed
    refine ⟨descriptors, fun frame member => ?_⟩
    have before := spares frame member
    have after := more frame
    simp only [withSpace] at *
    omega
  · obtain rfl := refusesFirst_onSpace AddressSpace.refusesFirst_mapGroup _ _ _ trivial refused
    exact ⟨rfl, spares⟩

/-- The layout of the process admits memory in the state on the range. -/
def Admits (allowed : Fault → Prop) (kernel : Kernel) (place : Place) (size : Nat)
    (state : MemoryState) : Prop :=
  ∀ process, kernel.processes[place.process]? = some process →
    process.space.layout.Admits allowed place.address size state

/-- The range that a call maps when it is answered: in the process that calls, or in the one that
the handle stands for. -/
inductive MapsAt (kernel : Kernel) (current : Nat) : Call → Place → Nat → Prop
  | memory (destination : UInt64) (handle : Handle) (source size : UInt64) :
    MapsAt kernel current (.mapMemory destination handle source size)
      ⟨current, destination.toNat⟩ size.toNat
  | code {handle : Handle} {destination source size : UInt64} {target : Nat}
    (resolved : resolve current handle kernel = .done (some target) kernel) :
    MapsAt kernel current (.mapCode handle destination source size)
      ⟨target, destination.toNat⟩ size.toNat

namespace FaultGuarded

variable (guarded : FaultGuarded allowed config kernel)

include guarded

theorem held_eq_shown (frame : Nat) :
    kernel.resources.frames.held frame = kernel.shown frame := by
  rw [guarded.accounts.held_eq, List.count_nil, Nat.add_zero]

theorem space (listed : kernel.processes[index]? = some process) :
    AddressSpace.FaultGuarded allowed kernel.extent ⟨process.space, kernel.resources⟩ where
  sound := guarded.sound.attach process
  coherent := guarded.coherent process (List.mem_of_getElem? listed)
  orderly := guarded.orderly _ (space_mem listed)
  layout := guarded.layouts _ (space_mem listed)
  frames := guarded.accounts.frames
  shown_le := fun frame => by
    rw [guarded.held_eq_shown]
    exact card_pagesOn_le_shown listed frame
  room := guarded.room.imp_right fun ⟨fits, few⟩ => ⟨fits, fun frame => by
    rw [guarded.held_eq_shown]
    exact few frame⟩

theorem present_of_resolveHandle {found : Nat}
    (resolved : resolveHandle current handle kernel = .done (some found) after) :
    Present allowed kernel found := by
  obtain ⟨process, _, here, named⟩ := bind_eq_done.mp resolved
  obtain ⟨listed, rfl⟩ := process_eq_done here
  obtain ⟨named, _⟩ := pure_eq_done.mp named
  exact guarded.named.imp_right fun names =>
    (names process (List.mem_of_getElem? listed)).process? named

theorem present_of_resolve {found : Nat} (present : Present allowed kernel current)
    (resolved : resolve current handle kernel = .done (some found) after) :
    Present allowed kernel found := by
  rw [resolve] at resolved
  split at resolved
  · obtain ⟨same, _⟩ := pure_eq_done.mp resolved
    obtain rfl := Option.some.inj same
    exact present
  · exact guarded.present_of_resolveHandle resolved

theorem safe_checkMemoryArguments (present : Present allowed kernel current) :
    (checkMemoryArguments current destination handle source size).Safe allowed kernel := by
  refine .after_steady (Steady.require _ _) (.require _ _) fun _ _ =>
    .after_steady (Steady.require _ _) (.require _ _) fun _ _ =>
      .after_steady (Steady.require _ _) (.require _ _) fun _ _ =>
        .after_steady (Steady.require _ _) (.require _ _) fun _ _ =>
          .after_steady (Steady.require _ _) (.require _ _) fun _ _ =>
            .after_steady steady_resolveHandle (safe_resolveHandle present) fun found resolved =>
              .after_steady (Steady.expect _ _) (.expect _ _) fun owner expected => ?_
  obtain ⟨rfl, _⟩ := expect_eq_done.mp expected
  have there := guarded.present_of_resolveHandle resolved
  refine .after_steady (steady_onSpace AddressSpace.steady_requireInside)
    (safe_onSpace there fun process listed =>
      AddressSpace.safe_requireInside (guarded.space listed).layout) fun _ _ =>
    .after_steady (steady_onSpace AddressSpace.steady_requirePlace)
      (safe_onSpace present fun process listed =>
        AddressSpace.safe_requirePlace (guarded.space listed).layout) fun _ _ => .pure _

theorem safe_checkCodeArguments (present : Present allowed kernel current)
    {request : CodeRequest} :
    (checkCodeArguments request current handle destination source size).Safe allowed kernel := by
  refine .after_steady steady_requireBothAligned ?_ fun _ _ =>
    .after_steady (Steady.require _ _) (.require _ _) fun _ _ =>
      .after_steady (Steady.require _ _) (.require _ _) fun _ _ =>
        .after_steady (Steady.require _ _) (.require _ _) fun _ _ =>
          .after_steady steady_resolve (safe_resolve present) fun found resolved =>
            .after_steady (Steady.expect _ _) (.expect _ _) fun target expected => ?_
  · cases request <;>
      exact .after_steady (Steady.require _ _) (.require _ _) fun _ _ => .require _ _
  obtain ⟨rfl, _⟩ := expect_eq_done.mp expected
  refine .after_steady steady_process (safe_process (guarded.present_of_resolve present resolved))
    fun process found => ?_
  have layout := (guarded.space (process_eq_done found).1).layout
  exact .after_steady (Steady.check _) (.check (.of_exists (layout.contains_exists _ _)))
    fun _ _ => .after_steady (Steady.require _ _) (.require _ _) fun _ _ =>
      .after_steady (Steady.check _) (.check (.of_exists (layout.inAliasCode_exists _ _)))
        fun _ _ => .after_steady (Steady.require _ _) (.require _ _) fun _ _ => .pure _

/-- The frames behind a range of one process can be spared there while another range shows them. -/
theorem spares_of_shared {other second : Nat} {owner : Process}
    (listed : kernel.processes[index]? = some process)
    (backs : process.space.directory.Backs first frames)
    (ownerListed : kernel.processes[other]? = some owner)
    (ownerBacks : owner.space.directory.Backs second frames)
    (apart : index = other → ∀ page, owner.space.directory.frameAt? page ≠ none →
      second ≤ page → page < second + frames.length →
        ¬ (first ≤ page ∧ page < first + frames.length)) :
    kernel.resources.frames.Spares frames := by
  intro frame member
  obtain ⟨page, lower, upper, backed⟩ := AddressSpace.exists_page_of_backs ownerBacks member
  rw [guarded.held_eq_shown]
  exact count_lt_shown listed backs ownerListed backed fun own =>
    apart own page (by rw [backed]; exact Option.some_ne_none frame) lower upper

/-- The frames behind a range that is checked to be shared memory can be spared while the range
that is checked to be its source shows them. -/
theorem spares_of_checked {other pages : Nat} {owner : Process} {check : Check}
    (listed : kernel.processes[index]? = some process)
    (ownerListed : kernel.processes[other]? = some owner)
    (first : destination % pageSize = 0) (second : source % pageSize = 0)
    (shared : ∀ state, check.state.accepts state = true → state = .sharedCode)
    (checked : AddressSpace.checkRange destination (pages * pageSize) check
      ⟨process.space, kernel.resources⟩ = .done () ⟨process.space, kernel.resources⟩)
    (lent : AddressSpace.checkRange source (pages * pageSize) (.hasFlags .canMapProcess)
      ⟨owner.space, kernel.resources⟩ = .done () ⟨owner.space, kernel.resources⟩)
    (backs : process.space.directory.Backs (pageOf destination) frames)
    (ownerBacks : owner.space.directory.Backs (pageOf source) frames)
    (length : frames.length = pages) : kernel.resources.frames.Spares frames := by
  subst length
  refine guarded.spares_of_shared listed backs ownerListed ownerBacks fun own page => ?_
  -- In one and the same process the source is apart from the range that is taken away.
  obtain rfl : process = owner := Option.some.inj (listed.symm.trans (own ▸ ownerListed))
  apply (guarded.space listed).coherent.apart first second checked lent
  intro state taken kept
  obtain rfl := shared state taken
  exact absurd kept (by decide)

theorem safe_mapShared {pages : Nat} (there : Present allowed kernel target.process)
    (source : Present allowed kernel origin.process) (aligned : target.address % pageSize = 0)
    (few : pages < wordLimit)
    (admits : kernel.Admits allowed target (pages * pageSize) .sharedCode) :
    (mapShared target origin pages).Safe allowed kernel := by
  refine .bind (safe_onSpace source fun process listed => (guarded.space listed).safe_makeHeldGroup)
    fun group held grouped => ?_
  obtain ⟨owner, made, listed, making, rfl⟩ := onSpace_eq_done.mp grouped
  obtain ⟨_, once, runs, groups, retained⟩ :=
    AddressSpace.makeHeldGroup_eq_done (guarded.sound.attach owner) making
  have processes := withSpace_processes listed groups.space_eq
  have owning := guarded.space listed
  obtain ⟨heldFrames, _⟩ := guarded.accounts.frames.retainAll retained
  refine .ensuring (safe_onSpace ?_ fun shower showerListed => ?_) fun middle ended => ?_
  · rwa [Present, processes]
  · rw [processes] at showerListed
    have showing := guarded.space showerListed
    have admitsShower := admits shower showerListed
    rw [← groups.length_eq] at admitsShower
    exact AddressSpace.safe_mapGroup showing.coherent showing.orderly showing.layout
      aligned admitsShower (by decide) groups.occupies.held (groups.lies _ owning.lies)
      (groups.length_eq ▸ few) ((owning.retainable_of_backs groups.backs).right
        (FramePool.retains_of_retainAll retained))
  · have spares := (FramePool.retains_of_retainAll retained).spares guarded.sound.frames
    obtain ⟨(descriptors : middle.resources.descriptors = made.resources.descriptors), spares⟩ :=
      spares_of_mapGroup heldFrames groups.occupies.held spares ended
    have occupies := groups.occupies
    rw [← descriptors] at occupies
    exact .bind (.of_exists (occupies.discard_exists (.inr ⟨once, spares⟩))) fun _ _ => .ok _

theorem safe_unmapShared (there : Present allowed kernel target.process)
    (source : Present allowed kernel origin.process) (first : target.address % pageSize = 0)
    (second : origin.address % pageSize = 0) (whole : WholePages size)
    (inside : onSpace origin.process (AddressSpace.requireInside origin.address size) kernel =
      .done () kernel) :
    (unmapShared target origin size).Safe allowed kernel := by
  refine .after_steady (steady_onSpace AddressSpace.steady_checkRange)
    (safe_onSpace there fun process listed => AddressSpace.safe_checkRange
      (guarded.space listed).coherent.wellFormed) fun _ checked =>
    .after_steady (steady_onSpace AddressSpace.steady_checkRange)
      (safe_onSpace source fun process listed => AddressSpace.safe_checkRange
        (guarded.space listed).coherent.wellFormed) fun _ lent =>
      .bind (safe_onSpace source fun process listed => (guarded.space listed).safe_makeGroup)
        fun group grown grouped => ?_
  obtain ⟨owner, made, listed, making, rfl⟩ := onSpace_eq_done.mp grouped
  have owning := guarded.space listed
  obtain ⟨unheld, unchanged, runs, groups⟩ :=
    AddressSpace.makeGroup_eq_done (guarded.sound.attach owner) making
  have processes := withSpace_processes listed groups.space_eq
  have insideOwner := onSpace_of_steady AddressSpace.steady_requireInside listed inside
  rw [← whole.mul_eq, ← groups.length_eq] at insideOwner
  obtain ⟨nonempty, covers⟩ :=
    AddressSpace.covers_of_requireInside insideOwner owning.coherent
  have few := (owning.coherent.pages_fit covers).2
  rw [groups.length_eq] at nonempty
  refine .ensuring (safe_onSpace ?_ fun holder holderListed => ?_) fun middle ended => ?_
  · rwa [Present, processes]
  · rw [processes] at holderListed
    have holding := guarded.space holderListed
    refine AddressSpace.safe_unmapBacked holding.coherent first nonempty holding.fits
      holding.lies groups.occupies.held few fun backs => ?_
    have viewing := onSpace_of_steady AddressSpace.steady_checkRange holderListed checked
    have lending := onSpace_of_steady AddressSpace.steady_checkRange listed lent
    rw [← whole.mul_eq] at viewing lending
    simp only [withSpace, unchanged]
    exact guarded.spares_of_checked holderListed listed first second
      (fun state => by cases state <;> decide) viewing lending backs groups.backs groups.length_eq
  · have same : middle.resources.descriptors = made.resources.descriptors :=
      keeps_resources (·.descriptors = made.resources.descriptors)
        AddressSpace.described_unmapBacked _ _ rfl ended
    have occupies := groups.occupies
    rw [← same] at occupies
    exact .bind (.of_exists (occupies.discard_exists (.inl unheld))) fun _ _ => .ok _

theorem safe_perform (present : Present allowed kernel current) (request : Call)
    (admits : ∀ place size state, kernel.MapsAt current request place size →
      kernel.Admits allowed place size state) :
    (perform current request).Safe allowed kernel := by
  cases request with
  | setPermission handle address size permission =>
      refine .after_steady (Steady.require _ _) (.require _ _) fun _ aligned =>
        .after_steady (Steady.require _ _) (.require _ _) fun _ _ =>
          .after_steady (Steady.require _ _) (.require _ _) fun _ _ =>
            .after_steady (Steady.expect _ _) (.expect _ _) fun granted _ =>
              .after_steady steady_resolve (safe_resolve present) fun found resolved =>
                .after_steady (Steady.expect _ _) (.expect _ _) fun target expected => ?_
      obtain ⟨rfl, _⟩ := expect_eq_done.mp expected
      obtain ⟨aligned, _⟩ := require_eq_done.mp aligned
      refine safe_onSpace (guarded.present_of_resolve present resolved) fun process listed => ?_
      have space := guarded.space listed
      exact .after_steady AddressSpace.steady_requireInside
        (AddressSpace.safe_requireInside space.layout) fun _ _ =>
          space.safe_setPermission (isPageAligned_iff.mp aligned)
  | mapMemory destination handle source size =>
      refine .after_steady steady_checkMemoryArguments (guarded.safe_checkMemoryArguments present)
        fun owner checked => ?_
      obtain ⟨arguments, _⟩ := checkMemoryArguments_eq_done checked
      exact guarded.safe_mapShared present (guarded.present_of_resolveHandle arguments.resolved)
        arguments.destination_aligned (Nat.lt_of_le_of_lt (Nat.div_le_self _ _) size.toNat_lt)
        (by rw [arguments.whole.mul_eq]; exact admits _ _ _ (.memory ..))
  | unmapMemory destination handle source size =>
      refine .after_steady steady_checkMemoryArguments (guarded.safe_checkMemoryArguments present)
        fun owner checked => ?_
      obtain ⟨arguments, _⟩ := checkMemoryArguments_eq_done checked
      exact guarded.safe_unmapShared present (guarded.present_of_resolveHandle arguments.resolved)
        arguments.destination_aligned arguments.source_aligned arguments.whole arguments.inside
  | mapCode handle destination source size =>
      refine .after_steady steady_checkCodeArguments (guarded.safe_checkCodeArguments present)
        fun target checked => ?_
      obtain ⟨first, second, whole, resolved, _⟩ := checkCodeArguments_eq_done checked
      exact safe_onSpace (guarded.present_of_resolve present resolved) fun process listed =>
        (guarded.space listed).safe_mapCode first second whole.mul_eq
          (admits _ _ _ (.code resolved) process listed)
  | unmapCode handle destination source size =>
      refine .after_steady steady_checkCodeArguments (guarded.safe_checkCodeArguments present)
        fun target checked => .after_steady (Steady.read _) (.read _) fun config _ => ?_
      obtain ⟨first, second, whole, resolved, _⟩ := checkCodeArguments_eq_done checked
      exact safe_onSpace (guarded.present_of_resolve present resolved) fun process listed =>
        (guarded.space listed).safe_unmapCode first second whole.mul_eq

/-- Well-formed layouts admit nothing outside an address space. -/
theorem safe_perform_of_wellFormed (present : Present allowed kernel current) (request : Call)
    (layouts : ∀ space ∈ kernel.spaces, space.layout.WellFormed) :
    (perform current request).Safe allowed kernel :=
  guarded.safe_perform present request fun _ _ _ _ _ listed =>
    (layouts _ (space_mem listed)).admits _ _ _

end FaultGuarded

/-- The number of pages that are mapped over all processes. -/
def mappedPages (kernel : Kernel) : Nat :=
  (kernel.processes.map (·.space.directory.size)).sum

theorem shown_le_mappedPages (kernel : Kernel) (frame : Nat) :
    kernel.shown frame ≤ kernel.mappedPages :=
  List.sum_le_sum fun process _ => process.space.directory.card_pagesOn_le_size frame

variable {cache : InstructionCache} {initial reached : Kernel} {steps : List Step}

theorem StepInvariant.room {legal : Layout → Prop} (inv : StepInvariant legal config kernel)
    (fits : config.frameBase + config.framePages * pageSize < wordLimit)
    (few : kernel.mappedPages < 2 ^ 30) :
    kernel.extent.stop < wordLimit ∧ ∀ frame, kernel.shown frame < AddressSpace.pageLimit :=
  ⟨inv.stop_lt fits,
    fun frame => Nat.lt_of_le_of_lt (kernel.shown_le_mappedPages frame) few⟩

theorem Named.of_create (created : create config cache = .ok initial) : initial.Named := by
  rw [Named, processes_create created]
  exact fun process member => absurd member List.not_mem_nil

theorem faultGuarded_run (fits : config.frameBase + config.framePages * pageSize < wordLimit)
    (created : create config cache = .ok initial)
    (among : ∀ step ∈ steps, step.Allowed Layout.Regular) (knows : initial.Knows steps)
    (ran : initial.run? steps = some reached) (few : reached.mappedPages < 2 ^ 30) :
    FaultGuarded allowed config reached := by
  have inv := stepInvariant_run (fun _ regular => regular.toPaged) created among ran
  exact ⟨inv, .inr (inv.room fits few), .inr ((Named.of_create created).run knows among ran)⟩

/-- Guest input never stops a kernel whose frames all lie before the last address: in every state
that it can reach and that has fewer than 2^30 pages mapped, each call of a process is answered or
refused, whatever its arguments. -/
theorem calls_never_fault
    (fits : config.frameBase + config.framePages * pageSize < wordLimit)
    (created : create config cache = .ok initial) (ordinary : ∀ step ∈ steps, step.Ordinary)
    (knows : initial.Knows steps) (ran : initial.run? steps = some reached)
    (few : reached.mappedPages < 2 ^ 30) (present : current < reached.processes.length)
    (request : Call) : ∃ code, (perform current request reached).code? = some code := by
  have inv := ordinaryInvariant_run created ordinary ran
  have guarded : FaultGuarded (fun _ => False) config reached :=
    faultGuarded_run fits created (fun step member => (ordinary step member).regular) knows ran few
  exact (guarded.safe_perform_of_wellFormed (.inr present) request inv.layouts).code?_of_none

/-- The code alias of one page is taken away with a source of two. -/
theorem calls_never_fault_of_longer_source :
    ∃ reached code, small.run? smallRun = some reached ∧
      (perform 1 (.unmapCode .currentProcess 0x9000000 0x1000001000 0x2000) reached).code? =
        some code := by
  have shown : ((small.run? smallRun).map fun reached =>
      decide (reached.mappedPages < 2 ^ 30 ∧ 1 < reached.processes.length)) = some true := by
    decide +kernel
  obtain ⟨reached, ran, shown⟩ := Option.map_eq_some_iff.mp shown
  obtain ⟨few, present⟩ := of_decide_eq_true shown
  obtain ⟨code, answered⟩ := calls_never_fault (show _ < wordLimit by decide +kernel) create_small
    (show ∀ step ∈ smallRun, step.Ordinary by decide +kernel)
    (show small.Knows smallRun by decide +kernel) ran few present
    (.unmapCode .currentProcess 0x9000000 0x1000001000 0x2000)
  exact ⟨reached, code, ran, answered⟩

end Kernel

end GuestMemory
