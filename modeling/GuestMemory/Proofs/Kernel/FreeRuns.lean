import GuestMemory.Proofs.AddressSpace.Unmapping
import GuestMemory.Proofs.Kernel.Safety
import GuestMemory.Proofs.Kernel.Transitions

/-!
Free runs of a kernel: they are as long as they can be in every state that a kernel can reach, so
its processes determine which frames are free and in what runs. Mapping pages and unmapping them
again at once is therefore as if neither had been asked for.
-/

namespace GuestMemory.Kernel

open GuestMemory.Action

variable {config : Config} {cache : InstructionCache} {kernel other initial reached : Kernel}
variable {after middle : Kernel} {step : Step} {steps : List Step} {index address pages : Nat}
variable {state : MemoryState} {permission : UserPermission} {result : Commit}

/-- All is in order, and no free run touches another. -/
structure Compact (config : Config) (kernel : Kernel) :
    Prop extends OrdinaryInvariant config kernel where
  spaced : Run.Spaced kernel.resources.frames.free

theorem Compact.of_create (created : create config cache = .ok kernel) : Compact config kernel := by
  refine ⟨.of_create created, ?_⟩
  obtain ⟨frames, made, built⟩ := Checked.bind_eq_ok.mp created
  cases built
  exact FramePool.spaced_create made

theorem spaced_onHandles {α : Type} {act : Action (HandleTable KernelObject) α} {value : α}
    (spaced : Run.Spaced kernel.resources.frames.free)
    (done : onHandles index act kernel = .done value after) :
    Run.Spaced after.resources.frames.free := by
  obtain ⟨_, _, _, _, rfl⟩ := onHandles_eq_done done
  exact spaced

/-- A step that is done takes frames from the front of a free run, returns them one after the other
or leaves the free runs alone. -/
theorem Compact.spaced_step (compact : Compact config kernel) (ordinary : step.Ordinary)
    (done : step.perform kernel = .done () after) : Run.Spaced after.resources.frames.free := by
  have spaced := compact.spaced
  cases step with
  | createProcess layout =>
      obtain ⟨position, done⟩ := silent_eq_done.mp done
      obtain ⟨_, rfl⟩ := createProcess_eq_done done
      exact spaced
  | openHandle index object =>
      obtain ⟨handle, done⟩ := silent_eq_done.mp done
      exact spaced_onHandles spaced done
  | closeHandle index handle =>
      obtain ⟨closed, done⟩ := silent_eq_done.mp done
      exact spaced_onHandles spaced done
  | mapPages index address pages state permission =>
      obtain ⟨result, done⟩ := silent_eq_done.mp done
      obtain ⟨_, _, _, acted, rfl⟩ := onSpace_eq_done.mp done
      obtain ⟨_, _, _, _, _, _, allocated, _, _, rfl⟩ := AddressSpace.mapPages_eq_done acted
      obtain ⟨_, _, taken, rfl⟩ := FramePool.allocate_eq_done allocated
      exact FramePool.spaced_takeFirstFit spaced taken
  | unmapPages index address pages state =>
      obtain ⟨result, done⟩ := silent_eq_done.mp done
      obtain ⟨_, _, _, acted, rfl⟩ := onSpace_eq_done.mp done
      obtain ⟨_, removed⟩ := AddressSpace.unmapPages_eq_done acted
      obtain ⟨_, _, _, _, _, _, released, _, rfl⟩ := AddressSpace.unmapRange_eq_done removed
      exact compact.accounts.frames.spaced_releaseAll spaced released
  | call current request =>
      obtain ⟨result, done⟩ := silent_eq_done.mp done
      obtain ⟨task, _, leads, _⟩ := leads_of_perform compact.toStepInvariant done
      rw [leads.frames]
      exact spaced
  | _ => exact ordinary.elim

theorem Compact.kept (ordinary : step.Ordinary) : Keeps (Compact config) step.perform := by
  intro kernel after compact ended
  refine ⟨OrdinaryInvariant.kept compact.toStepInvariant ordinary ended, ?_⟩
  rcases Outcome.state?_eq_some.mp ended with ⟨_, done⟩ | ⟨cause, refused⟩
  · exact compact.spaced_step ordinary done
  · have restored := (transactional_perform_step step).restores _ _ _ compact.sound refused
    rw [restored.resources.frames_eq]
    exact compact.spaced

theorem compact_run (created : create config cache = .ok initial)
    (ordinary : ∀ step ∈ steps, step.Ordinary) (ran : initial.run? steps = some reached) :
    Compact config reached :=
  run?_keeps (fun _ => Compact.kept) ordinary (.of_create created) ran

/-- Kernels with the same processes have the same frames, down to their free runs. -/
theorem Compact.frames_eq (compact : Compact config kernel) (otherCompact : Compact config other)
    (processes : other.processes = kernel.processes) :
    other.resources.frames = kernel.resources.frames := by
  have extent := compact.extent_eq otherCompact.toResourcesAccounted
  refine compact.accounts.frames.eq_of_held (extent ▸ otherCompact.accounts.frames) compact.spaced
    otherCompact.spaced fun frame => ?_
  rw [otherCompact.accounts.held_eq, compact.accounts.held_eq, shown, shown, processes]

/-- Pages that are mapped and unmapped again at once, with the same address, number and state, leave
the whole kernel as it was: blocks are one again with their neighbours on both sides, and the free
runs are those that the frames were cut out of. -/
theorem mapPages_is_undone
    (fits : config.frameBase + config.framePages * pageSize < wordLimit)
    (created : create config cache = .ok initial) (ordinary : ∀ step ∈ steps, step.Ordinary)
    (ran : initial.run? steps = some reached)
    (mapped : onSpace index (AddressSpace.mapPages address pages state permission) reached =
      .done result middle) :
    ∃ answer, onSpace index (AddressSpace.unmapPages address pages state) middle =
      .done answer reached := by
  have compact := compact_run created ordinary ran
  have keptByMapping : Keeps (Compact config)
      (Step.mapPages index address pages state permission).perform := Compact.kept trivial
  have keptByUnmapping : Keeps (Compact config)
      (Step.unmapPages index address pages state).perform := Compact.kept trivial
  have middleCompact : Compact config middle :=
    keptByMapping _ _ compact (state?_silent.trans (by rw [mapped]; rfl))
  have bounded := middleCompact.stop_lt fits
  obtain ⟨process, attached, listed, acted, rfl⟩ := onSpace_eq_done.mp mapped
  have present : (reached.withSpace index process attached).processes[index]? =
      some { process with space := attached.space } :=
    List.getElem?_set_self (List.getElem?_eq_some_iff.mp listed).1
  have guarded : FaultGuarded (fun _ => True) config (reached.withSpace index process attached) :=
    OrdinaryInvariant.guarded middleCompact.toStepInvariant trivial trivial
  obtain ⟨answer, final, unmapped, same⟩ := AddressSpace.unmapPages_of_mapPages
    (compact.coherent process (List.mem_of_getElem? listed))
    (compact.orderly _ (space_mem listed)) (compact.layouts _ (space_mem listed)) acted
    (guarded.space present) middleCompact.spaced bounded
  have done : onSpace index (AddressSpace.unmapPages address pages state)
      (reached.withSpace index process attached) =
        .done answer (reached.withSpace index process final) :=
    onSpace_eq_done.mpr ⟨_, final, present, unmapped, (withSpace_withSpace ..).symm⟩
  -- The processes are what they were, and with them the frames.
  have finalCompact : Compact config (reached.withSpace index process final) :=
    keptByUnmapping _ _ middleCompact (state?_silent.trans (by rw [done]; rfl))
  have frames := compact.frames_eq finalCompact (withSpace_processes listed same)
  have resources : final.resources = reached.resources := by
    rw [AddressSpace.resources_of_unmapPages unmapped, AddressSpace.resources_of_mapPages acted,
      show final.resources.frames = reached.resources.frames from frames]
  have restored : final = ⟨process.space, reached.resources⟩ :=
    congrArg₂ AttachedSpace.mk same resources
  rw [restored, withSpace_self listed] at done
  exact ⟨answer, done⟩

/-- Two pages that become one block with those before them get the first frames of a run of three,
which is whole again when they are gone. -/
theorem mapPages_is_undone_beside_others :
    ∃ reached result middle answer, small.run? [.createProcess {},
        .mapPages 0 0x1000000000 7 .normal .readWrite, .unmapPages 0 0x1000002000 3 .normal] =
          some reached ∧
      reached.resources.frames.free = [⟨0x80002000, 3⟩, ⟨0x80007000, 1⟩] ∧
      onSpace 0 (AddressSpace.mapPages 0x1000002000 2 .normal .readWrite) reached =
        .done result middle ∧
      onSpace 0 (AddressSpace.unmapPages 0x1000002000 2 .normal) middle = .done answer reached := by
  have shown : ((small.run? [.createProcess {}, .mapPages 0 0x1000000000 7 .normal .readWrite,
      .unmapPages 0 0x1000002000 3 .normal]).map fun reached =>
        (reached.resources.frames.free,
          (onSpace 0 (AddressSpace.mapPages 0x1000002000 2 .normal .readWrite) reached).ending)) =
      some ([⟨0x80002000, 3⟩, ⟨0x80007000, 1⟩], .ok ()) := by
    decide +kernel
  obtain ⟨reached, ran, shown⟩ := Option.map_eq_some_iff.mp shown
  obtain ⟨free, ended⟩ := Prod.mk.inj shown
  obtain ⟨result, middle, mapped⟩ := Outcome.ending_eq_ok.mp ended
  obtain ⟨answer, unmapped⟩ := mapPages_is_undone (show _ < wordLimit by decide +kernel)
    create_small (by decide +kernel) ran mapped
  exact ⟨reached, result, middle, answer, ran, free, mapped, unmapped⟩

end GuestMemory.Kernel
