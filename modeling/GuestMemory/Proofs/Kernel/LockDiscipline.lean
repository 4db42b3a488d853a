import GuestMemory.Proofs.Kernel.Safety

/-!
Locks: a block is lent out once or not at all, and looks accordingly. So the lock counts never leave
their width, and no step ever unlocks what is not locked.
-/

namespace GuestMemory

open GuestMemory.Action Checked

variable {pages address count first physical : Nat} {runs : List Run} {run : Run}

namespace FramePool

variable {pool : FramePool} {frame : Nat}

theorem safe_giveBack : (giveBack run runs).Safe (· ≠ .notLocked) := by
  have joining (later : List Run) : (joinNext run later).Safe (· ≠ .notLocked) := by
    cases later with
    | nil => exact .ok _
    | cons next rest =>
        exact .bind (Run.safe_isFollowedBy (.inl (by decide))) fun _ _ =>
          .ite (fun _ => .bind (Run.safe_extend (.inl (by decide))) fun _ _ => .ok _)
            fun _ => .ok _
  refine .bind (joining _) fun joined _ => .bind ?_ fun _ _ => .ok _
  exact @Run.safe_stack _ 0 _ _ (.inl (by decide))

theorem safe_releaseFrames : (releaseFrames count frame pool).Safe (· ≠ .notLocked) := by
  induction count generalizing frame pool with
  | zero => exact .ok _
  | succ count ih =>
      refine .bind ?_ fun _ _ => ih
      rw [releaseFrame]
      split
      · exact .error (by decide)
      · exact .bind (.ite (fun _ => .ok _) fun _ => .error (by decide)) fun _ _ =>
          .ite (fun _ => .bind safe_giveBack fun _ _ => .ok _) fun _ => .ok _

theorem safe_releaseAll : (pool.releaseAll runs).Safe (· ≠ .notLocked) := by
  induction runs generalizing pool with
  | nil => exact .ok _
  | cons run rest ih =>
      rw [releaseAll, List.foldlM_cons]
      exact .bind safe_releaseFrames fun _ _ => ih

end FramePool

namespace AddressSpace.FaultGuarded

variable {attached : AttachedSpace} {extent : Run} {state : MemoryState}
variable (guarded : FaultGuarded (· ≠ .notLocked) extent attached)

include guarded

theorem safe_unmapPages : (unmapPages address pages state).Safe (· ≠ .notLocked) attached := by
  have coherent := guarded.coherent
  refine .after_steady steady_rangeSize safe_rangeSize fun size sized =>
    .after_steady steady_requireInside (safe_requireInside guarded.layout) fun _ inside =>
      .after_steady steady_checkRange (safe_checkRange coherent.wellFormed) fun _ _ => ?_
  obtain ⟨_, rfl, _⟩ := rangeSize_eq_done sized
  obtain ⟨nonempty, covers⟩ := covers_of_requireInside inside coherent
  have frees (aligned : address % pageSize = 0) : ∃ blocks,
      attached.space.blocks.assign address pages .free .empty .empty = .ok blocks :=
    updateWith_exists coherent aligned nonempty covers fun _ _ => ⟨_, rfl⟩
  refine .bind ?_ fun _ removed erased => safe_commit (coherent.unmapRange erased).wellFormed
  refine .after_steady (Steady.inspect _) (.inspect (Directory.safe_runs guarded.fits guarded.lies))
    fun found _ => .bind (changeDirectory_safe ?_) fun _ middle done => ?_
  · exact .ite (fun _ => .ok _) fun _ => .error (by decide)
  obtain ⟨directory, erased, rfl⟩ := changeDirectory_eq_done.mp done
  refine .bind (changeFrames_safe FramePool.safe_releaseAll) fun _ middle done => ?_
  obtain ⟨frames, _, rfl⟩ := changeFrames_eq_done.mp done
  exact changeBlocks_safe (.of_exists (frees (Directory.aligned_of_unmap erased)))

end AddressSpace.FaultGuarded

namespace Kernel

variable {kernel initial reached : Kernel} {index : Nat} {config : Config}
variable {cache : InstructionCache} {steps : List Step} {process : Process} {block : Block}

theorem safe_onHandles {α : Type} {act : Action (HandleTable KernelObject) α}
    (safe : ∀ table, act.Safe (· ≠ .notLocked) table) :
    (onHandles index act).Safe (· ≠ .notLocked) kernel :=
  .after_steady steady_process (safe_process (.inl (by decide))) fun _ _ => .focus (safe _)

/-- No step unlocks what is not locked. -/
theorem OrdinaryInvariant.safe_step (inv : OrdinaryInvariant config kernel) {step : Step}
    (ordinary : step.Ordinary) : step.perform.Safe (· ≠ .notLocked) kernel := by
  have guarded : FaultGuarded (· ≠ .notLocked) config kernel := inv.guarded (by decide) (by decide)
  have present (index : Nat) : Present (· ≠ .notLocked) kernel index := .inl (by decide)
  cases step with
  | createProcess layout =>
      refine .bind (fun fault stopped => ?_) fun _ _ _ => .pure _
      rw [createProcess] at stopped
      split at stopped <;> cases stopped
      rename_i failed
      rw [HandleTable.create] at failed
      split at failed <;> cases failed
      exact Fault.noConfusion
  | openHandle index object =>
      refine .bind (safe_onHandles fun table fault stopped => ?_) fun _ _ _ => .pure _
      rw [HandleTable.add] at stopped
      split at stopped
      · cases stopped
      · split at stopped <;> cases stopped
  | closeHandle index handle =>
      exact .bind (safe_onHandles fun table fault stopped => by cases stopped) fun _ _ _ =>
        .pure _
  | mapPages index address pages state permission =>
      exact .bind (safe_onSpace (present index) fun process listed =>
        (guarded.space listed).safe_mapPages (.inl Fault.noConfusion) (.inl (by decide))
          fun _ => .inl (by decide)) fun _ _ _ => .pure _
  | unmapPages index address pages state =>
      exact .bind (safe_onSpace (present index) fun process listed =>
        (guarded.space listed).safe_unmapPages) fun _ _ _ => .pure _
  | call index request =>
      exact .bind (guarded.safe_perform_of_wellFormed (present index) request inv.layouts)
        fun _ _ _ => .pure _
  | _ => exact ordinary.elim

/-- The properties of every block are those of some page. -/
theorem OrdinaryInvariant.orderly_of_block (inv : OrdinaryInvariant config kernel)
    (member : process ∈ kernel.processes)
    (included : block ∈ process.space.blocks.blocks) : block.properties.Orderly := by
  have found := (inv.coherent process member).wellFormed.at?_of_mem included
  have orderly := inv.orderly _ (List.mem_map_of_mem member) (pageOf block.start)
  rwa [AddressSpace.page, Partition.propertiesOf, found, Option.getD_some] at orderly

theorem OrdinaryInvariant.lock_exists (inv : OrdinaryInvariant config kernel)
    (member : process ∈ kernel.processes)
    (aligned : address % pageSize = 0) (nonempty : 0 < pages)
    (covers : process.space.blocks.region.Covers address pages) (permission : KernelPermission) :
    ∃ blocks, process.space.blocks.lock address pages permission = .ok blocks := by
  have wellFormed := (inv.coherent process member).wellFormed
  refine wellFormed.updateWith_exists aligned nonempty covers
    fun page properties _ _ found => ?_
  obtain ⟨block, included, _, rfl⟩ := wellFormed.at?_eq_some_iff.mp found
  have few := (inv.orderly_of_block member included).locks_le_one
  have fits : block.properties.locks + 1 < Properties.lockLimit :=
    Nat.lt_of_le_of_lt (Nat.add_le_add_right few 1) (by decide)
  exact ⟨_, by rw [Properties.lock, below, if_pos fits]; rfl⟩

/-- In every state that a kernel can reach, a block is marked or not, as it is lent out once or not
at all. Lent memory is ordinary and hidden, free memory carries nothing. So one more lock always
fits wherever it is put, and no step, whatever it asks for, unlocks what is not locked. -/
theorem locks_are_disciplined (created : create config cache = .ok initial)
    (ordinary : ∀ step ∈ steps, step.Ordinary) (ran : initial.run? steps = some reached) :
    (∀ process ∈ reached.processes,
      (∀ block ∈ process.space.blocks.blocks,
        (block.attributes = .empty ∨ block.attributes = .locked) ∧
          (block.attributes = .locked ↔ block.locks = 1) ∧
          (block.attributes ≠ .locked → block.locks = 0) ∧
          (block.attributes = .locked → block.state = .normal ∧
            block.permission = .kernelRead ||| .notMapped) ∧
          (block.state = .free →
            block.permission = .empty ∧ block.attributes = .empty ∧ block.locks = 0)) ∧
      ∀ address pages permission, address % pageSize = 0 → 0 < pages →
        process.space.blocks.region.Covers address pages →
          ∃ blocks, process.space.blocks.lock address pages permission = .ok blocks) ∧
    ∀ step : Step, step.Ordinary → step.perform reached ≠ .fault .notLocked := by
  have inv := ordinaryInvariant_run created ordinary ran
  refine ⟨fun process member => ⟨fun block included => ?_, fun address pages permission aligned
    nonempty covers => inv.lock_exists member aligned nonempty covers permission⟩,
    fun step allowed stopped => inv.safe_step allowed _ stopped rfl⟩
  exact (inv.orderly_of_block member included).summary

/-- The source of the code alias that a process has made and still has. -/
theorem locks_are_disciplined_of_lent_page :
    ∃ reached process block, small.run? smallRun = some reached ∧
      process ∈ reached.processes ∧ block ∈ process.space.blocks.blocks ∧
      block.attributes = .locked ∧ block.locks = 1 ∧ block.state = .normal := by
  have shown : ((small.run? smallRun).bind fun reached => reached.processes[1]?.bind fun process =>
      process.space.blocks.blocks.find? fun block => block.attributes = .locked).isSome := by
    decide +kernel
  obtain ⟨block, found⟩ := Option.isSome_iff_exists.mp shown
  obtain ⟨reached, ran, found⟩ := Option.bind_eq_some_iff.mp found
  obtain ⟨process, listed, found⟩ := Option.bind_eq_some_iff.mp found
  have member := List.mem_of_getElem? listed
  have included := List.mem_of_find?_eq_some found
  have marked : block.attributes = .locked := by simpa using List.find?_some found
  obtain ⟨blocks, _⟩ := (locks_are_disciplined create_small
    (show ∀ step ∈ smallRun, step.Ordinary by decide +kernel) ran).1 process member
  obtain ⟨_, once, _, shape, _⟩ := blocks block included
  exact ⟨reached, process, block, ran, member, included, marked, once.mp marked, (shape marked).1⟩

end Kernel

end GuestMemory
