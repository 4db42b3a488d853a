import GuestMemory.Proofs.Kernel.Inverses

/-!
Turns: what one step makes of a single page, whatever it does to others. Memory gets its state and
its permission together, so a rule on which of them go together holds of all memory in use once it
holds of what pages are mapped with and of what the calls make of memory.
-/

namespace GuestMemory

open GuestMemory.Action Verdict AddressSpace

variable {grants : MemoryState → UserPermission → Prop}

/-- The rule lets the calls share memory, lend it as code and change its permission. -/
structure GrantsCalls (grants : MemoryState → UserPermission → Prop) : Prop where
  shared : grants .sharedCode .readWrite
  aliased : grants .aliasCode .none
  reprotected : ∀ (state : MemoryState) (permission : UserPermission),
    state.isReprotectable = true → grants (state.afterReprotect permission.toKernel) permission

/-- What the step maps pages with is granted. -/
def Step.Grants (grants : MemoryState → UserPermission → Prop) : Step → Prop
  | mapPages _ _ _ state permission => grants state permission
  | _ => True

instance (grants : MemoryState → UserPermission → Prop)
    [∀ state permission, Decidable (grants state permission)] :
    DecidablePred (Step.Grants grants)
  | .mapPages _ _ _ state permission => inferInstanceAs (Decidable (grants state permission))
  | .createProcess .. | .openHandle .. | .closeHandle .. | .unmapPages .. | .call ..
  | .setPermission .. | .mapCode .. | .unmapCode .. | .makeGroup .. | .makeHeldGroup ..
  | .mapGroup .. | .discardGroup .. | .unmapShared .. => inferInstanceAs (Decidable True)

theorem grantsCalls_all : GrantsCalls fun _ _ => True :=
  ⟨trivial, trivial, fun _ _ _ => trivial⟩

theorem Step.grants_all (step : Step) : step.Grants fun _ _ => True := by
  cases step <;> trivial

namespace Properties

variable {old new : Properties}

/-- What a step can make of the properties of a page. -/
inductive Turns (grants : MemoryState → UserPermission → Prop) : Properties → Properties → Prop
  | kept (properties : Properties) : Turns grants properties properties
  | mapped {state : MemoryState} {permission : UserPermission} (used : state ≠ .free)
    (granted : grants state permission) : Turns grants .free (plain state permission.toKernel)
  | unmapped (properties : Properties) : Turns grants properties .free
  | reprotected {state : MemoryState} (old : KernelPermission) (permission : UserPermission)
    (reprotectable : state.isReprotectable = true) :
    Turns grants (plain state old)
      (plain (state.afterReprotect permission.toKernel) permission.toKernel)
  | lent : Turns grants (plain .normal .userReadWrite) lent
  | returned : Turns grants lent (plain .normal .userReadWrite)

/-- Memory is unused, in use as it is granted, or lent out. -/
inductive Granted (grants : MemoryState → UserPermission → Prop) : Properties → Prop
  | free : Granted grants .free
  | inUse {state : MemoryState} {permission : UserPermission} (used : state ≠ .free)
    (granted : grants state permission) : Granted grants (plain state permission.toKernel)
  | lent : Granted grants lent

theorem Turns.granted (turns : Turns grants old new) (calls : GrantsCalls grants)
    (granted : Granted grants old) : Granted grants new := by
  cases turns with
  | kept => exact granted
  | mapped used rule => exact .inUse used rule
  | unmapped => exact .free
  | reprotected _ permission reprotectable =>
      exact .inUse (MemoryState.afterReprotect_ne_free _ reprotectable)
        (calls.reprotected _ permission reprotectable)
  | lent => exact .lent
  | returned =>
      have ordinary : grants .normal .readWrite := calls.reprotected .normal .readWrite rfl
      exact show Granted grants (plain .normal (UserPermission.toKernel .readWrite)) from
        .inUse (by decide) ordinary

end Properties

open Properties

theorem Task.turns_effect {task : Task} {view : View} {key : Nat × Nat}
    (calls : GrantsCalls grants) (judged : task.judge view = .ok ())
    (orderly : (view.pages key).properties.Orderly) :
    Turns grants (view.pages key).properties (task.effect view.pages key).properties := by
  rw [judge_eq_ok] at judged
  by_cases shown : key ∈ task.range .destination
  · have free (asked : .meets .destination (.exactly .free) ∈ task.work.demands) :
        (view.pages key).properties = .free := by
      have meets := judgeDemand_meets.mp (judged _ asked) key shown
      exact orderly.eq_free (of_decide_eq_true meets.state)
    rw [effect_of_mem_destination shown]
    cases work : task.work with
    | setPermission permission =>
        rw [work] at judged
        have meets := judgeDemand_meets.mp (judged (.meets .destination _) (.head _)) key shown
        rw [Work.onDestination, orderly.eq_plain meets.attributes]
        exact .reprotected _ permission meets.state
    | mapMemory =>
        rw [free (by rw [work]; decide)]
        exact .mapped MemoryState.noConfusion calls.shared
    | mapCode =>
        rw [free (by rw [work]; decide)]
        exact .mapped MemoryState.noConfusion calls.aliased
    | unmapMemory => exact .unmapped _
    | unmapCode => exact .unmapped _
  by_cases taken : key ∈ task.range .source
  · rw [effect_source shown taken]
    cases work : task.work with
    | mapCode =>
        rw [work] at judged
        rw [eq_plain_of_meets orderly
          (judgeDemand_meets.mp (judged (.meets .source _) (.head _)) key taken)]
        exact .lent
    | unmapCode =>
        rw [work] at judged
        have meets := judgeDemand_meets.mp (judged (.meets .source _) (.head _)) key taken
        rw [orderly.eq_lent meets.attributes]
        exact .returned
    | setPermission _ => exact .kept _
    | mapMemory => exact .kept _
    | unmapMemory => exact .kept _
  · rw [effect_of_not_mem_reads (not_or.mpr ⟨shown, taken⟩)]
    exact .kept _

namespace AddressSpace

variable {attached after : AttachedSpace} {address pages : Nat} {state : MemoryState}
variable {result : Commit}

theorem turns_mapPages (coherent : attached.space.Coherent) (orderly : attached.space.Orderly)
    {permission : UserPermission} (granted : grants state permission)
    (done : mapPages address pages state permission attached = .done result after) (number : Nat) :
    Turns grants (attached.space.page number).properties (after.space.page number).properties := by
  obtain ⟨used, _, physical, _, vacant, shown, same⟩ := shows_of_mapPages coherent orderly done
  by_cases inside : Within (pageOf address) (Run.frames ⟨physical, pages⟩).length number
  · rw [vacant number inside, shown.kind_of_within inside]
    exact .mapped used granted
  · rw [same number inside]
    exact .kept _

theorem turns_unmapPages (coherent : attached.space.Coherent) (orderly : attached.space.Orderly)
    (done : unmapPages address pages state attached = .done result after) (number : Nat) :
    Turns grants (attached.space.page number).properties (after.space.page number).properties := by
  obtain ⟨checked, removed⟩ := unmapPages_eq_done done
  obtain ⟨aligned, covers, _⟩ := covers_of_unmapRange removed coherent
  obtain ⟨vacant, same⟩ := blank_of_unmapRange coherent (fun number =>
    plain_of_checked checked coherent orderly aligned covers rfl rfl) removed
  by_cases inside : Within (pageOf address) pages number
  · rw [vacant number inside]
    exact .unmapped _
  · rw [same number inside]
    exact .kept _

end AddressSpace

namespace Kernel

variable {kernel after initial reached : Kernel} {config : Config} {cache : InstructionCache}
variable {index : Nat} {step : Step} {steps : List Step} {action : SpaceAction Commit}
variable {result : Commit}

theorem OrdinaryInvariant.turns_onSpace (inv : OrdinaryInvariant config kernel)
    (turns : ∀ attached after, attached.space.Coherent → attached.space.Orderly →
      action attached = .done result after → ∀ number,
        Turns grants (attached.space.page number).properties (after.space.page number).properties)
    (done : Kernel.onSpace index action kernel = .done result after) (key : Nat × Nat) :
    Turns grants (kernel.page key).properties (after.page key).properties := by
  obtain ⟨process, attached, listed, acted, rfl⟩ := onSpace_eq_done.mp done
  have each := turns _ _ (inv.coherent process (List.mem_of_getElem? listed))
    (inv.orderly _ (space_mem listed)) acted
  rcases (differ_of_set (spaces_listed listed) spaces_withSpace).cases key with
    ⟨number, rfl, was, now⟩ | unchanged
  · rw [was, now]
    exact each number
  · rw [unchanged]
    exact .kept _

/-- Every page turns when a step is answered or refused. -/
theorem OrdinaryInvariant.turns (inv : OrdinaryInvariant config kernel) (calls : GrantsCalls grants)
    (ordinary : step.Ordinary) (granted : step.Grants grants)
    (ended : (step.perform kernel).state? = some after) (key : Nat × Nat) :
    Turns grants (kernel.page key).properties (after.page key).properties := by
  have still (same : after.page = kernel.page) :
      Turns grants (kernel.page key).properties (after.page key).properties := by
    rw [same]
    exact .kept _
  rcases Outcome.state?_eq_some.mp ended with ⟨_, done⟩ | ⟨cause, refused⟩
  · cases step with
    | createProcess layout =>
        obtain ⟨position, done⟩ := silent_eq_done.mp done
        obtain ⟨handles, rfl⟩ := createProcess_eq_done done
        exact still (page_of_created (Layout.WellFormed.paged ordinary) List.map_append)
    | openHandle index object =>
        obtain ⟨handle, done⟩ := silent_eq_done.mp done
        exact still (page_of_still (spaces_onHandles done))
    | closeHandle index handle =>
        obtain ⟨closed, done⟩ := silent_eq_done.mp done
        exact still (page_of_still (spaces_onHandles done))
    | mapPages index address pages state permission =>
        obtain ⟨result, done⟩ := silent_eq_done.mp done
        exact inv.turns_onSpace (fun _ _ coherent orderly =>
          turns_mapPages coherent orderly granted) done key
    | unmapPages index address pages state =>
        obtain ⟨result, done⟩ := silent_eq_done.mp done
        exact inv.turns_onSpace (fun _ _ coherent orderly =>
          turns_unmapPages coherent orderly) done key
    | call current request =>
        obtain ⟨result, done⟩ := silent_eq_done.mp done
        obtain ⟨task, judged, leads, _⟩ := leads_of_perform inv done
        rw [leads.page_eq]
        exact Task.turns_effect calls (Setting.judge_eq_ok.mp judged).2.2
          (inv.regular key).orderly
    | _ => exact ordinary.elim
  · have restored := (transactional_perform_step step).restores _ _ _ inv.sound refused
    exact still (page_of_still (by rw [spaces, restored.processes_eq, spaces]))

/-- All memory of a kernel is in use as it is granted. -/
theorem granted_run (calls : GrantsCalls grants) (created : create config cache = .ok initial)
    (among : ∀ step ∈ steps, step.Ordinary ∧ step.Grants grants)
    (ran : initial.run? steps = some reached) (key : Nat × Nat) :
    Granted grants (reached.page key).properties := by
  have keeps (step : Step) (allowed : step.Ordinary ∧ step.Grants grants) :
      Keeps (fun kernel => OrdinaryInvariant config kernel ∧
        ∀ key, Granted grants (kernel.page key).properties)
        step.perform := by
    intro kernel after before ended
    obtain ⟨ordinary, rule⟩ := allowed
    obtain ⟨inv, granted⟩ := before
    exact ⟨inv.kept ordinary ended,
      fun key => (inv.turns calls ordinary rule ended key).granted calls (granted key)⟩
  refine (run?_keeps keeps among ⟨.of_create created, fun key => ?_⟩ ran).2 key
  rw [page_of_create created]
  exact .free

/-- Every block has the properties of a page. -/
theorem granted_of_block {process : Process} {block : Block} (inv : OrdinaryInvariant config kernel)
    (granted : ∀ key, Granted grants (kernel.page key).properties)
    (member : process ∈ kernel.processes) (included : block ∈ process.space.blocks.blocks) :
    Granted grants block.properties := by
  obtain ⟨index, listed⟩ := List.mem_iff_getElem?.mp member
  have first := granted (index, pageOf block.start)
  rwa [page_of_listed (spaces_listed listed), AddressSpace.page, Partition.propertiesOf,
    (inv.coherent process member).wellFormed.at?_of_mem included, Option.getD_some] at first

end Kernel

end GuestMemory
