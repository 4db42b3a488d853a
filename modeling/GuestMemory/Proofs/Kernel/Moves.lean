import GuestMemory.Proofs.AddressSpace.Moves
import GuestMemory.Proofs.Kernel.Accounting

/-!
Moves of a kernel: a step changes the pages of one process at most, and these by one move. What a
move keeps holds in every state that a kernel can reach.
-/

namespace GuestMemory

open GuestMemory.Action

namespace Step

/-- The states that a step maps or unmaps other than through shared memory are among the given. -/
def Directs (direct : MemoryState → Prop) : Step → Prop
  | mapPages _ _ _ state _ | unmapPages _ _ _ state => direct state
  | _ => True

instance (direct : MemoryState → Prop) [DecidablePred direct] : DecidablePred (Directs direct)
  | mapPages _ _ _ state _ | unmapPages _ _ _ state => inferInstanceAs (Decidable (direct state))
  | createProcess .. | openHandle .. | closeHandle .. | call .. | setPermission .. | mapCode ..
  | unmapCode .. | makeGroup .. | makeHeldGroup .. | mapGroup .. | discardGroup ..
  | unmapShared .. => inferInstanceAs (Decidable True)

theorem directs_all (step : Step) : step.Directs fun _ => True := by
  cases step <;> trivial

end Step

/-- No operation changes the layout of an address space. -/
theorem AddressSpace.invariant_layout {legal : Layout → Prop} :
    Invariant legal (fun space => legal space.layout) where
  create allowed _ := allowed
  mapPages before done := by
    obtain ⟨_, _, _, _, _, _, _, _, _, rfl⟩ := mapPages_eq_done done
    exact before
  unmapRange before done := by
    rw [(rebuilt_of_unmapRange done).layout_eq]
    exact before
  setPermission before _ done := by
    obtain ⟨_, _, _, _, _, space, _⟩ := setPermission_eq_done done
    rw [space]
    exact before
  mapGroup before _ _ done := by
    obtain ⟨_, _, _, placed⟩ := mapGroup_eq_done done
    rw [(rebuilt_of_placeGroup placed).layout_eq]
    exact before
  mapCode before sound _ _ done := by
    obtain ⟨group, made, _, _, placed, _, _, _, grouped, _, _, mapped, discarded⟩ :=
      mapCode_eq_done done
    obtain ⟨_, _, _, groups⟩ := makeGroup_eq_done sound grouped
    obtain ⟨_, _, rfl⟩ := discard_eq_ok discarded
    rw [(rebuilt_of_placeGroup mapped).layout_eq]
    simp only [changed, groups.space_eq]
    exact before
  unmapCode before sound _ _ done := by
    obtain ⟨group, made, _, removed, _, _, last, _, _, grouped, _, _, erased, _, _, space, _, _, _,
      discarded⟩ := unmapCode_eq_done done
    obtain ⟨_, _, _, groups⟩ := makeGroup_eq_done sound grouped
    obtain ⟨_, _, rfl⟩ := discard_eq_ok discarded
    simp only [space, (rebuilt_of_unmapRange erased).layout_eq, groups.space_eq]
    exact before

namespace Kernel

variable {kernel after initial reached : Kernel} {index current number : Nat} {process : Process}
variable {attached : AttachedSpace} {result : Commit} {direct : MemoryState → Prop}
variable {config : Config} {cache : InstructionCache} {steps : List Step}
variable {legal : Layout → Prop}

def spaces (kernel : Kernel) : List AddressSpace :=
  kernel.processes.map (·.space)

/-- What a step does to the address spaces of a kernel, if it does not fail for good. -/
inductive Moves (direct : MemoryState → Prop) (before after : Kernel) : Prop
  | still (same : after.spaces = before.spaces)
  | created {id : Nat} {layout : Layout} (paged : layout.Paged)
    (added : after.spaces = before.spaces ++ [.create id layout])
  | moved {index : Nat} {space moved : AddressSpace} (listed : before.spaces[index]? = some space)
    (changed : after.spaces = before.spaces.set index moved)
    (layout_eq : moved.layout = space.layout)
    (move : AddressSpace.Move direct ⟨space, before.resources⟩ moved)

def Orderly (kernel : Kernel) : Prop :=
  ∀ space ∈ kernel.spaces, space.Orderly

/-- What every step keeps that creates processes with legal layouts only: the frames are accounted
for, the properties of all pages are orderly and all layouts legal. -/
structure StepInvariant (legal : Layout → Prop) (config : Config) (kernel : Kernel) : Prop
    extends ResourcesAccounted config kernel where
  orderly : kernel.Orderly
  layouts : ∀ space ∈ kernel.spaces, legal space.layout

/-- What every ordinary step keeps. -/
abbrev OrdinaryInvariant (config : Config) (kernel : Kernel) : Prop :=
  StepInvariant Layout.WellFormed config kernel

theorem StepInvariant.imp {other : Layout → Prop} (inv : StepInvariant legal config kernel)
    (weaker : ∀ layout, legal layout → other layout) : StepInvariant other config kernel :=
  ⟨inv.toResourcesAccounted, inv.orderly, fun space member => weaker _ (inv.layouts space member)⟩

theorem space_mem (listed : kernel.processes[index]? = some process) :
    process.space ∈ kernel.spaces :=
  List.mem_map_of_mem (List.mem_of_getElem? listed)

theorem forall_spaces_iff {valid : AddressSpace → Prop} :
    (∀ space ∈ kernel.spaces, valid space) ↔ kernel.All valid :=
  List.forall_mem_map

theorem spaces_listed (listed : kernel.processes[index]? = some process) :
    kernel.spaces[index]? = some process.space := by
  rw [spaces, List.getElem?_map, listed, Option.map_some]

theorem spaces_withSpace :
    (kernel.withSpace index process attached).spaces = kernel.spaces.set index attached.space :=
  List.map_set

theorem spaces_onHandles {α : Type} {act : Action (HandleTable KernelObject) α} {value : α}
    (done : onHandles index act kernel = .done value after) : after.spaces = kernel.spaces := by
  obtain ⟨process, handles, listed, _, rfl⟩ := onHandles_eq_done done
  have self := congrArg spaces (withSpace_self listed)
  exact List.map_set.trans (spaces_withSpace.symm.trans self)

namespace StepInvariant

theorem onSpace {action : SpaceAction Commit} (inv : StepInvariant legal config kernel)
    (moves : ∀ attached after, AddressSpace.Sound attached → attached.space.Coherent →
      attached.space.Orderly → attached.resources.frames.WellFormed kernel.extent →
      action attached = .done result after →
      after.space.layout = attached.space.layout ∧ AddressSpace.Move direct attached after.space)
    (done : onSpace index action kernel = .done result after) : Moves direct kernel after := by
  obtain ⟨process, attached, listed, acted, rfl⟩ := onSpace_eq_done.mp done
  obtain ⟨layout, move⟩ := moves ⟨process.space, kernel.resources⟩ attached inv.sound
    (inv.coherent process (List.mem_of_getElem? listed)) (inv.orderly _ (space_mem listed))
    inv.accounts.frames acted
  exact .moved (spaces_listed listed) spaces_withSpace layout move

theorem mapShared (inv : StepInvariant legal config kernel) {target origin : Place} {pages : Nat}
    (aligned : target.address % pageSize = 0)
    (done : mapShared target origin pages kernel = .done result after) :
    Moves direct kernel after := by
  obtain ⟨group, held, mapped, grouped, acted, discarded⟩ := mapShared_eq_done done
  obtain ⟨owner, made, listed, making, rfl⟩ := onSpace_eq_done.mp grouped
  obtain ⟨_, once, runs, groups, _⟩ :=
    AddressSpace.makeHeldGroup_eq_done (inv.sound.attach owner) making
  have processes := withSpace_processes listed groups.space_eq
  obtain ⟨shower, final, showerListed, mapping, rfl⟩ := onSpace_eq_done.mp acted
  obtain ⟨resources, _, rfl⟩ := changeResources_eq_ok discarded
  rw [processes] at showerListed
  obtain ⟨layout, move⟩ := AddressSpace.move_mapGroup (by rfl) mapping
    (inv.coherent shower (List.mem_of_getElem? showerListed))
    (inv.orderly _ (space_mem showerListed)) aligned groups.occupies.held kernel.resources
  refine .moved (spaces_listed showerListed) (spaces_withSpace.trans ?_) layout move
  rw [spaces, processes, spaces]

theorem unmapShared (inv : StepInvariant legal config kernel) {target origin : Place} {size : Nat}
    (whole : WholePages size)
    (done : unmapShared target origin size kernel = .done result after) :
    Moves direct kernel after := by
  obtain ⟨group, made, removed, checked, _, grouped, acted, discarded⟩ := unmapShared_eq_done done
  obtain ⟨owner, grown, listed, making, rfl⟩ := onSpace_eq_done.mp grouped
  obtain ⟨_, _, runs, groups⟩ := AddressSpace.makeGroup_eq_done (inv.sound.attach owner) making
  have processes := withSpace_processes listed groups.space_eq
  obtain ⟨holder, last, holderListed, taking, rfl⟩ := onSpace_eq_done.mp acted
  obtain ⟨resources, _, rfl⟩ := changeResources_eq_ok discarded
  simp only [bind_eq_done, require_eq_done] at taking
  obtain ⟨_, _, compared, _, _, ⟨_, rfl⟩, erased⟩ := taking
  obtain rfl := AddressSpace.steady_isBackedBy.of_done compared
  rw [processes] at holderListed
  have viewing := onSpace_of_steady AddressSpace.steady_checkRange holderListed checked
  rw [← whole.mul_eq] at viewing
  have coherent := inv.coherent holder (List.mem_of_getElem? holderListed)
  have orderly := inv.orderly _ (space_mem holderListed)
  obtain ⟨aligned, covers, _⟩ := AddressSpace.covers_of_unmapRange erased coherent
  have plain (number : Nat)
      (inside : AddressSpace.Within (pageOf target.address) (size / pageSize) number) :
      AddressSpace.Unmarked (fun state => state = .sharedCode ∨ direct state)
        (holder.space.page number).properties := by
    obtain ⟨state, permission, accepted, properties⟩ :=
      AddressSpace.plain_of_checked viewing coherent orderly aligned covers rfl rfl inside
    exact ⟨state, permission, .inl (of_decide_eq_true accepted), properties⟩
  obtain ⟨layout, move⟩ := AddressSpace.move_unmapRange erased coherent plain kernel.resources
  refine .moved (spaces_listed holderListed) (spaces_withSpace.trans ?_) layout move
  rw [spaces, processes, spaces]

theorem perform (inv : StepInvariant legal config kernel) {request : Call}
    (done : perform current request kernel = .done result after) : Moves direct kernel after := by
  cases request with
  | setPermission handle address size permission =>
      obtain ⟨aligned, _, target, granted, acted⟩ := setPermission_eq_done done
      exact inv.onSpace (fun _ _ _ coherent orderly _ set =>
        AddressSpace.move_setPermission coherent orderly aligned set) acted
  | mapMemory destination handle source size =>
      obtain ⟨aligned, _, _, owner, shared⟩ := mapMemory_eq_done done
      exact inv.mapShared aligned shared
  | unmapMemory destination handle source size =>
      obtain ⟨_, _, whole, owner, shared⟩ := unmapMemory_eq_done done
      exact inv.unmapShared whole shared
  | mapCode handle destination source size =>
      obtain ⟨first, second, whole, target, acted⟩ := mapCode_eq_done done
      exact inv.onSpace (fun _ _ sound coherent orderly _ mapped =>
        AddressSpace.move_mapCode coherent orderly sound first second whole.mul_eq mapped) acted
  | unmapCode handle destination source size =>
      obtain ⟨first, second, whole, target, strategy, acted⟩ := unmapCode_eq_done done
      exact inv.onSpace (fun _ _ sound coherent orderly _ unmapped =>
        AddressSpace.move_unmapCode coherent orderly sound first second whole.mul_eq unmapped) acted

/-- What a step does that is answered or refused. -/
theorem step {step : Step} (inv : StepInvariant legal config kernel)
    (allowed : step.Allowed Layout.Paged) (directs : step.Directs direct)
    (ended : (step.perform kernel).state? = some after) :
    Moves direct kernel after := by
  rcases Outcome.state?_eq_some.mp ended with ⟨_, done⟩ | ⟨cause, refused⟩
  · cases step with
    | createProcess layout =>
        obtain ⟨position, done⟩ := silent_eq_done.mp done
        obtain ⟨handles, rfl⟩ := createProcess_eq_done done
        exact .created allowed List.map_append
    | openHandle index object =>
        obtain ⟨handle, done⟩ := silent_eq_done.mp done
        exact .still (spaces_onHandles done)
    | closeHandle index handle =>
        obtain ⟨closed, done⟩ := silent_eq_done.mp done
        exact .still (spaces_onHandles done)
    | mapPages index address pages state permission =>
        obtain ⟨result, done⟩ := silent_eq_done.mp done
        exact inv.onSpace (fun _ _ _ coherent orderly frames mapped =>
          AddressSpace.move_mapPages coherent orderly frames directs mapped) done
    | unmapPages index address pages state =>
        obtain ⟨result, done⟩ := silent_eq_done.mp done
        exact inv.onSpace (fun _ _ _ coherent orderly _ unmapped =>
          AddressSpace.move_unmapPages coherent orderly directs unmapped) done
    | call index request =>
        obtain ⟨result, done⟩ := silent_eq_done.mp done
        exact inv.perform done
    | _ => exact allowed.elim
  · have restored := (transactional_perform_step step).restores _ _ _ inv.sound refused
    exact .still (by rw [spaces, restored.processes_eq, spaces])

end StepInvariant

/-- What holds of new address spaces and is kept by moves holds of all of them. -/
theorem Moves.all {valid : AddressSpace → Prop} (moves : Moves direct kernel after)
    (initially : ∀ id layout, layout.Paged → valid (.create id layout))
    (kept : ∀ (index : Nat) space moved, kernel.spaces[index]? = some space → valid space →
      moved.layout = space.layout → AddressSpace.Move direct ⟨space, kernel.resources⟩ moved →
      valid moved)
    (before : ∀ space ∈ kernel.spaces, valid space) : ∀ space ∈ after.spaces, valid space := by
  intro space member
  cases moves with
  | still same => exact before space (same ▸ member)
  | created paged added =>
      rw [added, List.mem_append, List.mem_singleton] at member
      rcases member with old | rfl
      · exact before space old
      · exact initially _ _ paged
  | moved listed changed layout_eq move =>
      rw [changed] at member
      rcases List.mem_or_eq_of_mem_set member with old | rfl
      · exact before space old
      · exact kept _ _ _ listed (before _ (List.mem_of_getElem? listed)) layout_eq move

/-- Processes stay where they are listed, with the layouts that they have. -/
theorem Moves.listed {space : AddressSpace} (moves : Moves direct kernel after)
    (listed : kernel.spaces[index]? = some space) :
    ∃ moved, after.spaces[index]? = some moved ∧ moved.layout = space.layout := by
  have bounded := (List.getElem?_eq_some_iff.mp listed).1
  cases moves with
  | still same => exact ⟨space, same ▸ listed, rfl⟩
  | created _ added => exact ⟨space, by rw [added, List.getElem?_append_left bounded, listed], rfl⟩
  | @moved other old moved before changed layout_eq move =>
      rw [changed]
      by_cases same : index = other
      · subst same
        obtain rfl := Option.some.inj (before.symm.trans listed)
        exact ⟨moved, List.getElem?_set_self bounded, layout_eq⟩
      · exact ⟨space, by rw [List.getElem?_set_ne (Ne.symm same), listed], rfl⟩

theorem Moves.orderly (moves : Moves direct kernel after) (orderly : kernel.Orderly) :
    after.Orderly :=
  moves.all (fun _ _ paged number => by
    rw [AddressSpace.page_create paged]
    exact .free) (fun _ _ _ _ orderly _ move => move.orderly orderly) orderly

theorem StepInvariant.of_create (created : create config cache = .ok kernel) :
    StepInvariant legal config kernel :=
  ⟨.of_create created, forall_spaces_iff.mpr (all_of_create created),
    forall_spaces_iff.mpr (all_of_create created)⟩

theorem StepInvariant.kept {step : Step} (paged : ∀ layout, legal layout → layout.Paged)
    (inv : StepInvariant legal config kernel) (allowed : step.Allowed legal)
    (ended : (step.perform kernel).state? = some after) : StepInvariant legal config after := by
  have moves := inv.step (allowed.imp paged) step.directs_all ended
  obtain ⟨_, layouts⟩ := keeps_all AddressSpace.invariant_layout allowed.aligned kernel after
    ⟨inv.sound, forall_spaces_iff.mp inv.layouts⟩ ended
  exact ⟨ResourcesAccounted.kept (allowed.imp paged) _ _ inv.toResourcesAccounted ended,
    moves.orderly inv.orderly, forall_spaces_iff.mpr layouts⟩

theorem OrdinaryInvariant.kept {step : Step} (inv : OrdinaryInvariant config kernel)
    (ordinary : step.Ordinary) (ended : (step.perform kernel).state? = some after) :
    OrdinaryInvariant config after :=
  StepInvariant.kept (fun _ wellFormed => wellFormed.paged) inv ordinary ended

theorem stepInvariant_run (paged : ∀ layout, legal layout → layout.Paged)
    (created : create config cache = .ok initial) (allowed : ∀ step ∈ steps, step.Allowed legal)
    (ran : initial.run? steps = some reached) : StepInvariant legal config reached :=
  run?_keeps (fun _ allowed _ _ inv => inv.kept paged allowed) allowed (.of_create created) ran

theorem ordinaryInvariant_run (created : create config cache = .ok initial)
    (ordinary : ∀ step ∈ steps, step.Ordinary) (ran : initial.run? steps = some reached) :
    OrdinaryInvariant config reached :=
  stepInvariant_run (fun _ wellFormed => wellFormed.paged) created ordinary ran

/-- What holds of a new kernel and is kept by every move holds in every state that a kernel can
reach. -/
theorem run?_keeps_moves {valid : Kernel → Prop} (created : create config cache = .ok initial)
    (among : ∀ step ∈ steps, step.Ordinary ∧ step.Directs direct)
    (ran : initial.run? steps = some reached) (initially : valid initial)
    (kept : ∀ kernel after, OrdinaryInvariant config kernel → Moves direct kernel after →
      valid kernel → valid after) : valid reached := by
  have keeps (step : Step) (allowed : step.Ordinary ∧ step.Directs direct) :
      Keeps (fun kernel => OrdinaryInvariant config kernel ∧ valid kernel) step.perform := by
    intro kernel after before ended
    obtain ⟨ordinary, directs⟩ := allowed
    obtain ⟨inv, holds⟩ := before
    exact ⟨inv.kept ordinary ended,
      kept kernel after inv (inv.step ordinary.paged directs ended) holds⟩
  exact (run?_keeps keeps among ⟨.of_create created, initially⟩ ran).2

end Kernel

end GuestMemory
