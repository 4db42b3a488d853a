import GuestMemory.Proofs.Kernel.Requirements
import GuestMemory.Proofs.Kernel.Translations

/-!
Changing a permission, from the arguments of the call to the pages: what is required of them, in
which order, and what becomes of the memory where nothing is missing.
-/

namespace GuestMemory

open GuestMemory.Action Verdict

namespace UserPermission

variable {number : Nat}

theorem ofRaw?_isSome_iff : (ofRaw? number).isSome ↔ number ∈ [0, 1, 3, 5] := by
  unfold ofRaw?
  split <;> simp_all

theorem raw_of_ofRaw? {permission : UserPermission} (named : ofRaw? number = some permission) :
    permission.raw = number := by
  unfold ofRaw? at named
  split at named <;> cases named <;> rfl

theorem isUserExecutable_iff {permission : UserPermission} :
    permission.toKernel.isUserExecutable = true ↔ permission = .readExecute := by
  cases permission <;> decide

end UserPermission

/-- What memory turns into when it is written over: instructions are data from then on. -/
def MemoryState.overwritten : MemoryState → MemoryState
  | code => codeData
  | aliasCode => aliasCodeData
  | other => other

theorem MemoryState.afterReprotect_toKernel (state : MemoryState) (permission : UserPermission) :
    state.afterReprotect permission.toKernel =
      if permission = .readWrite then state.overwritten else state := by
  cases permission <;> cases state <;> rfl

namespace Properties

/-- The process may have the permission of such memory changed. -/
def MayReprotect (properties : Properties) : Prop :=
  properties.state ∈ [.normal, .code, .codeData, .aliasCode, .aliasCodeData] ∧
    properties.attributes = .empty

instance : DecidablePred MayReprotect := fun properties =>
  inferInstanceAs (Decidable
    (properties.state ∈ [.normal, .code, .codeData, .aliasCode, .aliasCodeData] ∧
      properties.attributes = .empty))

theorem Orderly.meets_reprotectable_iff {properties : Properties} (orderly : properties.Orderly) :
    (Check.ofState .reprotectable).Meets properties ↔ properties.MayReprotect := by
  rw [Check.meets_ofState_iff orderly]
  apply and_congr_left'
  cases properties.state <;> decide

end Properties

namespace Kernel

variable {config : Config} {kernel : Kernel} {current address size permission : Nat}
variable {handle : Handle}

/-- What is required of a request to change a permission, in the order in which it is looked at. -/
def permissionRequirements (kernel : Kernel) (current : Nat) (handle : Handle)
    (address size permission : Nat) : List Requirement :=
  let target := kernel.named? current handle
  [⟨address % pageSize = 0, .invalidAddress⟩,
    ⟨size % pageSize = 0, .invalidSize⟩,
    ⟨size ≠ 0, .invalidSize⟩,
    ⟨address + size < wordLimit, .invalidCurrentMemory⟩,
    ⟨permission ∈ [0, 1, 3, 5], .invalidNewMemoryPermission⟩,
    ⟨target.isSome, .invalidHandle⟩,
    ⟨∀ index ∈ target, kernel.Encloses ⟨index, address⟩ size, .invalidCurrentMemory⟩,
    ⟨∀ index ∈ target, ∀ key ∈ Place.pages ⟨index, address⟩ (size / pageSize),
      (kernel.page key).properties.MayReprotect, .invalidCurrentMemory⟩]

theorem judge_permissionRequirements (inv : OrdinaryInvariant config kernel) (names : kernel.Named)
    (present : current < kernel.processes.length) :
    (do
      let task ← kernel.setting.permissionTask current handle address size permission
      kernel.setting.requirePlaces task
      task.judge kernel.view) =
        Requirement.judge
          (kernel.permissionRequirements current handle address size permission) := by
  simp only [Setting.permissionTask, permissionRequirements, Requirement.judge_cons,
    Requirement.judge_nil, bind_assoc, demand_whole]
  refine demand_bind_eq isPageAligned_iff fun aligned => ?_
  refine demand_bind_eq Iff.rfl fun whole => ?_
  refine demand_bind_eq Iff.rfl fun nonzero => ?_
  refine demand_bind_eq decide_eq_true_iff fun fits => ?_
  rw [← demand_congr UserPermission.ofRaw?_isSome_iff]
  cases UserPermission.ofRaw? permission with
  | none => rfl
  | some granted =>
      have bytes : size / pageSize * pageSize = size :=
        Nat.div_mul_cancel (Nat.dvd_of_mod_eq_zero whole)
      rw [demand_of_true Option.isSome_some, ok_bind, bind_assoc, resolve_eq names present]
      refine named_bind_eq fun target named => ?_
      rw [Verdict.pure_eq, ok_bind, Setting.requirePlaces, bytes,
        requireInside_eq inv.layouts (named?_lt names present named) (Nat.pos_of_ne_zero nonzero)
          fits, bind_assoc]
      refine demand_bind_eq (by simp [named]) fun _ => ?_
      refine demand_bind_eq ?_ fun _ => rfl
      simp only [named, Option.mem_def, Option.some.injEq, forall_eq']
      exact forall₂_congr fun key _ => (inv.regular key).orderly.meets_reprotectable_iff

/-- A page has got a permission, in its block and in its translation. Instructions are data from
then on if they may be written; frame, mark and lock count are as before. -/
structure Reprotected (granted : UserPermission) (before after : Kernel) (key : Nat × Nat) :
    Prop where
  state : (after.page key).properties.state =
    if granted = .readWrite then (before.page key).properties.state.overwritten
    else (before.page key).properties.state
  permission : (after.page key).properties.permission = granted.toKernel
  attributes : (after.page key).properties.attributes = (before.page key).properties.attributes
  locks : (after.page key).properties.locks = (before.page key).properties.locks
  frame : (after.page key).frame = (before.page key).frame
  translated : ∃ frame old, before.translation? key = some ⟨frame, old⟩ ∧
    after.translation? key = some ⟨frame, granted.toKernel⟩

variable {after : Kernel} {task : Task} {granted : UserPermission}

theorem eq_of_came_to_permissionTask (names : kernel.Named)
    (present : current < kernel.processes.length)
    (came : kernel.setting.permissionTask current handle address size permission = .ok task) :
    ∃ target granted, kernel.named? current handle = some target ∧ granted.raw = permission ∧
      size / pageSize * pageSize = size ∧ task =
        ⟨.setPermission granted, ⟨target, address⟩, ⟨target, address⟩, size / pageSize⟩ := by
  obtain ⟨granted, target, known, resolved, bytes, built⟩ := Setting.eq_of_permissionTask came
  exact ⟨target, granted, named_eq_ok.mp (resolve_eq names present ▸ resolved),
    UserPermission.raw_of_ofRaw? known, bytes, built⟩

theorem reprotected_of_leads (leads : task.Leads kernel after)
    (inv : OrdinaryInvariant config kernel)
    (afterInv : OrdinaryInvariant config after) (work : task.work = .setPermission granted)
    (judged : task.judge kernel.view = .ok ()) :
    ∀ key ∈ task.range .destination, Reprotected granted kernel after key := by
  intro key inside
  have page : after.page key = { kernel.page key with
      properties := (kernel.page key).properties.reprotect granted.toKernel } := by
    rw [leads.page_eq, Task.effect_of_mem_destination inside, work]
    rfl
  have changeable : (kernel.page key).properties.MayReprotect := by
    rw [Task.judge_eq_ok, work] at judged
    have meets := Task.judgeDemand_meets.mp (judged _ List.mem_cons_self) key inside
    exact (inv.regular key).orderly.meets_reprotectable_iff.mp meets
  obtain ⟨frame, backed⟩ : ∃ frame, (kernel.page key).frame = some frame := by
    apply Option.ne_none_iff_exists'.mp
    intro missing
    have free := (inv.regular key).backed.mp missing
    obtain ⟨used, _⟩ := changeable
    rw [free] at used
    exact absurd used (by decide)
  refine ⟨?_, by rw [page]; rfl, by rw [page]; rfl, by rw [page]; rfl, by rw [page],
    frame * pageSize, (kernel.page key).properties.permission, ?_, ?_⟩
  · rw [page]
    exact MemoryState.afterReprotect_toKernel _ _
  · rw [inv.translation?_eq, backed, Option.map_some]
  · rw [afterInv.translation?_eq, page, backed, Option.map_some]
    rfl

variable {cache : InstructionCache} {initial reached : Kernel} {steps : List Step}

/-- In every state that a kernel can reach, a request to change a permission ends in the error of
the first requirement that is violated and is done if none is. Each page of the range then has the
permission, and nothing else is another but for what the instruction cache forgets: the range, if
the guest may execute it from then on. -/
theorem setPermission_is_exact (created : create config cache = .ok initial)
    (ordinary : ∀ step ∈ steps, step.Ordinary) (knows : initial.Knows steps)
    (ran : initial.run? steps = some reached) (present : current < reached.processes.length)
    (handle : Handle) (address size : UInt64) (permission : UInt32) :
    let outcome := perform current (.setPermission handle address size permission) reached
    outcome.ending = Requirement.judge (reached.permissionRequirements current handle
      address.toNat size.toNat permission.toNat) ∧
    ∀ result after, outcome = .done result after →
      ∃ target granted, reached.named? current handle = some target ∧
        granted.raw = permission.toNat ∧
        let range := Place.pages ⟨target, address.toNat⟩ (size.toNat / pageSize)
        (∀ key ∈ range, Reprotected granted reached after key) ∧
        reached.ChangesOnly range after ∧
        after.resources.frames = reached.resources.frames ∧
        after.resources.cache = reached.resources.cache.told
          (if granted = .readExecute then some (.range address.toNat size.toNat) else none) := by
  intro outcome
  have inv := ordinaryInvariant_run created ordinary ran
  have names := (Named.of_create created).run knows ordinary ran
  refine ⟨(ending_perform_eq_judge inv).trans (judge_permissionRequirements inv names present),
    fun result after done => ?_⟩
  obtain ⟨task, judged, leads, afterInv⟩ := leads_of_perform inv done
  obtain ⟨came, _, judged⟩ := Setting.judge_eq_ok.mp judged
  obtain ⟨target, granted, named, raw, bytes, rfl⟩ :=
    eq_of_came_to_permissionTask names present came
  have inside := reprotected_of_leads leads inv afterInv rfl judged
  have changes := changesOnly_of_leads leads inv afterInv rfl
  refine ⟨target, granted, named, raw, inside, changes, ?_, ?_⟩
  · apply leads.frames.eq_of_held inv.accounts.frames.positive afterInv.accounts.frames.positive
    intro frame
    refine (afterInv.held_eq frame).trans (.trans ?_ (inv.held_eq frame).symm)
    exact shown_congr (changes.frame_eq fun key listed => (inside key listed).frame) frame
  · rw [leads.cache_eq]
    simp only [Task.invalidation?, bytes, UserPermission.isUserExecutable_iff]

/-- A process writes to code of another that it has mapped itself: there the page is data from then
on, while its own mapping stays. -/
theorem setPermission_is_exact_of_lent_code :
    ∃ reached result after, small.run? (smallRun.take 5) = some reached ∧
      perform 0 (.setPermission ⟨0x8000⟩ 0x8001000 0x1000 3) reached = .done result after ∧
      (after.page (1, 0x8001)).properties.state = .codeData ∧
      (after.page (1, 0x8001)).properties.permission = .userReadWrite ∧
      after.translation? (0, 0x9001) = reached.translation? (0, 0x9001) := by
  have shown : ((small.run? (smallRun.take 5)).map fun reached =>
      (reached.processes.length,
        Requirement.judge (reached.permissionRequirements 0 ⟨0x8000⟩ 0x8001000 0x1000 3),
        reached.named? 0 ⟨0x8000⟩, (reached.page (1, 0x8001)).properties.state)) =
      some (2, .ok (), some 1, .code) := by
    decide +kernel
  obtain ⟨reached, ran, shown⟩ := Option.map_eq_some_iff.mp shown
  obtain ⟨length, met, named, state⟩ : _ ∧ _ ∧ _ ∧ _ := by simpa only [Prod.mk.injEq] using shown
  obtain ⟨ending, exact⟩ := setPermission_is_exact create_small
    (show ∀ step ∈ smallRun.take 5, step.Ordinary by decide +kernel)
    (show small.Knows (smallRun.take 5) by decide +kernel) ran (show 0 < _ by omega)
    ⟨0x8000⟩ 0x8001000 0x1000 3
  obtain ⟨result, after, done⟩ := Outcome.ending_eq_ok.mp (ending.trans met)
  obtain ⟨target, granted, found, raw, inside, changes, _⟩ := exact result after done
  obtain rfl := Option.some.inj (named.symm.trans found)
  obtain rfl : granted = .readWrite := by
    cases granted <;> first | rfl | exact absurd raw (by decide)
  have written := inside (1, 0x8001) (by decide +kernel)
  refine ⟨reached, result, after, ran, done, ?_, written.permission, ?_⟩
  · rw [written.state, state]
    rfl
  · exact changes.translation?_eq (0, 0x9001) (by decide +kernel)

end Kernel

end GuestMemory
