import GuestMemory.Proofs.Kernel.Effects

/-!
Transitions: a call is done where it comes to a task that has its place and is judged to be met, and
leads to where the effect of the task is. Any other call leaves all memory as it is.
-/

namespace GuestMemory

open GuestMemory.Action Verdict

/-- The task that a call comes to, unless its arguments, the places of its ranges or the memory
there are in its way. -/
def Setting.judge (setting : Setting) (view : View) (current : Nat) (request : Call) :
    Verdict Task := do
  let task ← setting.task current request
  setting.requirePlaces task
  task.judge view
  return task

theorem Setting.judge_eq_ok {setting : Setting} {view : View} {current : Nat} {request : Call}
    {task : Task} : setting.judge view current request = .ok task ↔
      setting.task current request = .ok task ∧ setting.requirePlaces task = .ok () ∧
        task.judge view = .ok () := by
  simp only [judge, Verdict.bind_eq_ok, Verdict.pure_eq, Except.ok.injEq]
  constructor
  · rintro ⟨found, came, _, admitted, _, judged, rfl⟩
    exact ⟨came, admitted, judged⟩
  · rintro ⟨came, admitted, judged⟩
    exact ⟨task, came, (), admitted, (), judged, rfl⟩

/-- A page is mapped exactly if it is in use, and its properties are orderly. -/
structure Page.Regular (page : Page) : Prop where
  orderly : page.properties.Orderly
  backed : page.frame = none ↔ page.properties.state = .free

theorem Page.Regular.frame_ne_none {page : Page} (regular : page.Regular)
    (used : page.properties.state ≠ .free) : page.frame ≠ none :=
  regular.backed.not.mpr used

theorem Page.Regular.exists_frame {page : Page} (regular : page.Regular)
    (used : page.properties.state ≠ .free) : ∃ frame, page.frame = some frame :=
  Option.ne_none_iff_exists'.mp (regular.frame_ne_none used)

theorem Page.Regular.eq_blank {page : Page} (regular : page.Regular)
    (free : page.properties.state = .free) : page = .blank :=
  Page.ext (regular.orderly.eq_free free) (regular.backed.mpr free)

namespace Kernel

variable {config : Config} {kernel after : Kernel} {current : Nat} {request : Call} {task : Task}
variable {result : Commit} {cause : Refusal}

/-- Between calls all descriptors are free. -/
theorem OrdinaryInvariant.capacity_eq (inv : OrdinaryInvariant config kernel) :
    kernel.view.capacity = config.descriptorCapacity % DescriptorPool.idLimit :=
  inv.length_free

theorem OrdinaryInvariant.held_eq (inv : OrdinaryInvariant config kernel) (frame : Nat) :
    kernel.view.held frame = kernel.shown frame := by
  have counted := inv.accounts.held_eq frame
  rwa [List.count_nil, Nat.add_zero] at counted

theorem OrdinaryInvariant.regular (inv : OrdinaryInvariant config kernel) (key : Nat × Nat) :
    (kernel.page key).Regular := by
  cases listed : kernel.processes[key.1]? with
  | none =>
      have blank : kernel.page key = .blank := by
        rw [page, spaces, List.getElem?_map, listed]
        rfl
      rw [blank]
      exact ⟨.free, by simp [Page.blank, Properties.free]⟩
  | some process =>
      have coherent := inv.coherent process (List.mem_of_getElem? listed)
      rw [page_of_listed (spaces_listed listed)]
      refine ⟨inv.orderly _ (space_mem listed) key.2, ?_⟩
      rw [coherent.frame_eq_none_iff, has_mapped_iff, not_not]

theorem invariant_of_call (inv : OrdinaryInvariant config kernel)
    (ended : (perform current request kernel).state? = some after) :
    OrdinaryInvariant config after :=
  inv.kept (show (Step.call current request).Ordinary from trivial) (state?_silent.trans ended)

/-- How a call ends is how the task that it comes to is judged. -/
theorem ending_perform_of_invariant (inv : OrdinaryInvariant config kernel) :
    (perform current request kernel).ending =
      kernel.setting.judge kernel.view current request >>= fun _ => .ok () := by
  rw [ending_perform_eq_judge inv, Setting.judge]
  simp only [bind_assoc, Verdict.pure_eq, Verdict.ok_bind, Verdict.bind_unit]

/-- A call that is done leads to where the effect of its task is. -/
theorem leads_of_perform (inv : OrdinaryInvariant config kernel)
    (done : perform current request kernel = .done result after) :
    ∃ task, kernel.setting.judge kernel.view current request = .ok task ∧
      task.Leads kernel after ∧ OrdinaryInvariant config after := by
  have ended := (ending_perform_of_invariant inv).symm.trans (ending_of_done done)
  obtain ⟨task, judged, _⟩ := Verdict.bind_eq_ok.mp ended
  obtain ⟨came, admitted, _⟩ := Setting.judge_eq_ok.mp judged
  obtain ⟨target, origin, hosts⟩ :=
    hosts_of_requirePlaces inv.coherent inv.layouts (Setting.valid_of_task came) admitted
  have acted := (perform_eq_act inv.layouts came admitted).symm.trans done
  exact ⟨task, judged, hosts.leads_act inv acted, invariant_of_call inv (by rw [done]; rfl)⟩

/-- A call is done where nothing is in its way. -/
theorem leads_of_judge (inv : OrdinaryInvariant config kernel)
    (judged : kernel.setting.judge kernel.view current request = .ok task) :
    ∃ result after, perform current request kernel = .done result after ∧
      task.Leads kernel after ∧ OrdinaryInvariant config after := by
  have ended : (perform current request kernel).ending = .ok () := by
    rw [ending_perform_of_invariant inv, judged]
    rfl
  obtain ⟨result, after, done⟩ := Outcome.ending_eq_ok.mp ended
  obtain ⟨found, foundJudged, leads, afterInv⟩ := leads_of_perform inv done
  cases judged.symm.trans foundJudged
  exact ⟨result, after, done, leads, afterInv⟩

end Kernel

end GuestMemory
