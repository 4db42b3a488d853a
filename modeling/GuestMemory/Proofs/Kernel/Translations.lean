import GuestMemory.Proofs.Kernel.Canonicity
import GuestMemory.Proofs.Kernel.ShownFrames

/-!
Translations: between calls that of a page leads to its frame, with the permission of its block.
With the pages outside a range their translations stay, and with the frames that pages show the
references to them.
-/

namespace GuestMemory

/-- What stands behind a page is its frame, with the permission of its block. -/
theorem AddressSpace.Coherent.entry_eq {space : AddressSpace} (coherent : space.Coherent)
    (number : Nat) : space.directory.entries[number]? = (space.page number).frame.map fun frame =>
      ⟨frame * pageSize, (space.page number).properties.permission⟩ := by
  rw [page, Directory.frameAt?]
  cases found : space.directory.entries[number]? with
  | none => rfl
  | some translation =>
      have agree := coherent.agree number
      have aligned : pageOf translation.address * pageSize = translation.address :=
        Nat.div_mul_cancel (Nat.dvd_of_mod_eq_zero (coherent.aligned number translation found))
      rw [found, Option.map_some] at agree
      obtain ⟨properties, here, mapped⟩ := Option.bind_eq_some_iff.mp agree.symm
      have permission : properties.permission = translation.permission := by
        rw [Properties.mapped?] at mapped
        split at mapped
        · exact Option.some.inj mapped
        · cases mapped
      rw [Partition.propertiesOf, here, Option.getD_some, permission, Option.map_some,
        Option.map_some, aligned]

namespace Kernel

variable {config : Config} {kernel after : Kernel} {task : Task} {key : Nat × Nat}

/-- The translation of a page. -/
def translation? (kernel : Kernel) (key : Nat × Nat) : Option Translation :=
  kernel.processes[key.1]?.bind fun process => process.space.directory.entries[key.2]?

theorem OrdinaryInvariant.translation?_eq (inv : OrdinaryInvariant config kernel)
    (key : Nat × Nat) :
    kernel.translation? key = (kernel.page key).frame.map fun frame =>
      ⟨frame * pageSize, (kernel.page key).properties.permission⟩ := by
  rw [translation?, page, spaces, List.getElem?_map]
  cases listed : kernel.processes[key.1]? with
  | none => rfl
  | some process => exact (inv.coherent process (List.mem_of_getElem? listed)).entry_eq key.2

/-- Nothing has changed but pages of a range, with their translations, and references to frames. -/
structure ChangesOnly (range : List (Nat × Nat)) (before after : Kernel) : Prop where
  setting_eq : after.setting = before.setting
  page_eq : ∀ key ∉ range, after.page key = before.page key
  translation?_eq : ∀ key ∉ range, after.translation? key = before.translation? key
  frames : before.resources.frames.Recounted after.resources.frames
  nodes_eq : after.resources.descriptors.nodes = before.resources.descriptors.nodes
  inUse_eq : after.resources.descriptors.inUse = before.resources.descriptors.inUse

theorem ChangesOnly.frame_eq {range : List (Nat × Nat)} (changes : kernel.ChangesOnly range after)
    (inside : ∀ key ∈ range, (after.page key).frame = (kernel.page key).frame) (key : Nat × Nat) :
    (after.page key).frame = (kernel.page key).frame := by
  by_cases listed : key ∈ range
  · exact inside key listed
  · rw [changes.page_eq key listed]

/-- A page of the source, if the task has two ranges. -/
theorem page_source_of_leads (leads : task.Leads kernel after)
    (judged : task.judge kernel.view = .ok ())
    (two : ∀ permission, task.work ≠ .setPermission permission) {offset : Nat}
    (bounded : offset < task.pages) : after.page (task.source.page offset) =
      task.work.onSource (kernel.page (task.source.page offset)) := by
  have inside : task.source.page offset ∈ task.range .source := Place.page_mem_pages.mpr bounded
  have outside : task.source.page offset ∉ task.range .destination := fun also =>
    Task.outside_of_judge judged two also inside
  rw [leads.page_eq, Task.effect_source outside inside]

/-- A task changes only what it writes. -/
theorem changesOnly_of_writes {range : List (Nat × Nat)} (leads : task.Leads kernel after)
    (inv : OrdinaryInvariant config kernel) (afterInv : OrdinaryInvariant config after)
    (inside : ∀ key ∈ task.writes, key ∈ range) : kernel.ChangesOnly range after := by
  have page (key : Nat × Nat) (outside : key ∉ range) : after.page key = kernel.page key := by
    rw [leads.page_eq, Task.effect_of_not_mem_writes fun written => outside (inside key written)]
  have contents := afterInv.contents_eq.trans inv.contents_eq.symm
  refine ⟨leads.setting_eq, page, fun key outside => ?_, leads.frames,
    DescriptorPool.nodes_eq_of_contents contents, DescriptorPool.inUse_of_contents contents⟩
  rw [afterInv.translation?_eq, inv.translation?_eq, page key outside]

theorem changesOnly_of_leads (leads : task.Leads kernel after)
    (inv : OrdinaryInvariant config kernel)
    (afterInv : OrdinaryInvariant config after) (kept : task.work.changesSource = false) :
    kernel.ChangesOnly (task.range .destination) after :=
  changesOnly_of_writes leads inv afterInv fun key written => by
    simpa [Task.mem_writes, kept] using written

theorem changesOnly_of_both (leads : task.Leads kernel after)
    (inv : OrdinaryInvariant config kernel)
    (afterInv : OrdinaryInvariant config after) :
    kernel.ChangesOnly (task.range .destination ++ task.range .source) after :=
  changesOnly_of_writes leads inv afterInv fun _ written =>
    List.mem_append.mpr (Task.writes_subset_reads written)

/-- A frame is shown as often as before where the pages have the same frames. -/
theorem shown_congr (same : ∀ key, (after.page key).frame = (kernel.page key).frame) (frame : Nat) :
    after.shown frame = kernel.shown frame := by
  rw [shown_eq_card, shown_eq_card]
  congr 1
  ext key
  rw [mem_showing, mem_showing, same key]

end Kernel

end GuestMemory
