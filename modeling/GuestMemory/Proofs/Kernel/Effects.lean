import GuestMemory.Proofs.Kernel.Judgements

/-!
Effects: a task that is done makes new pages of those that it writes and leaves all else as it was,
but for the references to frames, which follow the pages, and for what the instruction cache has
been told.
-/

namespace GuestMemory

open GuestMemory.Action AddressSpace

variable {attached after made : AttachedSpace} {space moved : AddressSpace} {task : Task}
variable {pages : Pages} {frames : List Nat} {runs : List Run} {group : PageGroup}
variable {result : Commit}

namespace FramePool

variable {pool middle final : FramePool} {extent : Run}

/-- The pools differ in the references to their frames only. -/
def Recounted (pool final : FramePool) : Prop :=
  final = { pool with references := final.references }

theorem Recounted.trans (first : pool.Recounted middle) (second : middle.Recounted final) :
    pool.Recounted final := by
  rw [Recounted] at *
  rw [second, first]

/-- Frames that are released but not for the last time stay out of the free runs. -/
theorem recounted_of_releaseAll (wellFormed : pool.WellFormed extent)
    (released : pool.releaseAll runs = .ok final)
    (kept : ∀ frame : Nat, final.held frame = 0 → pool.held frame = 0) :
    pool.Recounted final := by
  have spares : pool.Spares (Run.framesOf runs) := by
    intro frame member
    have dropped := (wellFormed.releaseAll released).2 frame
    have listed := List.count_pos_iff.mpr member
    have remains := kept frame
    omega
  exact (drops_of_releaseAll spares released).free_eq

end FramePool

namespace AddressSpace

variable {address count destination source size : Nat} {extent : Run} {state : MemoryState}
variable {permission : KernelPermission}

theorem recounted_of_placeGroup
    (placed : placeGroup address group state permission attached = .done () after) :
    attached.resources.frames.Recounted after.resources.frames ∧
      after.resources.descriptors = attached.resources.descriptors ∧
      after.resources.cache = attached.resources.cache := by
  obtain ⟨_, _, _, frames, _, retained, _, _, rfl⟩ := placeGroup_eq_done placed
  exact ⟨(FramePool.retains_of_retainAll retained).free_eq, rfl, rfl⟩

theorem descriptors_of_unmapRange
    (unmapped : unmapRange address count attached = .done () after) :
    after.resources.descriptors = attached.resources.descriptors ∧
      after.resources.cache = attached.resources.cache := by
  obtain ⟨_, _, _, _, _, _, _, _, rfl⟩ := unmapRange_eq_done unmapped
  exact ⟨rfl, rfl⟩

theorem recounted_of_unmapRange (unmapped : unmapRange address count attached = .done () after)
    (wellFormed : attached.resources.frames.WellFormed extent)
    (kept : ∀ frame : Nat, after.resources.frames.held frame = 0 →
      attached.resources.frames.held frame = 0) :
    attached.resources.frames.Recounted after.resources.frames := by
  obtain ⟨_, _, _, frames, _, _, released, _, rfl⟩ := unmapRange_eq_done unmapped
  exact FramePool.recounted_of_releaseAll wellFormed released kept

/-- Lending out memory asks nothing of the instruction cache. -/
theorem recounted_of_mapCode (sound : Sound attached)
    (done : mapCode destination source size attached = .done result after) :
    attached.resources.frames.Recounted after.resources.frames ∧
      after.resources.cache = attached.resources.cache := by
  obtain ⟨group, made, blocks, directory, placed, _, _, _, grouped, _, _, mapped, discarded⟩ :=
    mapCode_eq_done done
  obtain ⟨unheld, unchanged, runs, groups⟩ := makeGroup_eq_done sound grouped
  obtain ⟨resources, given, rfl⟩ := discard_eq_ok discarded
  obtain ⟨recounted, descriptors, cached⟩ := recounted_of_placeGroup mapped
  obtain ⟨_, told, kept⟩ := groups.of_discard_unheld unheld descriptors given
  rw [kept, ← unchanged]
  exact ⟨recounted, told.trans (cached.trans groups.cache_eq)⟩

theorem recounted_of_unmapCode (sound : Sound attached)
    (wellFormed : attached.resources.frames.WellFormed extent) {strategy : InvalidationStrategy}
    (done : unmapCode destination source size strategy attached = .done result after)
    (remains : ∀ frame : Nat, after.resources.frames.held frame = 0 →
      attached.resources.frames.held frame = 0) :
    attached.resources.frames.Recounted after.resources.frames ∧
      ∃ met, attached.space.blocks.overlapping destination size = .ok met ∧
        after.resources.cache = if met.any (·.state.has .code) then
            attached.resources.cache.request (strategy.request destination size)
          else attached.resources.cache := by
  obtain ⟨group, made, met, removed, _, _, last, _, _, grouped, _, overlapping, erased, _, _, _,
    frames, descriptors, told, discarded⟩ := unmapCode_eq_done done
  obtain ⟨unheld, unchanged, runs, groups⟩ := makeGroup_eq_done sound grouped
  obtain ⟨resources, given, rfl⟩ := discard_eq_ok discarded
  obtain ⟨same, silent⟩ := descriptors_of_unmapRange erased
  obtain ⟨_, cached, kept⟩ := groups.of_discard_unheld unheld (descriptors.trans same) given
  refine ⟨?_, met, groups.space_eq ▸ overlapping, ?_⟩
  · rw [← unchanged] at wellFormed remains ⊢
    simp only [kept, frames] at remains ⊢
    exact recounted_of_unmapRange erased wellFormed remains
  · rw [← groups.cache_eq, ← silent]
    exact cached.trans told

end AddressSpace

namespace Task

/-- What a task makes of the address space that its destination is in. -/
structure Rewrites (task : Task) (pages : Pages) (space moved : AddressSpace) : Prop where
  rebuilt : space.Rebuilt moved
  destination : ∀ offset < task.pages,
    moved.page (pageOf task.destination.address + offset) =
      task.work.onDestination (pages (task.destination.page offset))
        (pages (task.source.page offset))
  source : task.work.changesSource = true → ∀ offset < task.pages,
    task.source.page offset ∉ task.range .destination →
      moved.page (pageOf task.source.address + offset) =
        task.work.onSource (pages (task.source.page offset))
  same : ∀ number, (task.destination.process, number) ∉ task.writes →
    moved.page number = space.page number

/-- The new pages are those of the effect of the task. -/
theorem Rewrites.among (rewrites : task.Rewrites pages space moved)
    (among : space.Among pages task.destination.process) :
    moved.Among (task.effect pages) task.destination.process := by
  intro number
  by_cases written : (task.destination.process, number) ∈ task.writes
  · by_cases destination : (task.destination.process, number) ∈ task.range .destination
    · obtain ⟨offset, bounded, (same : task.destination.page offset = _)⟩ :=
        Place.mem_pages.mp destination
      rw [← same, effect_destination bounded, ← rewrites.destination offset bounded]
      exact congrArg moved.page (congrArg Prod.snd same)
    · obtain ⟨changes, source⟩ := written.resolve_left destination
      rw [effect_source destination source]
      obtain ⟨offset, bounded, (same : task.source.page offset = _)⟩ := Place.mem_pages.mp source
      rw [← same] at destination ⊢
      rw [← rewrites.source changes offset bounded destination]
      exact congrArg moved.page (congrArg Prod.snd same)
  · rw [effect_of_not_mem_writes written, rewrites.same number written, among number]

theorem outside_of_not_mem_writes {number : Nat}
    (outside : (task.destination.process, number) ∉ task.writes) :
    ¬ Within (pageOf task.destination.address) task.pages number := fun inside =>
  outside (.inl (Place.mem_pages_iff.mpr ⟨rfl, inside⟩))

theorem outside_source_of_not_mem_writes {number : Nat}
    (outside : (task.destination.process, number) ∉ task.writes)
    (changes : task.work.changesSource = true)
    (within : task.source.process = task.destination.process) :
    ¬ Within (pageOf task.source.address) task.pages number := fun inside =>
  outside (.inr ⟨changes, Place.mem_pages_iff.mpr ⟨within.symm, inside⟩⟩)

theorem frame_of_behind {offset frame : Nat}
    (behind : task.behind pages .source = frames.map some) (listed : frames[offset]? = some frame) :
    (pages (task.source.page offset)).frame = some frame := by
  have found := congrArg (·[offset]?) behind
  have bounded : offset < task.pages := by
    have length := congrArg List.length behind
    simp only [Task.behind, Pages.behind, Task.range, Place.pages, List.length_map,
      List.length_range] at length
    have inside := (List.getElem?_eq_some_iff.mp listed).1
    exact length ▸ inside
  simpa [Task.behind, Pages.behind, Task.range, Task.place, Place.pages, listed, bounded]
    using found

variable (attached)

theorem rewrites_setPermission {permission : UserPermission}
    (covered : task.Covered .destination pages attached.space)
    (work : task.work = .setPermission permission)
    (done : AddressSpace.setPermission task.destination.address task.pages permission attached =
      .done result after) : task.Rewrites pages attached.space after.space := by
  obtain ⟨blocks, directory, _, updated, reprotected, space, _⟩ := setPermission_eq_done done
  obtain ⟨inside, outside⟩ :=
    covered.coherent.page_reprotect reprotected updated covered.aligned
  rw [space]
  refine ⟨⟨blocks, directory, rfl⟩, fun offset bounded => ?_, ?_, fun number unwritten =>
    outside number (outside_of_not_mem_writes unwritten)⟩
  · obtain ⟨new, made, page⟩ := inside (pageOf task.destination.address + offset)
      ⟨Nat.le_add_right _ _, Nat.add_lt_add_left bounded _⟩
    cases made
    rw [page, work, ← covered.among]
    rfl
  · rw [work]
    exact fun changes => nomatch changes

theorem rewrites_mapGroup (covered : task.Covered .destination pages attached.space)
    (work : task.work = .mapMemory) (orderly : attached.space.Orderly)
    (held : group.runs attached.resources.descriptors = .ok runs)
    (behind : task.behind pages .source = (Run.framesOf runs).map some)
    (length : (Run.framesOf runs).length = task.pages)
    (done : AddressSpace.mapGroup task.destination.address group .sharedCode .userReadWrite
      attached = .done result after) : task.Rewrites pages attached.space after.space := by
  obtain ⟨rebuilt, _, shown, same⟩ :=
    shows_of_mapGroup done covered.coherent orderly covered.aligned held
  rw [length] at same
  refine ⟨rebuilt, fun offset bounded => ?_, ?_, fun number unwritten =>
    same number (outside_of_not_mem_writes unwritten)⟩
  · have listed := List.getElem?_eq_getElem (length ▸ bounded)
    obtain ⟨properties, frame⟩ := shown offset _ listed
    rw [work, Work.onDestination, frame_of_behind behind listed, ← properties, ← frame]
  · rw [work]
    exact fun changes => nomatch changes

theorem rewrites_unmapRange {allowed : MemoryState → Prop}
    (covered : task.Covered .destination pages attached.space) (work : task.work = .unmapMemory)
    (plain : ∀ number, Within (pageOf task.destination.address) task.pages number →
      Unmarked allowed (attached.space.page number).properties)
    (done : AddressSpace.unmapRange task.destination.address task.pages attached =
      .done () after) : task.Rewrites pages attached.space after.space := by
  obtain ⟨vacant, same⟩ := blank_of_unmapRange covered.coherent plain done
  refine ⟨rebuilt_of_unmapRange done, fun offset bounded => ?_, ?_, fun number unwritten =>
    same number (outside_of_not_mem_writes unwritten)⟩
  · rw [work]
    exact vacant _ ⟨Nat.le_add_right _ _, Nat.add_lt_add_left bounded _⟩
  · rw [work]
    exact fun changes => nomatch changes

section Aliases

variable (destination : task.Covered .destination pages attached.space)
variable (source : task.Covered .source pages attached.space)
variable (within : task.source.process = task.destination.process)
variable (orderly : attached.space.Orderly) (sound : AddressSpace.Sound attached)

include destination source within orderly sound

theorem rewrites_mapCode (work : task.work = .mapCode)
    (done : AddressSpace.mapCode task.destination.address task.source.address
      (task.pages * pageSize) attached = .done result after) :
    task.Rewrites pages attached.space after.space := by
  have changes : task.work.changesSource = true := by rw [work]; rfl
  have whole : task.pages * pageSize / pageSize = task.pages := Nat.mul_div_cancel _ (by decide)
  obtain ⟨rebuilt, _, _, frames, length, aliased, shown⟩ := aliased_of_mapCode
    destination.coherent orderly sound destination.aligned source.aligned (by rw [whole]) done
  rw [whole] at length
  have bare (offset : Nat) (bounded : offset < task.pages) : ∃ frame,
      frames[offset]? = some frame ∧ (pages (task.source.page offset)).frame = some frame := by
    have listed := List.getElem?_eq_getElem (length ▸ bounded)
    exact ⟨_, listed, (congrArg Page.frame (source.among _)).trans (aliased.owned _ _ listed).2⟩
  refine ⟨rebuilt, fun offset bounded => ?_, fun _ offset bounded _ => ?_,
    fun number unwritten => aliased.same number ?_ ?_⟩
  · obtain ⟨frame, listed, before⟩ := bare offset bounded
    obtain ⟨properties, frame⟩ := shown offset _ listed
    rw [work]
    exact congrArg₂ Page.mk properties (frame.trans before.symm)
  · obtain ⟨frame, listed, before⟩ := bare offset bounded
    obtain ⟨properties, frame⟩ := aliased.lent offset _ listed
    rw [work]
    exact congrArg₂ Page.mk properties (frame.trans before.symm)
  · rw [length]
    exact outside_source_of_not_mem_writes unwritten changes within
  · rw [length]
    exact outside_of_not_mem_writes unwritten

theorem rewrites_unmapCode (work : task.work = .unmapCode) {strategy : InvalidationStrategy}
    (done : AddressSpace.unmapCode task.destination.address task.source.address
      (task.pages * pageSize) strategy attached = .done result after) :
    task.Rewrites pages attached.space after.space := by
  have changes : task.work.changesSource = true := by rw [work]; rfl
  have whole : task.pages * pageSize / pageSize = task.pages := Nat.mul_div_cancel _ (by decide)
  obtain ⟨rebuilt, frames, length, aliased, owned⟩ := aliased_of_unmapCode
    destination.coherent orderly sound destination.aligned source.aligned (by rw [whole]) done
  rw [whole] at length
  refine ⟨rebuilt, fun offset bounded => ?_, fun _ offset bounded _ => ?_,
    fun number unwritten => (aliased.same number ?_ ?_).symm⟩
  · rw [work]
    exact aliased.vacant _ ⟨Nat.le_add_right _ _, length ▸ Nat.add_lt_add_left bounded _⟩
  · have listed := List.getElem?_eq_getElem (length ▸ bounded)
    obtain ⟨properties, frame⟩ := owned offset _ listed
    have before := (congrArg Page.frame (source.among _)).trans (aliased.lent offset _ listed).2
    rw [work]
    exact congrArg₂ Page.mk properties (frame.trans before.symm)
  · rw [length]
    exact outside_source_of_not_mem_writes unwritten changes within
  · rw [length]
    exact outside_of_not_mem_writes unwritten

end Aliases

end Task

/-- What a task makes of a kernel: the pages that it writes are new, and so are the references to
frames and what the instruction cache has been told. -/
structure Task.Leads (task : Task) (before after : Kernel) : Prop where
  setting_eq : after.setting = before.setting
  page_eq : after.page = task.effect before.page
  frames : before.resources.frames.Recounted after.resources.frames
  cache_eq : after.resources.cache = before.resources.cache.told
    (task.invalidation? before.config.invalidation before.page)

namespace Kernel

variable {config : Config} {kernel final : Kernel} {target origin : Process}

/-- Rebuilding the address space of a process changes nothing that no call changes. -/
theorem setting_withSpace {index : Nat} {attached : AttachedSpace}
    (listed : kernel.processes[index]? = some target)
    (rebuilt : target.space.Rebuilt attached.space) :
    (kernel.withSpace index target attached).setting = kernel.setting := by
  obtain ⟨blocks, directory, moved⟩ := rebuilt
  have resident : Process.resident { target with space := attached.space } = target.resident := by
    rw [moved]
    rfl
  have there : kernel.setting.residents[index]? = some target.resident := by
    rw [setting, List.getElem?_map, listed, Option.map_some]
  obtain ⟨bounded, same⟩ := List.getElem?_eq_some_iff.mp there
  rw [setting, withSpace, setProcess, List.map_set, resident, ← same]
  exact congrArg (Setting.mk kernel.config) (List.set_getElem_self bounded)

/-- A task that rewrites the address space of its destination leads to the kernel with that. -/
theorem Hosts.leads_of_rewrites {attached : AttachedSpace}
    (hosts : kernel.Hosts task target origin)
    (rewrites : task.Rewrites kernel.page target.space attached.space)
    (processes : final.processes =
      (kernel.withSpace task.destination.process target attached).processes)
    (config : final.config = kernel.config)
    (frames : kernel.resources.frames.Recounted final.resources.frames)
    (cache : final.resources.cache = kernel.resources.cache.told
      (task.invalidation? kernel.config.invalidation kernel.page)) : task.Leads kernel final where
  setting_eq := by
    rw [← setting_withSpace hosts.target_listed rewrites.rebuilt, setting, config, processes]
    rfl
  page_eq := by
    have differ : Differ kernel final task.destination.process target.space attached.space :=
      differ_of_set (spaces_listed hosts.target_listed)
        ((congrArg (List.map Process.space) processes).trans spaces_withSpace)
    funext key
    obtain ⟨index, number⟩ := key
    by_cases here : index = task.destination.process
    · subst here
      rw [differ.now, rewrites.among (among_of_listed hosts.target_listed)]
    · rw [differ.others _ here, Task.effect_of_not_mem_writes]
      rintro (inside | ⟨changes, inside⟩)
      · exact here (Place.mem_pages_iff.mp inside).1
      · exact here ((Place.mem_pages_iff.mp inside).1.trans (hosts.within changes))
  frames := frames
  cache_eq := cache

namespace Hosts

variable (hosts : kernel.Hosts task target origin) (inv : OrdinaryInvariant config kernel)

include hosts

theorem whole : WholePages (task.pages * pageSize) where
  aligned := Nat.mul_mod_left _ _
  positive := Nat.mul_pos hosts.positive (by decide)

include inv

theorem leads_setPermission {permission : UserPermission}
    (work : task.work = .setPermission permission)
    (done : onSpace task.destination.process (AddressSpace.setPermission task.destination.address
      task.pages permission) kernel = .done result final) : task.Leads kernel final := by
  obtain ⟨process, attached, listed, acted, rfl⟩ := onSpace_eq_done.mp done
  obtain rfl : target = process := Option.some.inj (hosts.target_listed.symm.trans listed)
  have covered := hosts.destination_covered inv.coherent
  have rewrites := Task.rewrites_setPermission ⟨target.space, kernel.resources⟩
    covered work acted
  obtain ⟨_, _, _, _, _, _, frames, _, told⟩ := AddressSpace.setPermission_eq_done acted
  refine hosts.leads_of_rewrites rewrites rfl rfl ?_ ?_
  · simp only [withSpace, frames]
    rfl
  · rw [Task.invalidation?, work]
    refine told.trans ?_
    dsimp only
    split <;> rfl

theorem leads_mapShared (work : task.work = .mapMemory)
    (done : mapShared task.destination task.source task.pages kernel = .done result final) :
    task.Leads kernel final := by
  obtain ⟨group, held, mapped, grouped, acted, discarded⟩ := mapShared_eq_done done
  obtain ⟨owner, made, ownerListed, making, rfl⟩ := onSpace_eq_done.mp grouped
  obtain rfl : origin = owner := Option.some.inj (hosts.origin_listed.symm.trans ownerListed)
  obtain ⟨_, once, runs, groups, retained⟩ :=
    makeHeldGroup_eq_done (inv.sound.attach origin) making
  have retains := FramePool.retains_of_retainAll retained
  obtain ⟨heldFrames, _⟩ := inv.accounts.frames.retainAll retained
  have processes := withSpace_processes ownerListed groups.space_eq
  obtain ⟨descriptors, spares⟩ := spares_of_mapGroup heldFrames groups.occupies.held
    (retains.spares inv.sound.frames) (by rw [acted]; rfl)
  obtain ⟨shower, shown, listed, mapping, rfl⟩ := onSpace_eq_done.mp acted
  rw [processes] at listed
  obtain rfl : target = shower := Option.some.inj (hosts.target_listed.symm.trans listed)
  obtain ⟨resources, given, rfl⟩ := changeResources_eq_ok discarded
  obtain ⟨_, cached, released⟩ := groups.of_discard_held once descriptors given
  have covered := hosts.destination_covered inv.coherent
  have behind := (hosts.source_covered inv.coherent).behind_of_backs groups.backs groups.length_eq
  have rewrites := Task.rewrites_mapGroup ⟨target.space, made.resources⟩ covered work
    (inv.orderly _ (space_mem listed)) groups.occupies.held behind groups.length_eq mapping
  obtain ⟨_, _, _, placed⟩ := mapGroup_eq_done mapping
  obtain ⟨recounted, _, silent⟩ := recounted_of_placeGroup placed
  refine hosts.leads_of_rewrites rewrites ?_ rfl ?_ ?_
  · simp only [withSpace, setProcess] at processes ⊢
    rw [processes]
  · have first : kernel.resources.frames.Recounted made.resources.frames := retains.free_eq
    exact (first.trans recounted).trans (FramePool.drops_of_releaseAll spares released).free_eq
  · rw [Task.invalidation?, work]
    exact cached.trans (silent.trans groups.cache_eq)

theorem leads_unmapShared (work : task.work = .unmapMemory)
    (done : unmapShared task.destination task.source (task.pages * pageSize) kernel =
      .done result final) : task.Leads kernel final := by
  have whole : task.pages * pageSize / pageSize = task.pages := Nat.mul_div_cancel _ (by decide)
  obtain ⟨group, held, removed, checked, _, grouped, acted, discarded⟩ := unmapShared_eq_done done
  rw [whole] at grouped acted
  obtain ⟨owner, made, ownerListed, making, rfl⟩ := onSpace_eq_done.mp grouped
  obtain rfl : origin = owner := Option.some.inj (hosts.origin_listed.symm.trans ownerListed)
  obtain ⟨unheld, unchanged, runs, groups⟩ := makeGroup_eq_done (inv.sound.attach origin) making
  have processes := withSpace_processes ownerListed groups.space_eq
  obtain ⟨holder, last, listed, taking, rfl⟩ := onSpace_eq_done.mp acted
  rw [processes] at listed
  obtain rfl : target = holder := Option.some.inj (hosts.target_listed.symm.trans listed)
  simp only [bind_eq_done, require_eq_done] at taking
  obtain ⟨_, _, compared, _, _, ⟨rfl, rfl⟩, erased⟩ := taking
  obtain rfl := steady_isBackedBy.of_done compared
  obtain ⟨resources, given, rfl⟩ := changeResources_eq_ok discarded
  have covered := hosts.destination_covered inv.coherent
  have viewing := onSpace_of_steady steady_checkRange listed checked
  have plain (number : Nat)
      (inside : Within (pageOf task.destination.address) task.pages number) :=
    plain_of_checked viewing covered.coherent (inv.orderly _ (space_mem listed))
      hosts.destination_aligned hosts.target_covers rfl rfl inside
  have rewrites := Task.rewrites_unmapRange ⟨target.space, made.resources⟩ covered
    work plain erased
  obtain ⟨descriptors, silent⟩ := descriptors_of_unmapRange erased
  obtain ⟨_, cached, kept⟩ := groups.of_discard_unheld unheld descriptors given
  have settles := inv.accounts.unmapShared inv.sound inv.coherent hosts.destination_aligned
    hosts.source_aligned hosts.whole done
  refine hosts.leads_of_rewrites rewrites ?_ rfl ?_ ?_
  · simp only [withSpace, setProcess] at processes ⊢
    rw [processes]
  · have wellFormed := inv.accounts.frames
    have remains (frame : Nat) := (settles.allocation frame).mp
    change kernel.resources.frames.Recounted resources.frames
    change ∀ frame, resources.frames.held frame = 0 → kernel.resources.frames.held frame = 0
      at remains
    rw [kept] at remains ⊢
    change made.resources.frames = kernel.resources.frames at unchanged
    rw [← unchanged] at remains wellFormed ⊢
    have recounted := recounted_of_unmapRange erased (by exact wellFormed) (by exact remains)
    exact recounted
  · rw [Task.invalidation?, work]
    exact cached.trans (silent.trans groups.cache_eq)

theorem leads_mapCode (work : task.work = .mapCode)
    (done : onSpace task.destination.process (AddressSpace.mapCode task.destination.address
      task.source.address (task.pages * pageSize)) kernel = .done result final) :
    task.Leads kernel final := by
  obtain ⟨process, attached, listed, acted, rfl⟩ := onSpace_eq_done.mp done
  obtain rfl : target = process := Option.some.inj (hosts.target_listed.symm.trans listed)
  have within := hosts.within (by rw [work]; rfl)
  have source := hosts.source_covered inv.coherent
  rw [hosts.same_of_within within] at source
  have sound := inv.sound.attach target
  have rewrites := Task.rewrites_mapCode ⟨target.space, kernel.resources⟩
    (hosts.destination_covered inv.coherent) source within (inv.orderly _ (space_mem listed))
    sound work acted
  obtain ⟨recounted, silent⟩ := recounted_of_mapCode sound acted
  refine hosts.leads_of_rewrites rewrites rfl rfl recounted ?_
  rw [Task.invalidation?, work]
  exact silent

theorem leads_unmapCode (work : task.work = .unmapCode)
    (done : onSpace task.destination.process (AddressSpace.unmapCode task.destination.address
      task.source.address (task.pages * pageSize) kernel.config.invalidation) kernel =
        .done result final) :
    task.Leads kernel final := by
  obtain ⟨process, attached, listed, acted, rfl⟩ := onSpace_eq_done.mp done
  obtain rfl : target = process := Option.some.inj (hosts.target_listed.symm.trans listed)
  have within := hosts.within (by rw [work]; rfl)
  have source := hosts.source_covered inv.coherent
  rw [hosts.same_of_within within] at source
  have sound := inv.sound.attach target
  have rewrites := Task.rewrites_unmapCode ⟨target.space, kernel.resources⟩
    (hosts.destination_covered inv.coherent) source within (inv.orderly _ (space_mem listed))
    sound work acted
  have settles := inv.accounts.unmapCode inv.sound inv.coherent hosts.destination_aligned
    hosts.source_aligned hosts.whole done
  obtain ⟨recounted, met, overlapping, told⟩ := recounted_of_unmapCode sound inv.accounts.frames
    acted fun frame => (settles.allocation frame).mp
  have covered := hosts.destination_covered inv.coherent
  have holdsCode : met.any (·.state.has .code) = true ↔
      ∃ key ∈ task.range .destination, (kernel.page key).properties.state.has .code = true := by
    rw [List.any_eq_true]
    exact (exists_overlapping_iff (·.state.has .code = true) covered.coherent covered.aligned
      covered.positive covered.covers overlapping).trans
        (covered.among.exists_iff (·.properties.state.has .code = true)).symm
  refine hosts.leads_of_rewrites rewrites rfl rfl recounted ?_
  rw [Task.invalidation?, work]
  refine told.trans ?_
  simp only [holdsCode]
  split <;> rfl

/-- A task that is done leads to where its effect is. -/
theorem leads_act (done : task.act kernel = .done result final) : task.Leads kernel final := by
  obtain ⟨work, target, origin, pages⟩ := task
  cases work with
  | setPermission permission => exact hosts.leads_setPermission inv rfl done
  | mapMemory => exact hosts.leads_mapShared inv rfl done
  | unmapMemory => exact hosts.leads_unmapShared inv rfl done
  | mapCode => exact hosts.leads_mapCode inv rfl done
  | unmapCode => exact hosts.leads_unmapCode inv rfl done

end Hosts

end Kernel

end GuestMemory
