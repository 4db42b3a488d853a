import GuestMemory.Proofs.AddressSpace.Changes
import GuestMemory.Proofs.Resources

/-!
Refused operations on an address space: whatever an operation had done before it was refused has
been undone. Operations keep the pools sound whether they are refused or not.
-/

namespace GuestMemory

open GuestMemory.Action

/-- The address space is as it was, and so is what it shares. -/
structure AttachedSpace.Restored (before after : AttachedSpace) : Prop where
  space_eq : after.space = before.space
  resources : before.resources.Restored after.resources

theorem AttachedSpace.Restored.refl (attached : AttachedSpace) : attached.Restored attached :=
  ⟨rfl, .refl _⟩

namespace AddressSpace

def Sound (attached : AttachedSpace) : Prop :=
  attached.resources.Sound

instance : Recoverable AttachedSpace where
  valid := Sound
  same := AttachedSpace.Restored
  refl := AttachedSpace.Restored.refl

variable {α β : Type} {address pages size destination source : Nat} {state : MemoryState}
variable {check : Check} {group : PageGroup} {permission : KernelPermission} {runs : List Run}
variable {operation : Operation}

theorem keeps_changeBlocks {change : Partition → Checked Partition} :
    Keeps Sound (changeBlocks change) := by
  refine Keeps.update fun attached after sound changed => ?_
  obtain ⟨blocks, _, built⟩ := Checked.bind_eq_ok.mp changed
  cases built
  exact sound

theorem keeps_changeDirectory {change : Directory → Checked Directory} :
    Keeps Sound (changeDirectory change) := by
  refine Keeps.update fun attached after sound changed => ?_
  obtain ⟨directory, _, built⟩ := Checked.bind_eq_ok.mp changed
  cases built
  exact sound

theorem keeps_changeFrames {change : FramePool → Checked FramePool}
    (kept : ∀ frames after : FramePool, frames.Positive → change frames = .ok after →
      after.Positive) : Keeps Sound (changeFrames change) := by
  refine Keeps.update fun attached after sound changed => ?_
  obtain ⟨frames, made, built⟩ := Checked.bind_eq_ok.mp changed
  cases built
  exact ⟨sound.descriptors, kept _ _ sound.frames made⟩

theorem keeps_invalidate {invalidation : Invalidation} : Keeps Sound (invalidate invalidation) := by
  refine Keeps.update fun attached after sound changed => ?_
  cases changed
  exact ⟨sound.descriptors, sound.frames⟩

theorem accepts_commit : Accepts (commit operation address pages) :=
  (Accepts.read _).bind fun _ => (Accepts.check _).bind fun _ => Accepts.pure _

theorem accepts_changeBlocks {change : Partition → Checked Partition} :
    Accepts (changeBlocks change) :=
  Accepts.update _

theorem accepts_changeDirectory {change : Directory → Checked Directory} :
    Accepts (changeDirectory change) :=
  Accepts.update _

theorem accepts_unmapRange : Accepts (unmapRange address pages) :=
  (Accepts.inspect _).bind fun _ => accepts_changeDirectory.bind fun _ =>
    (Accepts.update _).bind fun _ => accepts_changeBlocks

theorem keeps_unmapRange : Keeps Sound (unmapRange address pages) :=
  (Steady.inspect _).keeps.bind fun _ => keeps_changeDirectory.bind fun _ =>
    (keeps_changeFrames fun _ _ positive released => positive.releaseAll released).bind fun _ =>
      keeps_changeBlocks

theorem accepts_mapRuns : Accepts (mapRuns permission address runs) := by
  induction runs generalizing address with
  | nil => exact Accepts.pure _
  | cons run rest ih =>
      exact (Accepts.update _).bind fun _ => (Accepts.update _).bind fun _ =>
        (Accepts.check _).bind fun _ => ih

theorem keeps_mapRuns : Keeps Sound (mapRuns permission address runs) := by
  induction runs generalizing address with
  | nil => exact (Steady.pure _).keeps
  | cons run rest ih =>
      exact (keeps_changeFrames fun _ _ positive retained => positive.retain retained).bind fun _ =>
        keeps_changeDirectory.bind fun _ => (Steady.check _).keeps.bind fun _ => ih

theorem accepts_placeGroup : Accepts (placeGroup address group state permission) :=
  (Accepts.inspect _).bind fun _ => accepts_mapRuns.bind fun _ =>
    (Accepts.inspect _).bind fun _ => Accepts.update _

theorem keeps_placeGroup : Keeps Sound (placeGroup address group state permission) :=
  (Steady.inspect _).keeps.bind fun _ => keeps_mapRuns.bind fun _ =>
    (Steady.inspect _).keeps.bind fun _ => keeps_changeBlocks

theorem transactional_makeGroup : Transactional (makeGroup address pages) := by
  refine Transactional.after_steady (Steady.inspect _) fun found => ?_
  split
  · exact Transactional.of_steady (Steady.refuse _)
  · constructor
    · intro attached cause after sound refused
      obtain ⟨part, inside, rfl⟩ := focus_eq_refused.mp refused
      exact ⟨rfl, PageGroup.contents_of_ofRuns_refused sound.descriptors inside, rfl, rfl⟩
    · exact PageGroup.keeps_addAll.focus (fun _ sound => sound.descriptors)
        fun _ _ sound kept => ⟨kept, sound.frames⟩

theorem accepts_retainGroup : Accepts (retainGroup group) := by
  intro attached cause after refused
  rw [retainGroup] at refused
  split at refused <;> cases refused

theorem retainGroup_eq_done {attached after : AttachedSpace} {held : PageGroup}
    (retained : retainGroup group attached = .done held after) :
    ∃ resources, group.retain attached.resources = .ok (held, resources) ∧
      after = { attached with resources } := by
  rw [retainGroup] at retained
  split at retained
  · rename_i other resources counted
    cases retained
    exact ⟨resources, counted, rfl⟩
  · cases retained

theorem keeps_retainGroup : Keeps Sound (retainGroup group) := by
  intro attached after sound ended
  rcases Outcome.state?_eq_some.mp ended with ⟨held, done⟩ | ⟨cause, refused⟩
  · obtain ⟨resources, retained, rfl⟩ := retainGroup_eq_done done
    exact PageGroup.sound_of_retain sound retained
  · exact absurd refused (accepts_retainGroup _ _ _)

theorem transactional_makeHeldGroup : Transactional (makeHeldGroup address pages check) :=
  .after_steady steady_rangeSize fun _ => .after_steady steady_checkRange fun _ =>
    transactional_makeGroup.then_accepts (fun _ => accepts_retainGroup) fun _ => keeps_retainGroup

theorem discard_eq_ok {attached after : AttachedSpace}
    (discarded : discard group attached = .ok after) :
    ∃ resources, group.discard attached.resources = .ok resources ∧
      after = { attached with resources } := by
  obtain ⟨resources, given, built⟩ := Checked.bind_eq_ok.mp discarded
  cases built
  exact ⟨resources, given, rfl⟩

/-- What making a group does: it takes descriptors for the frames behind the range, and nothing
else. -/
structure Groups (attached : AttachedSpace) (address pages : Nat) (group : PageGroup)
    (runs : List Run) (after : AttachedSpace) : Prop where
  occupies : group.Occupies attached.resources.descriptors runs after.resources.descriptors
  length_eq : (Run.framesOf runs).length = pages
  backs : attached.space.directory.Backs (pageOf address) (Run.framesOf runs)
  lies : ∀ limit, attached.space.directory.Lies limit → ∀ run ∈ runs, run.Lies limit
  space_eq : after.space = attached.space
  cache_eq : after.resources.cache = attached.resources.cache

theorem makeGroup_eq_done {attached after : AttachedSpace} (sound : Sound attached)
    (made : makeGroup address pages attached = .done group after) :
    group.holds = 0 ∧ after.resources.frames = attached.resources.frames ∧
      ∃ runs, Groups attached address pages group runs after := by
  rw [makeGroup, bind_eq_done] at made
  obtain ⟨found, _, inspected, made⟩ := made
  obtain ⟨listed, rfl⟩ := inspect_eq_done.mp inspected
  cases found with
  | none => exact absurd made refuse_ne_done
  | some behind =>
      obtain ⟨descriptors, allocated, rfl⟩ := focus_eq_done.mp made
      obtain ⟨runs, occupies, frames, lies, unheld⟩ :=
        PageGroup.occupies_of_ofRuns sound.descriptors allocated
      obtain ⟨length, backs⟩ := Directory.runs_eq_some listed
      exact ⟨unheld, rfl, runs, occupies, frames ▸ length, frames ▸ backs,
        fun limit directory => lies limit (directory.of_runs listed), rfl, rfl⟩

theorem makeHeldGroup_eq_done {attached after : AttachedSpace} (sound : Sound attached)
    (made : makeHeldGroup address pages check attached = .done group after) :
    checkRange address (pages * pageSize) check attached = .done () attached ∧ group.holds = 1 ∧
      ∃ runs, Groups attached address pages group runs after ∧
        attached.resources.frames.retainAll runs = .ok after.resources.frames := by
  simp only [makeHeldGroup, bind_eq_done] at made
  obtain ⟨size, _, sized, _, _, checked, unheld, middle, grouped, retained⟩ := made
  obtain ⟨_, rfl, rfl⟩ := rangeSize_eq_done sized
  obtain rfl := steady_checkRange.of_done checked
  obtain ⟨holds, frames, runs, groups⟩ := makeGroup_eq_done sound grouped
  obtain ⟨resources, counted, rfl⟩ := retainGroup_eq_done retained
  obtain ⟨occupies, held, counts, cache⟩ := groups.occupies.retain counted
  refine ⟨checked, by rw [held, holds], runs, ⟨occupies, groups.length_eq, groups.backs,
    groups.lies, groups.space_eq, cache.trans groups.cache_eq⟩, ?_⟩
  rw [← frames]
  exact counts

namespace Groups

variable {attached made : AttachedSpace} {runs : List Run} {resources final : Resources}

/-- A group that nothing holds gives its descriptors back when it is discarded. -/
theorem of_discard_unheld (groups : Groups attached address pages group runs made)
    (unheld : group.holds = 0) (same : resources.descriptors = made.resources.descriptors)
    (discarded : group.discard resources = .ok final) :
    final.descriptors.contents = attached.resources.descriptors.contents ∧
      final.cache = resources.cache ∧ final.frames = resources.frames := by
  have occupies := groups.occupies
  rw [← same] at occupies
  obtain ⟨contents, cache, dropped⟩ := occupies.of_discard discarded
  rw [unheld] at dropped
  exact ⟨contents, cache, (Except.ok.inj dropped).symm⟩

/-- A group that is held once gives its references back with its descriptors. -/
theorem of_discard_held (groups : Groups attached address pages group runs made)
    (held : group.holds = 1) (same : resources.descriptors = made.resources.descriptors)
    (discarded : group.discard resources = .ok final) :
    final.descriptors.contents = attached.resources.descriptors.contents ∧
      final.cache = resources.cache ∧ resources.frames.releaseAll runs = .ok final.frames := by
  have occupies := groups.occupies
  rw [← same] at occupies
  obtain ⟨contents, cache, dropped⟩ := occupies.of_discard discarded
  rw [held, PageGroup.releaseHolds_one] at dropped
  exact ⟨contents, cache, dropped⟩

end Groups

/-- Discarding a group restores what making it has changed. -/
def Discardable (making : SpaceAction PageGroup) : Prop :=
  ∀ attached made group resources, Sound attached → making attached = .done group made →
    group.discard made.resources = .ok resources → attached.Restored ⟨made.space, resources⟩

theorem discardable_makeGroup : Discardable (makeGroup address pages) := by
  intro attached made group resources sound grouped discarded
  obtain ⟨unheld, frames, runs, groups⟩ := makeGroup_eq_done sound grouped
  obtain ⟨contents, cache, kept⟩ := groups.of_discard_unheld unheld rfl discarded
  exact ⟨groups.space_eq, contents, kept.trans frames, cache.trans groups.cache_eq⟩

theorem discardable_makeHeldGroup : Discardable (makeHeldGroup address pages check) := by
  intro attached made group resources sound grouped discarded
  obtain ⟨_, held, runs, groups, retained⟩ := makeHeldGroup_eq_done sound grouped
  obtain ⟨contents, cache, dropped⟩ := groups.of_discard_held held rfl discarded
  exact ⟨groups.space_eq, contents,
    FramePool.releaseAll_of_retainAll sound.frames retained dropped, cache.trans groups.cache_eq⟩

/-- A group stands between its making and its discarding: what is refused in between has changed
nothing of its own. -/
theorem transactional_withGroup {action : PageGroup → SpaceAction α}
    (first : ∀ group, RefusesFirst (action group))
    (keeps : ∀ group, Keeps Sound (action group)) :
    Transactional (do
      let group ← makeGroup address pages
      .ensuring (discard group) (action group)) := by
  refine transactional_makeGroup.ensuring ?_ ?_ first keeps
  · intro attached made group after sound grouped discarded
    obtain ⟨resources, given, rfl⟩ := discard_eq_ok discarded
    exact discardable_makeGroup _ _ _ _ sound grouped given
  · intro group attached after sound discarded
    obtain ⟨resources, given, rfl⟩ := discard_eq_ok discarded
    exact PageGroup.sound_of_discard sound given

theorem transactional_allocate : Transactional (onFrames (FramePool.allocate pages)) := by
  constructor
  · intro attached cause after sound refused
    obtain ⟨part, inside, rfl⟩ := focus_eq_refused.mp refused
    obtain rfl := FramePool.allocate_eq_refused inside
    exact AttachedSpace.Restored.refl _
  · refine Keeps.focus (fun frames after positive ended => ?_) (fun _ sound => sound.frames)
      fun _ _ sound kept => ⟨sound.descriptors, kept⟩
    rcases Outcome.state?_eq_some.mp ended with ⟨physical, done⟩ | ⟨cause, refused⟩
    · exact FramePool.Positive.allocate positive done
    · rwa [FramePool.allocate_eq_refused refused]

theorem transactional_mapPages {permission : UserPermission} :
    Transactional (mapPages address pages state permission) := by
  by_cases mapped : state.has .mapped = true
  · rw [mapPages_of_mapped mapped]
    refine .after_steady steady_rangeSize fun _ => .after_steady steady_requirePlace fun _ =>
      .after_steady steady_checkRange fun _ => transactional_allocate.then_accepts
        (fun _ => (Accepts.update _).bind fun _ => (Accepts.update _).bind fun _ => accepts_commit)
        fun _ => ?_
    exact keeps_changeDirectory.bind fun _ => keeps_changeBlocks.bind fun _ => steady_commit.keeps
  · rw [mapPages, if_pos (by simpa using mapped)]
    refine ⟨fun _ _ _ _ refused => ?_, fun _ _ _ ended => ?_⟩
    · cases refused
    · cases ended

theorem transactional_unmapPages : Transactional (unmapPages address pages state) := by
  refine .after_steady steady_rangeSize fun _ => .after_steady steady_requireInside fun _ =>
    .after_steady steady_checkRange fun _ => .of_accepts ?_ ?_
  · exact accepts_unmapRange.bind fun _ => accepts_commit
  · exact keeps_unmapRange.bind fun _ => steady_commit.keeps

theorem transactional_setPermission {permission : UserPermission} :
    Transactional (setPermission address pages permission) := by
  refine .after_steady steady_rangeSize fun _ => .after_steady steady_requireInside fun _ =>
    .after_steady steady_checkRange fun _ => .of_accepts ?_ ?_
  · exact (Accepts.update _).bind fun _ => (Accepts.update _).bind fun _ =>
      ((Accepts.update _).bind fun _ => accepts_commit).ite accepts_commit
  · exact keeps_changeBlocks.bind fun _ => keeps_changeDirectory.bind fun _ =>
      (keeps_invalidate.bind fun _ => steady_commit.keeps).ite steady_commit.keeps

theorem refusesFirst_mapGroup : RefusesFirst (mapGroup address group state permission) :=
  .after_steady (Steady.inspect _) (fun _ => rfl) fun _ =>
    .after_steady steady_rangeSize (fun _ => rfl) fun _ =>
      .after_steady steady_requirePlace (fun _ => rfl) fun _ =>
        .after_steady steady_checkRange (fun _ => rfl) fun _ =>
          Accepts.restores (accepts_placeGroup.bind fun _ => accepts_commit)

theorem transactional_mapGroup : Transactional (mapGroup address group state permission) :=
  .after_steady (Steady.inspect _) fun _ => .after_steady steady_rangeSize fun _ =>
    .after_steady steady_requirePlace fun _ => .after_steady steady_checkRange fun _ =>
      .of_accepts (accepts_placeGroup.bind fun _ => accepts_commit)
        (keeps_placeGroup.bind fun _ => steady_commit.keeps)

theorem transactional_mapCode : Transactional (mapCode destination source size) := by
  refine .after_steady steady_requireAliasRanges fun _ => .after_steady steady_checkRange fun _ =>
    .after_steady steady_checkRange fun _ =>
      transactional_withGroup (fun group => ?_) fun group => ?_
  · exact ((Accepts.update _).bind fun _ => (Accepts.update _).bind fun _ =>
      accepts_placeGroup.bind fun _ => accepts_commit).restores
  · exact keeps_changeBlocks.bind fun _ => keeps_changeDirectory.bind fun _ =>
      keeps_placeGroup.bind fun _ => steady_commit.keeps

theorem transactional_unmapCode {strategy : InvalidationStrategy} :
    Transactional (unmapCode destination source size strategy) := by
  refine .after_steady steady_requireAliasRanges fun _ => .after_steady steady_checkRange fun _ =>
    .after_steady steady_checkRange fun _ =>
      transactional_withGroup (fun group => ?_) fun group => ?_
  · refine .after_steady steady_isBackedBy (fun _ => rfl) fun _ =>
      .after_steady (Steady.require _ _) (fun _ => rfl) fun _ =>
        .after_steady (Steady.inspect _) (fun _ => rfl) fun _ => Accepts.restores ?_
    exact accepts_unmapRange.bind fun _ => (Accepts.update _).bind fun _ =>
      (Accepts.update _).bind fun _ =>
        ((Accepts.update _).bind fun _ => accepts_commit).ite accepts_commit
  · exact steady_isBackedBy.keeps.bind fun _ => (Steady.require _ _).keeps.bind fun _ =>
      (Steady.inspect _).keeps.bind fun _ => keeps_unmapRange.bind fun _ =>
        keeps_changeBlocks.bind fun _ => keeps_changeDirectory.bind fun _ =>
          (keeps_invalidate.bind fun _ => steady_commit.keeps).ite steady_commit.keeps

end AddressSpace

end GuestMemory
