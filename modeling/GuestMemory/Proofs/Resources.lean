import GuestMemory.Proofs.PageGroup

/-!
What all address spaces share: a group takes references and descriptors, and gives both up again
when it is discarded.
-/

namespace GuestMemory

variable {before resources after : Resources} {group held : PageGroup} {runs : List Run}

namespace Resources

/-- A descriptor is in use or free, and a frame without references is free. -/
structure Sound (resources : Resources) : Prop where
  descriptors : resources.descriptors.Sound
  frames : resources.frames.Positive

/-- All is as it was, but for the order in which free descriptors are handed out. -/
structure Restored (before after : Resources) : Prop where
  contents_eq : after.descriptors.contents = before.descriptors.contents
  frames_eq : after.frames = before.frames
  cache_eq : after.cache = before.cache

theorem Restored.refl (resources : Resources) : resources.Restored resources :=
  ⟨rfl, rfl, rfl⟩

end Resources

namespace PageGroup

theorem retain_eq_ok (retained : group.retain resources = .ok (held, after)) :
    ∃ runs frames, group.runs resources.descriptors = .ok runs ∧
      resources.frames.retainAll runs = .ok frames ∧
      held = { group with holds := group.holds + 1 } ∧ after = { resources with frames } := by
  simp only [retain, Checked.bind_eq_ok, Checked.pure_eq_ok] at retained
  obtain ⟨runs, listed, frames, counted, holds, fits, built⟩ := retained
  obtain ⟨_, rfl⟩ := below_eq_ok_iff.mp fits
  cases built
  exact ⟨runs, frames, listed, counted, rfl, rfl⟩

theorem discard_eq_ok (discarded : group.discard resources = .ok after) :
    ∃ runs frames descriptors, group.runs resources.descriptors = .ok runs ∧
      releaseHolds runs group.holds resources.frames = .ok frames ∧
      group.releaseDescriptors resources.descriptors = .ok descriptors ∧
      after = { resources with frames, descriptors } := by
  simp only [discard, Checked.bind_eq_ok, Checked.pure_eq_ok] at discarded
  obtain ⟨runs, listed, frames, dropped, descriptors, freed, rfl⟩ := discarded
  exact ⟨runs, frames, descriptors, listed, dropped, freed, rfl⟩

theorem sound_of_retain (sound : resources.Sound)
    (retained : group.retain resources = .ok (held, after)) : after.Sound := by
  obtain ⟨runs, frames, _, counted, _, rfl⟩ := retain_eq_ok retained
  exact ⟨sound.descriptors, sound.frames.retainAll counted⟩

theorem positive_of_releaseHolds {holds : Nat} {frames dropped : FramePool}
    (positive : frames.Positive) (released : releaseHolds runs holds frames = .ok dropped) :
    dropped.Positive := by
  induction holds generalizing frames with
  | zero =>
      cases released
      exact positive
  | succ holds ih =>
      rw [releaseHolds, Checked.bind_eq_ok] at released
      obtain ⟨middle, once, remaining⟩ := released
      exact ih (positive.releaseAll once) remaining

theorem sound_of_discard (sound : resources.Sound)
    (discarded : group.discard resources = .ok after) : after.Sound := by
  obtain ⟨runs, frames, descriptors, _, dropped, freed, rfl⟩ := discard_eq_ok discarded
  exact ⟨sound_of_releaseDescriptors sound.descriptors freed,
    positive_of_releaseHolds sound.frames dropped⟩

/-- Discarding a group restores the descriptors and drops the references that the group holds. -/
theorem Occupies.of_discard {pool : DescriptorPool}
    (occupies : Occupies pool group runs resources.descriptors)
    (discarded : group.discard resources = .ok after) :
    after.descriptors.contents = pool.contents ∧ after.cache = resources.cache ∧
      releaseHolds runs group.holds resources.frames = .ok after.frames := by
  obtain ⟨listed, frames, descriptors, found, dropped, freed, rfl⟩ := discard_eq_ok discarded
  obtain rfl := Except.ok.inj (found.symm.trans occupies.held)
  exact ⟨occupies.contents_restored freed, rfl, dropped⟩

theorem Occupies.retain {pool : DescriptorPool}
    (occupies : Occupies pool group runs resources.descriptors)
    (retained : group.retain resources = .ok (held, after)) :
    Occupies pool held runs after.descriptors ∧ held.holds = group.holds + 1 ∧
      resources.frames.retainAll runs = .ok after.frames ∧ after.cache = resources.cache := by
  obtain ⟨listed, frames, found, counted, rfl, rfl⟩ := retain_eq_ok retained
  obtain rfl := Except.ok.inj (found.symm.trans occupies.held)
  exact ⟨⟨occupies.distinct, occupies.fresh, occupies.held, occupies.others,
    occupies.capacity_eq, occupies.free_perm⟩, rfl, counted, rfl⟩

theorem releaseHolds_one {frames : FramePool} :
    releaseHolds runs 1 frames = frames.releaseAll runs := by
  rw [releaseHolds]
  cases frames.releaseAll runs <;> rfl

end PageGroup

end GuestMemory
