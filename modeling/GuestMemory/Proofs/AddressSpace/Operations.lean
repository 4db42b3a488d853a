import GuestMemory.Proofs.AddressSpace.Changes

/-!
Answered operations on an address space: the checks that they have passed and the changes that they
have made.
-/

namespace GuestMemory.AddressSpace

open GuestMemory.Action

variable {attached after : AttachedSpace} {address pages destination source size : Nat}
variable {state : MemoryState} {group : PageGroup} {result : Commit}

theorem mapPages_eq_done {permission : UserPermission}
    (mapped : mapPages address pages state permission attached = .done result after) :
    state.has .mapped = true ∧
      checkRange address (pages * pageSize) (.exactly .free) attached = .done () attached ∧
      ∃ physical blocks directory frames,
        FramePool.allocate pages attached.resources.frames = .done physical frames ∧
        attached.space.directory.map address ⟨physical, pages⟩ permission.toKernel =
          .ok directory ∧
        attached.space.blocks.assign address pages state permission.toKernel .empty = .ok blocks ∧
        after = changed attached blocks directory frames := by
  by_cases usable : state.has .mapped = true
  · simp only [mapPages_of_mapped usable, bind_eq_done, onFrames_eq_done, changeBlocks_eq_done,
      changeDirectory_eq_done] at mapped
    obtain ⟨_, _, sized, _, _, placed, _, _, checked, physical, _, ⟨frames, allocated, rfl⟩, _, _,
      ⟨directory, translated, rfl⟩, _, _, ⟨blocks, assigned, rfl⟩, committed⟩ := mapped
    obtain ⟨_, rfl, rfl⟩ := rangeSize_eq_done sized
    obtain rfl := steady_requirePlace.of_done placed
    obtain rfl := steady_checkRange.of_done checked
    obtain rfl := steady_commit.of_done committed
    exact ⟨usable, checked, physical, blocks, directory, frames, allocated, translated, assigned,
      rfl⟩
  · rw [mapPages, if_pos (by simpa using usable)] at mapped
    cases mapped

/-- Mapping pages is answered only where the layout lets them be. -/
theorem canContain_of_mapPages {permission : UserPermission}
    (mapped : mapPages address pages state permission attached = .done result after) :
    attached.space.layout.canContain address (pages * pageSize) state = .ok true := by
  rw [mapPages_of_mapped (mapPages_eq_done mapped).1] at mapped
  simp only [bind_eq_done] at mapped
  obtain ⟨_, _, sized, _, _, placed, _⟩ := mapped
  obtain ⟨_, rfl, rfl⟩ := rangeSize_eq_done sized
  exact requirePlace_eq_done placed

theorem unmapPages_eq_done
    (unmapped : unmapPages address pages state attached = .done result after) :
    checkRange address (pages * pageSize) (.exactly state) attached = .done () attached ∧
      unmapRange address pages attached = .done () after := by
  simp only [unmapPages, bind_eq_done] at unmapped
  obtain ⟨_, _, sized, _, _, inside, _, _, checked, _, _, removed, committed⟩ := unmapped
  obtain ⟨_, rfl, rfl⟩ := rangeSize_eq_done sized
  obtain rfl := steady_requireInside.of_done inside
  obtain rfl := steady_checkRange.of_done checked
  obtain rfl := steady_commit.of_done committed
  exact ⟨checked, removed⟩

/-- Telling the instruction cache something changes nothing else. -/
theorem commit_after_invalidate {condition : Prop} [Decidable condition]
    {invalidation : Invalidation} {operation : Operation}
    (ended : (if condition then do
        invalidate invalidation
        commit operation address pages
      else commit operation address pages) attached = .done result after) :
    after.space = attached.space ∧ after.resources.frames = attached.resources.frames ∧
      after.resources.descriptors = attached.resources.descriptors ∧
      after.resources.cache = if condition then attached.resources.cache.request invalidation
        else attached.resources.cache := by
  split at ended
  · simp only [bind_eq_done, invalidate, update_eq_done, Except.ok.injEq] at ended
    obtain ⟨_, _, rfl, committed⟩ := ended
    obtain rfl := steady_commit.of_done committed
    exact ⟨rfl, rfl, rfl, (if_pos ‹_›).symm⟩
  · obtain rfl := steady_commit.of_done ended
    exact ⟨rfl, rfl, rfl, (if_neg ‹_›).symm⟩

theorem setPermission_eq_done {permission : UserPermission}
    (done : setPermission address pages permission attached = .done result after) :
    ∃ blocks directory,
      checkRange address (pages * pageSize) (.ofState .reprotectable) attached =
        .done () attached ∧
      attached.space.blocks.reprotect address pages permission.toKernel = .ok blocks ∧
      attached.space.directory.protect address pages permission.toKernel = .ok directory ∧
      after.space = { attached.space with blocks, directory } ∧
      after.resources.frames = attached.resources.frames ∧
      after.resources.descriptors = attached.resources.descriptors ∧
      after.resources.cache = if permission.toKernel.isUserExecutable then
          attached.resources.cache.request (.range address (pages * pageSize))
        else attached.resources.cache := by
  simp only [setPermission, bind_eq_done, changeBlocks_eq_done, changeDirectory_eq_done] at done
  obtain ⟨_, _, sized, _, _, inside, _, _, checked, _, _, ⟨blocks, changedBlocks, rfl⟩, _, _,
    ⟨directory, changedDirectory, rfl⟩, ended⟩ := done
  obtain ⟨_, rfl, rfl⟩ := rangeSize_eq_done sized
  obtain rfl := steady_requireInside.of_done inside
  obtain rfl := steady_checkRange.of_done checked
  obtain ⟨space, frames, descriptors, told⟩ := commit_after_invalidate ended
  exact ⟨blocks, directory, checked, changedBlocks, changedDirectory, space, frames, descriptors,
    told⟩

theorem mapGroup_eq_done {permission : KernelPermission}
    (mapped : mapGroup address group state permission attached = .done result after) :
    ∃ pages, group.pages attached.resources.descriptors = .ok pages ∧
      checkRange address (pages * pageSize) (.exactly .free) attached = .done () attached ∧
      placeGroup address group state permission attached = .done () after := by
  simp only [mapGroup, bind_eq_done, inspect_eq_done] at mapped
  obtain ⟨pages, _, ⟨counted, rfl⟩, _, _, sized, _, _, fits, _, _, checked, _, _, placed,
    committed⟩ := mapped
  obtain ⟨_, rfl, rfl⟩ := rangeSize_eq_done sized
  obtain rfl := steady_requirePlace.of_done fits
  obtain rfl := steady_checkRange.of_done checked
  obtain rfl := steady_commit.of_done committed
  exact ⟨pages, counted, checked, placed⟩

/-- Mapping a group is answered only where the layout lets its pages be. -/
theorem canContain_of_mapGroup {permission : KernelPermission}
    (mapped : mapGroup address group state permission attached = .done result after) :
    ∃ pages, group.pages attached.resources.descriptors = .ok pages ∧
      attached.space.layout.canContain address (pages * pageSize) state = .ok true := by
  simp only [mapGroup, bind_eq_done, inspect_eq_done] at mapped
  obtain ⟨pages, _, ⟨counted, rfl⟩, _, _, sized, _, _, placed, _⟩ := mapped
  obtain ⟨_, rfl, rfl⟩ := rangeSize_eq_done sized
  exact ⟨pages, counted, requirePlace_eq_done placed⟩

theorem mapCode_eq_done (mapped : mapCode destination source size attached = .done result after) :
    ∃ group made blocks directory placed,
      requireAliasRanges destination source size attached = .done () attached ∧
      checkRange source size ((Check.exactly .normal).withPermission .all .userReadWrite) attached =
        .done () attached ∧
      checkRange destination size (.exactly .free) attached = .done () attached ∧
      makeGroup source (size / pageSize) attached = .done group made ∧
      made.space.blocks.lock source (size / pageSize) .hidden = .ok blocks ∧
      made.space.directory.protect source (size / pageSize) .hidden = .ok directory ∧
      placeGroup destination group .aliasCode .hidden
        (changed made blocks directory made.resources.frames) = .done () placed ∧
      discard group placed = .ok after := by
  simp only [mapCode, bind_eq_done, ensuring_eq_done, changeBlocks_eq_done,
    changeDirectory_eq_done] at mapped
  obtain ⟨_, _, aliased, _, _, checked, _, _, free, group, made, grouped, _,
    ⟨_, _, ⟨blocks, locked, rfl⟩, _, _, ⟨directory, hidden, rfl⟩, _, _, placed, committed⟩,
    discarded⟩ := mapped
  obtain rfl := steady_requireAliasRanges.of_done aliased
  obtain rfl := steady_checkRange.of_done checked
  obtain rfl := steady_checkRange.of_done free
  obtain rfl := steady_commit.of_done committed
  exact ⟨group, made, blocks, directory, _, aliased, checked, free, grouped, locked, hidden, placed,
    discarded⟩

theorem unmapCode_eq_done {strategy : InvalidationStrategy}
    (unmapped : unmapCode destination source size strategy attached = .done result after) :
    ∃ group made met removed blocks directory last,
      checkRange source size ((Check.exactly .normal).withAttributes .all .locked) attached =
        .done () attached ∧
      checkRange destination size (.hasFlags .canCodeAlias) attached = .done () attached ∧
      makeGroup source (size / pageSize) attached = .done group made ∧
      isBackedBy group destination (size / pageSize) made = .done true made ∧
      made.space.blocks.overlapping destination size = .ok met ∧
      unmapRange destination (size / pageSize) made = .done () removed ∧
      removed.space.blocks.unlock source (size / pageSize) .userReadWrite = .ok blocks ∧
      removed.space.directory.protect source (size / pageSize) .userReadWrite = .ok directory ∧
      last.space = { removed.space with blocks, directory } ∧
      last.resources.frames = removed.resources.frames ∧
      last.resources.descriptors = removed.resources.descriptors ∧
      (last.resources.cache = if met.any (·.state.has .code) then
          removed.resources.cache.request (strategy.request destination size)
        else removed.resources.cache) ∧
      discard group last = .ok after := by
  simp only [unmapCode, bind_eq_done, ensuring_eq_done, require_eq_done, inspect_eq_done,
    changeBlocks_eq_done, changeDirectory_eq_done] at unmapped
  obtain ⟨_, _, aliased, _, _, checked, _, _, lent, group, made, grouped, last,
    ⟨_, _, compared, _, _, ⟨rfl, rfl⟩, met, _, ⟨overlapping, rfl⟩, _, removed, erased, _, _,
      ⟨blocks, unlocked, rfl⟩, _, _, ⟨directory, shown, rfl⟩, ended⟩, discarded⟩ := unmapped
  obtain rfl := steady_requireAliasRanges.of_done aliased
  obtain rfl := steady_checkRange.of_done checked
  obtain rfl := steady_checkRange.of_done lent
  obtain rfl := steady_isBackedBy.of_done compared
  obtain ⟨space, frames, descriptors, told⟩ := commit_after_invalidate ended
  exact ⟨group, _, met, removed, blocks, directory, last, checked, lent, grouped, compared,
    overlapping, erased, unlocked, shown, space, frames, descriptors, told, discarded⟩

end GuestMemory.AddressSpace
