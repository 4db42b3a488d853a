import GuestMemory.Proofs.Kernel.Accounting

/-!
Reference counts of frames, counted page by page over all processes.
-/

namespace GuestMemory

variable {index page frame first : Nat}

/-- In a coherent address space a page is translated to the address of the frame behind it. -/
theorem AddressSpace.Coherent.translate_eq_some_iff {space : AddressSpace}
    (coherent : space.Coherent) :
    space.translate (page * pageSize) = some (frame * pageSize) ↔
      space.directory.frameAt? page = some frame := by
  simp only [AddressSpace.translate, Directory.translate, pageOf_mul_pageSize, Nat.mul_mod_left,
    Nat.add_zero, Directory.frameAt?, Option.map_eq_some_iff]
  refine exists_congr fun translation => and_congr_right fun found => ?_
  have aligned := coherent.aligned page translation found
  simp only [pageOf, pageSize_eq] at *
  omega

theorem FramePool.mem_free_iff {runs : List Run} (aligned : FramePool.Aligned runs) :
    frame ∈ Run.framesOf runs ↔
      ∃ run ∈ runs, run.address ≤ frame * pageSize ∧ frame * pageSize < run.stop := by
  rw [Run.framesOf, List.mem_flatMap]
  refine exists_congr fun run => and_congr_right fun member => ?_
  have start := aligned run member
  simp only [Run.mem_frames, Run.stop, Run.size, pageOf, pageSize_eq] at *
  omega

namespace Kernel

/-- The pages behind which a frame stands, beside the positions of their processes, which are
counted from `first`. -/
def pagesShowing (frame : Nat) : Nat → List Process → Finset (Nat × Nat)
  | _, [] => ∅
  | first, process :: rest =>
    (process.space.directory.pagesOn frame).image (Prod.mk first) ∪
      pagesShowing frame (first + 1) rest

theorem mem_pagesShowing {processes : List Process} :
    (index, page) ∈ pagesShowing frame first processes ↔
      first ≤ index ∧ ∃ process, processes[index - first]? = some process ∧
        process.space.directory.frameAt? page = some frame := by
  induction processes generalizing first with
  | nil => simp [pagesShowing]
  | cons process rest ih =>
      rw [pagesShowing, Finset.mem_union, Finset.mem_image, ih]
      constructor
      · rintro (⟨here, member, same⟩ | ⟨later, other, listed, backed⟩)
        · obtain ⟨rfl, rfl⟩ := Prod.mk.inj same
          refine ⟨Nat.le_refl _, process, ?_, Directory.mem_pagesOn.mp member⟩
          rw [Nat.sub_self, List.getElem?_cons_zero]
        · refine ⟨by omega, other, ?_, backed⟩
          rw [show index - first = index - (first + 1) + 1 by omega, List.getElem?_cons_succ]
          exact listed
      · rintro ⟨from_first, other, listed, backed⟩
        rcases Nat.eq_or_lt_of_le from_first with rfl | later
        · rw [Nat.sub_self, List.getElem?_cons_zero, Option.some.injEq] at listed
          subst other
          exact .inl ⟨page, Directory.mem_pagesOn.mpr backed, rfl⟩
        · rw [show index - first = index - (first + 1) + 1 by omega,
            List.getElem?_cons_succ] at listed
          exact .inr ⟨later, other, listed, backed⟩

theorem card_pagesShowing {processes : List Process} :
    (pagesShowing frame first processes).card =
      (processes.map fun process => (process.space.directory.pagesOn frame).card).sum := by
  induction processes generalizing first with
  | nil => rfl
  | cons process rest ih =>
      have apart : Disjoint ((process.space.directory.pagesOn frame).image (Prod.mk first))
          (pagesShowing frame (first + 1) rest) := by
        refine Finset.disjoint_left.mpr fun pair here there => ?_
        obtain ⟨page, _, rfl⟩ := Finset.mem_image.mp here
        exact absurd (mem_pagesShowing.mp there).1 (Nat.not_succ_le_self first)
      rw [pagesShowing, Finset.card_union_of_disjoint apart, ih, List.map_cons, List.sum_cons,
        Finset.card_image_of_injective _ (Prod.mk_right_injective first)]

variable {config : Config} {cache : InstructionCache} {initial reached : Kernel} {steps : List Step}

/-- In every state that a kernel can reach each frame has as many references as there are pages, in
all processes, that are translated to it, and a frame of the pool lies in a free run exactly when
there is none. The descriptors are those of a new pool, so that none is in use where all of them can
be numbered, and a call, however it ends, allocates no frame and frees none. -/
theorem references_are_translations (created : create config cache = .ok initial)
    (ordinary : ∀ step ∈ steps, step.Ordinary) (ran : initial.run? steps = some reached) :
    (∀ frame, ∃ pairs : Finset (Nat × Nat),
      (∀ index page, (index, page) ∈ pairs ↔ ∃ process, reached.processes[index]? = some process ∧
        process.space.translate (page * pageSize) = some (frame * pageSize)) ∧
      reached.resources.frames.referenceCount (frame * pageSize) = pairs.card ∧
      ((∃ run ∈ reached.resources.frames.free,
          run.address ≤ frame * pageSize ∧ frame * pageSize < run.stop) ↔
        (config.frameBase ≤ frame * pageSize ∧
          frame * pageSize < config.frameBase + config.framePages * pageSize) ∧
        pairs.card = 0)) ∧
    reached.resources.descriptors.contents =
      (DescriptorPool.ofCapacity config.descriptorCapacity).contents ∧
    (config.descriptorCapacity < DescriptorPool.idLimit →
      reached.resources.descriptors.inUse = 0) ∧
    ∀ current request after, ((Step.call current request).perform reached).state? = some after →
      ∀ frame, after.resources.frames.referenceCount (frame * pageSize) = 0 ↔
        reached.resources.frames.referenceCount (frame * pageSize) = 0 := by
  have accounted := resourcesAccounted_run created ordinary ran
  have count (pool : FramePool) (frame : Nat) :
      pool.referenceCount (frame * pageSize) = pool.held frame := by
    rw [FramePool.referenceCount, pageOf_mul_pageSize, FramePool.held]
  have pool := accounted.accounts.frames
  have held (frame : Nat) : reached.resources.frames.held frame =
      (pagesShowing frame 0 reached.processes).card := by
    rw [accounted.accounts.held_eq, card_pagesShowing]
    rfl
  refine ⟨fun frame => ⟨pagesShowing frame 0 reached.processes, fun index page => ?_, ?_, ?_⟩,
    accounted.contents_eq, fun few => ?_, fun current request after ended frame => ?_⟩
  · rw [mem_pagesShowing, Nat.sub_zero, and_iff_right (Nat.zero_le index)]
    refine exists_congr fun process => and_congr_right fun listed => ?_
    have coherent := accounted.coherent process (List.mem_of_getElem? listed)
    exact coherent.translate_eq_some_iff.symm
  · rw [count, held]
  · have base := pool.aligned
    rw [← FramePool.mem_free_iff pool.runs_aligned, pool.free_iff_held, ← held]
    refine and_congr_left fun _ => ?_
    rw [Run.mem_frames]
    simp only [extent, accounted.config_eq, pageOf, pageSize_eq] at *
    omega
  · rw [DescriptorPool.inUse_of_contents accounted.contents_eq,
      DescriptorPool.inUse_ofCapacity few]
  · rw [count, count]
    exact accounted.allocation_of_call ended frame

/-- A frame that two processes show has two references. -/
theorem references_are_translations_of_lent_code :
    ∃ reached, ∃ pairs : Finset (Nat × Nat), small.run? smallRun = some reached ∧
      (∀ index page, (index, page) ∈ pairs ↔ ∃ process, reached.processes[index]? = some process ∧
        process.space.translate (page * pageSize) = some (0x80001 * pageSize)) ∧
      pairs.card = 2 ∧ reached.resources.descriptors.inUse = 0 := by
  have counted : (small.run? smallRun).map (fun reached =>
      reached.resources.frames.referenceCount (0x80001 * pageSize)) = some 2 := by
    decide +kernel
  obtain ⟨reached, ran, two⟩ := Option.map_eq_some_iff.mp counted
  obtain ⟨frames, _, unused, _⟩ := references_are_translations create_small
    (show ∀ step ∈ smallRun, step.Ordinary by decide +kernel) ran
  obtain ⟨pairs, members, references, _⟩ := frames 0x80001
  exact ⟨reached, pairs, ran, members, references.symm.trans two, unused (by decide)⟩

end Kernel

end GuestMemory
