import GuestMemory.Proofs.AddressSpace.Pairing
import GuestMemory.Proofs.AddressSpace.Reclaiming
import GuestMemory.Proofs.Kernel.Ownership
import GuestMemory.Proofs.Kernel.Safety
import Mathlib.Data.Set.Function

/-!
Code aliases and the memory that is lent out for them: each alias has one lent page of its process
with the same frame, each lent page one alias, and the process can take back what it has lent.
-/

namespace GuestMemory

open GuestMemory.Action MemoryState

namespace AddressSpace

variable {space moved : AddressSpace} {attached : AttachedSpace} {direct : MemoryState → Prop}
variable {number : Nat}

/-- A page is lent out only by a move that lends, which needs a descriptor. -/
theorem Move.described_of_lent (move : Move direct attached moved)
    (lent : (moved.page number).properties = .lent) :
    (attached.space.page number).properties = .lent ∨
      attached.resources.descriptors.free ≠ [] := by
  have outside (same : moved.page number = attached.space.page number) :
      (attached.space.page number).properties = .lent ∨
        attached.resources.descriptors.free ≠ [] := .inl (same ▸ lent)
  cases move with
  | @mapped first frames state permission used _ own vacant shown same =>
      by_cases inside : Within first frames.length number
      · exact absurd ((shown.kind_of_within inside).symm.trans lent) Properties.plain_ne_lent
      · exact outside (same number inside)
  | @unmapped first count plain vacant same =>
      by_cases inside : Within first count number
      · rw [vacant number inside] at lent
        cases lent
      · exact outside (same number inside)
  | @reprotected first count permission _ changed same =>
      by_cases inside : Within first count number
      · obtain ⟨state, old, _, _, page⟩ := changed number inside
        rw [page] at lent
        exact absurd lent Properties.plain_ne_lent
      · exact outside (same number inside)
  | lent described placed aliased _ => exact .inr described
  | returned aliased _ =>
      rcases aliased.cases number with ⟨_, _, listed, rfl⟩ | ⟨_, _, listed, rfl⟩ | same
      · exact absurd lent (aliased.source_at listed).2.1
      · rw [(aliased.destination_at listed).1] at lent
        cases lent
      · exact outside same.symm

/-- The pages that lie in a block whose properties are of the given kind. -/
def pagesWith (space : AddressSpace) (kind : Properties → Prop) : Set Nat :=
  { number | ∃ block, space.blocks.find (number * pageSize) = .ok (some block) ∧
    kind block.properties }

instance (kind : Properties → Prop) [DecidablePred kind] :
    Decidable (number ∈ space.pagesWith kind) :=
  match found : space.blocks.find (number * pageSize) with
  | .ok (some block) =>
    decidable_of_iff (kind block.properties)
      ⟨fun holds => ⟨block, found, holds⟩, fun ⟨_, again, holds⟩ => by
        cases found.symm.trans again
        exact holds⟩
  | .ok none => isFalse fun ⟨_, again, _⟩ => nomatch found.symm.trans again
  | .error _ => isFalse fun ⟨_, again, _⟩ => nomatch found.symm.trans again

def aliases (space : AddressSpace) : Set Nat :=
  space.pagesWith (·.state.IsAlias)

instance : Decidable (number ∈ space.aliases) :=
  inferInstanceAs (Decidable (number ∈ space.pagesWith (·.state.IsAlias)))

/-- The pages that are marked as lent out. -/
def lentPages (space : AddressSpace) : Set Nat :=
  space.pagesWith (·.attributes = .locked)

namespace Coherent

variable (coherent : space.Coherent)

include coherent

theorem mem_pagesWith_iff {kind : Properties → Prop} (used : ¬ kind .free) :
    number ∈ space.pagesWith kind ↔ kind (space.page number).properties := by
  have wellFormed := coherent.wellFormed
  rw [page, Partition.propertiesOf]
  constructor
  · rintro ⟨block, found, holds⟩
    rwa [wellFormed.at?_of_find found]
  · intro holds
    cases here : space.blocks.at? number with
    | none =>
        rw [here] at holds
        exact absurd holds used
    | some properties =>
        rw [here] at holds
        obtain ⟨block, found, rfl⟩ := wellFormed.find_of_at? here
        exact ⟨block, found, holds⟩

theorem mem_aliases_iff :
    number ∈ space.aliases ↔ ∃ frame, (space.page number).Plays IsAlias frame := by
  rw [aliases, coherent.mem_pagesWith_iff (show ¬ IsAlias .free by decide)]
  refine ⟨fun aliased => ?_, fun ⟨_, plays⟩ => plays.2⟩
  have mapped : (space.page number).properties.state.has .mapped = true :=
    (has_mapped_iff _).mpr fun unused => absurd (unused ▸ aliased) (by decide)
  obtain ⟨frame, shown⟩ := Option.ne_none_iff_exists'.mp fun none =>
    coherent.frame_eq_none_iff.mp none mapped
  exact ⟨frame, shown, aliased⟩

theorem mem_lentPages_iff (orderly : space.Orderly) :
    number ∈ space.lentPages ↔ ∃ frame, space.page number = .lent frame := by
  rw [lentPages, coherent.mem_pagesWith_iff (show Attributes.empty ≠ .locked by decide)]
  constructor
  · intro marked
    have lent := (orderly number).eq_lent (by rw [marked]; decide)
    obtain ⟨frame, shown⟩ := Option.ne_none_iff_exists'.mp fun none =>
      coherent.frame_eq_none_iff.mp none (by rw [lent]; decide)
    exact ⟨frame, congrArg₂ Page.mk lent shown⟩
  · rintro ⟨frame, lent⟩
    rw [lent]
    rfl

/-- A lent page is ordinary memory, and hidden in its block and its translation alike. -/
theorem hidden_of_lent (lent : space.page number = .lent frame) :
    ∃ block translation, space.blocks.find (number * pageSize) = .ok (some block) ∧
      block.state = .normal ∧ block.permission = .kernelRead ||| .notMapped ∧
      space.directory.translate (number * pageSize) = some translation ∧
      translation.permission = .kernelRead ||| .notMapped := by
  have here : number ∈ space.pagesWith (· = .lent) :=
    (coherent.mem_pagesWith_iff (by decide)).mpr (congrArg Page.properties lent)
  obtain ⟨block, found, same⟩ := here
  obtain ⟨translation, shown, _⟩ := Option.map_eq_some_iff.mp (congrArg Page.frame lent)
  have agree := coherent.agree number
  rw [coherent.wellFormed.at?_of_find found, shown, same] at agree
  refine ⟨block, translation, found, by rw [Block.state, same]; rfl,
    by rw [Block.permission, same]; rfl, ?_, Option.some.inj agree⟩
  rw [Directory.translate, pageOf_mul_pageSize]
  exact shown

end Coherent

/-- Each code alias belongs to the lent page that has its frame. -/
theorem Paired.bijOn (paired : space.Paired) (exclusive : Exclusive space.page)
    (coherent : space.Coherent) (orderly : space.Orderly) :
    ∃ lenderOf : Nat → Nat, Set.BijOn lenderOf space.aliases space.lentPages ∧
      ∀ view ∈ space.aliases, ∃ frame, (space.page view).Plays IsAlias frame ∧
        space.page (lenderOf view) = .lent frame := by
  have lends (view : Nat) (member : view ∈ space.aliases) :
      ∃ lender frame, (space.page view).Plays IsAlias frame ∧ space.page lender = .lent frame := by
    obtain ⟨frame, plays⟩ := coherent.mem_aliases_iff.mp member
    obtain ⟨lender, lent⟩ := paired.lender plays
    exact ⟨lender, frame, plays, lent⟩
  choose! lenderOf frameOf plays lent using lends
  refine ⟨lenderOf, ⟨fun view member => ?_, fun view member other otherMember same => ?_,
    fun lender member => ?_⟩, fun view member => ⟨_, plays view member, lent view member⟩⟩
  · exact (coherent.mem_lentPages_iff orderly).mpr ⟨_, lent view member⟩
  · have shown := lent view member
    rw [same, lent other otherMember] at shown
    have frames : frameOf other = frameOf view := Option.some.inj (congrArg Page.frame shown)
    exact exclusive.aliased (plays view member) (frames ▸ plays other otherMember)
  · obtain ⟨frame, shown⟩ := (coherent.mem_lentPages_iff orderly).mp member
    obtain ⟨view, aliased⟩ := paired.aliased shown
    have viewed := coherent.mem_aliases_iff.mpr ⟨frame, aliased⟩
    obtain rfl := (plays view viewed).frame_eq aliased
    exact ⟨view, viewed, exclusive.owner (.of_eq_lent (lent view viewed)) (.of_eq_lent shown)⟩

end AddressSpace

namespace Kernel

variable {kernel before after initial reached : Kernel} {index lender view frame : Nat}
variable {direct : MemoryState → Prop} {config : Config} {cache : InstructionCache}
variable {steps : List Step} {process : Process} {space : AddressSpace}

/-- Frames have their roles once, aliases and lent pages belong together, and memory is lent out
only where there are descriptors. -/
structure Lends (config : Config) (kernel : Kernel) : Prop where
  exclusive : Exclusive kernel.page
  paired : ∀ space ∈ kernel.spaces, space.Paired
  described : ∀ space ∈ kernel.spaces, ∀ number, (space.page number).properties = .lent →
    0 < config.descriptorCapacity % DescriptorPool.idLimit

theorem exclusive_of_listed (exclusive : Exclusive kernel.page)
    (listed : kernel.spaces[index]? = some space) : Exclusive space.page := by
  have same (number : Nat) := (page_of_listed listed number).symm
  refine ⟨fun first second => ?_, fun first second => ?_, fun first second => ?_⟩ <;>
    rw [same] at first second
  · exact (Prod.mk.inj (exclusive.owner first second)).2
  · exact (Prod.mk.inj (exclusive.aliased first second)).2
  · rw [same]
    exact exclusive.lent first second

theorem OrdinaryInvariant.free_eq_nil_iff (inv : OrdinaryInvariant config kernel) :
    kernel.resources.descriptors.free = [] ↔
      config.descriptorCapacity % DescriptorPool.idLimit = 0 := by
  rw [← List.length_eq_zero_iff, inv.length_free]

theorem Lends.move (lends : Lends config before) (inv : OrdinaryInvariant config before)
    (apart : ∀ state, direct state → ¬ state.IsAlias) (moves : Moves direct before after) :
    Lends config after := by
  refine ⟨moves.exclusive inv lends.exclusive, ?_, ?_⟩
  · exact moves.all (fun _ _ paged => .of_create paged)
      (fun _ _ _ listed paired layout move =>
        paired.move (exclusive_of_listed lends.exclusive listed) apart layout move) lends.paired
  · refine moves.all (fun _ _ paged number lent => ?_)
      (fun _ _ _ _ described _ move number lent => ?_) lends.described
    · rw [AddressSpace.page_create paged] at lent
      cases lent
    · rcases move.described_of_lent lent with old | free
      · exact described number old
      · exact Nat.pos_of_ne_zero fun none => free (inv.free_eq_nil_iff.mpr none)

theorem lends_run (created : create config cache = .ok initial)
    (among : ∀ step ∈ steps, step.Ordinary ∧ step.Directs (¬ ·.IsAlias))
    (ran : initial.run? steps = some reached) : Lends config reached := by
  refine run?_keeps_moves created among ran ⟨Exclusive.of_create created, ?_, ?_⟩
    fun _ _ inv moves lends => lends.move inv (fun _ apart => apart) moves
  all_goals exact forall_spaces_iff.mpr (all_of_create created)

theorem rangeFits_of_contains {region : Region} {address size : Nat}
    (contained : region.contains address size = .ok true) : rangeFits address size = true := by
  obtain ⟨fits, _, _, upper⟩ := Region.contains_eq_true contained
  exact decide_eq_true (Nat.lt_of_le_of_lt upper fits)

/-- The arguments with which a process asks for a lent page back are in order. -/
theorem checkCodeArguments_of_contains (listed : kernel.processes[index]? = some process)
    (source : process.space.layout.contains (lender * pageSize) pageSize = .ok true)
    (placed : process.space.layout.canContain (view * pageSize) pageSize .aliasCode = .ok true) :
    checkCodeArguments .unmap index .currentProcess (view * pageSize) (lender * pageSize) pageSize
      kernel = .done index kernel := by
  have contained := Layout.canContain_eq_true placed
  have destination : process.space.layout.inAliasCode (view * pageSize) pageSize = .ok true :=
    contained
  have first : isPageAligned (view * pageSize) = true :=
    isPageAligned_iff.mpr (Nat.mul_mod_left _ _)
  have second : isPageAligned (lender * pageSize) = true :=
    isPageAligned_iff.mpr (Nat.mul_mod_left _ _)
  have whole : (isPageAligned pageSize && decide (pageSize ≠ 0)) = true := by decide
  have viewFits : rangeFits (view * pageSize) pageSize = true := rangeFits_of_contains contained
  have lenderFits : rangeFits (lender * pageSize) pageSize = true := rangeFits_of_contains source
  simp only [checkCodeArguments, requireBothAligned, requireAligned, resolve, Kernel.process,
    bind_apply, pure_apply, require_apply, inspect_apply, expect_some, check_ok, first, second,
    whole, viewFits, lenderFits, listed, source, destination, ↓reduceIte]

/-- A process can take back what it has lent. -/
theorem unmapCode_exists (inv : OrdinaryInvariant config kernel)
    (listed : kernel.processes[index]? = some process)
    (lent : process.space.page lender = .lent frame)
    (aliased : (process.space.page view).Plays IsAlias frame)
    (placed : process.space.layout.canContain (view * pageSize) pageSize .aliasCode = .ok true)
    (free : kernel.resources.descriptors.free ≠ []) :
    ∃ result after, unmapCode index .currentProcess (view * pageSize) (lender * pageSize) pageSize
      kernel = .done result after := by
  have whole : FaultGuarded (fun _ => True) config kernel := inv.guarded trivial trivial
  have guarded := whole.space listed
  have source := guarded.coherent.contains_of_frameAt? (congrArg Page.frame lent)
  have checked := checkCodeArguments_of_contains listed source placed
  obtain ⟨result, attached, reclaimed⟩ :=
    guarded.unmapCode_exists lent aliased placed free kernel.config.invalidation
  exact ⟨result, bind_exists checked (bind_exists (read_eq_done.mpr ⟨rfl, rfl⟩)
    ⟨_, onSpace_eq_done.mpr ⟨process, attached, listed, reclaimed, rfl⟩⟩)⟩

/-- In every state that a kernel can reach without code aliases being mapped or unmapped directly,
the aliases of a process and the pages that it has lent out correspond one to one, page to page of
the same frame. A lent page is ordinary memory, hidden from the process, and the process can have
every one back. -/
theorem aliases_are_paired (created : create config cache = .ok initial)
    (among : ∀ step ∈ steps, step.Ordinary ∧ step.Directs (¬ ·.IsAlias))
    (ran : initial.run? steps = some reached)
    (listed : reached.processes[index]? = some process) :
    ∃ lenderOf : Nat → Nat,
      Set.BijOn lenderOf process.space.aliases process.space.lentPages ∧
      (∀ view ∈ process.space.aliases,
        (∃ frame, process.space.translate (view * pageSize) = some (frame * pageSize) ∧
          process.space.translate (lenderOf view * pageSize) = some (frame * pageSize)) ∧
        ∃ result after, perform index (.unmapCode .currentProcess (.ofNat (view * pageSize))
          (.ofNat (lenderOf view * pageSize)) (.ofNat pageSize)) reached = .done result after) ∧
      ∀ lender ∈ process.space.lentPages, ∃ block translation,
        process.space.blocks.find (lender * pageSize) = .ok (some block) ∧
          block.state = .normal ∧ block.permission = .kernelRead ||| .notMapped ∧
          process.space.directory.translate (lender * pageSize) = some translation ∧
          translation.permission = .kernelRead ||| .notMapped := by
  have inv := ordinaryInvariant_run created (fun step member => (among step member).1) ran
  have lends := lends_run created among ran
  have spaceListed := spaces_listed listed
  have member := space_mem listed
  have coherent := inv.coherent process (List.mem_of_getElem? listed)
  have orderly := inv.orderly _ member
  have paired := lends.paired _ member
  obtain ⟨lenderOf, bijective, partners⟩ :=
    paired.bijOn (exclusive_of_listed lends.exclusive spaceListed) coherent orderly
  refine ⟨lenderOf, bijective, fun view viewed => ?_, fun lender marked => ?_⟩
  · obtain ⟨frame, plays, lent⟩ := partners view viewed
    have free : reached.resources.descriptors.free ≠ [] := fun none =>
      Nat.ne_of_gt (lends.described _ member _ (congrArg Page.properties lent))
        (inv.free_eq_nil_iff.mp none)
    refine ⟨⟨frame, coherent.translate_eq_some_iff.mpr plays.1,
      coherent.translate_eq_some_iff.mpr (congrArg Page.frame lent)⟩, ?_⟩
    have short {number : Nat} (shown : (process.space.page number).frame = some frame) :
        (UInt64.ofNat (number * pageSize)).toNat = number * pageSize :=
      UInt64.toNat_ofNat_of_lt' (coherent.address_lt_of_frameAt? shown)
    rw [perform, short plays.1, short (congrArg Page.frame lent)]
    exact unmapCode_exists inv listed lent plays (paired.placed plays) free
  · obtain ⟨frame, lent⟩ := (coherent.mem_lentPages_iff orderly).mp marked
    exact coherent.hidden_of_lent lent

/-- The alias that a process has made and still has. -/
theorem aliases_are_paired_of_executable_alias :
    ∃ reached process lender result after, small.run? smallRun = some reached ∧
      reached.processes[1]? = some process ∧ 0x9000 ∈ process.space.aliases ∧
      lender ∈ process.space.lentPages ∧
      perform 1 (.unmapCode .currentProcess 0x9000000 (.ofNat (lender * pageSize)) 0x1000)
        reached = .done result after := by
  have shown : ((small.run? smallRun).bind fun reached =>
      reached.processes[1]?.filter fun process => 0x9000 ∈ process.space.aliases).isSome := by
    decide +kernel
  obtain ⟨process, shown⟩ := Option.isSome_iff_exists.mp shown
  obtain ⟨reached, ran, shown⟩ := Option.bind_eq_some_iff.mp shown
  obtain ⟨listed, viewed⟩ := Option.filter_eq_some_iff.mp shown
  have viewed := of_decide_eq_true viewed
  obtain ⟨lenderOf, bijective, partners, _⟩ := aliases_are_paired create_small
    (show ∀ step ∈ smallRun, step.Ordinary ∧ step.Directs (¬ ·.IsAlias) by decide +kernel) ran
    listed
  obtain ⟨_, result, after, done⟩ := partners 0x9000 viewed
  exact ⟨reached, process, lenderOf 0x9000, result, after, ran, listed, viewed,
    bijective.mapsTo viewed, done⟩

end Kernel

end GuestMemory
