import GuestMemory.Proofs.Kernel.FrameCounts
import GuestMemory.Proofs.Kernel.Transitions

/-!
How often frames are shown. A task asks for references to the frames that pages of its source show,
and when it is done no frame is shown more often than before by more than these.
-/

namespace GuestMemory

namespace Work

variable {work : Work} {page source : Page} {frame : Nat}

theorem frame_onSource (work : Work) (page : Page) : (work.onSource page).frame = page.frame := by
  cases work <;> rfl

/-- A page of the destination keeps its frame, has none or has that of the source. -/
theorem frame_of_onDestination (shown : (work.onDestination page source).frame = some frame) :
    page.frame = some frame ∨ source.frame = some frame := by
  cases work with
  | setPermission _ => exact .inl shown
  | mapMemory | mapCode => exact .inr shown
  | unmapMemory | unmapCode => cases shown

end Work

namespace Task

variable {task : Task} {pages : Pages} {frame : Nat} {key : Nat × Nat}

/-- The pages of the source that show a frame. -/
def lenders (task : Task) (pages : Pages) (frame : Nat) : Finset (Nat × Nat) :=
  ((task.range .source).filter fun key => (pages key).frame == some frame).toFinset

theorem mem_lenders :
    key ∈ task.lenders pages frame ↔ key ∈ task.range .source ∧ (pages key).frame = some frame := by
  simp [lenders]

theorem nodup_range (role : RangeRole) : (task.range role).Nodup :=
  List.nodup_range.map (task.place role).page_injective

/-- Each page of the source asks for its frame once. -/
theorem count_frames (frame : Nat) :
    (task.frames pages).count frame = (task.lenders pages frame).card := by
  rw [lenders, List.toFinset_card_of_nodup ((nodup_range _).filter _), frames, behind,
    List.reduceOption, List.count_filterMap, Pages.behind, List.countP_map,
    List.countP_eq_length_filter]
  rfl

end Task

namespace Kernel

variable {config : Config} {kernel after : Kernel} {task : Task} {key : Nat × Nat} {frame : Nat}

/-- All pages that show a frame. -/
def showing (kernel : Kernel) (frame : Nat) : Finset (Nat × Nat) :=
  pagesShowing frame 0 kernel.processes

theorem mem_showing : key ∈ kernel.showing frame ↔ (kernel.page key).frame = some frame := by
  obtain ⟨index, number⟩ := key
  rw [showing, mem_pagesShowing, Nat.sub_zero, and_iff_right (Nat.zero_le index)]
  cases listed : kernel.processes[index]? with
  | none =>
      rw [page, spaces, List.getElem?_map, listed]
      simp [Page.blank]
  | some process =>
      rw [page_of_listed (spaces_listed listed)]
      simp [AddressSpace.page]

theorem shown_eq_card (kernel : Kernel) (frame : Nat) :
    kernel.shown frame = (kernel.showing frame).card :=
  card_pagesShowing.symm

theorem count_frames_le_shown (frame : Nat) :
    (task.frames kernel.page).count frame ≤ kernel.shown frame := by
  rw [Task.count_frames, shown_eq_card]
  apply Finset.card_le_card
  intro key lends
  exact mem_showing.mpr (Task.mem_lenders.mp lends).2

end Kernel

namespace Task

variable {task : Task} {kernel after : Kernel} {key : Nat × Nat}

/-- The page at the same offset of the destination. -/
def shift (task : Task) (key : Nat × Nat) : Nat × Nat :=
  task.destination.page (key.2 - pageOf task.source.address)

theorem shift_page (task : Task) (offset : Nat) :
    task.shift (task.source.page offset) = task.destination.page offset := by
  simp [shift, Place.page]

theorem shift_mirror (inside : key ∈ task.range .destination) :
    task.shift (task.mirror key) = key := by
  obtain ⟨offset, _, rfl⟩ := Place.mem_pages.mp inside
  rw [place, mirror_page, shift_page]

theorem frame_effect_of_not_mem (pages : Pages) (outside : key ∉ task.range .destination) :
    (task.effect pages key).frame = (pages key).frame := by
  by_cases lends : key ∈ task.range .source
  · rw [effect_source outside lends, Work.frame_onSource]
  · rw [effect_of_not_mem_reads (not_or.mpr ⟨outside, lends⟩)]

/-- A task shows a frame at most once more for each page of its source that does. -/
theorem Leads.shown_le (leads : task.Leads kernel after) (frame : Nat) :
    after.shown frame ≤ kernel.shown frame + (task.frames kernel.page).count frame := by
  have included : after.showing frame ⊆
      kernel.showing frame ∪ (task.lenders kernel.page frame).image task.shift := by
    intro key shown
    rw [Kernel.mem_showing, leads.page_eq] at shown
    rw [Finset.mem_union, Finset.mem_image, Kernel.mem_showing]
    by_cases inside : key ∈ task.range .destination
    · rw [effect_of_mem_destination inside] at shown
      rcases Work.frame_of_onDestination shown with own | lent
      · exact .inl own
      · exact .inr ⟨task.mirror key, mem_lenders.mpr ⟨mirror_mem inside, lent⟩,
          shift_mirror inside⟩
    · rw [frame_effect_of_not_mem _ inside] at shown
      exact .inl shown
  rw [count_frames, Kernel.shown_eq_card, Kernel.shown_eq_card]
  exact (Finset.card_le_card included).trans ((Finset.card_union_le _ _).trans
    (Nat.add_le_add_left Finset.card_image_le _))

theorem offset_of_mem_lenders {frame : Nat} (lends : key ∈ task.lenders kernel.page frame) :
    ∃ offset < task.pages, task.source.page offset = key :=
  Place.mem_pages.mp (mem_lenders.mp lends).1

section Shows

variable (leads : task.Leads kernel after)
variable (vacant : ∀ key ∈ task.range .destination, (kernel.page key).frame = none)
variable (shows : ∀ page source, (task.work.onDestination page source).frame = source.frame)

include leads vacant shows

theorem Leads.showing_eq (frame : Nat) : after.showing frame =
    kernel.showing frame ∪ (task.lenders kernel.page frame).image task.shift := by
  ext key
  rw [Finset.mem_union, Finset.mem_image, Kernel.mem_showing, Kernel.mem_showing, leads.page_eq]
  by_cases inside : key ∈ task.range .destination
  · rw [effect_of_mem_destination inside, shows, vacant key inside]
    constructor
    · exact fun lent => .inr ⟨task.mirror key, mem_lenders.mpr ⟨mirror_mem inside, lent⟩,
        shift_mirror inside⟩
    · rintro (own | ⟨lender, lends, rfl⟩)
      · cases own
      · obtain ⟨offset, _, rfl⟩ := offset_of_mem_lenders lends
        rw [shift_page, mirror_page]
        exact (mem_lenders.mp lends).2
  · rw [frame_effect_of_not_mem _ inside]
    constructor
    · exact .inl
    · rintro (own | ⟨lender, lends, rfl⟩)
      · exact own
      · obtain ⟨offset, bounded, rfl⟩ := offset_of_mem_lenders lends
        rw [shift_page] at inside
        exact absurd (Place.page_mem_pages.mpr bounded) inside

/-- A task that maps the frames of its source where none were shows each of them once more for each
page of the source that does. -/
theorem Leads.shown_eq (frame : Nat) :
    after.shown frame = kernel.shown frame + (task.frames kernel.page).count frame := by
  have apart : Disjoint (kernel.showing frame)
      ((task.lenders kernel.page frame).image task.shift) := by
    rw [Finset.disjoint_left]
    intro key own image
    obtain ⟨lender, lends, rfl⟩ := Finset.mem_image.mp image
    obtain ⟨offset, bounded, rfl⟩ := offset_of_mem_lenders lends
    have missing := vacant (task.destination.page offset) (Place.page_mem_pages.mpr bounded)
    rw [shift_page, Kernel.mem_showing, missing] at own
    cases own
  have injective : Set.InjOn task.shift (task.lenders kernel.page frame) := by
    intro first one second two same
    obtain ⟨offset, _, rfl⟩ := offset_of_mem_lenders one
    obtain ⟨other, _, rfl⟩ := offset_of_mem_lenders two
    rw [shift_page, shift_page] at same
    rw [task.destination.page_injective same]
  rw [count_frames, Kernel.shown_eq_card, Kernel.shown_eq_card,
    leads.showing_eq vacant shows, Finset.card_union_of_disjoint apart,
    Finset.card_image_of_injOn injective]

end Shows

end Task

end GuestMemory
