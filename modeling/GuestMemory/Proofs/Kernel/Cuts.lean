import GuestMemory.Proofs.Kernel.Pieces

/-!
Cuts: a task in two parts. All that is asked of its pages is asked of each page for itself, or else
of runs of frames, of which fewer pages need no more; and what it makes of them it makes of each
page for itself. So the parts are done where the task is, in either order, and come to the same.
-/

namespace GuestMemory

open Verdict

namespace Work

variable {work : Work} {times : Nat}

theorem times_pos (asked : .retainable times ∈ work.demands) : 0 < times := by
  cases work <;> simp only [demands, List.mem_cons, Demand.retainable.injEq, reduceCtorEq,
    List.not_mem_nil, or_false, false_or] at asked <;> omega

/-- Only frames that can be described are compared. -/
theorem described_of_backed (asked : .backed ∈ work.demands) : .described ∈ work.demands := by
  cases work <;> simp_all [demands]

end Work

namespace Task

variable {task : Task} {piece first second : Piece} {pages : Pages} {key : Nat × Nat}
variable {role other : RangeRole} {view : View} {frame offset inner : Nat}

theorem place_piece (role : RangeRole) :
    (task.piece piece).place role = (task.place role).advance piece.skip := by
  cases role <;> rfl

theorem mem_range_piece : key ∈ (task.piece piece).range role ↔
    ∃ offset, piece.Has offset ∧ (task.place role).page offset = key := by
  simp only [range, place_piece, Place.mem_pages, Place.page_advance, Piece.has_iff]
  constructor
  · rintro ⟨inner, bounded, rfl⟩
    exact ⟨_, ⟨inner, bounded, rfl⟩, rfl⟩
  · rintro ⟨_, ⟨inner, bounded, rfl⟩, rfl⟩
    exact ⟨inner, bounded, rfl⟩

theorem range_piece_subset (within : piece.Within task.pages)
    (inside : key ∈ (task.piece piece).range role) : key ∈ task.range role := by
  obtain ⟨offset, has, rfl⟩ := mem_range_piece.mp inside
  exact Place.page_mem_pages.mpr (within.lt has)

theorem mem_reads_piece : key ∈ (task.piece piece).reads ↔
    ∃ role offset, piece.Has offset ∧ (task.place role).page offset = key := by
  simp only [mem_reads, mem_range_piece]
  constructor
  · rintro (shown | lent)
    · exact ⟨.destination, shown⟩
    · exact ⟨.source, lent⟩
  · rintro ⟨role, found⟩
    cases role with
    | source => exact .inr found
    | destination => exact .inl found

theorem behind_piece (pages : Pages) (within : piece.Within task.pages) (role : RangeRole) :
    ∃ front back, task.behind pages role =
      front ++ ((task.piece piece).behind pages role ++ back) := by
  obtain ⟨rest, whole⟩ := Nat.exists_eq_add_of_le within.bounded
  refine ⟨pages.behind ((task.place role).pages piece.skip),
    pages.behind ((((task.place role).advance piece.skip).advance piece.count).pages rest), ?_⟩
  rw [behind, range, whole, Nat.add_assoc, ← Place.pages_append, ← Place.pages_append]
  simp only [Pages.behind, List.map_append, behind, range, place_piece]
  rfl

theorem frames_piece (pages : Pages) (within : piece.Within task.pages) :
    ((task.piece piece).frames pages).Sublist (task.frames pages) := by
  obtain ⟨front, back, whole⟩ := behind_piece pages within .source
  rw [frames, frames, whole]
  apply List.Sublist.filterMap
  exact (List.sublist_append_left _ _).trans (List.sublist_append_right _ _)

theorem described_piece (described : task.judgeDemand view .described = .ok ())
    (within : piece.Within task.pages) :
    (task.piece piece).judgeDemand view .described = .ok () := by
  obtain ⟨front, back, whole⟩ := behind_piece view.pages within .source
  rw [judgeDemand_described, whole, Verdict.bind_eq_ok] at described
  obtain ⟨runs, described, _⟩ := described
  obtain ⟨_, rest, trimmed⟩ := describe_parts described
  obtain ⟨⟨part, described⟩, _⟩ := describe_parts trimmed
  rw [judgeDemand_described, described, ok_bind]

/-- Where a task is met, a piece of it is. -/
theorem judge_piece (judged : task.judge view = .ok ()) (within : piece.Within task.pages) :
    (task.piece piece).judge view = .ok () := by
  rw [judge_eq_ok] at judged ⊢
  intro asked member
  have whole := judged asked member
  cases asked with
  | meets role check =>
      rw [judgeDemand_meets] at whole ⊢
      exact fun key inside => whole key (range_piece_subset within inside)
  | described => exact described_piece whole within
  | retainable times =>
      have sublist := frames_piece view.pages within
      rw [judgeDemand_retainable_iff] at whole ⊢
      intro frame inside
      have room := whole frame (sublist.subset inside)
      have fewer := Nat.mul_le_mul_left times (sublist.count_le frame)
      omega
  | backed =>
      simp only [judgeDemand, Verdict.bind_eq_ok, demand_eq_ok] at whole
      obtain ⟨_, _, same⟩ := whole
      have described := judged _ (Work.described_of_backed member)
      apply judgeDemand_backed_of_described (described_piece described within)
      apply behind_eq_iff.mpr
      intro offset bounded
      simp only [place_piece, Place.page_advance]
      exact behind_eq_iff.mp same _ (within.lt (Piece.has_iff.mpr ⟨offset, bounded, rfl⟩))

/-- Two pieces of a task together ask for no more references than the task. -/
theorem count_frames_pieces (pages : Pages)
    (complements : Piece.Complements task.pages first second) (frame : Nat) :
    ((task.piece first).frames pages).count frame + ((task.piece second).frames pages).count frame ≤
      (task.frames pages).count frame := by
  have disjoint : Disjoint ((task.piece first).lenders pages frame)
      ((task.piece second).lenders pages frame) := by
    rw [Finset.disjoint_left]
    intro key here there
    obtain ⟨offset, has, rfl⟩ := mem_range_piece.mp (mem_lenders.mp here).1
    obtain ⟨other, also, same⟩ := mem_range_piece.mp (mem_lenders.mp there).1
    cases task.source.page_injective same
    exact complements.apart _ has also
  rw [count_frames, count_frames, count_frames, ← Finset.card_union_of_disjoint disjoint]
  apply Finset.card_le_card
  intro key lends
  simp only [Finset.mem_union, mem_lenders] at lends ⊢
  rcases lends with ⟨inside, shown⟩ | ⟨inside, shown⟩
  · exact ⟨range_piece_subset complements.within inside, shown⟩
  · exact ⟨range_piece_subset complements.within_other inside, shown⟩

theorem apart_of_judge (judged : task.judge view = .ok ())
    (alone : ∀ permission, task.work = .setPermission permission →
      task.source = task.destination) : task.Apart := by
  intro offset bounded other within same
  by_cases single : ∃ permission, task.work = .setPermission permission
  · obtain ⟨permission, kind⟩ := single
    rw [alone permission kind] at same
    exact task.destination.page_injective same
  · have inside : task.destination.page offset ∈ task.range .destination :=
      Place.page_mem_pages.mpr bounded
    have two (permission : UserPermission) (kind : task.work = .setPermission permission) :=
      single ⟨permission, kind⟩
    have outside := outside_of_judge judged two inside
    rw [same] at outside
    exact absurd (Place.page_mem_pages.mpr within) outside

namespace Apart

variable (apart : task.Apart)

include apart

theorem offset_eq (bounded : offset < task.pages) (within : inner < task.pages)
    (same : (task.place role).page offset = (task.place other).page inner) : offset = inner := by
  cases role <;> cases other
  · exact task.source.page_injective same
  · exact (apart inner within offset bounded same.symm).symm
  · exact apart offset bounded inner within same
  · exact task.destination.page_injective same

theorem disjoint_reads (complements : Piece.Complements task.pages first second) :
    Disjoint (task.piece first).reads (task.piece second).reads := by
  rw [Set.disjoint_left]
  intro key here there
  obtain ⟨role, offset, has, rfl⟩ := mem_reads_piece.mp here
  obtain ⟨other, inner, also, same⟩ := mem_reads_piece.mp there
  cases apart.offset_eq (complements.within_other.lt also) (complements.within.lt has) same
  exact complements.apart _ has also

/-- A piece of a task does to its pages what the task does. -/
theorem effect_piece (within : piece.Within task.pages) (inside : key ∈ (task.piece piece).reads) :
    (task.piece piece).effect pages key = task.effect pages key := by
  by_cases shown : key ∈ (task.piece piece).range .destination
  · obtain ⟨offset, has, rfl⟩ := mem_range_piece.mp shown
    obtain ⟨inner, bounded, rfl⟩ := Piece.has_iff.mp has
    have part : (task.piece piece).effect pages (task.destination.page (piece.skip + inner)) =
        task.work.onDestination (pages (task.destination.page (piece.skip + inner)))
          (pages (task.source.page (piece.skip + inner))) := by
      rw [← Place.page_advance, ← Place.page_advance]
      exact effect_destination bounded
    exact part.trans (effect_destination (within.lt has)).symm
  · have lent := (mem_reads.mp inside).resolve_left shown
    -- It is not at the destination of the whole task either, where it would be at another offset.
    have outside : key ∉ task.range .destination := by
      obtain ⟨offset, has, rfl⟩ := mem_range_piece.mp lent
      intro also
      obtain ⟨other, bounded, same⟩ := Place.mem_pages.mp also
      cases apart other bounded offset (within.lt has) same
      exact shown (mem_range_piece.mpr ⟨_, has, same⟩)
    rw [effect_source shown lent, effect_source outside (range_piece_subset within lent)]
    rfl

/-- Two pieces of a task do together what the task does. -/
theorem effect_pieces (complements : Piece.Complements task.pages first second) :
    (task.piece second).effect ((task.piece first).effect pages) = task.effect pages := by
  have disjoint := apart.disjoint_reads complements
  funext key
  by_cases early : key ∈ (task.piece first).reads
  · rw [effect_of_not_mem_reads (Set.disjoint_left.mp disjoint early),
      apart.effect_piece complements.within early]
  by_cases late : key ∈ (task.piece second).reads
  · rw [effect_congr (effect_eqOn (disjoint.mono_left writes_subset_reads)) late,
      apart.effect_piece complements.within_other late]
  · have outside : key ∉ task.reads := by
      intro inside
      obtain ⟨role, offset, bounded, rfl⟩ := exists_of_mem_reads inside
      rcases complements.cover offset bounded with has | has
      · exact early (mem_reads_piece.mpr ⟨role, offset, has, rfl⟩)
      · exact late (mem_reads_piece.mpr ⟨role, offset, has, rfl⟩)
    rw [effect_of_not_mem_reads late, effect_of_not_mem_reads early,
      effect_of_not_mem_reads outside]

end Apart

end Task

namespace Kernel

/-- Both of two calls of a process are done when they are made in turn. -/
def Completes (kernel : Kernel) (current : Nat) (first second : Call) (final : Kernel) : Prop :=
  ∃ result middle other, perform current first kernel = .done result middle ∧
    perform current second middle = .done other final

variable {config : Config} {cache : InstructionCache} {initial reached kernel whole : Kernel}
variable {middle : Kernel} {steps : List Step} {current cut : Nat} {request : Call} {task : Task}
variable {piece first second : Piece} {result : Commit} {view : View}

theorem judge_piece {setting : Setting}
    (judged : setting.judge view current request = .ok task) (within : piece.Within task.pages) :
    setting.judge view current (request.piece piece) = .ok (task.piece piece) := by
  obtain ⟨came, admitted, met⟩ := Setting.judge_eq_ok.mp judged
  exact Setting.judge_eq_ok.mpr ⟨Setting.task_piece came within,
    Setting.requirePlaces_piece admitted within, Task.judge_piece met within⟩

/-- One piece of a task takes no room that the other asks for. -/
theorem retainable_after_piece {times : Nat} (middleInv : OrdinaryInvariant config middle)
    (inv : OrdinaryInvariant config kernel)
    (complements : Piece.Complements task.pages first second)
    (leads : (task.piece first).Leads kernel middle)
    (kept : Set.EqOn middle.page kernel.page (task.piece second).reads)
    (asked : .retainable times ∈ task.work.demands)
    (met : task.judgeDemand kernel.view (.retainable times) = .ok ()) :
    (task.piece second).judgeDemand middle.view (.retainable times) = .ok () := by
  have frames : (task.piece second).frames middle.page = (task.piece second).frames kernel.page :=
    congrArg List.reduceOption (Task.behind_eqOn kept .source)
  rw [Task.judgeDemand_retainable_iff, view_pages] at met ⊢
  rw [frames]
  intro frame inside
  have room := met frame ((Task.frames_piece _ complements.within_other).subset inside)
  rw [inv.held_eq] at room
  rw [middleInv.held_eq]
  have more := leads.shown_le frame
  have parts := Task.count_frames_pieces kernel.page complements frame
  have once := Nat.le_mul_of_pos_left (((task.piece first).frames kernel.page).count frame)
    (Work.times_pos asked)
  have total := Nat.mul_le_mul_left times parts
  rw [Nat.mul_add] at total
  omega

/-- Two pieces of a task that is done are done as well, and lead to the same memory. -/
theorem completes_pieces (inv : OrdinaryInvariant config kernel)
    (done : perform current request kernel = .done result whole)
    (complements : Piece.Complements request.pages first second) :
    ∃ final, kernel.Completes current (request.piece first) (request.piece second) final ∧
      whole.SameMemory final := by
  obtain ⟨task, judged, leads, wholeInv⟩ := leads_of_perform inv done
  obtain ⟨came, admitted, met⟩ := Setting.judge_eq_ok.mp judged
  rw [← Setting.pages_of_task came] at complements
  have apart := Task.apart_of_judge met (Setting.valid_of_task came).alone
  obtain ⟨answer, middle, performed, firstLeads, middleInv⟩ :=
    leads_of_judge inv (judge_piece judged complements.within)
  -- The second piece finds its pages as the whole call does, and it finds room.
  have kept : Set.EqOn middle.page kernel.page (task.piece second).reads := by
    rw [firstLeads.page_eq]
    exact Task.effect_eqOn
      ((apart.disjoint_reads complements).mono_left Task.writes_subset_reads)
  have judgedSecond := judge_piece judged complements.within_other
  obtain ⟨cameSecond, admittedSecond, metSecond⟩ := Setting.judge_eq_ok.mp judgedSecond
  have still : (task.piece second).judge middle.view = .ok () := by
    refine (Task.judge_congr (middleInv.capacity_eq.trans inv.capacity_eq.symm) kept
      fun times asked => ?_).trans metSecond
    rw [Task.judge_eq_ok.mp metSecond _ asked]
    exact retainable_after_piece middleInv inv complements firstLeads kept asked
      (Task.judge_eq_ok.mp met _ asked)
  obtain ⟨other, final, finished, secondLeads, finalInv⟩ :=
    leads_of_judge middleInv (Setting.judge_eq_ok.mpr
      ⟨firstLeads.setting_eq ▸ cameSecond, firstLeads.setting_eq ▸ admittedSecond, still⟩)
  refine ⟨final, ⟨answer, middle, other, performed, finished⟩, ?_⟩
  apply wholeInv.sameMemory finalInv
  · rw [secondLeads.setting_eq, firstLeads.setting_eq, leads.setting_eq]
  · rw [secondLeads.page_eq, firstLeads.page_eq, leads.page_eq]
    exact apart.effect_pieces complements
  · exact leads.frames.symm.trans (firstLeads.frames.trans secondLeads.frames)

/-- A call that is done could as well have been made in two parts, the ranges being cut after any
of their pages: both parts are done, whichever is first, and leave the memory that the call
leaves. -/
theorem call_equals_pieces (created : create config cache = .ok initial)
    (ordinary : ∀ step ∈ steps, step.Ordinary) (ran : initial.run? steps = some reached)
    (done : perform current request reached = .done result whole) (positive : 0 < cut)
    (short : cut < request.pages) :
    (∃ final, reached.Completes current (request.piece ⟨0, cut⟩)
      (request.piece ⟨cut, request.pages - cut⟩) final ∧ whole.SameMemory final) ∧
    ∃ final, reached.Completes current (request.piece ⟨cut, request.pages - cut⟩)
      (request.piece ⟨0, cut⟩) final ∧ whole.SameMemory final := by
  have inv := ordinaryInvariant_run created ordinary ran
  have complements := Piece.complements_of_cut positive short
  exact ⟨completes_pieces inv done complements, completes_pieces inv done complements.symm⟩

/-- Three pages that are lent out as code, cut inside of the block and of the run of frames that
they make up. -/
theorem call_equals_pieces_of_three_pages :
    ∃ reached result whole, small.run? (smallRun.take 7) = some reached ∧
      perform 0 (.mapCode ⟨0x8000⟩ 0x9000000 0x1000000000 0x3000) reached = .done result whole ∧
      (∃ final, reached.Completes 0 (.mapCode ⟨0x8000⟩ 0x9000000 0x1000000000 0x1000)
        (.mapCode ⟨0x8000⟩ 0x9001000 0x1000001000 0x2000) final ∧ whole.SameMemory final) ∧
      ∃ final, reached.Completes 0 (.mapCode ⟨0x8000⟩ 0x9001000 0x1000001000 0x2000)
        (.mapCode ⟨0x8000⟩ 0x9000000 0x1000000000 0x1000) final ∧ whole.SameMemory final := by
  have shown : ((small.run? (smallRun.take 7)).map fun reached =>
      (perform 0 (.mapCode ⟨0x8000⟩ 0x9000000 0x1000000000 0x3000) reached).ending) =
        some (.ok ()) := by
    decide +kernel
  obtain ⟨reached, ran, shown⟩ := Option.map_eq_some_iff.mp shown
  obtain ⟨result, whole, done⟩ := Outcome.ending_eq_ok.mp shown
  obtain ⟨forward, backward⟩ := call_equals_pieces create_small
    (show ∀ step ∈ smallRun.take 7, step.Ordinary by decide +kernel) ran done Nat.one_pos
    (show 1 < Call.pages _ by decide +kernel)
  exact ⟨reached, result, whole, ran, done, forward, backward⟩

end Kernel

end GuestMemory
