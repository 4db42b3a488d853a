import GuestMemory.Directory
import GuestMemory.Proofs.Run
import Mathlib.Data.Finset.Card

/-!
Directories page by page: what mapping, unmapping and protecting a range make of the translation of
each page.
-/

namespace GuestMemory

variable {β : Type} {key other first page count physical address : Nat}

theorem getElem?_insert_of_nat (map : Std.ExtTreeMap Nat β) (key other : Nat) (value : β) :
    (map.insert key value)[other]? = if key = other then some value else map[other]? := by
  simp only [Std.ExtTreeMap.getElem?_insert, Nat.compare_eq_eq]

theorem getElem?_erase_of_nat (map : Std.ExtTreeMap Nat β) (key other : Nat) :
    (map.erase key)[other]? = if key = other then none else map[other]? := by
  simp only [Std.ExtTreeMap.getElem?_erase, Nat.compare_eq_eq]

namespace Directory

variable {directory after : Directory} {permission : KernelPermission} {run : Run}

def frameAt? (directory : Directory) (page : Nat) : Option Nat :=
  (directory.entries[page]?).map fun translation => pageOf translation.address

/-- The frames stand behind the pages from `first` on, in their order. -/
def Backs (directory : Directory) (first : Nat) (frames : List Nat) : Prop :=
  (List.range' first frames.length).map directory.frameAt? = frames.map some

/-- The pages from `first` on, which had no translations, have gained some to the given frames. -/
structure Gains (directory : Directory) (first : Nat) (frames : List Nat)
    (permission : KernelPermission) (after : Directory) : Prop where
  absent : ∀ page, first ≤ page → page < first + frames.length → directory.entries[page]? = none
  inside : ∀ page, first ≤ page → page < first + frames.length →
    after.entries[page]? =
      (frames[page - first]?).map fun frame => ⟨frame * pageSize, permission⟩
  outside : ∀ page, page < first ∨ first + frames.length ≤ page →
    after.entries[page]? = directory.entries[page]?

namespace Gains

variable {frames more : List Nat} {middle : Directory}

theorem refl (directory : Directory) (first : Nat) (permission : KernelPermission) :
    directory.Gains first [] permission directory where
  absent := fun _ lower upper => absurd upper (Nat.not_lt_of_le lower)
  inside := fun _ lower upper => absurd upper (Nat.not_lt_of_le lower)
  outside := fun _ _ => rfl

theorem trans (earlier : directory.Gains first frames permission middle)
    (later : middle.Gains (first + frames.length) more permission after) :
    directory.Gains first (frames ++ more) permission after := by
  refine ⟨fun page lower upper => ?_, fun page lower upper => ?_, fun page outside => ?_⟩
  all_goals rw [List.length_append] at *
  · by_cases before : page < first + frames.length
    · exact earlier.absent page lower before
    · rw [← earlier.outside page (by omega)]
      exact later.absent page (by omega) (by omega)
  · by_cases before : page < first + frames.length
    · rw [later.outside page (.inl before), earlier.inside page lower before,
        List.getElem?_append_left (by omega)]
    · rw [later.inside page (by omega) (by omega), List.getElem?_append_right (by omega),
        Nat.sub_sub]
  · rw [later.outside page (by omega), earlier.outside page (by omega)]

theorem backs (gains : directory.Gains first frames permission after) :
    after.Backs first frames := by
  refine List.ext_getElem (by simp) fun index lower upper => ?_
  have inside : index < frames.length := by simpa using upper
  have found := gains.inside (first + index) (by omega) (by omega)
  rw [Nat.add_sub_cancel_left, List.getElem?_eq_getElem inside] at found
  simp only [List.getElem_map, List.getElem_range', Nat.one_mul, frameAt?, found, Option.map_some,
    pageOf_mul_pageSize]

end Gains

theorem gains_of_insert (fresh : directory.entries[first]? = none)
    (aligned : physical % pageSize = 0) :
    directory.Gains first [pageOf physical] permission
      ⟨directory.entries.insert first ⟨physical, permission⟩⟩ := by
  have start : pageOf physical * pageSize = physical := by
    simp only [pageOf, pageSize_eq] at *
    omega
  refine ⟨fun page lower upper => ?_, fun page lower upper => ?_, fun page outside => ?_⟩
  · obtain rfl : first = page := by
      simp only [List.length_singleton] at upper
      omega
    exact fresh
  · obtain rfl : first = page := by
      simp only [List.length_singleton] at upper
      omega
    rw [getElem?_insert_of_nat, if_pos rfl, Nat.sub_self, List.getElem?_cons_zero, Option.map_some,
      start]
  · simp only [List.length_singleton] at outside
    rw [getElem?_insert_of_nat, if_neg (by omega)]

theorem gains_of_insertPages
    (inserted : insertPages permission count first physical directory = .ok after)
    (aligned : physical % pageSize = 0) :
    directory.Gains first (List.range' (pageOf physical) count) permission after := by
  induction count generalizing first physical directory with
  | zero =>
      cases inserted
      exact Gains.refl _ _ _
  | succ count ih =>
      rw [insertPages, Checked.bind_eq_ok] at inserted
      obtain ⟨address, fits, inserted⟩ := inserted
      obtain ⟨_, rfl⟩ := word_eq_ok_iff.mp fits
      split at inserted
      · cases inserted
      · rename_i fresh
        rw [Std.ExtTreeMap.contains_eq_isSome_getElem?, Bool.not_eq_true,
          Option.isSome_eq_false_iff, Option.isNone_iff_eq_none] at fresh
        have next : pageOf (physical + pageSize) = pageOf physical + 1 := by
          simpa using pageOf_add_mul_pageSize physical 1
        have rest := ih inserted (by rw [Nat.add_mod_right, aligned])
        rw [next] at rest
        exact (gains_of_insert fresh aligned).trans rest

theorem gains_of_map (mapped : directory.map address run permission = .ok after) :
    directory.Gains (pageOf address) run.frames permission after := by
  rw [map] at mapped
  split at mapped
  · cases mapped
  · split at mapped
    · cases mapped
    · rename_i aligned
      rw [Bool.not_eq_true, Bool.not_eq_false'] at aligned
      exact gains_of_insertPages mapped (isPageAligned_iff.mp aligned)

/-- Only frames that have an address can be mapped. -/
theorem addressable_of_insertPages
    (inserted : insertPages permission count first physical directory = .ok after) :
    ∀ frame ∈ List.range' (pageOf physical) count, frame * pageSize < wordLimit := by
  induction count generalizing first physical directory with
  | zero => simp
  | succ count ih =>
      rw [insertPages, Checked.bind_eq_ok] at inserted
      obtain ⟨address, fits, inserted⟩ := inserted
      obtain ⟨bounded, rfl⟩ := word_eq_ok_iff.mp fits
      split at inserted
      · cases inserted
      · have next : pageOf (physical + pageSize) = pageOf physical + 1 := by
          simpa using pageOf_add_mul_pageSize physical 1
        have rest := ih inserted
        rw [next] at rest
        refine List.forall_mem_cons.mpr ⟨?_, rest⟩
        exact Nat.lt_of_le_of_lt (Nat.div_mul_le_self physical pageSize) bounded

theorem addressable_of_map (mapped : directory.map address run permission = .ok after) :
    ∀ frame ∈ run.frames, frame * pageSize < wordLimit := by
  rw [map] at mapped
  split at mapped
  · cases mapped
  · split at mapped
    · cases mapped
    · exact addressable_of_insertPages mapped

theorem getElem?_erasePages (page : Nat) :
    (erasePages count first directory).entries[page]? =
      if first ≤ page ∧ page < first + count then none else directory.entries[page]? := by
  induction count generalizing first directory with
  | zero => rw [erasePages, if_neg (by omega)]
  | succ count ih =>
      rw [erasePages, ih, getElem?_erase_of_nat]
      by_cases here : first = page
      · rw [if_neg (by omega), if_pos here, if_pos (by omega)]
      · by_cases inside : first ≤ page ∧ page < first + (count + 1)
        · rw [if_pos (by omega), if_pos inside]
        · rw [if_neg (by omega), if_neg here, if_neg inside]

theorem getElem?_unmap (unmapped : directory.unmap address count = .ok after) (page : Nat) :
    after.entries[page]? =
      if pageOf address ≤ page ∧ page < pageOf address + count then none
      else directory.entries[page]? := by
  rw [unmap] at unmapped
  split at unmapped
  · cases unmapped
    exact getElem?_erasePages page
  · cases unmapped

theorem aligned_of_unmap (unmapped : directory.unmap address count = .ok after) :
    address % pageSize = 0 := by
  rw [unmap] at unmapped
  split at unmapped
  · rename_i aligned
    exact isPageAligned_iff.mp aligned
  · cases unmapped

theorem aligned_of_map (mapped : directory.map address run permission = .ok after) :
    address % pageSize = 0 := by
  rw [map] at mapped
  split at mapped
  · cases mapped
  · rename_i aligned
    rw [Bool.not_eq_true, Bool.not_eq_false'] at aligned
    exact isPageAligned_iff.mp aligned

theorem getElem?_protect (reprotected : directory.protect address count permission = .ok after)
    (page : Nat) :
    after.entries[page]? = (directory.entries[page]?).map fun translation =>
      if pageOf address ≤ page ∧ page < pageOf address + count then
        { translation with permission }
      else
        translation := by
  rw [protect, Checked.bind_eq_ok] at reprotected
  obtain ⟨stop, fits, changed⟩ := reprotected
  obtain ⟨_, rfl⟩ := word_eq_ok_iff.mp fits
  cases changed
  rw [Std.ExtTreeMap.getElem?_map]
  simp only [Bool.and_eq_true, decide_eq_true_eq]

theorem Backs.cons {frame : Nat} {frames : List Nat} (here : directory.frameAt? first = some frame)
    (rest : directory.Backs (first + 1) frames) : directory.Backs first (frame :: frames) := by
  rw [Backs, List.length_cons, List.range'_succ, List.map_cons, List.map_cons, here, rest]

theorem collectRuns_eq_some {collected runs : List Run}
    (found : directory.collectRuns count first collected = .ok (some runs)) :
    ∃ frames, frames.length = count ∧ directory.Backs first frames ∧
      Run.framesOf runs = Run.framesOf collected.reverse ++ frames := by
  induction count generalizing first collected with
  | zero =>
      cases found
      exact ⟨[], rfl, rfl, by simp⟩
  | succ count ih =>
      rw [collectRuns] at found
      split at found
      · cases found
      · rename_i translation here
        rw [Checked.bind_eq_ok] at found
        obtain ⟨more, stacked, found⟩ := found
        obtain ⟨frames, rfl, backs, expanded⟩ := ih found
        refine ⟨pageOf translation.address :: frames, rfl, backs.cons ?_, ?_⟩
        · rw [frameAt?, here, Option.map_some]
        · rw [expanded, Run.framesOf_stack stacked, List.append_assoc]
          rfl

theorem collectRuns_eq_none {collected : List Run}
    (missing : directory.collectRuns count first collected = .ok none) :
    ∃ page, first ≤ page ∧ page < first + count ∧ directory.entries[page]? = none := by
  induction count generalizing first collected with
  | zero => cases missing
  | succ count ih =>
      rw [collectRuns] at missing
      split at missing
      · rename_i here
        exact ⟨first, by omega, by omega, here⟩
      · rw [Checked.bind_eq_ok] at missing
        obtain ⟨more, _, missing⟩ := missing
        obtain ⟨page, lower, upper, absent⟩ := ih missing
        exact ⟨page, by omega, by omega, absent⟩

theorem runs_eq_some {runs : List Run} (found : directory.runs address count = .ok (some runs)) :
    (Run.framesOf runs).length = count ∧ directory.Backs (pageOf address) (Run.framesOf runs) := by
  obtain ⟨frames, length, backs, expanded⟩ := collectRuns_eq_some found
  rw [List.reverse_nil, Run.framesOf_nil, List.nil_append] at expanded
  rw [expanded]
  exact ⟨length, backs⟩

/-- No translation passes the limit. -/
def Lies (directory : Directory) (limit : Nat) : Prop :=
  ∀ (page : Nat) translation, directory.entries[page]? = some translation →
    (⟨translation.address, 1⟩ : Run).Lies limit

theorem Lies.of_collectRuns {limit : Nat} {collected runs : List Run} (lies : directory.Lies limit)
    (collectedLie : ∀ run ∈ collected, run.Lies limit)
    (found : directory.collectRuns count first collected = .ok (some runs)) :
    ∀ run ∈ runs, run.Lies limit := by
  induction count generalizing first collected with
  | zero =>
      cases found
      simpa using collectedLie
  | succ count ih =>
      rw [collectRuns] at found
      split at found
      · cases found
      · rename_i translation here
        obtain ⟨more, stacked, found⟩ := Checked.bind_eq_ok.mp found
        exact ih (Run.lies_of_stack stacked (lies first translation here) collectedLie) found

theorem Lies.of_runs {limit : Nat} {runs : List Run} (lies : directory.Lies limit)
    (found : directory.runs address count = .ok (some runs)) : ∀ run ∈ runs, run.Lies limit :=
  lies.of_collectRuns (fun _ member => absurd member List.not_mem_nil) found

/-- The pages behind which a frame stands. -/
def pagesOn (directory : Directory) (frame : Nat) : Finset Nat :=
  (directory.entries.keys.filter fun page => directory.frameAt? page = some frame).toFinset

theorem mem_pagesOn {frame : Nat} :
    page ∈ directory.pagesOn frame ↔ directory.frameAt? page = some frame := by
  rw [pagesOn, List.mem_toFinset, List.mem_filter, decide_eq_true_eq, and_iff_right_iff_imp,
    Std.ExtTreeMap.mem_keys, Std.ExtTreeMap.mem_iff_isSome_getElem?]
  intro backed
  simpa only [frameAt?, Option.isSome_map] using Option.isSome_of_eq_some backed

theorem card_pagesOn_le_size (directory : Directory) (frame : Nat) :
    (directory.pagesOn frame).card ≤ directory.size := by
  refine Nat.le_trans (List.toFinset_card_le _) (Nat.le_trans (List.length_filter_le _ _) ?_)
  rw [Std.ExtTreeMap.length_keys, size]

/-- Where a range has frames before and none after, each frame loses the pages of the range. -/
theorem card_pagesOn_of_erased {frames : List Nat} (backs : directory.Backs first frames)
    (erased : ∀ page, after.frameAt? page =
      if first ≤ page ∧ page < first + frames.length then none else directory.frameAt? page)
    (frame : Nat) :
    (directory.pagesOn frame).card = (after.pagesOn frame).card + frames.count frame := by
  let lost := (List.range' first frames.length).filter fun page =>
    directory.frameAt? page = some frame
  have distinct : lost.Nodup := List.Nodup.filter _ List.nodup_range'
  have count : lost.length = frames.count frame := by
    rw [← List.countP_eq_length_filter, ← List.count_map_of_injective frames some
      (Option.some_injective _), ← backs, List.count, List.countP_map]
    exact List.countP_congr fun page _ => by simp
  have union : directory.pagesOn frame = after.pagesOn frame ∪ lost.toFinset := by
    ext page
    rw [Finset.mem_union, mem_pagesOn, mem_pagesOn, erased, List.mem_toFinset, List.mem_filter,
      List.mem_range'_1, decide_eq_true_eq]
    split <;> simp [*]
  have disjoint : Disjoint (after.pagesOn frame) lost.toFinset := by
    refine Finset.disjoint_left.mpr fun page kept member => ?_
    rw [List.mem_toFinset, List.mem_filter, List.mem_range'_1] at member
    rw [mem_pagesOn, erased, if_pos member.1] at kept
    cases kept
  rw [union, Finset.card_union_of_disjoint disjoint, List.toFinset_card_of_nodup distinct, count]

theorem Gains.card_pagesOn {frames : List Nat}
    (gains : directory.Gains first frames permission after) (frame : Nat) :
    (after.pagesOn frame).card = (directory.pagesOn frame).card + frames.count frame := by
  refine card_pagesOn_of_erased gains.backs (fun page => ?_) frame
  rw [frameAt?, frameAt?]
  split
  · rename_i inside
    rw [gains.absent page inside.1 inside.2, Option.map_none]
  · rw [gains.outside page (by omega)]

end Directory

end GuestMemory
