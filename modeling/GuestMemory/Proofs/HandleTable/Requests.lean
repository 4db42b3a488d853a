import GuestMemory.Proofs.HandleTable.Entries

/-!
Requests to a handle table. Whatever is asked of a table in whatever order, its answers are those of
a map from the values of handles to objects: slots, generations and their reuse do not show.
-/

namespace GuestMemory.HandleTable

/-- What can be asked of a table of objects that are of various kinds. -/
inductive Request (Object Kind : Type) where
  | add (object : Object)
  | remove (handle : Handle)
  | get (handle : Handle)
  | getOfKind (handle : Handle) (kind : Kind)
  | size
  deriving DecidableEq

inductive Answer (Object : Type) where
  | opened (handle : Handle)
  | refused (error : Error)
  | closed (named : Bool)
  | found (object : Option Object)
  | count (size : Nat)
  deriving DecidableEq

variable {Object Kind : Type} [DecidableEq Kind] (kindOf : Object → Kind)

/-- Serves a request. To be refused is an answer like any other, after which the table goes on. -/
def Request.serve : Request Object Kind → Action (HandleTable Object) (Answer Object)
  | add object => .settle .opened (fun cause => .refused cause.error) (HandleTable.add object)
  | remove handle => fun table =>
    let (named, after) := table.remove handle
    .done (.closed named) after
  | get handle => .read fun table => .found (table.get? handle)
  | getOfKind handle kind => .read fun table =>
    .found (table.getAs? (Option.guard fun object => kindOf object = kind) handle)
  | size => .read fun table => .count table.size

/-- Objects by the values of their handles. -/
abbrev Entries (Object : Type) := Std.ExtTreeMap UInt32 Object

namespace Entries

/-- How a map of at most `capacity` entries may answer a request, and what the map is then. Only the
handle of a new entry is left open. -/
inductive Step (capacity : Nat) (entries : Entries Object) :
    Request Object Kind → Answer Object → Entries Object → Prop
  | added {object : Object} {handle : Handle} (room : entries.size ≠ capacity)
      (fresh : handle.raw ∉ entries) (valid : handle ≠ .invalid)
      (real : handle.isPseudo = false) :
      Step capacity entries (.add object) (.opened handle) (entries.insert handle.raw object)
  | full {object : Object} (full : entries.size = capacity) :
      Step capacity entries (.add object) (.refused .outOfHandles) entries
  | removed (handle : Handle) :
      Step capacity entries (.remove handle) (.closed (entries.contains handle.raw))
        (entries.erase handle.raw)
  | got (handle : Handle) :
      Step capacity entries (.get handle) (.found entries[handle.raw]?) entries
  | gotOfKind (handle : Handle) (kind : Kind) :
      Step capacity entries (.getOfKind handle kind)
        (.found (entries[handle.raw]?.filter fun object => kindOf object = kind)) entries
  | counted : Step capacity entries .size (.count entries.size) entries

/-- Answers to requests one after the other, from one map to another. -/
inductive Run (capacity : Nat) :
    Entries Object → List (Request Object Kind) → List (Answer Object) → Entries Object → Prop
  | nil (entries : Entries Object) : Run capacity entries [] [] entries
  | cons {entries middle final : Entries Object} {request : Request Object Kind}
      {answer : Answer Object} {requests : List (Request Object Kind)}
      {answers : List (Answer Object)} (step : Step kindOf capacity entries request answer middle)
      (rest : Run capacity middle requests answers final) :
      Run capacity entries (request :: requests) (answer :: answers) final

end Entries

variable {kindOf} {table after : HandleTable Object} {entries : Entries Object} {object : Object}
variable {handle : Handle} {capacity : Nat}

theorem serve_add_of_done (done : add object table = .done handle after) :
    (Request.add object).serve kindOf table = .done (.opened handle) after :=
  Action.settle_eq_done.mpr (.inl ⟨handle, done, rfl⟩)

theorem serve_add_of_refused {cause : Refusal}
    (refused : add object table = .refused cause after) :
    (Request.add object).serve kindOf table = .done (.refused cause.error) after :=
  Action.settle_eq_done.mpr (.inr ⟨cause, refused, rfl⟩)

theorem serve_remove {named : Bool} (removed : table.remove handle = (named, after)) :
    (Request.remove handle).serve kindOf table = .done (.closed named) after := by
  simp only [Request.serve, removed]

/-- The handles of the table name what the map holds. -/
structure Represents (capacity : Nat) (table : HandleTable Object) (entries : Entries Object) :
    Prop where
  wellFormed : table.WellFormed
  capacity_eq : table.capacity = capacity
  get?_eq : ∀ handle, table.get? handle = entries[handle.raw]?
  size_eq : table.size = entries.size

namespace Represents

theorem of_create (created : create capacity = .ok table) : table.Represents capacity ∅ := by
  have wellFormed := WellFormed.of_create created
  rw [create] at created
  split at created <;> cases created
  exact {
    wellFormed
    capacity_eq := rfl
    get?_eq := fun handle => by simp [get?]
    size_eq := rfl }

theorem contains_eq (represents : table.Represents capacity entries) (handle : Handle) :
    entries.contains handle.raw = (table.get? handle).isSome := by
  rw [represents.get?_eq, Std.ExtTreeMap.isSome_getElem?_eq_contains]

theorem insert (represents : table.Represents capacity entries)
    (opened : table.Opened after object handle) :
    after.Represents capacity (entries.insert handle.raw object) where
  wellFormed := opened.wellFormed represents.wellFormed
  capacity_eq := opened.capacity_eq.trans represents.capacity_eq
  get?_eq := fun other => by
    rw [opened.get?_after represents.wellFormed, Std.ExtTreeMap.getElem?_insert,
      represents.get?_eq]
    simp only [Std.LawfulEqOrd.compare_eq_iff_eq, Handle.raw_inj]
    exact if_congr eq_comm rfl rfl
  size_eq := by
    rw [opened.size_eq, Std.ExtTreeMap.size_insert, represents.contains_eq, opened.get?_before,
      represents.size_eq]
    rfl

theorem erase (represents : table.Represents capacity entries) (handle : Handle) :
    (table.remove handle).2.Represents capacity (entries.erase handle.raw) where
  wellFormed := represents.wellFormed.remove handle
  capacity_eq := capacity_remove.trans represents.capacity_eq
  get?_eq := fun other => by
    rw [get?_remove, Std.ExtTreeMap.getElem?_erase, represents.get?_eq]
    simp only [Std.LawfulEqOrd.compare_eq_iff_eq, Handle.raw_inj]
    exact if_congr eq_comm rfl rfl
  size_eq := by
    rw [size_remove, Std.ExtTreeMap.size_erase, ← represents.contains_eq, represents.size_eq]

/-- The table answers a request like the map. -/
theorem step (represents : table.Represents capacity entries) (request : Request Object Kind) :
    ∃ answer after further, request.serve kindOf table = .done answer after ∧
      Entries.Step kindOf capacity entries request answer further ∧
      after.Represents capacity further := by
  have sound := represents.wellFormed
  cases request with
  | add object =>
      cases ended : add object table with
      | done handle after =>
          have opened := opened_of_add sound ended
          refine ⟨_, _, _, serve_add_of_done ended, .added ?_ ?_ (opened.ne_invalid sound)
            (opened.isPseudo_eq sound), represents.insert opened⟩
          · rw [← represents.size_eq, ← represents.capacity_eq]
            exact Nat.ne_of_lt (opened.size_lt sound)
          · rw [← Std.ExtTreeMap.contains_iff_mem, represents.contains_eq, opened.get?_before]
            exact Bool.false_ne_true
      | refused cause after =>
          obtain ⟨rfl, rfl, full⟩ := full_of_add sound ended
          refine ⟨_, _, _, serve_add_of_refused ended, .full ?_, represents⟩
          rw [← represents.size_eq, full, represents.capacity_eq]
      | fault fault => exact absurd ended add_ne_fault
  | remove handle =>
      refine ⟨.closed (table.remove handle).1, _, _, rfl, ?_, represents.erase handle⟩
      rw [remove_fst, ← represents.contains_eq]
      exact .removed handle
  | get handle =>
      refine ⟨.found (table.get? handle), table, entries, rfl, ?_, represents⟩
      rw [represents.get?_eq]
      exact .got handle
  | getOfKind handle kind =>
      refine ⟨.found (table.getAs? (Option.guard fun object => kindOf object = kind) handle), table,
        entries, rfl, ?_, represents⟩
      rw [getAs?, represents.get?_eq, Option.bind_guard]
      exact .gotOfKind handle kind
  | size =>
      refine ⟨.count table.size, table, entries, rfl, ?_, represents⟩
      rw [represents.size_eq]
      exact .counted

theorem run (represents : table.Represents capacity entries)
    (requests : List (Request Object Kind)) :
    ∃ answers after further, requests.mapM (Request.serve kindOf) table = .done answers after ∧
      Entries.Run kindOf capacity entries requests answers further ∧
      after.Represents capacity further := by
  induction requests generalizing table entries with
  | nil => exact ⟨[], table, entries, rfl, .nil entries, represents⟩
  | cons request requests ih =>
      obtain ⟨answer, middle, between, served, step, represents⟩ := represents.step request
      obtain ⟨answers, after, further, ran, run, represents⟩ := ih represents
      exact ⟨answer :: answers, after, further,
        Action.mapM_cons_eq_done.mpr ⟨answer, middle, answers, served, ran, rfl⟩,
        .cons step run, represents⟩

end Represents

/-- A new table answers every sequence of requests, and as a bounded map does that is empty at
first. -/
theorem serves_as_map (within : capacity ≤ Handle.indexLimit)
    (requests : List (Request Object Kind)) :
    ∃ table answers after entries, create capacity = .ok table ∧
      requests.mapM (Request.serve kindOf) table = .done answers after ∧
      Entries.Run kindOf capacity ∅ requests answers entries := by
  have created : create capacity = .ok (⟨capacity, #[], [], 1⟩ : HandleTable Object) :=
    if_pos within
  obtain ⟨answers, after, entries, ran, run, _⟩ := (Represents.of_create created).run requests
  exact ⟨_, answers, after, entries, created, ran, run⟩

/-- Objects that are numbers or texts, of which the table has room for one. -/
def sampleRequests : List (Request (Nat ⊕ String) Bool) := [
  .add (.inl 7), .add (.inr "nine"), .getOfKind ⟨0x8000⟩ false, .getOfKind ⟨0x8000⟩ true,
  .remove ⟨0x8000⟩, .getOfKind ⟨0x8000⟩ true, .size]

theorem serves_as_map_of_one_entry : ∃ table answers after entries, create 1 = .ok table ∧
    sampleRequests.mapM (Request.serve Sum.isLeft) table = .done answers after ∧
    Entries.Run Sum.isLeft 1 ∅ sampleRequests answers entries :=
  serves_as_map (by decide) sampleRequests

end GuestMemory.HandleTable
