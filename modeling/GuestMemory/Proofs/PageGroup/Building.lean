import GuestMemory.Proofs.PageGroup.Requests
import GuestMemory.Proofs.Run.NormalForm

/-!
What a group has been built of. Adding runs keeps the runs of a group in normal form, so they tell
which frames have been added and in which order, but not how these have been cut into runs.
-/

namespace GuestMemory

open GuestMemory.Action

variable {runs more : List Run} {run : Run}

namespace PageGroup

/-- A run that is not empty and needs no descriptor follows the last one. -/
theorem follows_of_not_opens (nonempty : run.pages ≠ 0) (closed : ¬ Opens runs run) :
    ∃ front last, runs = front ++ [last] ∧ last.stop = run.address := by
  rw [Opens, not_and_or, not_not, or_iff_right nonempty] at closed
  push Not at closed
  obtain ⟨last, ends, follows⟩ := closed
  obtain ⟨front, rfl⟩ := List.getLast?_eq_some_iff.mp ends
  exact ⟨front, last, rfl, follows⟩

theorem addressesOf_appended :
    Run.addressesOf (appended runs run) = Run.addressesOf runs ++ run.addresses := by
  by_cases empty : run.pages = 0
  · rw [appended, if_pos empty, Run.addresses_of_empty empty, List.append_nil]
  by_cases opens : Opens runs run
  · rw [appended_of_opens opens]
    simp
  · obtain ⟨front, last, rfl, follows⟩ := follows_of_not_opens empty opens
    rw [appended_of_follows empty follows]
    simp [Run.addresses_extend follows]

theorem normal_appended (normal : Run.Normal runs) : Run.Normal (appended runs run) := by
  by_cases empty : run.pages = 0
  · rwa [appended, if_pos empty]
  by_cases opens : Opens runs run
  · rw [appended_of_opens opens]
    refine ⟨List.forall_mem_append.mpr ⟨normal.nonempty, by simpa using empty⟩, ?_⟩
    refine List.isChain_append.mpr ⟨normal.apart, List.isChain_singleton _, ?_⟩
    rintro last ends next ⟨⟩
    exact opens.2 last ends
  · obtain ⟨front, last, rfl, follows⟩ := follows_of_not_opens empty opens
    rw [appended_of_follows empty follows]
    obtain ⟨before, _, apart⟩ := List.isChain_append.mp normal.apart
    refine ⟨List.forall_mem_append.mpr
      ⟨(List.forall_mem_append.mp normal.nonempty).1, by simp [empty]⟩, ?_⟩
    -- The longer run starts where the last one did, so it follows none either.
    refine List.isChain_append.mpr ⟨before, List.isChain_singleton _, ?_⟩
    rintro previous ends next ⟨⟩
    exact apart previous ends last rfl

/-- The runs of a group to which the given ones have been added. -/
def joined (added : List Run) : List Run :=
  added.foldl appended []

theorem normal_joined (added : List Run) : Run.Normal (joined added) :=
  List.foldlRecOn added appended Run.normal_nil fun _ normal _ _ => normal_appended normal

theorem addressesOf_joined (added : List Run) :
    Run.addressesOf (joined added) = Run.addressesOf added := by
  suffices general : ∀ runs, Run.addressesOf (added.foldl appended runs) =
      Run.addressesOf runs ++ Run.addressesOf added from general []
  induction added with
  | nil => simp
  | cons run rest ih =>
      intro runs
      rw [List.foldl_cons, ih, addressesOf_appended, Run.addressesOf_cons, List.append_assoc]

/-- What a request and its answer add to the group under a number. -/
def Request.addition (index : Nat) : Request → Answer → List Run
  | .add other run, .done => if other = index then [run] else []
  | _, _ => []

/-- The runs that have been added to the group under a number, in order. -/
def additions (index : Nat) (requests : List Request) (answers : List Answer) : List Run :=
  (List.zipWith (Request.addition index) requests answers).flatten

/-- The descriptors in use are divided among the groups, and each group has the runs that come of
those added to it. -/
structure Built (capacity : Nat) (added : Nat → List Run) (groups : Groups) : Prop where
  divided : Divided capacity groups.live groups.resources.descriptors
  contents_eq : ∀ index group, groups.slots[index]? = some (some group) →
    group.contents groups.resources.descriptors = joined (added index)
  unused : ∀ index, groups.slots.length ≤ index → added index = []

variable {groups reached : Groups} {group : PageGroup} {left : Option PageGroup}
variable {resources after : Resources} {pool : DescriptorPool}
variable {capacity index : Nat} {added : Nat → List Run} {slots : List (Option PageGroup)}
variable {request : Request} {requests : List Request} {answer : Answer} {answers : List Answer}

/-- What happens to one group, whatever is left of it, concerns the nodes of no other. -/
theorem divided_of_set (divided : Divided capacity slots.reduceOption pool)
    (slot : slots[index]? = some (some group)) {changed : DescriptorPool}
    (change : ∀ others, Divided capacity (group :: others) pool →
      Divided capacity (left.toList ++ others) changed ∧
        ∀ other ∈ others, other.contents changed = other.contents pool) :
    Divided capacity (slots.set index left).reduceOption changed ∧
      ∀ position other, position ≠ index → slots[position]? = some (some other) →
        other.contents changed = other.contents pool := by
  obtain ⟨front, back, rfl, rfl, _, before, later⟩ := exists_of_slot slot left
  obtain ⟨whole, same⟩ := change _ (divided.perm (before ▸ List.perm_middle))
  rw [later]
  refine ⟨whole.perm (List.perm_append_comm_assoc _ _ _), fun position other elsewhere there => ?_⟩
  refine same other (List.mem_append.mpr ?_)
  rcases Nat.lt_or_gt_of_ne elsewhere with early | late
  · rw [List.getElem?_append_left early] at there
    exact .inl (List.reduceOption_mem_iff.mpr (List.mem_of_getElem? there))
  · obtain ⟨behind, further⟩ := Nat.exists_eq_succ_of_ne_zero (Nat.sub_ne_zero_of_lt late)
    rw [List.getElem?_append_right (Nat.le_of_lt late), further, List.getElem?_cons_succ] at there
    exact .inr (List.reduceOption_mem_iff.mpr (List.mem_of_getElem? there))

namespace Built

theorem of_ofCapacity {frames : FramePool} {cache : InstructionCache} (capacity : Nat) :
    Built capacity (fun _ => []) ⟨[], ⟨.ofCapacity capacity, frames, cache⟩⟩ where
  divided := divided_ofCapacity capacity
  contents_eq := fun _ _ slot => by cases slot
  unused := fun _ _ => rfl

theorem create (built : Built capacity added groups) :
    Built capacity added { groups with slots := groups.slots ++ [some .empty] } where
  divided := divided_create built.divided
  contents_eq := fun index group slot => by
    by_cases here : index < groups.slots.length
    · rw [List.getElem?_append_left here] at slot
      exact built.contents_eq index group slot
    · rw [List.getElem?_append_right (Nat.le_of_not_lt here), List.getElem?_singleton] at slot
      split at slot <;> cases slot
      rw [built.unused index (Nat.le_of_not_lt here)]
      rfl
  unused := fun index beyond => built.unused index (by simp at beyond; omega)

/-- Requests past the groups leave those alone. -/
theorem reframe (built : Built capacity added groups) (frames : FramePool) :
    Built capacity added
      { groups with resources := { groups.resources with frames } } :=
  ⟨built.divided, built.contents_eq, built.unused⟩

theorem replace (built : Built capacity added groups)
    (slot : groups.slots[index]? = some (some group))
    (change : ∀ others, Divided capacity (group :: others) groups.resources.descriptors →
      Divided capacity (left.toList ++ others) after.descriptors ∧
        (∀ other ∈ others, other.contents after.descriptors =
          other.contents groups.resources.descriptors) ∧
        ∀ grown ∈ left, grown.contents after.descriptors =
          more.foldl appended (group.contents groups.resources.descriptors)) :
    Built capacity (fun other => added other ++ if index = other then more else [])
      ⟨groups.slots.set index left, after⟩ := by
  obtain ⟨divided, same⟩ := divided_of_set built.divided slot
    fun others whole => (change others whole).imp_right And.left
  have inside : index < groups.slots.length := (List.getElem?_eq_some_iff.mp slot).1
  refine ⟨divided, fun position other there => ?_, fun position beyond => ?_⟩
  · by_cases here : index = position
    · subst here
      rw [List.getElem?_set_self inside, Option.some_inj] at there
      obtain ⟨_, _, grows⟩ := change _ (built.divided.perm
        (List.perm_cons_erase (List.reduceOption_mem_iff.mpr (List.mem_of_getElem? slot))))
      rw [grows other there, built.contents_eq index group slot, if_pos rfl, joined, joined,
        List.foldl_append]
    · rw [List.getElem?_set_ne here] at there
      rw [same position other (Ne.symm here) there, built.contents_eq position other there,
        if_neg here, List.append_nil]
  · rw [List.length_set] at beyond
    rw [built.unused position beyond, if_neg (by omega)]
    rfl

/-- A request to a group that is not there, or that is turned down, adds nothing. -/
theorem onGroup (built : Built capacity added groups) (more : List Run)
    {action : PageGroup → Action Resources (Option PageGroup)}
    (first : ∀ group, RefusesFirst (action group))
    (served : PageGroup.onGroup index action groups = .done answer reached)
    (adds : ∀ other, request.addition other answer =
      if answer = .done ∧ index = other then more else [])
    (change : ∀ group left after others,
      Divided capacity (group :: others) groups.resources.descriptors →
      action group groups.resources = .done left after →
      Divided capacity (left.toList ++ others) after.descriptors ∧
        (∀ other ∈ others, other.contents after.descriptors =
          other.contents groups.resources.descriptors) ∧
        ∀ grown ∈ left, grown.contents after.descriptors =
          more.foldl appended (group.contents groups.resources.descriptors)) :
    Built capacity (fun other => added other ++ request.addition other answer) reached := by
  simp only [adds]
  rcases onGroup_eq_done served with ⟨rfl, rfl, _⟩ |
    ⟨group, slot, ⟨left, after, done, rfl, rfl⟩ | ⟨cause, after, refused, rfl, rfl⟩⟩
  · simpa using built
  · simpa using built.replace slot fun others whole => change group left after others whole done
  · rw [first group _ _ _ trivial refused]
    simpa using built

/-- A group that only changes how often it holds its frames keeps its nodes. -/
theorem onHeld (built : Built capacity added groups)
    (change : PageGroup → Resources → Checked (PageGroup × Resources))
    (served : PageGroup.onGroup index (fun group => PageGroup.change (change group)) groups =
      .done answer reached)
    (adds : ∀ other, request.addition other answer = [])
    (held : ∀ group after resources, change group groups.resources = .ok (after, resources) →
      (∃ holds, after = { group with holds }) ∧
        resources.descriptors = groups.resources.descriptors) :
    Built capacity (fun other => added other ++ request.addition other answer) reached := by
  refine built.onGroup [] (fun _ => (accepts_change _).restores) served
    (fun other => (adds other).trans (ite_self []).symm)
    fun group left after others divided done => ?_
  obtain ⟨grown, changed, rfl⟩ := change_eq_done done
  obtain ⟨⟨holds, rfl⟩, same⟩ := held group grown after changed
  rw [same]
  refine ⟨divided.hold holds, fun _ _ => rfl, ?_⟩
  rintro _ ⟨⟩
  rfl

theorem step (built : Built capacity added groups)
    (served : request.serve groups = .done answer reached) :
    Built capacity (fun index => added index ++ request.addition index answer) reached := by
  cases request with
  | create =>
      cases served
      simpa [Request.addition] using built.create
  | add index run =>
      refine built.onGroup [run] (fun group _ _ _ _ refused => (addRun_eq_refused refused).1)
        served (fun other => ?_) fun group left after others divided done => ?_
      · cases answer <;> simp [Request.addition]
      · obtain ⟨grown, descriptors, ended, rfl, rfl⟩ := addRun_eq_done done
        obtain ⟨_, _, _, grows, contents, same⟩ := divided.add ended
        refine ⟨grows, same, ?_⟩
        rintro _ ⟨⟩
        exact contents
  | retain index =>
      refine built.onHeld retain served (fun _ => rfl) fun group after resources retained => ?_
      obtain ⟨_, _, _, _, rfl, rfl⟩ := retain_eq_ok retained
      exact ⟨⟨_, rfl⟩, rfl⟩
  | release index =>
      refine built.onHeld release served (fun _ => rfl) fun group after resources released => ?_
      obtain ⟨_, _, _, _, _, _, rfl, rfl⟩ := release_eq_ok released
      exact ⟨⟨_, rfl⟩, rfl⟩
  | discard index =>
      refine built.onGroup []
        (fun group => ((Accepts.update _).bind fun _ => Accepts.pure _).restores) served
        (fun other => (ite_self []).symm) fun group left after others divided done => ?_
      obtain ⟨_, _, discarded, ended⟩ := bind_eq_done.mp done
      obtain ⟨rfl, rfl⟩ := pure_eq_done.mp ended
      obtain ⟨_, _, _, _, _, freed, rfl⟩ := discard_eq_ok (update_eq_done.mp discarded)
      obtain ⟨remaining, same⟩ := divided.leave freed
      exact ⟨remaining, same, nofun⟩
  | allocateFrames pages =>
      rw [Request.serve, onFrames, focus_eq_done] at served
      obtain ⟨frames, _, rfl⟩ := served
      simpa [Request.addition] using built.reframe frames
  | releaseFrames run =>
      rw [Request.serve, onFrames, focus_eq_done] at served
      obtain ⟨frames, _, rfl⟩ := served
      simpa [Request.addition] using built.reframe frames

/-- After any requests, each group has the runs that come of those added to it. -/
theorem steps (built : Built capacity added groups)
    (ran : requests.mapM Request.serve groups = .done answers reached) :
    Built capacity (fun index => added index ++ additions index requests answers) reached := by
  induction requests generalizing groups added answers with
  | nil =>
      obtain ⟨rfl, rfl⟩ := mapM_nil_eq_done.mp ran
      simpa [additions] using built
  | cons request requests ih =>
      obtain ⟨answer, middle, rest, served, others, rfl⟩ := mapM_cons_eq_done.mp ran
      simpa only [additions, List.zipWith_cons_cons, List.flatten_cons, List.append_assoc] using
        ih (built.step served) others

theorem runs_eq (built : Built capacity added groups)
    (slot : groups.slots[index]? = some (some group)) :
    group.runs groups.resources.descriptors = .ok (joined (added index)) := by
  rw [← built.contents_eq index group slot]
  exact built.divided.runs_eq (List.reduceOption_mem_iff.mpr (List.mem_of_getElem? slot))

end Built

/-- The runs of a group depend on nothing but the frames that have been added to it. Whatever else
is asked of the groups in between, the runs of each are in normal form and stand for the frames of
the runs that have been added, one after another; and two groups, of the same pool or not, have the
same runs exactly when the same frames have been added to them in the same order. The count of a
group is the sum of the counts that have been added, if that is a word; if it is not, to count the
frames is a fault. -/
theorem runs_depend_on_frames {otherCapacity otherIndex : Nat} {frames otherFrames : FramePool}
    {cache otherCache : InstructionCache} {others : List Request} {otherAnswers : List Answer}
    {elsewhere : Groups} {other : PageGroup}
    (ran : requests.mapM Request.serve ⟨[], ⟨.ofCapacity capacity, frames, cache⟩⟩ =
      .done answers reached)
    (slot : reached.slots[index]? = some (some group))
    (otherRan : others.mapM Request.serve
        ⟨[], ⟨.ofCapacity otherCapacity, otherFrames, otherCache⟩⟩ =
      .done otherAnswers elsewhere)
    (otherSlot : elsewhere.slots[otherIndex]? = some (some other)) :
    ∃ runs, group.runs reached.resources.descriptors = .ok runs ∧
      Run.Normal runs ∧
      Run.addressesOf runs = Run.addressesOf (additions index requests answers) ∧
      (((additions index requests answers).map (·.pages)).sum < wordLimit →
        group.pages reached.resources.descriptors =
          .ok ((additions index requests answers).map (·.pages)).sum) ∧
      (wordLimit ≤ ((additions index requests answers).map (·.pages)).sum →
        group.pages reached.resources.descriptors = .error .overflow) ∧
      ∃ otherRuns, other.runs elsewhere.resources.descriptors = .ok otherRuns ∧
        (runs = otherRuns ↔ Run.addressesOf (additions index requests answers) =
          Run.addressesOf (additions otherIndex others otherAnswers)) := by
  have listed := ((Built.of_ofCapacity capacity).steps ran).runs_eq slot
  have otherListed := ((Built.of_ofCapacity otherCapacity).steps otherRan).runs_eq otherSlot
  rw [List.nil_append] at listed otherListed
  have counted : group.pages reached.resources.descriptors =
      word ((additions index requests answers).map (·.pages)).sum := by
    rw [pages_eq_word listed, ← Run.length_addressesOf, addressesOf_joined, Run.length_addressesOf]
  refine ⟨_, listed, normal_joined _, addressesOf_joined _,
    fun few => counted.trans (word_of_lt few), fun many => counted.trans (word_of_le many),
    _, otherListed, ?_⟩
  · rw [← addressesOf_joined, ← addressesOf_joined (additions otherIndex others otherAnswers)]
    exact ⟨congrArg Run.addressesOf, (normal_joined _).eq_of_addressesOf (normal_joined _)⟩

/-- Two groups to which the same frames are added in other cuts, the first frame twice. -/
def cutRequests : List Request := [
  .create, .create, .add 0 ⟨0x80000000, 1⟩, .add 1 ⟨0x80000000, 2⟩, .add 0 ⟨0x80005000, 0⟩,
  .add 0 ⟨0x80001000, 1⟩, .add 1 ⟨0x80000000, 1⟩, .add 0 ⟨0x80000000, 1⟩]

theorem runs_depend_on_frames_of_cuts : ∃ answers reached group other runs,
    cutRequests.mapM Request.serve
        ⟨[], ⟨.ofCapacity 4, ⟨0x80000000, 8, [⟨0x80000000, 8⟩], ∅⟩, .ignoring⟩⟩ =
      .done answers reached ∧
    reached.slots = [some group, some other] ∧
    group.runs reached.resources.descriptors = .ok runs ∧
    other.runs reached.resources.descriptors = .ok runs ∧
    group.pages reached.resources.descriptors = .ok 3 := by
  have answered : (cutRequests.mapM Request.serve
      ⟨[], ⟨.ofCapacity 4, ⟨0x80000000, 8, [⟨0x80000000, 8⟩], ∅⟩, .ignoring⟩⟩).verdict =
        .ok (List.replicate 8 .done) := by
    decide +kernel
  have slots : Option.map (·.slots) (cutRequests.mapM Request.serve
      ⟨[], ⟨.ofCapacity 4, ⟨0x80000000, 8, [⟨0x80000000, 8⟩], ∅⟩, .ignoring⟩⟩).state? =
        some [some ⟨[0, 3], 0⟩, some ⟨[1, 2], 0⟩] := by
    decide +kernel
  obtain ⟨reached, ran⟩ := Outcome.verdict_eq_ok.mp answered
  rw [ran] at slots
  replace slots : reached.slots = _ := Option.some.inj slots
  have first : reached.slots[0]? = some (some ⟨[0, 3], 0⟩) := by rw [slots]; rfl
  have second : reached.slots[1]? = some (some ⟨[1, 2], 0⟩) := by rw [slots]; rfl
  obtain ⟨runs, listed, _, _, counted, _, others, otherListed, same_iff⟩ :=
    runs_depend_on_frames ran first ran second
  obtain rfl := same_iff.mpr (by decide +kernel)
  exact ⟨_, reached, _, _, runs, ran, slots, listed, otherListed, counted (by decide +kernel)⟩

/-- Separate runs can be added to a group, one after another, while there is a descriptor left for
each. -/
theorem adds_exist {before : DescriptorPool} {held : List Run}
    (occupies : Occupies before group held groups.resources.descriptors)
    (sound : groups.resources.descriptors.Sound) (unheld : group.holds = 0)
    (separate : Run.Separate (held ++ more))
    (room : more.length ≤ groups.resources.descriptors.free.length)
    (slot : groups.slots[index]? = some (some group)) :
    ∃ reached grown, (more.map (Request.add index)).mapM Request.serve groups =
        .done (more.map fun _ => .done) reached ∧
      reached.slots[index]? = some (some grown) ∧
      grown.runs reached.resources.descriptors = .ok (held ++ more) := by
  induction more generalizing groups group held with
  | nil => exact ⟨groups, group, rfl, slot, by rw [List.append_nil, occupies.held]⟩
  | cons run rest ih =>
      rw [List.append_cons] at separate ⊢
      cases free : groups.resources.descriptors.free with
      | nil =>
          rw [free] at room
          cases room
      | cons id left =>
          obtain ⟨grown, after, done, rest_free⟩ :
              ∃ grown after, group.addDescriptor run groups.resources.descriptors =
                .done grown after ∧ after.free = left := addDescriptor_of_free free
          have added := (occupies.add_eq_addDescriptor unheld separate.left).trans done
          obtain ⟨grows, holds⟩ := occupies.addDescriptor sound done
          have kept := keeps_addDescriptor _ _ sound (by rw [done]; rfl)
          have inside : index < groups.slots.length := (List.getElem?_eq_some_iff.mp slot).1
          obtain ⟨next, served, there, rfl⟩ : ∃ next,
              (Request.add index run).serve groups = .done .done next ∧
                next.slots[index]? = some (some grown) ∧ next.resources.descriptors = after := by
            refine ⟨⟨groups.slots.set index (some grown),
              { groups.resources with descriptors := after }⟩, ?_,
              List.getElem?_set_self inside, rfl⟩
            simp only [Request.serve, PageGroup.onGroup, slot, addRun, focus, bind_apply, added,
              pure_apply]
          rw [free, List.length_cons, List.length_cons] at room
          obtain ⟨reached, final, ran, last, runs⟩ :=
            ih grows kept (holds.trans unheld) separate (by rw [rest_free]; omega) there
          exact ⟨reached, final, mapM_cons_eq_done.mpr ⟨_, _, _, served, ran, rfl⟩, last, runs⟩

/-- The longest run from the first address on that ends before the last. -/
def longRun : Run := ⟨0, 0xFFFFFFFFFFFFF⟩

/-- So many of these, none of which follows another, have more frames than a word can count. -/
theorem pages_overflow_of_long_runs : longRun.stop < wordLimit ∧ ∃ reached group,
    (Request.create :: List.replicate 4097 (.add 0 longRun)).mapM Request.serve
        ⟨[], ⟨.ofCapacity 5000, ⟨0x80000000, 8, [⟨0x80000000, 8⟩], ∅⟩, .ignoring⟩⟩ =
      .done (.done :: List.replicate 4097 .done) reached ∧
    reached.slots[0]? = some (some group) ∧
    group.pages reached.resources.descriptors = .error .overflow := by
  have separate : Run.Separate ([] ++ List.replicate 4097 longRun) :=
    ⟨fun run member => by rw [List.eq_of_mem_replicate member]; decide,
      List.isChain_replicate_of_rel _ (by decide)⟩
  let created : Groups := ⟨[some .empty],
    ⟨.ofCapacity 5000, ⟨0x80000000, 8, [⟨0x80000000, 8⟩], ∅⟩, .ignoring⟩⟩
  have slot : created.slots[0]? = some (some .empty) := rfl
  have occupies : Occupies created.resources.descriptors .empty [] created.resources.descriptors :=
    .empty _
  have room : (List.replicate 4097 longRun).length ≤
      created.resources.descriptors.free.length := by
    rw [List.length_replicate, DescriptorPool.length_free_ofCapacity]
    decide
  obtain ⟨reached, group, ran, last, runs⟩ :=
    adds_exist occupies (DescriptorPool.sound_ofCapacity 5000) rfl separate room slot
  rw [List.map_replicate, List.map_replicate] at ran
  refine ⟨by decide, reached, group,
    mapM_cons_eq_done.mpr ⟨.done, created, _, rfl, ran, rfl⟩, last, ?_⟩
  rw [pages_eq_word runs, List.nil_append, List.map_replicate, List.sum_replicate_nat]
  exact word_of_le (by decide)

end PageGroup

end GuestMemory
