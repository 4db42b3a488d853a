import GuestMemory.Proofs.AddressSpace.Ownership

/-!
Pairing: as long as code aliases are made and taken away only as such, every one has a lent page of
its address space with the same frame, and every lent page has an alias.
-/

namespace GuestMemory

open MemoryState

/-- The page is neither a code alias nor lent out. -/
structure Page.Bystander (page : Page) : Prop where
  unaliased : ¬ page.properties.state.IsAlias
  unlent : page.properties ≠ .lent

theorem Page.bystander_blank : Page.blank.Bystander :=
  ⟨show ¬ IsAlias .free by decide, fun same => nomatch same⟩

theorem Page.bystander_of_plain {page : Page} {state : MemoryState} {permission : KernelPermission}
    (plain : page.properties = .plain state permission) (unaliased : ¬ state.IsAlias) :
    page.Bystander :=
  ⟨by rw [plain]; exact unaliased, by rw [plain]; exact Properties.plain_ne_lent⟩

namespace AddressSpace

variable {space moved : AddressSpace} {attached : AttachedSpace} {direct : MemoryState → Prop}
variable {first count destination source : Nat} {frames : List Nat}

structure Paired (space : AddressSpace) : Prop where
  lender : ∀ {number frame}, (space.page number).Plays IsAlias frame →
    ∃ source, space.page source = .lent frame
  aliased : ∀ {number frame}, space.page number = .lent frame →
    ∃ destination, (space.page destination).Plays IsAlias frame
  placed : ∀ {number frame}, (space.page number).Plays IsAlias frame →
    space.layout.canContain (number * pageSize) pageSize .aliasCode = .ok true

namespace Paired

theorem of_create {id : Nat} {layout : Layout} (paged : layout.Paged) :
    (create id layout).Paired := by
  refine ⟨fun {number _} plays => ?_, fun {number _} lent => ?_, fun {number _} plays => ?_⟩
  · rw [page_create paged] at plays
    exact (Page.Plays.not_blank plays).elim
  · rw [page_create paged] at lent
    cases lent
  · rw [page_create paged] at plays
    exact (Page.Plays.not_blank plays).elim

/-- Where neither aliases nor lent pages come or go, all stay paired. -/
theorem congr (paired : space.Paired) (layout : moved.layout = space.layout)
    (aliases : ∀ number frame, (moved.page number).Plays IsAlias frame ↔
      (space.page number).Plays IsAlias frame)
    (lent : ∀ number frame, moved.page number = .lent frame ↔ space.page number = .lent frame) :
    moved.Paired := by
  refine ⟨fun plays => ?_, fun shown => ?_, fun plays => ?_⟩
  · obtain ⟨source, shown⟩ := paired.lender ((aliases _ _).mp plays)
    exact ⟨source, (lent _ _).mpr shown⟩
  · obtain ⟨destination, plays⟩ := paired.aliased ((lent _ _).mp shown)
    exact ⟨destination, (aliases _ _).mpr plays⟩
  · rw [layout]
    exact paired.placed ((aliases _ _).mp plays)

theorem of_bystanders (paired : space.Paired) (layout : moved.layout = space.layout)
    (changed : ∀ number, Within first count number →
      (space.page number).Bystander ∧ (moved.page number).Bystander)
    (same : ∀ number, ¬ Within first count number → moved.page number = space.page number) :
    moved.Paired := by
  refine paired.congr layout (fun number frame => ?_) fun number frame => ?_
  all_goals by_cases inside : Within first count number
  · obtain ⟨before, after⟩ := changed number inside
    exact iff_of_false (fun plays => after.unaliased plays.2) fun plays => before.unaliased plays.2
  · rw [same number inside]
  · obtain ⟨before, after⟩ := changed number inside
    exact iff_of_false (fun shown => after.unlent (congrArg Page.properties shown))
      fun shown => before.unlent (congrArg Page.properties shown)
  · rw [same number inside]

theorem lent (paired : space.Paired) (layout : moved.layout = space.layout)
    (placed : ∀ number, Within destination frames.length number →
      space.layout.canContain (number * pageSize) pageSize .aliasCode = .ok true)
    (aliased : Aliased space moved destination source frames) : moved.Paired := by
  refine ⟨fun plays => ?_, fun shown => ?_, fun plays => ?_⟩
  · rcases aliased.isAlias_iff.mp plays with old | ⟨offset, listed, _⟩
    · obtain ⟨lender, shown⟩ := paired.lender old
      exact ⟨lender, aliased.lent_iff.mpr (.inl shown)⟩
    · exact ⟨source + offset, (aliased.source_at listed).2.2⟩
  · rcases aliased.lent_iff.mp shown with old | ⟨offset, listed, _⟩
    · obtain ⟨view, plays⟩ := paired.aliased old
      exact ⟨view, aliased.isAlias_iff.mpr (.inl plays)⟩
    · exact ⟨destination + offset, (aliased.destination_at listed).2⟩
  · rw [layout]
    rcases aliased.isAlias_iff.mp plays with old | ⟨offset, listed, rfl⟩
    · exact paired.placed old
    · have bounded := (List.getElem?_eq_some_iff.mp listed).1
      exact placed _ ⟨Nat.le_add_right _ _, by omega⟩

/-- Memory is given back together with its aliases: no other page shows its frames as an alias or
owns them. -/
theorem returned (paired : space.Paired) (exclusive : Exclusive space.page)
    (layout : moved.layout = space.layout)
    (aliased : Aliased moved space destination source frames) : moved.Paired := by
  refine ⟨fun plays => ?_, fun shown => ?_, fun plays => ?_⟩
  · have old := aliased.isAlias_iff.mpr (.inl plays)
    obtain ⟨lender, shown⟩ := paired.lender old
    rcases aliased.lent_iff.mp shown with still | ⟨offset, listed, rfl⟩
    · exact ⟨lender, still⟩
    -- Had the lender been given back, the alias would be the one that went with it.
    · obtain ⟨vacant, showing⟩ := aliased.destination_at listed
      obtain rfl := exclusive.aliased old showing
      rw [vacant] at plays
      exact (Page.Plays.not_blank plays).elim
  · have old := aliased.lent_iff.mpr (.inl shown)
    obtain ⟨view, plays⟩ := paired.aliased old
    rcases aliased.isAlias_iff.mp plays with still | ⟨offset, listed, rfl⟩
    · exact ⟨view, still⟩
    · obtain ⟨_, unlent, lender⟩ := aliased.source_at listed
      obtain rfl := exclusive.owner (.of_eq_lent old) (.of_eq_lent lender)
      exact absurd (congrArg Page.properties shown) unlent
  · rw [layout]
    exact paired.placed (aliased.isAlias_iff.mpr (.inl plays))

theorem move (paired : space.Paired) (exclusive : Exclusive space.page) {resources : Resources}
    (apart : ∀ state, direct state → ¬ state.IsAlias) (layout : moved.layout = space.layout)
    (move : Move direct ⟨space, resources⟩ moved) : moved.Paired := by
  cases move with
  | mapped used _ own vacant shown same =>
      refine paired.of_bystanders layout (fun number inside => ?_) same
      rw [vacant number inside]
      refine ⟨Page.bystander_blank, Page.bystander_of_plain (shown.kind_of_within inside) ?_⟩
      obtain rfl | ⟨allowed, _⟩ := own
      · decide
      · exact apart _ allowed
  | unmapped plain vacant same =>
      refine paired.of_bystanders layout (fun number inside => ?_) same
      rw [vacant number inside]
      obtain ⟨state, permission, allowed, properties⟩ := plain number inside
      refine ⟨Page.bystander_of_plain properties ?_, Page.bystander_blank⟩
      obtain rfl | allowed := allowed
      · decide
      · exact apart _ allowed
  | @reprotected first count permission _ changed same =>
      refine paired.congr layout (fun number frame => ?_) fun number frame => ?_
      all_goals by_cases inside : Within first count number
      -- A code alias becomes data at most, and a lent page cannot be reprotected.
      · obtain ⟨state, old, _, properties, page⟩ := changed number inside
        rw [Page.Plays, Page.Plays, page, properties]
        exact and_congr_right fun _ => afterReprotect_isAlias state permission
      · rw [same number inside]
      · obtain ⟨state, old, _, properties, page⟩ := changed number inside
        refine iff_of_false (fun shown => ?_) fun shown => ?_
        · exact Properties.plain_ne_lent (congrArg Page.properties (page.symm.trans shown))
        · exact Properties.plain_ne_lent (properties.symm.trans (congrArg Page.properties shown))
      · rw [same number inside]
  | lent _ placed aliased _ => exact paired.lent layout placed aliased
  | returned aliased _ => exact paired.returned exclusive layout aliased

end Paired

end AddressSpace

end GuestMemory
