import Optionia.Analytics.Service
/-!
# What a tenant's analytics depend on

A query that reaches its rows through a tenant's stores reads rows the tenant
owns, and gives the same over these alone (`selectionsOf_owned`,
`neverChosen_owned`). Two joins go past them: option sets are joined by the id
a plugin reported, and the orders of a set's store by the store the set names.
So the summary is the tenant's own where the sets it reports and the stores its
sets name are its own, and nowhere else (`own_data_alone_iff`).
-/

namespace Optionia.Analytics

open Query

variable (collate : String → String) (tenantId : ℕ) (d : Db)

/-! ## What is owned stays owned -/

theorem stores_owned : (owned collate tenantId d).stores.filter (fun s => s.tenantId = tenantId) =
    d.stores.filter fun s => s.tenantId = tenantId := by
  unfold owned
  rw [List.filter_filter]
  exact List.filter_congr fun s _ => Bool.and_self _

variable {storeId : ℕ} {e : OrderEvent}

theorem ownsStore_iff : ownsStore tenantId d storeId = true ↔
    ∃ s ∈ d.stores.filter (fun s => s.tenantId = tenantId), s.id = storeId := by
  unfold ownsStore
  rw [List.any_eq_true]
  constructor
  · rintro ⟨s, hs, hmine⟩
    obtain ⟨hid, htenant⟩ := of_decide_eq_true hmine
    exact ⟨s, List.mem_filter.2 ⟨hs, decide_eq_true htenant⟩, hid⟩
  · rintro ⟨s, hs, hid⟩
    obtain ⟨hmem, htenant⟩ := List.mem_filter.1 hs
    exact ⟨s, hmem, decide_eq_true ⟨hid, of_decide_eq_true htenant⟩⟩

theorem ownsStore_owned (storeId : ℕ) :
    ownsStore tenantId (owned collate tenantId d) storeId = ownsStore tenantId d storeId := by
  rw [Bool.eq_iff_iff, ownsStore_iff, ownsStore_iff, stores_owned]

variable {tenantId d}

theorem mem_eventsOf :
    e ∈ eventsOf tenantId d ↔ e ∈ d.orderEvents ∧ ownsStore tenantId d e.storeId = true := by
  unfold eventsOf
  rw [List.mem_map, ownsStore_iff]
  constructor
  · rintro ⟨r, hr, rfl⟩
    obtain ⟨he, hs, hon⟩ := mem_join.1 hr
    exact ⟨he, r.2, hs, of_decide_eq_true hon⟩
  · rintro ⟨he, s, hs, hid⟩
    exact ⟨(e, s), mem_join.2 ⟨he, hs, decide_eq_true hid⟩, rfl⟩

theorem ownsEvent_of {orderEventId : ℕ} (he : e ∈ eventsOf tenantId d) (hid : e.id = orderEventId) :
    ownsEvent tenantId d orderEventId = true := by
  obtain ⟨hmem, hstore⟩ := mem_eventsOf.1 he
  unfold ownsEvent
  rw [List.any_eq_true]
  exact ⟨e, hmem, by rw [decide_eq_true hid, hstore]; rfl⟩

variable (tenantId d)

theorem eventsOf_owned : eventsOf tenantId (owned collate tenantId d) = eventsOf tenantId d := by
  unfold eventsOf
  rw [stores_owned]
  refine congrArg (List.map Prod.fst) (join_filter_left fun e _ s hs hon => ?_)
  exact (ownsStore_iff tenantId d).2 ⟨s, hs, of_decide_eq_true hon⟩

/-- **So are its selections.** -/
theorem selectionsOf_owned :
    selectionsOf tenantId (owned collate tenantId d) = selectionsOf tenantId d := by
  unfold selectionsOf
  rw [eventsOf_owned]
  exact join_filter_left fun sel _ e he hon => ownsEvent_of he (of_decide_eq_true hon)

theorem viewsOf_owned : viewsOf tenantId (owned collate tenantId d) = viewsOf tenantId d := by
  unfold viewsOf
  rw [stores_owned]
  refine congrArg (List.map Prod.fst) (join_filter_left fun vc _ s hs hon => ?_)
  exact (ownsStore_iff tenantId d).2 ⟨s, hs, of_decide_eq_true hon⟩

theorem carriesOptions_owned (he : e ∈ eventsOf tenantId d) :
    carriesOptions (owned collate tenantId d) e = carriesOptions d e := by
  unfold carriesOptions
  rw [Bool.eq_iff_iff, List.any_eq_true, List.any_eq_true]
  constructor
  · rintro ⟨sel, hsel, hon⟩
    exact ⟨sel, (List.mem_filter.1 hsel).1, hon⟩
  · rintro ⟨sel, hsel, hon⟩
    exact ⟨sel, List.mem_filter.2 ⟨hsel, ownsEvent_of he (of_decide_eq_true hon).symm⟩, hon⟩

theorem productRows_owned :
    productRows collate tenantId (owned collate tenantId d) = productRows collate tenantId d := by
  unfold productRows
  rw [selectionsOf_owned]
  refine leftJoin_filter fun r hr p _ hon => ?_
  -- A product that is joined is of the store the order was placed in.
  have he := (mem_join.1 (List.mem_filter.1 hr).1).2.1
  rw [(of_decide_eq_true hon).2]
  exact (mem_eventsOf.1 he).2

theorem ownsSet_iff {optionSetId : String} : ownsSet collate tenantId d optionSetId = true ↔
    ∃ os ∈ d.optionSets, collate os.id = collate optionSetId ∧ os.tenantId = tenantId := by
  unfold ownsSet
  rw [List.any_eq_true]
  exact exists_congr fun os => and_congr_right fun _ => decide_eq_true_iff

theorem ownsSet_owned (optionSetId : String) :
    ownsSet collate tenantId (owned collate tenantId d) optionSetId =
      ownsSet collate tenantId d optionSetId := by
  rw [Bool.eq_iff_iff, ownsSet_iff, ownsSet_iff]
  constructor
  · rintro ⟨os, hos, hid, htenant⟩
    exact ⟨os, (List.mem_filter.1 hos).1, hid, htenant⟩
  · rintro ⟨os, hos, hid, htenant⟩
    exact ⟨os, List.mem_filter.2 ⟨hos, decide_eq_true htenant⟩, hid, htenant⟩

theorem liveOptions_owned :
    liveOptions collate tenantId (owned collate tenantId d) = liveOptions collate tenantId d := by
  have hsets : (owned collate tenantId d).optionSets.filter
      (fun os => decide (os.tenantId = tenantId) && os.live) =
      d.optionSets.filter fun os => decide (os.tenantId = tenantId) && os.live := by
    unfold owned
    rw [List.filter_filter]
    refine List.filter_congr fun os _ => ?_
    cases decide (os.tenantId = tenantId) <;> simp
  have hgroups : join (fun os g => decide (collate g.optionSetId = collate os.id) && g.live)
      (d.optionSets.filter fun os => decide (os.tenantId = tenantId) && os.live)
      (owned collate tenantId d).optionGroups =
      join (fun os g => decide (collate g.optionSetId = collate os.id) && g.live)
        (d.optionSets.filter fun os => decide (os.tenantId = tenantId) && os.live)
        d.optionGroups := by
    refine join_filter_right fun os hos g _ hon => ?_
    obtain ⟨hmem, hmine⟩ := List.mem_filter.1 hos
    rw [Bool.and_eq_true] at hon hmine
    exact (ownsSet_iff collate tenantId d).2
      ⟨os, hmem, (of_decide_eq_true hon.1).symm, of_decide_eq_true hmine.1⟩
  unfold liveOptions
  rw [hsets, hgroups]
  refine join_filter_right fun r hr o _ hon => ?_
  obtain ⟨hos, hg, hmeet⟩ := mem_join.1 hr
  obtain ⟨hmem, hmine⟩ := List.mem_filter.1 hos
  rw [Bool.and_eq_true] at hon hmeet hmine
  have hset : ownsSet collate tenantId d r.2.optionSetId = true :=
    (ownsSet_iff collate tenantId d).2
      ⟨r.1, hmem, (of_decide_eq_true hmeet.1).symm, of_decide_eq_true hmine.1⟩
  unfold ownsGroup
  rw [List.any_eq_true]
  exact ⟨r.2, hg, by rw [decide_eq_true (of_decide_eq_true hon.1).symm, hset]; rfl⟩

theorem chosen_iff {key : String} : chosen collate d storeId key = true ↔
    ∃ sel ∈ d.orderSelections, ∃ e ∈ d.orderEvents, e.id = sel.orderEventId ∧
      collate sel.optionKey = collate key ∧ e.storeId = storeId := by
  unfold chosen
  rw [List.any_eq_true]
  constructor
  · rintro ⟨r, hr, hnames⟩
    obtain ⟨hsel, he, hon⟩ := mem_join.1 hr
    exact ⟨r.1, hsel, r.2, he, of_decide_eq_true hon, of_decide_eq_true hnames⟩
  · rintro ⟨sel, hsel, e, he, hon, hnames⟩
    exact ⟨(sel, e), mem_join.2 ⟨hsel, he, decide_eq_true hon⟩, decide_eq_true hnames⟩

theorem chosen_owned (hstore : ownsStore tenantId d storeId = true) (key : String) :
    chosen collate (owned collate tenantId d) storeId key = chosen collate d storeId key := by
  rw [Bool.eq_iff_iff, chosen_iff, chosen_iff]
  constructor
  · rintro ⟨sel, hsel, e, he, h⟩
    exact ⟨sel, (List.mem_filter.1 hsel).1, e, (List.mem_filter.1 he).1, h⟩
  · rintro ⟨sel, hsel, e, he, hon, hkey, rfl⟩
    have hevent : e ∈ eventsOf tenantId d := mem_eventsOf.2 ⟨he, hstore⟩
    exact ⟨sel, List.mem_filter.2 ⟨hsel, ownsEvent_of hevent hon⟩, e,
      List.mem_filter.2 ⟨he, hstore⟩, hon, hkey, rfl⟩

/-! ## What is reported is owned -/

/-- **What a tenant's rows refer to is its own**: the sets its selections report,
and the stores of its sets. -/
structure OwnReferences : Prop where
  /-- A set that a selection reports is one of its sets. -/
  sets : ∀ r ∈ selectionsOf tenantId d, ∀ id, r.1.optionSetId = some id →
    ownsSet collate tenantId d id = true
  /-- The store of a set that shows an option is one of its stores. -/
  stores : ∀ r ∈ liveOptions collate tenantId d, ownsStore tenantId d r.1.1.storeId = true

theorem ownReferences_owned : OwnReferences collate tenantId (owned collate tenantId d) ↔
    OwnReferences collate tenantId d := by
  constructor
  · rintro ⟨hsets, hstores⟩
    rw [selectionsOf_owned] at hsets
    rw [liveOptions_owned] at hstores
    refine ⟨fun r hr id hid => ?_, fun r hr => ?_⟩
    · rw [← ownsSet_owned]
      exact hsets r hr id hid
    · rw [← ownsStore_owned collate]
      exact hstores r hr
  · rintro ⟨hsets, hstores⟩
    refine ⟨fun r hr id hid => ?_, fun r hr => ?_⟩
    · rw [selectionsOf_owned] at hr
      rw [ownsSet_owned]
      exact hsets r hr id hid
    · rw [liveOptions_owned] at hr
      rw [ownsStore_owned]
      exact hstores r hr

variable {collate tenantId d}

theorem neverChosen_owned (h : OwnReferences collate tenantId d) :
    neverChosen collate tenantId (owned collate tenantId d) = neverChosen collate tenantId d := by
  unfold neverChosen
  rw [liveOptions_owned]
  refine List.filter_congr fun r hr => ?_
  rw [chosen_owned collate tenantId d (h.stores r hr)]

theorem setRows_owned (hd : Kept collate d) (h : OwnReferences collate tenantId d) :
    setRows collate tenantId (owned collate tenantId d) = setRows collate tenantId d := by
  unfold setRows
  rw [selectionsOf_owned]
  refine join_filter_right fun r hr os hos hon => ?_
  obtain ⟨hsel, hsome⟩ := List.mem_filter.1 hr
  obtain ⟨id, hid⟩ := Option.isSome_iff_exists.1 hsome
  rw [Bool.and_eq_true, decide_eq_true_iff, hid, Option.getD_some] at hon
  obtain ⟨mine, hmine, hsame, htenant⟩ := (ownsSet_iff collate tenantId d).1 (h.sets r hsel id hid)
  -- Two sets of one id are one set.
  obtain rfl : mine = os :=
    List.inj_on_of_nodup_map hd.setIds hmine hos (hsame.trans hon.1.symm)
  exact decide_eq_true htenant

theorem exportOptionRevenue_owned :
    exportOptionRevenue collate tenantId (owned collate tenantId d) =
      exportOptionRevenue collate tenantId d := by
  unfold exportOptionRevenue optionsSold currency
  rw [selectionsOf_owned, eventsOf_owned]

/-- **The summary is the tenant's own**, where what it refers to is. -/
theorem summary_owned (hd : Kept collate d) (h : OwnReferences collate tenantId d) (now : ℤ) :
    summary collate now tenantId (owned collate tenantId d) = summary collate now tenantId d := by
  have hcarrying : (eventsOf tenantId d).filter (carriesOptions (owned collate tenantId d)) =
      (eventsOf tenantId d).filter (carriesOptions d) :=
    List.filter_congr fun e he => carriesOptions_owned collate tenantId d he
  have hbare : ((eventsOf tenantId d).filter fun e => !carriesOptions (owned collate tenantId d) e) =
      (eventsOf tenantId d).filter fun e => !carriesOptions d e :=
    List.filter_congr fun e he => congrArg (!·) (carriesOptions_owned collate tenantId d he)
  have hattach : attachRate tenantId (owned collate tenantId d) = attachRate tenantId d := by
    unfold attachRate
    dsimp only
    rw [eventsOf_owned, hcarrying, hbare]
  have htrend : revenueTrend now tenantId (owned collate tenantId d) 30 =
      revenueTrend now tenantId d 30 := by
    unfold revenueTrend
    dsimp only
    rw [eventsOf_owned, hcarrying]
  unfold summary
  rw [hattach, htrend]
  unfold optionRevenue optionsSold valueRevenue deadOptions optionConversion viewed bought
    productRevenue unattributedProducts optionSetRevenue unattributedSelections currency
  rw [neverChosen_owned h, setRows_owned hd h, selectionsOf_owned, viewsOf_owned,
    productRows_owned, eventsOf_owned]

end Optionia.Analytics
