import Optionia.Analytics.OwnData
import Optionia.Lib.Keyed
/-!
# What a tenant's analytics tell of others

Where a tenant's selections report a set that is not its own, another tenant's
set of that id, there or not, live or not, makes a difference to the summary
(`exists_differing_set`); and where one of its sets names a store that is not
its own, so does an order placed there (`exists_differing_order`).
-/

namespace Optionia.Analytics

open Query

variable {collate : String → String} {tenantId : ℕ} {d d' : Db}

/-! ## What counts more -/

/-- **A set more is counted**: of two states with the same orders, one counts
more sets where it has the other's live sets and one more that is reported. -/
theorem optionSetRevenue_lt (hsame : selectionsOf tenantId d' = selectionsOf tenantId d)
    (hsets : ∀ os ∈ d.optionSets, os.live = true →
      ∃ os' ∈ d'.optionSets, collate os'.id = collate os.id ∧ os'.live = true)
    {r : OrderSelection × OrderEvent} (hr : r ∈ selectionsOf tenantId d) {id : String}
    (hid : r.1.optionSetId = some id)
    (hmore : ∃ os ∈ d'.optionSets, collate os.id = collate id ∧ os.live = true)
    (hnone : ∀ os ∈ d.optionSets, collate os.id = collate id → os.live = false) :
    (optionSetRevenue collate tenantId d).total < (optionSetRevenue collate tenantId d').total := by
  unfold optionSetRevenue capped setRows
  dsimp only
  rw [hsame]
  have hjoined : ∀ {os : OptionSet} {r : OrderSelection × OrderEvent} {id : String},
      r.1.optionSetId = some id →
      ((decide (collate os.id = collate (r.1.optionSetId.getD "")) && os.live) = true ↔
        collate os.id = collate id ∧ os.live = true) := by
    intro os r id hid
    rw [Bool.and_eq_true, decide_eq_true_iff, hid, Option.getD_some]
  obtain ⟨os', hos', hsame', hlive'⟩ := hmore
  have hnamed : r ∈ (selectionsOf tenantId d).filter fun r => r.1.optionSetId.isSome :=
    List.mem_filter.2 ⟨hr, by rw [hid]; rfl⟩
  refine countDistinct_lt (fun p hp => ?_) (b := (r, os'))
    (mem_join.2 ⟨hnamed, hos', (hjoined hid).2 ⟨hsame', hlive'⟩⟩) fun hmem => ?_
  · -- What is joined in the one is joined in the other.
    obtain ⟨hp1, hp2, hon⟩ := mem_join.1 hp
    obtain ⟨idp, hidp⟩ := Option.isSome_iff_exists.1 (List.mem_filter.1 hp1).2
    obtain ⟨hidOs, hlive⟩ := (hjoined hidp).1 hon
    obtain ⟨os, hos, hosId, hosLive⟩ := hsets p.2 hp2 hlive
    refine List.mem_map.2 ⟨(p.1, os), mem_join.2 ⟨hp1, hos, ?_⟩, rfl⟩
    exact (hjoined hidp).2 ⟨hosId.trans hidOs, hosLive⟩
  · obtain ⟨p, hp, hkey⟩ := List.mem_map.1 hmem
    obtain ⟨hp1, hp2, hon⟩ := mem_join.1 hp
    obtain ⟨idp, hidp⟩ := Option.isSome_iff_exists.1 (List.mem_filter.1 hp1).2
    obtain ⟨hidOs, hlive⟩ := (hjoined hidp).1 hon
    rw [hidp, hid, Option.getD_some, Option.getD_some] at hkey
    rw [hnone p.2 hp2 (hidOs.trans hkey)] at hlive
    simp at hlive

/-- **An option less is chosen**: of two states with the same options, one has
more that were never chosen where less was chosen and one option not at all. -/
theorem deadOptions_lt (hsame : liveOptions collate tenantId d' = liveOptions collate tenantId d)
    (hless : ∀ storeId key, chosen collate d' storeId key = true →
      chosen collate d storeId key = true)
    {r : (OptionSet × OptionGroup) × OptionRow} (hr : r ∈ liveOptions collate tenantId d)
    (hchosen : chosen collate d r.1.1.storeId r.2.key = true)
    (hnone : chosen collate d' r.1.1.storeId r.2.key = false) :
    (deadOptions collate tenantId d).total < (deadOptions collate tenantId d').total := by
  unfold deadOptions capped neverChosen
  dsimp only
  rw [hsame]
  have hsub : ((liveOptions collate tenantId d).filter fun r =>
      !chosen collate d r.1.1.storeId r.2.key).Sublist
        ((liveOptions collate tenantId d).filter fun r =>
          !chosen collate d' r.1.1.storeId r.2.key) := by
    refine List.monotone_filter_right _ fun r hr => ?_
    rw [Bool.not_eq_true'] at hr ⊢
    rw [← Bool.not_eq_true] at hr ⊢
    exact fun h => hr (hless _ _ h)
  refine lt_of_le_of_ne hsub.length_le fun heq => ?_
  have hlists := hsub.eq_of_length heq
  have hmem : r ∈ (liveOptions collate tenantId d).filter fun r =>
      !chosen collate d' r.1.1.storeId r.2.key :=
    List.mem_filter.2 ⟨hr, by rw [hnone]; rfl⟩
  rw [← hlists, List.mem_filter, hchosen] at hmem
  exact absurd hmem.2 Bool.false_ne_true

theorem totals_of_summary {now : ℤ}
    (h : summary collate now tenantId d' = summary collate now tenantId d) :
    (optionSetRevenue collate tenantId d').total = (optionSetRevenue collate tenantId d).total ∧
      (deadOptions collate tenantId d').total = (deadOptions collate tenantId d).total :=
  ⟨congrArg (fun s => s.optionSets.total) h, congrArg (fun s => s.deadOptions.total) h⟩

/-! ## A set of another tenant -/

/-- The set of an id, turned: live if it was not, and not if it was. -/
def turnSet (collate : String → String) (d : Db) (id : String) : Db :=
  { d with optionSets := d.optionSets.map fun os =>
      if collate os.id = collate id then { os with live := !os.live } else os }

/-- A store of another tenant, with a set of this id. -/
def addSet (d : Db) (storeId tenantId : ℕ) (id : String) : Db :=
  { d with
    stores := d.stores ++ [⟨storeId, tenantId⟩]
    optionSets := d.optionSets ++ [⟨id, tenantId, storeId, "", true⟩] }

theorem kept_turnSet (hd : Kept collate d) (id : String) : Kept collate (turnSet collate d id) := by
  have hrow : ∀ os : OptionSet, ∀ os', os' = (if collate os.id = collate id then
      { os with live := !os.live } else os) →
      os'.id = os.id ∧ os'.tenantId = os.tenantId ∧ os'.storeId = os.storeId := by
    rintro os os' rfl
    split
    · exact ⟨rfl, rfl, rfl⟩
    · exact ⟨rfl, rfl, rfl⟩
  refine ⟨hd.storeIds, hd.eventIds, hd.selectionIds, ?_, hd.groupIds, hd.eventStores,
    hd.selectionEvents, hd.viewStores, hd.productStores, fun os hos => ?_, fun g hg => ?_,
    hd.optionGroups⟩
  · unfold turnSet
    dsimp only
    rw [List.map_map]
    have hids : (d.optionSets.map ((fun os => collate os.id) ∘ fun os =>
        if collate os.id = collate id then { os with live := !os.live } else os)) =
        d.optionSets.map fun os => collate os.id :=
      List.map_congr_left fun os _ => congrArg collate (hrow os _ rfl).1
    rw [hids]
    exact hd.setIds
  · obtain ⟨os', hos', rfl⟩ := List.mem_map.1 hos
    obtain ⟨s, hs, hid⟩ := hd.setStores os' hos'
    exact ⟨s, hs, hid.trans (hrow os' _ rfl).2.2.symm⟩
  · obtain ⟨os, hos, hid⟩ := hd.groupSets g hg
    exact ⟨_, List.mem_map_of_mem hos, (congrArg collate (hrow os _ rfl).1).trans hid⟩

theorem owned_turnSet {id : String} (hid : ownsSet collate tenantId d id = false) :
    owned collate tenantId (turnSet collate d id) = owned collate tenantId d := by
  have hmine : ∀ os ∈ d.optionSets, os.tenantId = tenantId → collate os.id ≠ collate id := by
    intro os hos htenant hsame
    have hown := (ownsSet_iff collate tenantId d).2 ⟨os, hos, hsame, htenant⟩
    rw [hid] at hown
    simp at hown
  have hset : ownsSet collate tenantId (turnSet collate d id) = ownsSet collate tenantId d := by
    funext optionSetId
    unfold ownsSet turnSet
    dsimp only
    rw [List.any_map]
    refine congrArg (List.any d.optionSets) (funext fun os => ?_)
    dsimp only [Function.comp_apply]
    split <;> rfl
  have hgroup : ownsGroup collate tenantId (turnSet collate d id) =
      ownsGroup collate tenantId d := by
    funext optionGroupId
    unfold ownsGroup
    rw [hset]
    rfl
  have hsets : (turnSet collate d id).optionSets.filter (fun os => os.tenantId = tenantId) =
      d.optionSets.filter fun os => os.tenantId = tenantId := by
    unfold turnSet
    dsimp only
    generalize d.optionSets = sets at hmine
    induction sets with
    | nil => rfl
    | cons os sets ih =>
      obtain ⟨hos, hrest⟩ := List.forall_mem_cons.1 hmine
      rw [List.map_cons, List.filter_cons, List.filter_cons, ih hrest]
      by_cases htenant : os.tenantId = tenantId
      · rw [if_neg (hos htenant)]
      · have hturned : (if collate os.id = collate id then { os with live := !os.live } else
            os : OptionSet).tenantId = os.tenantId := by split <;> rfl
        rw [hturned, if_neg (by simpa using htenant), if_neg (by simpa using htenant)]
  unfold owned
  rw [hset, hgroup, hsets]
  rfl

theorem ownsStore_append {s : Store} (hs : s.tenantId ≠ tenantId) (h : d'.stores = d.stores ++ [s])
    (storeId : ℕ) : ownsStore tenantId d' storeId = ownsStore tenantId d storeId := by
  unfold ownsStore
  rw [h, List.any_append, List.any_cons, decide_eq_false fun hmine => hs hmine.2]
  simp

/-- Adding a set leaves the keys, where its id and that of its store are not
taken. -/
theorem kept_addSet (hd : Kept collate d) {storeId other : ℕ} {id : String}
    (hstore : storeId ∉ d.stores.map Store.id)
    (hid : ∀ os ∈ d.optionSets, collate os.id ≠ collate id) :
    Kept collate (addSet d storeId other id) := by
  have hgrow : ∀ {i : ℕ}, (∃ s ∈ d.stores, s.id = i) →
      ∃ s ∈ (addSet d storeId other id).stores, s.id = i := by
    rintro i ⟨s, hs, rfl⟩
    exact ⟨s, List.mem_append_left _ hs, rfl⟩
  refine ⟨?_, hd.eventIds, hd.selectionIds, ?_, hd.groupIds, fun e he => hgrow (hd.eventStores e he),
    hd.selectionEvents, fun vc hvc => hgrow (hd.viewStores vc hvc),
    fun p hp => hgrow (hd.productStores p hp), fun os hos => ?_, fun g hg => ?_, hd.optionGroups⟩
  · unfold addSet
    dsimp only
    rw [List.map_append]
    refine hd.storeIds.append (List.nodup_singleton _) fun i hi hnew => ?_
    obtain rfl : i = storeId := List.mem_singleton.1 hnew
    exact hstore hi
  · unfold addSet
    dsimp only
    rw [List.map_append]
    refine hd.setIds.append (List.nodup_singleton _) fun i hi hnew => ?_
    rw [List.map_singleton, List.mem_singleton] at hnew
    obtain ⟨os, hos, hsame⟩ := List.mem_map.1 hi
    exact hid os hos (hsame.trans hnew)
  · rcases List.mem_append.1 hos with hos | hos
    · exact hgrow (hd.setStores os hos)
    · obtain rfl := List.mem_singleton.1 hos
      exact ⟨⟨storeId, other⟩, List.mem_append_right _ (List.mem_singleton_self _), rfl⟩
  · obtain ⟨os, hos, hsame⟩ := hd.groupSets g hg
    exact ⟨os, List.mem_append_left _ hos, hsame⟩

theorem owned_addSet {storeId other : ℕ} (hother : other ≠ tenantId) (id : String) :
    owned collate tenantId (addSet d storeId other id) = owned collate tenantId d := by
  have hstore : ownsStore tenantId (addSet d storeId other id) = ownsStore tenantId d :=
    funext (ownsStore_append hother rfl)
  have hevent : ownsEvent tenantId (addSet d storeId other id) = ownsEvent tenantId d := by
    funext orderEventId
    unfold ownsEvent
    rw [hstore]
    rfl
  have hset : ownsSet collate tenantId (addSet d storeId other id) =
      ownsSet collate tenantId d := by
    funext optionSetId
    unfold ownsSet addSet
    dsimp only
    rw [List.any_append, List.any_cons, decide_eq_false fun hmine => hother hmine.2]
    simp
  have hgroup : ownsGroup collate tenantId (addSet d storeId other id) =
      ownsGroup collate tenantId d := by
    funext optionGroupId
    unfold ownsGroup
    rw [hset]
    rfl
  have hstores : (addSet d storeId other id).stores.filter (fun s => s.tenantId = tenantId) =
      d.stores.filter fun s => s.tenantId = tenantId := by
    unfold addSet
    dsimp only
    rw [List.filter_append, List.filter_singleton]
    simp [hother]
  have hsets : (addSet d storeId other id).optionSets.filter (fun os => os.tenantId = tenantId) =
      d.optionSets.filter fun os => os.tenantId = tenantId := by
    unfold addSet
    dsimp only
    rw [List.filter_append, List.filter_singleton]
    simp [hother]
  unfold owned
  rw [hstore, hevent, hset, hgroup, hstores, hsets]
  rfl

theorem mem_turnSet {id : String} {os' : OptionSet} :
    os' ∈ (turnSet collate d id).optionSets ↔ ∃ os ∈ d.optionSets,
      (collate os.id = collate id ∧ os' = { os with live := !os.live }) ∨
        (collate os.id ≠ collate id ∧ os' = os) := by
  unfold turnSet
  rw [List.mem_map]
  refine exists_congr fun os => and_congr_right fun _ => ?_
  by_cases hsame : collate os.id = collate id
  · rw [if_pos hsame]
    simp [hsame, eq_comm]
  · rw [if_neg hsame]
    simp [hsame, eq_comm]

/-- Turning a set that is reported makes the sets that are counted more or
fewer. -/
theorem optionSetRevenue_turnSet (hd : Kept collate d) {r : OrderSelection × OrderEvent}
    (hr : r ∈ selectionsOf tenantId d) {id : String} (hid : r.1.optionSetId = some id)
    {os : OptionSet} (hos : os ∈ d.optionSets) (hsame : collate os.id = collate id) :
    (optionSetRevenue collate tenantId (turnSet collate d id)).total ≠
      (optionSetRevenue collate tenantId d).total := by
  -- No other row has the id.
  have honly : ∀ other ∈ d.optionSets, collate other.id = collate id → other = os :=
    fun other hother heq => List.inj_on_of_nodup_map hd.setIds hother hos (heq.trans hsame.symm)
  have hturned : { os with live := !os.live } ∈ (turnSet collate d id).optionSets :=
    mem_turnSet.2 ⟨os, hos, .inl ⟨hsame, rfl⟩⟩
  cases hlive : os.live with
  | false =>
    refine Nat.ne_of_gt (optionSetRevenue_lt rfl (fun other hother hon => ?_) hr hid
      ⟨_, hturned, hsame, by rw [hlive]; rfl⟩ fun other hother heq => ?_)
    · refine ⟨other, mem_turnSet.2 ⟨other, hother, .inr ⟨fun heq => ?_, rfl⟩⟩, rfl, hon⟩
      rw [honly other hother heq, hlive] at hon
      simp at hon
    · rw [honly other hother heq, hlive]
  | true =>
    refine Nat.ne_of_lt (optionSetRevenue_lt (d := turnSet collate d id) rfl
      (fun other' hother' hon => ?_) hr hid ⟨os, hos, hsame, hlive⟩ fun other' hother' heq => ?_)
    · obtain ⟨other, hother, ⟨heq, rfl⟩ | ⟨_, rfl⟩⟩ := mem_turnSet.1 hother'
      · rw [honly other hother heq, hlive] at hon
        simp at hon
      · exact ⟨_, hother, rfl, hon⟩
    · obtain ⟨other, hother, ⟨heq', rfl⟩ | ⟨hne, rfl⟩⟩ := mem_turnSet.1 hother'
      · rw [honly other hother heq', hlive]
        rfl
      · exact absurd heq hne

/-- **Another tenant's set is told of** where a selection reports its id. -/
theorem exists_differing_set (hd : Kept collate d) (now : ℤ) {r : OrderSelection × OrderEvent}
    (hr : r ∈ selectionsOf tenantId d) {id : String} (hid : r.1.optionSetId = some id)
    (hnot : ownsSet collate tenantId d id = false) :
    ∃ d', Kept collate d' ∧ owned collate tenantId d' = owned collate tenantId d ∧
      summary collate now tenantId d' ≠ summary collate now tenantId d := by
  by_cases hset : ∃ os ∈ d.optionSets, collate os.id = collate id
  · obtain ⟨os, hos, hsame⟩ := hset
    refine ⟨turnSet collate d id, kept_turnSet hd id, owned_turnSet hnot, fun heq => ?_⟩
    have htotal := (totals_of_summary heq).1
    have hmoreless := optionSetRevenue_turnSet hd hr hid hos hsame
    omega
  · obtain ⟨storeId, hstore⟩ := Keyed.exists_fresh (d.stores.map Store.id)
    have hother : tenantId + 1 ≠ tenantId := by omega
    refine ⟨addSet d storeId (tenantId + 1) id,
      kept_addSet hd hstore fun os hos hsame => hset ⟨os, hos, hsame⟩,
      owned_addSet hother id, fun heq => ?_⟩
    have htotal := (totals_of_summary heq).1
    have hselections : selectionsOf tenantId (addSet d storeId (tenantId + 1) id) =
        selectionsOf tenantId d := by
      rw [← selectionsOf_owned collate, owned_addSet hother, selectionsOf_owned]
    refine absurd htotal (Nat.ne_of_gt (optionSetRevenue_lt hselections (fun os hos hlive => ?_) hr
      hid ?_ fun os hos hsame => absurd ⟨os, hos, hsame⟩ hset))
    · exact ⟨os, List.mem_append_left _ hos, rfl, hlive⟩
    · exact ⟨_, List.mem_append_right _ (List.mem_singleton_self _), rfl, rfl⟩

/-! ## An order at another tenant's store -/

/-- An order at a store, that names an option. -/
def addOrder (d : Db) (storeId eventId selectionId : ℕ) (key : String) : Db :=
  { d with
    orderEvents := d.orderEvents ++ [⟨eventId, storeId, 0, "", 0, 0⟩]
    orderSelections := d.orderSelections ++ [⟨selectionId, eventId, key, "", none, none, none, 0⟩] }

/-- Nothing was selected at a store. -/
def dropSelections (d : Db) (storeId : ℕ) : Db :=
  { d with
    orderSelections := d.orderSelections.filter fun sel =>
      !d.orderEvents.any fun e => decide (e.id = sel.orderEventId ∧ e.storeId = storeId) }

theorem kept_addOrder (hd : Kept collate d) {storeId eventId selectionId : ℕ} {key : String}
    (hstore : ∃ s ∈ d.stores, s.id = storeId) (hevent : eventId ∉ d.orderEvents.map OrderEvent.id)
    (hselection : selectionId ∉ d.orderSelections.map OrderSelection.id) :
    Kept collate (addOrder d storeId eventId selectionId key) := by
  refine ⟨hd.storeIds, ?_, ?_, hd.setIds, hd.groupIds, fun e he => ?_, fun sel hsel => ?_,
    hd.viewStores, hd.productStores, hd.setStores, hd.groupSets, hd.optionGroups⟩
  · unfold addOrder
    dsimp only
    rw [List.map_append]
    refine hd.eventIds.append (List.nodup_singleton _) fun i hi hnew => ?_
    obtain rfl : i = eventId := List.mem_singleton.1 hnew
    exact hevent hi
  · unfold addOrder
    dsimp only
    rw [List.map_append]
    refine hd.selectionIds.append (List.nodup_singleton _) fun i hi hnew => ?_
    obtain rfl : i = selectionId := List.mem_singleton.1 hnew
    exact hselection hi
  · rcases List.mem_append.1 he with he | he
    · exact hd.eventStores e he
    · obtain rfl := List.mem_singleton.1 he
      exact hstore
  · rcases List.mem_append.1 hsel with hsel | hsel
    · obtain ⟨e, he, hid⟩ := hd.selectionEvents sel hsel
      exact ⟨e, List.mem_append_left _ he, hid⟩
    · obtain rfl := List.mem_singleton.1 hsel
      exact ⟨_, List.mem_append_right _ (List.mem_singleton_self _), rfl⟩

theorem owned_addOrder {storeId eventId selectionId : ℕ} {key : String}
    (hstore : ownsStore tenantId d storeId = false)
    (hevent : eventId ∉ d.orderEvents.map OrderEvent.id) :
    owned collate tenantId (addOrder d storeId eventId selectionId key) =
      owned collate tenantId d := by
  have hevents : ownsEvent tenantId (addOrder d storeId eventId selectionId key) =
      ownsEvent tenantId d := by
    funext orderEventId
    unfold ownsEvent addOrder
    dsimp only
    have hstores : ∀ other, ownsStore tenantId { d with
        orderEvents := d.orderEvents ++ [⟨eventId, storeId, 0, "", 0, 0⟩]
        orderSelections := d.orderSelections ++
          [⟨selectionId, eventId, key, "", none, none, none, 0⟩] } other =
        ownsStore tenantId d other := fun other => rfl
    rw [List.any_append, List.any_cons]
    simp [hstores, hstore]
  have hnone : ownsEvent tenantId d eventId = false := by
    rw [← Bool.not_eq_true]
    intro hown
    unfold ownsEvent at hown
    obtain ⟨e, he, hboth⟩ := List.any_eq_true.1 hown
    rw [Bool.and_eq_true] at hboth
    exact hevent (List.mem_map.2 ⟨e, he, of_decide_eq_true hboth.1⟩)
  unfold owned
  rw [hevents]
  have hmine : (addOrder d storeId eventId selectionId key).orderEvents.filter
      (fun e => ownsStore tenantId d e.storeId) =
      d.orderEvents.filter fun e => ownsStore tenantId d e.storeId := by
    unfold addOrder
    dsimp only
    rw [List.filter_append, List.filter_singleton]
    simp [hstore]
  have hchosen : (addOrder d storeId eventId selectionId key).orderSelections.filter
      (fun sel => ownsEvent tenantId d sel.orderEventId) =
      d.orderSelections.filter fun sel => ownsEvent tenantId d sel.orderEventId := by
    unfold addOrder
    dsimp only
    rw [List.filter_append, List.filter_singleton]
    simp [hnone]
  exact congrArg₂ (fun es sels => ({ owned collate tenantId d with
    orderEvents := es, orderSelections := sels } : Db)) hmine hchosen

theorem kept_dropSelections (hd : Kept collate d) (storeId : ℕ) :
    Kept collate (dropSelections d storeId) :=
  ⟨hd.storeIds, hd.eventIds, hd.selectionIds.sublist (List.filter_sublist.map _), hd.setIds,
    hd.groupIds, hd.eventStores, fun sel hsel => hd.selectionEvents sel (List.mem_filter.1 hsel).1,
    hd.viewStores, hd.productStores, hd.setStores, hd.groupSets, hd.optionGroups⟩

theorem owned_dropSelections (hd : Kept collate d) {storeId : ℕ}
    (hstore : ownsStore tenantId d storeId = false) :
    owned collate tenantId (dropSelections d storeId) = owned collate tenantId d := by
  have hchosen : (dropSelections d storeId).orderSelections.filter
      (fun sel => ownsEvent tenantId d sel.orderEventId) =
      d.orderSelections.filter fun sel => ownsEvent tenantId d sel.orderEventId := by
    unfold dropSelections
    dsimp only
    rw [List.filter_filter]
    refine List.filter_congr fun sel _ => ?_
    cases hown : ownsEvent tenantId d sel.orderEventId with
    | false => rfl
    | true =>
      -- The event of the selection is of a store that is owned.
      unfold ownsEvent at hown
      obtain ⟨e, he, hboth⟩ := List.any_eq_true.1 hown
      obtain ⟨hid, hmine⟩ := Bool.and_eq_true_iff.1 hboth
      have hid := of_decide_eq_true hid
      rw [Bool.true_and, Bool.not_eq_true', List.any_eq_false]
      intro e' he' hat
      obtain ⟨hid', hat⟩ := of_decide_eq_true hat
      obtain rfl : e' = e := List.inj_on_of_nodup_map hd.eventIds he' he (hid'.trans hid.symm)
      rw [hat, hstore] at hmine
      simp at hmine
  exact congrArg (fun sels => ({ owned collate tenantId d with orderSelections := sels } : Db))
    hchosen

/-- **An order at another tenant's store is told of** where a set of the tenant
names that store. -/
theorem exists_differing_order (hd : Kept collate d) (now : ℤ)
    {r : (OptionSet × OptionGroup) × OptionRow} (hr : r ∈ liveOptions collate tenantId d)
    (hnot : ownsStore tenantId d r.1.1.storeId = false) :
    ∃ d', Kept collate d' ∧ owned collate tenantId d' = owned collate tenantId d ∧
      summary collate now tenantId d' ≠ summary collate now tenantId d := by
  cases hchosen : chosen collate d r.1.1.storeId r.2.key with
  | true =>
    refine ⟨dropSelections d r.1.1.storeId, kept_dropSelections hd _,
      owned_dropSelections hd hnot, fun heq => ?_⟩
    refine absurd (totals_of_summary heq).2 (Nat.ne_of_gt (deadOptions_lt rfl
      (fun storeId key h => ?_) hr hchosen ?_))
    · rw [chosen_iff] at h ⊢
      obtain ⟨sel, hsel, h⟩ := h
      exact ⟨sel, (List.mem_filter.1 hsel).1, h⟩
    · rw [← Bool.not_eq_true, chosen_iff]
      rintro ⟨sel, hsel, e, he, hid, _, hat⟩
      have hgone := (List.mem_filter.1 hsel).2
      rw [Bool.not_eq_true', List.any_eq_false] at hgone
      exact hgone e he (decide_eq_true ⟨hid, hat⟩)
  | false =>
    obtain ⟨eventId, hevent⟩ := Keyed.exists_fresh (d.orderEvents.map OrderEvent.id)
    obtain ⟨selectionId, hselection⟩ := Keyed.exists_fresh (d.orderSelections.map OrderSelection.id)
    have hset : r.1.1 ∈ d.optionSets :=
      (List.mem_filter.1 (mem_join.1 (mem_join.1 hr).1).1).1
    refine ⟨addOrder d r.1.1.storeId eventId selectionId r.2.key,
      kept_addOrder hd (hd.setStores _ hset) hevent hselection, owned_addOrder hnot hevent,
      fun heq => ?_⟩
    refine absurd (totals_of_summary heq).2 (Nat.ne_of_lt (deadOptions_lt
      (d := addOrder d r.1.1.storeId eventId selectionId r.2.key) rfl
      (fun storeId key h => ?_) hr ?_ hchosen))
    · rw [chosen_iff] at h ⊢
      obtain ⟨sel, hsel, e, he, h⟩ := h
      exact ⟨sel, List.mem_append_left _ hsel, e, List.mem_append_left _ he, h⟩
    · rw [chosen_iff]
      exact ⟨_, List.mem_append_right _ (List.mem_singleton_self _), _,
        List.mem_append_right _ (List.mem_singleton_self _), rfl, rfl, rfl⟩

/-! ## The tenant's own -/

/-- **Analytics are of the tenant's own data** where what its rows refer to is its
own, and otherwise tell of others': the summary of some state with the same
owned rows differs. The export is the same in all of them. -/
theorem own_data_alone_iff (collate : String → String) (now : ℤ) {tenantId : ℕ} {d : Db}
    (hd : Kept collate d) :
    (∀ d', Kept collate d' → owned collate tenantId d' = owned collate tenantId d →
      summary collate now tenantId d' = summary collate now tenantId d ∧
        exportOptionRevenue collate tenantId d' = exportOptionRevenue collate tenantId d) ↔
      OwnReferences collate tenantId d := by
  constructor
  · intro h
    refine ⟨fun r hr id hid => ?_, fun r hr => ?_⟩
    · by_contra hnot
      rw [Bool.not_eq_true] at hnot
      obtain ⟨d', hd', hsame, hne⟩ := exists_differing_set hd now hr hid hnot
      exact hne (h d' hd' hsame).1
    · by_contra hnot
      rw [Bool.not_eq_true] at hnot
      obtain ⟨d', hd', hsame, hne⟩ := exists_differing_order hd now hr hnot
      exact hne (h d' hd' hsame).1
  · intro href d' hd' hsame
    have href' : OwnReferences collate tenantId d' := by
      rw [← ownReferences_owned, hsame, ownReferences_owned]
      exact href
    constructor
    · rw [← summary_owned hd' href', hsame, summary_owned hd href]
    · rw [← exportOptionRevenue_owned, hsame, exportOptionRevenue_owned]

/-- Two tenants, each with a store and a set; the first tenant's order reports a
set's id. -/
def reporting (optionSetId name : String) : Db where
  stores := [⟨1, 1⟩, ⟨2, 2⟩]
  orderEvents := [⟨1, 1, 3000, "EUR", 500, 0⟩]
  orderSelections := [⟨1, 1, "size", "Size", some "large", some optionSetId, none, 500⟩]
  optionViewCounts := []
  storeProducts := []
  optionSets := [⟨"mugs", 1, 1, "Mugs", true⟩, ⟨"signs", 2, 2, name, true⟩]
  optionGroups := []
  options := []

theorem kept_reporting (optionSetId name : String) : Kept id (reporting optionSetId name) where
  storeIds := by simp [reporting]
  eventIds := List.nodup_singleton _
  selectionIds := List.nodup_singleton _
  setIds := by simp [reporting]
  groupIds := List.nodup_nil
  eventStores := by simp [reporting]
  selectionEvents := by simp [reporting]
  viewStores := by simp [reporting]
  productStores := by simp [reporting]
  setStores := by simp [reporting]
  groupSets := by simp [reporting]
  optionGroups := by simp [reporting]

/-- The other tenant's set, by whatever name, is not told of where the order
reports the tenant's own. -/
theorem own_data_alone_mugs :
    summary id 0 1 (reporting "mugs" "Banners") = summary id 0 1 (reporting "mugs" "Signs") ∧
      exportOptionRevenue id 1 (reporting "mugs" "Banners") =
        exportOptionRevenue id 1 (reporting "mugs" "Signs") := by
  refine (own_data_alone_iff id 0 (kept_reporting "mugs" "Signs")).2 ⟨fun r hr i hi => ?_,
    fun r hr => ?_⟩ _ (kept_reporting "mugs" "Banners") (by decide +kernel)
  · have honly : ∀ r ∈ selectionsOf 1 (reporting "mugs" "Signs"),
        r.1.optionSetId = some "mugs" := by decide +kernel
    obtain rfl := Option.some.inj ((honly r hr).symm.trans hi)
    decide +kernel
  · have hnone : liveOptions id 1 (reporting "mugs" "Signs") = [] := by decide +kernel
    rw [hnone] at hr
    simp at hr

/-- Where it reports the other tenant's, the name of that set is what the summary
shows. -/
theorem others_data_signs :
    ¬ ∀ (tenantId : ℕ) (d d' : Db), Kept id d → Kept id d' →
      owned id tenantId d' = owned id tenantId d →
        summary id 0 tenantId d' = summary id 0 tenantId d ∧
          exportOptionRevenue id tenantId d' = exportOptionRevenue id tenantId d := by
  intro h
  have hsame := (h 1 _ _ (kept_reporting "signs" "Signs") (kept_reporting "signs" "Banners")
    (by decide +kernel)).1
  have hnames := congrArg (fun s => s.optionSets.rows.map OptionSetRevenue.name) hsame
  revert hnames
  decide +kernel

end Optionia.Analytics
