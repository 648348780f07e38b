import Optionia.Analytics.DeadOptions
/-!
# How many who saw an option bought it

Views and orders of an option are each summed up before they meet, so neither
multiplies the other (`forall₂_shown`). But views come first: an option that was
ordered and never seen is not there, and nothing holds the orders of an option
to its views. The figures are as they are said to be just where every option
that was ordered was seen, and those that are listed were seen as often as they
were ordered (`converts_iff`).
-/

namespace Optionia.Analytics

open Query Runs
open Orders (Delivery)

section Conversion

variable (collate : String → String) (tenantId : ℕ) (d : Db)

/-! ## Figures -/

/-- The key of an option with views. -/
def viewKeyOf (vc : OptionViewCount) : String := collate vc.optionKey

/-- The keys with a view, as often as they have one. -/
def seenKeys : List String := (viewsOf tenantId d).map (viewKeyOf collate)

def orderedKeys : List String := (selectionsOf tenantId d).map (optionKeyOf collate)

/-- How often an option was seen, in all stores and on all days. -/
def viewsUnder (key : String) : ℕ :=
  (((viewsOf tenantId d).filter fun vc => viewKeyOf collate vc = key).map
    OptionViewCount.views).sum

/-- How many orders carry an option. -/
def ordersUnder (key : String) : ℕ :=
  countDistinct (fun r => r.1.orderEventId)
    ((selectionsOf tenantId d).filter fun r => optionKeyOf collate r = key)

/-- A row stands for an option. -/
structure OfOption (row : OptionConversion) (key : String) : Prop where
  optionKey : collate row.optionKey = key
  views : row.views = viewsUnder collate tenantId d key
  orders : row.orders = ordersUnder collate tenantId d key
  rate_none : row.rate = none ↔ viewsUnder collate tenantId d key = 0
  rate : viewsUnder collate tenantId d key ≠ 0 → row.rate =
    some ((number (ordersUnder collate tenantId d key)).div
      (number (viewsUnder collate tenantId d key)))

def IsShare (x : Binary64) : Prop := ∃ v : Binary64.Finite, x = .finite v ∧ 0 ≤ v.val ∧ v.val ≤ 1

/-- **The figures cover every option**, each in one row, and every rate is a
share. -/
structure Converts : Prop where
  total : (optionConversion collate tenantId d).total =
    (seenKeys collate tenantId d ++ orderedKeys collate tenantId d).dedup.length
  /-- The rows are the first of the options, in some order of all of them. -/
  rows : ∃ keys : List String,
    keys.Perm (seenKeys collate tenantId d ++ orderedKeys collate tenantId d).dedup ∧
    List.Forall₂ (OfOption collate tenantId d) (optionConversion collate tenantId d).rows
      (keys.take maxRows)
  shares : ∀ row ∈ (optionConversion collate tenantId d).rows, ∀ rate, row.rate = some rate →
    IsShare rate

/-- The options seen most, as many as a list has. -/
def seenMost : List (String × ℕ) :=
  (orderBy (compareLex (desc Prod.snd) (asc fun v => collate v.1))
    (viewed collate tenantId d)).take maxRows

/-- What was ordered was seen; and of the options seen most, each as often. -/
structure Seen : Prop where
  ordered : ∀ key ∈ orderedKeys collate tenantId d, key ∈ seenKeys collate tenantId d
  asOften : ∀ v ∈ seenMost collate tenantId d, v.2 ≠ 0 →
    (number (ordersUnder collate tenantId d (collate v.1))).isFinite = true ∧
      (number (ordersUnder collate tenantId d (collate v.1))).le (number v.2) = true

end Conversion

section Converting

variable {collate : String → String} {tenantId : ℕ} {d : Db}

/-! ## Each side is counted once -/

theorem forall₂_viewed : List.Forall₂ (fun v key => collate v.1 = key ∧
      v.2 = viewsUnder collate tenantId d key) (viewed collate tenantId d)
    (seenKeys collate tenantId d).dedup := by
  refine forall₂_groupBy fun key hkey => ?_
  obtain ⟨vc, hvc, heq⟩ := List.mem_map.1 hkey
  have hmem : vc ∈ (viewsOf tenantId d).filter fun vc => viewKeyOf collate vc = key :=
    List.mem_filter.2 ⟨hvc, decide_eq_true heq⟩
  obtain ⟨first, others, hcons⟩ := List.exists_cons_of_ne_nil (List.ne_nil_of_mem hmem)
  have hfirst := List.mem_filter.1 (hcons ▸ List.mem_cons_self : first ∈ _)
  exact ⟨(first.optionKey, _), congrArg (Option.map _) (congrArg List.head? hcons),
    of_decide_eq_true hfirst.2, rfl⟩

theorem forall₂_bought : List.Forall₂ (fun o key => collate o.1 = key ∧
      o.2.2 = ordersUnder collate tenantId d key) (bought collate tenantId d)
    (orderedKeys collate tenantId d).dedup := by
  refine forall₂_groupBy fun key hkey => ?_
  obtain ⟨r, hr, heq⟩ := List.mem_map.1 hkey
  have hmem : r ∈ (selectionsOf tenantId d).filter fun r => optionKeyOf collate r = key :=
    List.mem_filter.2 ⟨hr, decide_eq_true heq⟩
  obtain ⟨first, others, hcons⟩ := List.exists_cons_of_ne_nil (List.ne_nil_of_mem hmem)
  have hfirst := List.mem_filter.1 (hcons ▸ List.mem_cons_self : first ∈ _)
  exact ⟨(first.1.optionKey, _, _), congrArg (Option.map _) (congrArg List.head? hcons),
    of_decide_eq_true hfirst.2, rfl⟩

/-- What an option with views is shown with. -/
def shownAs (collate : String → String) (tenantId : ℕ) (d : Db) (v : String × ℕ) :
    OptionConversion :=
  let found := (bought collate tenantId d).find? fun o => decide (collate o.1 = collate v.1)
  let orders := (found.map fun o => o.2.2).getD 0
  { optionKey := v.1
    label := (found.bind fun o => o.2.1).getD v.1
    views := v.2
    orders
    rate := rate orders v.2 }

/-- **An option is shown with the orders it has.** -/
theorem orders_shownAs (v : String × ℕ) : (shownAs collate tenantId d v).orders =
    ordersUnder collate tenantId d (collate v.1) := by
  change (((bought collate tenantId d).find? fun o => decide (collate o.1 = collate v.1)).map
    fun o => o.2.2).getD 0 = _
  rw [map_find? forall₂_bought]
  by_cases hkey : collate v.1 ∈ (orderedKeys collate tenantId d).dedup
  · rw [if_pos hkey]
    rfl
  · -- Nobody ordered it.
    have hnone : (selectionsOf tenantId d).filter (fun r => optionKeyOf collate r = collate v.1) =
        [] := by
      refine List.filter_eq_nil_iff.2 fun r hr heq => hkey (List.mem_dedup.2 ?_)
      exact of_decide_eq_true heq ▸ List.mem_map_of_mem hr
    rw [if_neg hkey, ordersUnder, hnone]
    rfl

/-- **The rows are what the options seen most are shown as.** -/
theorem rows_optionConversion : (optionConversion collate tenantId d).rows =
    (seenMost collate tenantId d).map (shownAs collate tenantId d) := by
  have hkeys : ((bought collate tenantId d).map fun o => collate o.1).Nodup := by
    have hsame : (bought collate tenantId d).map (fun o => collate o.1) =
        (orderedKeys collate tenantId d).dedup := by
      rw [← List.forall₂_eq_eq_eq, List.forall₂_map_left_iff]
      exact forall₂_bought.imp fun _ _ h => h.1
    rw [hsame]
    exact List.nodup_dedup _
  have hjoined : leftJoin (fun (v : String × ℕ) (o : String × Option String × ℕ) =>
      decide (collate o.1 = collate v.1)) (viewed collate tenantId d) (bought collate tenantId d) =
      (viewed collate tenantId d).map fun v => (v, (bought collate tenantId d).find? fun o =>
        decide (collate o.1 = collate v.1)) :=
    leftJoin_eq_map (fun v => collate v.1) hkeys fun _ _ hon => of_decide_eq_true hon
  unfold optionConversion capped
  dsimp only
  rw [hjoined, List.map_map, seenMost, List.map_take, orderBy, orderBy]
  refine congrArg (List.take maxRows) (Eq.symm ?_)
  exact List.map_mergeSort (f := shownAs collate tenantId d) fun _ _ _ _ => rfl

theorem ofOption_shownAs {v : String × ℕ} {key : String} (hkey : collate v.1 = key)
    (hviews : v.2 = viewsUnder collate tenantId d key) :
    OfOption collate tenantId d (shownAs collate tenantId d v) key := by
  have horders := @orders_shownAs collate tenantId d v
  rw [hkey] at horders
  have hrate : (shownAs collate tenantId d v).rate =
      rate (ordersUnder collate tenantId d key) (viewsUnder collate tenantId d key) := by
    rw [← horders, ← hviews]
    rfl
  refine ⟨hkey, hviews, horders, ?_, fun hseen => ?_⟩
  · rw [hrate, rate]
    split_ifs with hzero
    · exact iff_of_true rfl hzero
    · exact iff_of_false not_false hzero
  · rw [hrate, rate, if_neg hseen]

/-! ## When the figures are right -/

theorem converts_iff : Converts collate tenantId d ↔ Seen collate tenantId d := by
  have htotal : (optionConversion collate tenantId d).total =
      (seenKeys collate tenantId d).dedup.length := rfl
  have hshares : (∀ row ∈ (optionConversion collate tenantId d).rows, ∀ rate,
      row.rate = some rate → IsShare rate) ↔
      ∀ v ∈ seenMost collate tenantId d, v.2 ≠ 0 →
        (number (ordersUnder collate tenantId d (collate v.1))).isFinite = true ∧
          (number (ordersUnder collate tenantId d (collate v.1))).le (number v.2) = true := by
    rw [rows_optionConversion, List.forall_mem_map]
    refine forall₂_congr fun v _ => ?_
    have hrate : (shownAs collate tenantId d v).rate =
        rate (ordersUnder collate tenantId d (collate v.1)) v.2 := by
      rw [← orders_shownAs]
      rfl
    rw [hrate, rate]
    split_ifs with hzero
    · exact iff_of_true (fun _ h => h.elim) fun h => absurd hzero h
    · rw [forall_prop_of_true hzero]
      refine Iff.trans ?_ (Binary64.div_ofInt_le_one_iff _ hzero)
      constructor
      · exact fun h => h _ rfl
      · rintro h _ ⟨⟩
        exact h
  constructor
  · intro h
    refine ⟨fun key hkey => ?_, hshares.1 h.shares⟩
    -- As many keys with a view as keys: each has one.
    have hsub : (seenKeys collate tenantId d).toFinset ⊆
        (seenKeys collate tenantId d ++ orderedKeys collate tenantId d).toFinset := by
      intro k hk
      rw [List.mem_toFinset] at hk ⊢
      exact List.mem_append_left _ hk
    have hcard : (seenKeys collate tenantId d ++ orderedKeys collate tenantId d).toFinset.card ≤
        (seenKeys collate tenantId d).toFinset.card := by
      rw [List.card_toFinset, List.card_toFinset, ← htotal, h.total]
    rw [← List.mem_toFinset, Finset.eq_of_subset_of_card_le hsub hcard, List.mem_toFinset]
    exact List.mem_append_right _ hkey
  · intro h
    have hperm : (seenKeys collate tenantId d).dedup.Perm
        (seenKeys collate tenantId d ++ orderedKeys collate tenantId d).dedup := by
      refine (List.perm_ext_iff_of_nodup (List.nodup_dedup _) (List.nodup_dedup _)).2 fun key => ?_
      rw [List.mem_dedup, List.mem_dedup, List.mem_append, or_iff_left_of_imp (h.ordered key)]
    obtain ⟨keys, hkeys, hseen⟩ := forall₂_orderBy (@forall₂_viewed collate tenantId d)
      (compareLex (desc Prod.snd) (asc fun v => collate v.1))
    refine ⟨htotal.trans hperm.length_eq, ⟨keys, hkeys.trans hperm, ?_⟩, hshares.2 h.asOften⟩
    rw [rows_optionConversion, List.forall₂_map_left_iff]
    exact (List.forall₂_take maxRows hseen).imp fun v key hv => ofOption_shownAs hv.1 hv.2

end Converting

/-! ## Over all histories -/

/-- **Whatever stores reported and whatever views they counted**, the figures
are right just where what was ordered was seen, as often. -/
theorem converts_of_reports_iff (collate : String → String) (validDate : String → Bool)
    (instant : String → ℤ) (config : Configuration) (tenantId : ℕ) (deliveries : List Delivery) :
    Converts collate tenantId
        (tables instant config (run (Orders.step validDate) Orders.fresh deliveries).db) ↔
      Seen collate tenantId
        (tables instant config (run (Orders.step validDate) Orders.fresh deliveries).db) :=
  converts_iff

/-- **An option that was ordered before its views were counted is missing.** -/
theorem ordered_unseen_missing : ¬ ∀ (collate : String → String) (validDate : String → Bool)
    (instant : String → ℤ) (config : Configuration) (tenantId : ℕ) (deliveries : List Delivery),
    Converts collate tenantId
      (tables instant config (run (Orders.step validDate) Orders.fresh deliveries).db) := by
  intro h
  have htotal := (h id (fun _ => true) (fun _ => 0) ⟨[⟨1, 7⟩], [], [], [], [], []⟩ 7
    [Orders.kept]).total
  revert htotal
  decide +kernel

end Optionia.Analytics
