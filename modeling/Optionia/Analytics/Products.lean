import Optionia.Analytics.DeadOptions
/-!
# Revenue, product by product

A product of a store is named by its reference there: two stores may each have
a product 42. What is earned adds up whichever way it is broken down
(`sum_groups`), but the selections are grouped by the reference alone, so that
a row stands for one product of one store, and the rows for all of them, just
where no two stores of the tenant sold under one reference (`accounts_iff`).
-/

namespace Optionia.Analytics

open Query Runs
open Orders (Delivery)

section Products

variable (collate : String → String) (tenantId : ℕ) (d : Db)

/-! ## Products -/

/-- The selections that name a product. -/
def attributed : List (OrderSelection × OrderEvent) :=
  (selectionsOf tenantId d).filter fun r => r.1.productRef.isSome

/-- The reference a selection names its product by. -/
def refOf (r : OrderSelection × OrderEvent) : String := collate (r.1.productRef.getD "")

/-- The product: a store's, of this reference. -/
def productOf (r : OrderSelection × OrderEvent) : ℕ × String := (r.2.storeId, refOf collate r)

/-- The name that the store has for a product. -/
def nameOf (product : ℕ × String) : Option String :=
  (d.storeProducts.find? fun p => decide (collate p.externalId = product.2 ∧
    p.storeId = product.1)).map StoreProduct.name

def earned (rows : List (OrderSelection × OrderEvent)) : ℤ :=
  (rows.map fun r => r.1.priceDeltaMinor).sum

def soldOf (product : ℕ × String) : List (OrderSelection × OrderEvent) :=
  (attributed tenantId d).filter fun r => productOf collate r = product

def soldUnder (ref : String) : List (OrderSelection × OrderEvent) :=
  (attributed tenantId d).filter fun r => refOf collate r = ref

/-- A row stands for a product: its name, and what its store's selections of it
earned. -/
structure OfProduct (row : ProductRevenue) (product : ℕ × String) : Prop where
  productRef : collate row.productRef = product.2
  name : row.name = nameOf collate d product
  revenueMinor : row.revenueMinor = number (earned (soldOf collate tenantId d product))
  orders : row.orders = (soldOf collate tenantId d product).length

/-- Figures are of amounts that, with the rest, come to a total. -/
def AddsUp (revenues : List Binary64) (rest total : ℤ) : Prop :=
  ∃ amounts : List ℤ, revenues = amounts.map number ∧ amounts.sum + rest = total

/-- **The breakdowns account for what was earned**: by option and by product it
adds up, and the products are those of the stores, each in a row of its own. -/
structure Accounts : Prop where
  options : countDistinct (optionKeyOf collate) (selectionsOf tenantId d) ≤ maxRows →
    AddsUp ((optionRevenue collate tenantId d).rows.map OptionRevenue.revenueMinor) 0
      (earned (selectionsOf tenantId d))
  products : countDistinct (refOf collate) (attributed tenantId d) ≤ maxRows →
    AddsUp ((productRevenue collate tenantId d).rows.map ProductRevenue.revenueMinor)
      (earned ((selectionsOf tenantId d).filter fun r => r.1.productRef.isNone))
      (earned (selectionsOf tenantId d))
  /-- The rows are the first of the products, in some order of all of them. -/
  rows : ∃ products : List (ℕ × String),
    products.Perm ((attributed tenantId d).map (productOf collate)).dedup ∧
    List.Forall₂ (OfProduct collate tenantId d) (productRevenue collate tenantId d).rows
      (products.take maxRows)
  total : (productRevenue collate tenantId d).total =
    countDistinct (productOf collate) (attributed tenantId d)

/-- No two stores sold under one reference. -/
def Separate : Prop :=
  ∀ r ∈ attributed tenantId d, ∀ r' ∈ attributed tenantId d,
    refOf collate r = refOf collate r' → r.2.storeId = r'.2.storeId

end Products

section Accounting

variable {collate : String → String} {tenantId : ℕ} {d : Db}

/-! ## What adds up -/

/-- **Groups add up**, in any order of them. -/
theorem addsUp_orderBy {α κ : Type} [DecidableEq κ] {key : OrderSelection × OrderEvent → κ}
    {l : List (OrderSelection × OrderEvent)} {entries : List α} {amount : α → ℤ}
    (h : List.Forall₂ (fun e k => amount e = earned (l.filter fun r => key r = k)) entries
      (l.map key).dedup) (hfew : countDistinct key l ≤ maxRows) (rest : ℤ)
    (order : α → α → Ordering) :
    AddsUp (((orderBy order entries).take maxRows).map fun e => number (amount e)) rest
      (earned l + rest) := by
  have hperm : (orderBy order entries).Perm entries := List.mergeSort_perm _ _
  have hlength : (orderBy order entries).length ≤ maxRows := by
    rw [hperm.length_eq, h.length_eq]
    exact hfew
  have hsame : entries.map amount =
      (l.map key).dedup.map fun k => earned (l.filter fun r => key r = k) := by
    rw [← List.forall₂_eq_eq_eq, List.forall₂_map_left_iff, List.forall₂_map_right_iff]
    exact h
  refine ⟨(orderBy order entries).map amount, ?_, ?_⟩
  · rw [List.take_of_length_le hlength, List.map_map]
    rfl
  · rw [(hperm.map amount).sum_eq, hsame]
    exact congrArg (· + rest) (sum_groups key _ l)

theorem options_addUp (hfew : countDistinct (optionKeyOf collate) (selectionsOf tenantId d) ≤
    maxRows) :
    AddsUp ((optionRevenue collate tenantId d).rows.map OptionRevenue.revenueMinor) 0
      (earned (selectionsOf tenantId d)) := by
  have hgroups : List.Forall₂ (fun sold k => Sold.revenue sold =
        earned ((selectionsOf tenantId d).filter fun r => optionKeyOf collate r = k))
      ((groupBy (optionKeyOf collate) (selectionsOf tenantId d)).filterMap sold?)
      ((selectionsOf tenantId d).map (optionKeyOf collate)).dedup := by
    refine forall₂_groupBy fun k hk => ?_
    obtain ⟨r, hr, hkey⟩ := List.mem_map.1 hk
    have hmem : r ∈ orderBy newest ((selectionsOf tenantId d).filter
        fun r => optionKeyOf collate r = k) :=
      List.mem_mergeSort.2 (List.mem_filter.2 ⟨hr, decide_eq_true hkey⟩)
    obtain ⟨first, others, hcons⟩ := List.exists_cons_of_ne_nil (List.ne_nil_of_mem hmem)
    exact ⟨⟨first.1, _, _⟩, congrArg (Option.map _) (congrArg List.head? hcons), rfl⟩
  have hsum := addsUp_orderBy hgroups hfew 0 (compareLex (desc Sold.revenue)
    (compareLex (desc Sold.orders) (asc fun sold => collate sold.latest.optionKey)))
  rw [add_zero] at hsum
  unfold optionRevenue capped optionsSold
  rw [← List.map_take, List.map_map]
  exact hsum

/-! ## The groups of products -/

/-- A group of selections stands for a reference. -/
structure OfRef (collate : String → String) (tenantId : ℕ) (d : Db)
    (p : String × Option String × ℤ × ℕ) (ref : String) : Prop where
  productRef : collate p.1 = ref
  name : ∀ name, (∀ r ∈ soldUnder collate tenantId d ref,
    nameOf collate d (productOf collate r) = name) → p.2.1 = name
  revenue : p.2.2.1 = earned (soldUnder collate tenantId d ref)
  orders : p.2.2.2 = (soldUnder collate tenantId d ref).length

/-- The groups that `productRevenue` makes. -/
def productGroups (collate : String → String) (tenantId : ℕ) (d : Db) :
    List (String × Option String × ℤ × ℕ) :=
  (groupBy (fun r => collate (r.1.1.productRef.getD "")) (productRows collate tenantId d)).filterMap
    (productSold? collate)

/-- **The groups stand for the references**, where a store has one product of
one reference. -/
theorem forall₂_productGroups
    (hunique : (d.storeProducts.map fun p => (p.storeId, collate p.externalId)).Nodup) :
    List.Forall₂ (OfRef collate tenantId d) (productGroups collate tenantId d)
      ((attributed tenantId d).map (refOf collate)).dedup := by
  have hrows : productRows collate tenantId d = (attributed tenantId d).map fun r =>
      (r, d.storeProducts.find? fun p => decide (collate p.externalId = refOf collate r ∧
        p.storeId = r.2.storeId)) := by
    refine leftJoin_eq_map (productOf collate) hunique fun r p hon => ?_
    obtain ⟨href, hstore⟩ := of_decide_eq_true hon
    exact Prod.ext hstore href
  rw [productGroups, hrows, groupBy_map, List.filterMap_map]
  refine forall₂_groupBy fun ref href => ?_
  obtain ⟨r, hr, hkey⟩ := List.mem_map.1 href
  have hmem : r ∈ soldUnder collate tenantId d ref :=
    List.mem_filter.2 ⟨hr, decide_eq_true hkey⟩
  obtain ⟨first, others, hcons⟩ := List.exists_cons_of_ne_nil (List.ne_nil_of_mem hmem)
  have hfirst : first ∈ soldUnder collate tenantId d ref := hcons ▸ List.mem_cons_self
  refine ⟨(first.1.productRef.getD "", _, _, _), congrArg (Option.map _)
    (congrArg List.head? (congrArg (List.map _) hcons)), ?_⟩
  refine ⟨of_decide_eq_true (List.mem_filter.1 hfirst).2, fun name hname => ?_, ?_, ?_⟩
  · rw [List.filterMap_map]
    exact greatest?_filterMap (List.ne_nil_of_mem hmem) hname
  · rw [List.map_map]
    rfl
  · exact List.length_map _

theorem products_addUp
    (hunique : (d.storeProducts.map fun p => (p.storeId, collate p.externalId)).Nodup)
    (hfew : countDistinct (refOf collate) (attributed tenantId d) ≤ maxRows) :
    AddsUp ((productRevenue collate tenantId d).rows.map ProductRevenue.revenueMinor)
      (earned ((selectionsOf tenantId d).filter fun r => r.1.productRef.isNone))
      (earned (selectionsOf tenantId d)) := by
  have hsplit : earned (attributed tenantId d) +
      earned ((selectionsOf tenantId d).filter fun r => r.1.productRef.isNone) =
        earned (selectionsOf tenantId d) := by
    have hperm := List.filter_append_perm (fun r : OrderSelection × OrderEvent =>
      r.1.productRef.isSome) (selectionsOf tenantId d)
    have hnone : (fun r : OrderSelection × OrderEvent => !r.1.productRef.isSome) =
        fun r => r.1.productRef.isNone := funext fun r => Option.not_isSome _
    have hsum := (hperm.map fun r => r.1.priceDeltaMinor).sum_eq
    rwa [hnone, List.map_append, List.sum_append] at hsum
  have hsum := addsUp_orderBy ((forall₂_productGroups hunique).imp fun _ _ h => h.revenue) hfew
    (earned ((selectionsOf tenantId d).filter fun r => r.1.productRef.isNone))
    (compareLex (desc fun p => p.2.2.1) (compareLex (desc fun p => p.2.2.2)
      (asc fun p => collate p.1)))
  rw [hsplit] at hsum
  unfold productRevenue capped
  rw [List.map_map]
  exact hsum

/-! ## One product a row -/

/-- **Where no two stores sold under one reference, a reference is a
product.** -/
theorem Separate.exists_placed (h : Separate collate tenantId d) : ∃ placed : String → ℕ × String,
    (∀ ref, (placed ref).2 = ref) ∧
      ∀ r ∈ attributed tenantId d, productOf collate r = placed (refOf collate r) := by
  refine ⟨fun ref => ((((soldUnder collate tenantId d ref).head?).map fun r => r.2.storeId).getD 0,
    ref), fun _ => rfl, fun r hr => Prod.ext ?_ rfl⟩
  have hmem : r ∈ soldUnder collate tenantId d (refOf collate r) :=
    List.mem_filter.2 ⟨hr, decide_eq_true rfl⟩
  obtain ⟨first, others, hcons⟩ := List.exists_cons_of_ne_nil (List.ne_nil_of_mem hmem)
  have hfirst : first ∈ soldUnder collate tenantId d (refOf collate r) :=
    hcons ▸ List.mem_cons_self
  obtain ⟨hfirst, href⟩ := List.mem_filter.1 hfirst
  dsimp only
  rw [hcons]
  exact h r hr first hfirst (of_decide_eq_true href).symm

/-- **The breakdowns account for what was earned just where no two stores sold
under one reference.** -/
theorem accounts_iff
    (hunique : (d.storeProducts.map fun p => (p.storeId, collate p.externalId)).Nodup) :
    Accounts collate tenantId d ↔ Separate collate tenantId d := by
  constructor
  · -- As many references as products: none stands for two.
    intro h r hr r' hr' href
    have htotal : countDistinct (refOf collate) (attributed tenantId d) =
        countDistinct (productOf collate) (attributed tenantId d) := h.total
    have himage : ((attributed tenantId d).map (refOf collate)).toFinset =
        ((attributed tenantId d).map (productOf collate)).toFinset.image Prod.snd := by
      ext ref
      simp [productOf]
    rw [countDistinct_eq_card, countDistinct_eq_card, himage, Finset.card_image_iff] at htotal
    have hsame := htotal (Finset.mem_coe.2 (List.mem_toFinset.2 (List.mem_map_of_mem hr)))
      (Finset.mem_coe.2 (List.mem_toFinset.2 (List.mem_map_of_mem hr'))) href
    exact congrArg Prod.fst hsame
  · intro h
    obtain ⟨placed, hsnd, hplaced⟩ := h.exists_placed
    have hproducts : ((attributed tenantId d).map (productOf collate)).dedup =
        ((attributed tenantId d).map (refOf collate)).dedup.map placed := by
      rw [← List.dedup_map_of_injective fun a b hab => by rw [← hsnd a, ← hsnd b, hab],
        List.map_map]
      exact congrArg List.dedup (List.map_congr_left hplaced)
    have hsold : ∀ ref, soldOf collate tenantId d (placed ref) =
        soldUnder collate tenantId d ref := by
      intro ref
      refine List.filter_congr fun r hr => decide_eq_decide.2 ⟨fun heq => ?_, fun heq => ?_⟩
      · exact (congrArg Prod.snd heq).trans (hsnd ref)
      · rw [hplaced r hr, heq]
    obtain ⟨refs, hperm, hgroups⟩ := forall₂_orderBy (forall₂_productGroups hunique)
      (compareLex (desc fun p => p.2.2.1) (compareLex (desc fun p => p.2.2.2)
        (asc fun p => collate p.1)))
    refine ⟨options_addUp, products_addUp hunique, ⟨refs.map placed, ?_, ?_⟩, ?_⟩
    · rw [hproducts]
      exact hperm.map placed
    · unfold productRevenue capped
      rw [← List.map_take, List.forall₂_map_left_iff, List.forall₂_map_right_iff]
      refine (List.forall₂_take maxRows hgroups).imp fun p ref hp => ⟨?_, ?_, ?_, ?_⟩
      · exact hp.productRef.trans (hsnd ref).symm
      · refine hp.name _ fun r hr => ?_
        obtain ⟨hr, href⟩ := List.mem_filter.1 hr
        rw [hplaced r hr, of_decide_eq_true href]
      · rw [hsold]
        exact congrArg number hp.revenue
      · rw [hsold]
        exact hp.orders
    · rw [countDistinct, hproducts, List.length_map]
      rfl

end Accounting

/-! ## Over all histories -/

/-- **Whatever stores reported**, the breakdowns account for it just where no
two stores of the tenant sold under one reference. -/
theorem accounts_of_reports_iff (collate : String → String) (validDate : String → Bool)
    (instant : String → ℤ) (config : Configuration) (tenantId : ℕ) (deliveries : List Delivery)
    (hunique : (config.storeProducts.map fun p => (p.storeId, collate p.externalId)).Nodup) :
    Accounts collate tenantId
        (tables instant config (run (Orders.step validDate) Orders.fresh deliveries).db) ↔
      Separate collate tenantId
        (tables instant config (run (Orders.step validDate) Orders.fresh deliveries).db) :=
  accounts_iff hunique

theorem nodup_productSold : ([(Reporting.metaSelections, "\x7b\"opt-a\":\"lux\"\x7d"),
    (Reporting.metaPriceDelta, "5.00")].map Prod.fst).Nodup := by
  decide

/-- An order of product 42, in a shop. -/
def productSold (storeId : ℕ) : Delivery :=
  { Orders.kept with
    storeId
    order := ⟨.int 32, .str "25.00", .str "EUR", none,
      some [⟨none, some (.int 42), some (.int 1),
        ⟨[(Reporting.metaSelections, "\x7b\"opt-a\":\"lux\"\x7d"),
          (Reporting.metaPriceDelta, "5.00")], nodup_productSold⟩⟩]⟩ }

/-- Two shops of a tenant, each with a product 42. -/
def twoShops : Configuration :=
  ⟨[⟨1, 7⟩, ⟨2, 7⟩], [], [], [], [], [⟨1, "42", "Mug"⟩, ⟨2, "42", "Plate"⟩]⟩

/-- One shop's orders alone are accounted for. -/
theorem accounts_one_shop :
    (twoShops.storeProducts.map fun p => (p.storeId, p.externalId)).Nodup ∧
      Accounts id 7 (tables (fun _ => 0) twoShops
        (run (Orders.step fun _ => true) Orders.fresh [productSold 1]).db) := by
  refine ⟨by decide, (accounts_of_reports_iff id _ _ twoShops 7 _ (by decide)).2 ?_⟩
  unfold Separate
  decide +kernel

/-- **A row stands for a mug of one shop and a plate of another.** -/
theorem two_products_one_row : ¬ ∀ (collate : String → String) (validDate : String → Bool)
    (instant : String → ℤ) (config : Configuration) (tenantId : ℕ) (deliveries : List Delivery),
    (config.storeProducts.map fun p => (p.storeId, collate p.externalId)).Nodup →
      Accounts collate tenantId
        (tables instant config (run (Orders.step validDate) Orders.fresh deliveries).db) := by
  intro h
  have htotal := (h id (fun _ => true) (fun _ => 0) twoShops 7 [productSold 1, productSold 2]
    (by decide)).total
  revert htotal
  decide +kernel

end Optionia.Analytics
