import Optionia.Lib.Query
import Optionia.Js.Value
/-!
# What analytics reads

The tables of the cloud that analytics reads, and what of them a tenant owns: a
tenant's name stands on its stores and its option sets, and everything else is
reached from one of these. Order events, view counts and products are of a
store, selections of an event, groups and options of a set.
-/

namespace Optionia.Analytics

/-! ## Rows -/

/-- A row of `stores`. -/
structure Store where
  id : ℕ
  tenantId : ℕ
  deriving DecidableEq

/-- A row of `order_events`. -/
structure OrderEvent where
  id : ℕ
  storeId : ℕ
  orderTotalMinor : ℤ
  currency : String
  optionRevenueMinor : ℤ
  occurredAt : ℤ
  deriving DecidableEq

/-- A row of `order_selections`, with what the plugin reported. -/
structure OrderSelection where
  id : ℕ
  orderEventId : ℕ
  optionKey : String
  optionLabel : String
  valueKey : Option String
  optionSetId : Option String
  productRef : Option String
  priceDeltaMinor : ℤ
  deriving DecidableEq

/-- A row of `option_view_counts`. -/
structure OptionViewCount where
  storeId : ℕ
  optionKey : String
  views : ℕ
  deriving DecidableEq

/-- A row of `store_products`. -/
structure StoreProduct where
  storeId : ℕ
  externalId : String
  name : String
  deriving DecidableEq

/-- A row of `option_sets`. -/
structure OptionSet where
  id : String
  tenantId : ℕ
  storeId : ℕ
  name : String
  /-- Its `deletedAt` is the sentinel. -/
  live : Bool
  deriving DecidableEq

/-- A row of `option_groups`. -/
structure OptionGroup where
  id : ℕ
  optionSetId : String
  live : Bool
  deriving DecidableEq

/-- A row of `options`. -/
structure OptionRow where
  optionGroupId : ℕ
  key : String
  label : String
  sortOrder : ℤ
  live : Bool
  deriving DecidableEq

/-- The tables. -/
structure Db where
  stores : List Store
  orderEvents : List OrderEvent
  orderSelections : List OrderSelection
  optionViewCounts : List OptionViewCount
  storeProducts : List StoreProduct
  optionSets : List OptionSet
  optionGroups : List OptionGroup
  options : List OptionRow
  deriving DecidableEq

variable (collate : String → String)

/-! ## Keys -/

/-- **The tables as the database keeps them**: no two rows of one primary key,
and no row whose parent is missing. What two texts have in common in the
database's collation is `collate`. -/
structure Kept (d : Db) : Prop where
  storeIds : (d.stores.map Store.id).Nodup
  eventIds : (d.orderEvents.map OrderEvent.id).Nodup
  selectionIds : (d.orderSelections.map OrderSelection.id).Nodup
  setIds : (d.optionSets.map fun os => collate os.id).Nodup
  groupIds : (d.optionGroups.map OptionGroup.id).Nodup
  eventStores : ∀ e ∈ d.orderEvents, ∃ s ∈ d.stores, s.id = e.storeId
  selectionEvents : ∀ sel ∈ d.orderSelections, ∃ e ∈ d.orderEvents, e.id = sel.orderEventId
  viewStores : ∀ vc ∈ d.optionViewCounts, ∃ s ∈ d.stores, s.id = vc.storeId
  productStores : ∀ p ∈ d.storeProducts, ∃ s ∈ d.stores, s.id = p.storeId
  setStores : ∀ os ∈ d.optionSets, ∃ s ∈ d.stores, s.id = os.storeId
  groupSets : ∀ g ∈ d.optionGroups, ∃ os ∈ d.optionSets, collate os.id = collate g.optionSetId
  optionGroups : ∀ o ∈ d.options, ∃ g ∈ d.optionGroups, g.id = o.optionGroupId

/-! ## What a tenant owns -/

section Owning

variable (tenantId : ℕ) (d : Db)

/-- A store of the tenant has this id. -/
def ownsStore (storeId : ℕ) : Bool :=
  d.stores.any fun s => decide (s.id = storeId ∧ s.tenantId = tenantId)

/-- An event of one of its stores has this id. -/
def ownsEvent (orderEventId : ℕ) : Bool :=
  d.orderEvents.any fun e => decide (e.id = orderEventId) && ownsStore tenantId d e.storeId

/-- A set of the tenant has this id. -/
def ownsSet (optionSetId : String) : Bool :=
  d.optionSets.any fun os =>
    decide (collate os.id = collate optionSetId ∧ os.tenantId = tenantId)

/-- A group of one of its sets has this id. -/
def ownsGroup (optionGroupId : ℕ) : Bool :=
  d.optionGroups.any fun g =>
    decide (g.id = optionGroupId) && ownsSet collate tenantId d g.optionSetId

/-- **The rows a tenant owns.** -/
def owned : Db where
  stores := d.stores.filter fun s => s.tenantId = tenantId
  orderEvents := d.orderEvents.filter fun e => ownsStore tenantId d e.storeId
  orderSelections := d.orderSelections.filter fun sel => ownsEvent tenantId d sel.orderEventId
  optionViewCounts := d.optionViewCounts.filter fun vc => ownsStore tenantId d vc.storeId
  storeProducts := d.storeProducts.filter fun p => ownsStore tenantId d p.storeId
  optionSets := d.optionSets.filter fun os => os.tenantId = tenantId
  optionGroups := d.optionGroups.filter fun g => ownsSet collate tenantId d g.optionSetId
  options := d.options.filter fun o => ownsGroup collate tenantId d o.optionGroupId

end Owning

end Optionia.Analytics

/-! ## What options earned

`AnalyticsService`: twelve queries over the tables of orders, views and
options, and the export of one of them. Tenancy reaches an order through the
store it was placed in, so nearly every query joins `stores`.
-/

namespace Optionia.Analytics

open Query

def maxRows : ℕ := 50

/-- `Number`, of a sum. -/
def number (n : ℤ) : Binary64 := .ofInt n

/-- A list, and how many rows there are of it. -/
structure Capped (α : Type) where
  rows : List α
  total : ℕ
  truncated : Bool
  deriving DecidableEq

def capped {α : Type} (rows : List α) (total : ℕ) : Capped α :=
  ⟨rows, total, decide (rows.length < total)⟩

/-- A quotient, and none by zero. -/
def rate (n d : ℕ) : Option Binary64 :=
  if d = 0 then none else some ((number n).div (number d))

variable (collate : String → String)

/-! ## Orders of a tenant -/

/-- `order_events e JOIN stores s`, of a tenant. -/
def eventsOf (tenantId : ℕ) (d : Db) : List OrderEvent :=
  (join (fun e s => decide (s.id = e.storeId)) d.orderEvents
    (d.stores.filter fun s => s.tenantId = tenantId)).map Prod.fst

/-- `order_selections sel JOIN order_events e JOIN stores s`, of a tenant. -/
def selectionsOf (tenantId : ℕ) (d : Db) : List (OrderSelection × OrderEvent) :=
  join (fun sel e => decide (e.id = sel.orderEventId)) d.orderSelections (eventsOf tenantId d)

/-- `EXISTS ( SELECT 1 FROM order_selections … )` -/
def carriesOptions (d : Db) (e : OrderEvent) : Bool :=
  d.orderSelections.any fun sel => decide (sel.orderEventId = e.id)

/-! ## Orders that carry options -/

/-- `AVG`: none over nothing, and four places. -/
def average? (ns : List ℤ) : Option ℚ :=
  if ns = [] then none
  else
    let q : ℚ := ns.sum / ns.length * 10 ^ 4
    some ((if q < 0 then -⌊1 / 2 - q⌋ else ⌊q + 1 / 2⌋) / 10 ^ 4)

def mathRound : Binary64 → Binary64
  | .finite v => .ofInt ⌊v.val + 1 / 2⌋
  | x => x

def averageOrNull (raw : Option ℚ) : Option Binary64 := raw.map fun q => mathRound (.ofRat q)

/-- What options are worth to orders. -/
structure AttachRate where
  orders : ℕ
  ordersWithOptions : ℕ
  rate : Option Binary64
  optionRevenueMinor : Binary64
  totalRevenueMinor : Binary64
  averageOrderValueWithOptionsMinor : Option Binary64
  averageOrderValueWithoutOptionsMinor : Option Binary64
  deriving DecidableEq

def attachRate (tenantId : ℕ) (d : Db) : AttachRate :=
  let events := eventsOf tenantId d
  let carrying := events.filter (carriesOptions d)
  let bare := events.filter fun e => !carriesOptions d e
  { orders := events.length
    ordersWithOptions := carrying.length
    rate := rate carrying.length events.length
    optionRevenueMinor := number (events.map OrderEvent.optionRevenueMinor).sum
    totalRevenueMinor := number (events.map OrderEvent.orderTotalMinor).sum
    averageOrderValueWithOptionsMinor :=
      averageOrNull (average? (carrying.map OrderEvent.orderTotalMinor))
    averageOrderValueWithoutOptionsMinor :=
      averageOrNull (average? (bare.map OrderEvent.orderTotalMinor)) }

/-- Option revenue of two windows. -/
structure RevenueTrend where
  windowDays : ℕ
  currentMinor : Binary64
  previousMinor : Option Binary64
  currentOrders : ℕ
  previousOrders : Option ℕ
  changeFraction : Option Binary64
  deriving DecidableEq

def days (n : ℕ) : ℤ := n * 86400000

/-- `revenueTrend`, at a time. -/
def revenueTrend (now : ℤ) (tenantId : ℕ) (d : Db) (windowDays : ℕ) : RevenueTrend :=
  let events := (eventsOf tenantId d).filter (carriesOptions d)
  let current := events.filter fun e => decide (now - days windowDays ≤ e.occurredAt)
  let previous := events.filter fun e => decide (now - days (windowDays * 2) ≤ e.occurredAt ∧
    e.occurredAt < now - days windowDays)
  let currentMinor := number (current.map OrderEvent.optionRevenueMinor).sum
  let previousMinor := if previous.length = 0 then none
    else some (number (previous.map OrderEvent.optionRevenueMinor).sum)
  { windowDays
    currentMinor
    previousMinor
    currentOrders := current.length
    previousOrders := if previous.length = 0 then none else some previous.length
    changeFraction := (previousMinor.filter fun previous => previous != number 0).map
      fun previous => (currentMinor.sub previous).div previous }

/-! ## What was sold -/

/-- Selections grouped: the one sold last, what all earned, and how many they
are. -/
structure Sold where
  latest : OrderSelection
  revenue : ℤ
  orders : ℕ
  deriving DecidableEq

/-- `ORDER BY e.occurredAt DESC, sel.id DESC` -/
def newest : OrderSelection × OrderEvent → OrderSelection × OrderEvent → Ordering :=
  compareLex (desc fun r => r.2.occurredAt) (desc fun r => r.1.id)

def sold? (rows : List (OrderSelection × OrderEvent)) : Option Sold :=
  (orderBy newest rows).head?.map fun r =>
    ⟨r.1, (rows.map fun r => r.1.priceDeltaMinor).sum, rows.length⟩

/-- The key of an option, in the database's order. -/
def optionKeyOf (r : OrderSelection × OrderEvent) : String := collate r.1.optionKey

/-- The keys of an option and a value. -/
def valueKeyOf (r : OrderSelection × OrderEvent) : String × String :=
  (collate r.1.optionKey, collate (r.1.valueKey.getD ""))

/-- What an option earned. -/
structure OptionRevenue where
  optionKey : String
  label : String
  revenueMinor : Binary64
  orders : ℕ
  deriving DecidableEq

/-- What each option earned, highest first. -/
def optionsSold (tenantId : ℕ) (d : Db) : List OptionRevenue :=
  (orderBy (compareLex (desc Sold.revenue) (compareLex (desc Sold.orders)
    (asc fun sold => collate sold.latest.optionKey)))
    ((groupBy (optionKeyOf collate) (selectionsOf tenantId d)).filterMap sold?)).map fun sold =>
      ⟨sold.latest.optionKey, sold.latest.optionLabel, number sold.revenue, sold.orders⟩

def optionRevenue (tenantId : ℕ) (d : Db) : Capped OptionRevenue :=
  capped ((optionsSold collate tenantId d).take maxRows)
    (countDistinct (optionKeyOf collate) (selectionsOf tenantId d))

/-- What a value earned. -/
structure ValueRevenue where
  optionKey : String
  valueKey : Option String
  label : String
  revenueMinor : Binary64
  orders : ℕ
  deriving DecidableEq

/-- Which values first. -/
inductive Direction where
  | most
  | least

/-- `ORDER BY ${order}` -/
def Direction.order : Direction → Sold → Sold → Ordering
  | .most => compareLex (desc Sold.revenue) (compareLex (desc Sold.orders)
      (compareLex (asc fun sold => collate sold.latest.optionKey)
        (asc fun sold => collate (sold.latest.valueKey.getD ""))))
  | .least => compareLex (asc Sold.orders) (compareLex (asc Sold.revenue)
      (compareLex (asc fun sold => collate sold.latest.optionKey)
        (asc fun sold => collate (sold.latest.valueKey.getD ""))))

def valueRevenue (tenantId : ℕ) (d : Db) (direction : Direction) : Capped ValueRevenue :=
  let rows := (selectionsOf tenantId d).filter fun r => r.1.valueKey.isSome
  capped (((orderBy (direction.order collate)
      ((groupBy (valueKeyOf collate) rows).filterMap sold?)).take maxRows).map fun sold =>
        ⟨sold.latest.optionKey, sold.latest.valueKey, sold.latest.optionLabel,
          number sold.revenue, sold.orders⟩)
    (countDistinct (valueKeyOf collate) rows)

/-! ## What was not -/

/-- An option that nobody chose. -/
structure DeadOption where
  optionSetId : String
  optionSetName : String
  optionKey : String
  label : String
  deriving DecidableEq

/-- `option_sets os JOIN option_groups g JOIN options o`, live and of a
tenant. -/
def liveOptions (tenantId : ℕ) (d : Db) : List ((OptionSet × OptionGroup) × OptionRow) :=
  join (fun r o => decide (o.optionGroupId = r.2.id) && o.live)
    (join (fun os g => decide (collate g.optionSetId = collate os.id) && g.live)
      (d.optionSets.filter fun os => decide (os.tenantId = tenantId) && os.live) d.optionGroups)
    d.options

/-- `EXISTS`: a selection of an order of this store names this option. -/
def chosen (d : Db) (storeId : ℕ) (key : String) : Bool :=
  (join (fun sel e => decide (e.id = sel.orderEventId)) d.orderSelections d.orderEvents).any
    fun r => decide (collate r.1.optionKey = collate key ∧ r.2.storeId = storeId)

/-- The options of a tenant that nobody chose. -/
def neverChosen (tenantId : ℕ) (d : Db) : List ((OptionSet × OptionGroup) × OptionRow) :=
  (liveOptions collate tenantId d).filter fun r => !chosen collate d r.1.1.storeId r.2.key

def deadOptions (tenantId : ℕ) (d : Db) : Capped DeadOption :=
  let rows := neverChosen collate tenantId d
  capped (((orderBy (compareLex (asc fun r => collate r.1.1.name)
      (compareLex (asc fun r => r.2.sortOrder) (asc fun r => collate r.2.key))) rows).take
        maxRows).map fun r => ⟨r.1.1.id, r.1.1.name, r.2.key, r.2.label⟩)
    rows.length

/-! ## Products -/

/-- What options earned on a product. -/
structure ProductRevenue where
  productRef : String
  name : Option String
  revenueMinor : Binary64
  orders : ℕ
  deriving DecidableEq

/-- The selections that name a product, each with the product, where the store
has it. -/
def productRows (tenantId : ℕ) (d : Db) :
    List ((OrderSelection × OrderEvent) × Option StoreProduct) :=
  leftJoin (fun r p => decide (collate p.externalId = collate (r.1.productRef.getD "") ∧
      p.storeId = r.2.storeId))
    ((selectionsOf tenantId d).filter fun r => r.1.productRef.isSome) d.storeProducts

/-- A group of them: the reference, `MAX` of the name, the sum and the count. -/
def productSold? (rows : List ((OrderSelection × OrderEvent) × Option StoreProduct)) :
    Option (String × Option String × ℤ × ℕ) :=
  rows.head?.map fun r => (r.1.1.productRef.getD "",
    greatest? (asc collate) (rows.filterMap fun r => r.2.map StoreProduct.name),
    (rows.map fun r => r.1.1.priceDeltaMinor).sum, rows.length)

def productRevenue (tenantId : ℕ) (d : Db) : Capped ProductRevenue :=
  let groups := groupBy (fun r => collate (r.1.1.productRef.getD "")) (productRows collate tenantId d)
  capped (((orderBy (compareLex (desc fun p => p.2.2.1) (compareLex (desc fun p => p.2.2.2)
      (asc fun p => collate p.1))) (groups.filterMap (productSold? collate))).take maxRows).map
        fun p => ⟨p.1, p.2.1, number p.2.2.1, p.2.2.2⟩)
    (countDistinct (fun r => collate (r.1.productRef.getD ""))
      ((selectionsOf tenantId d).filter fun r => r.1.productRef.isSome))

def unattributedProducts (tenantId : ℕ) (d : Db) : ℕ :=
  ((selectionsOf tenantId d).filter fun r => r.1.productRef.isNone).length

/-! ## Views -/

/-- How many of those who saw an option bought it. -/
structure OptionConversion where
  optionKey : String
  label : String
  views : ℕ
  orders : ℕ
  rate : Option Binary64
  deriving DecidableEq

/-- `option_view_counts vc JOIN stores s`, of a tenant. -/
def viewsOf (tenantId : ℕ) (d : Db) : List OptionViewCount :=
  (join (fun vc s => decide (s.id = vc.storeId)) d.optionViewCounts
    (d.stores.filter fun s => s.tenantId = tenantId)).map Prod.fst

def viewed (tenantId : ℕ) (d : Db) : List (String × ℕ) :=
  (groupBy (fun vc => collate vc.optionKey) (viewsOf tenantId d)).filterMap fun rows =>
    rows.head?.map fun vc => (vc.optionKey, (rows.map OptionViewCount.views).sum)

/-- The orders of each option, with a label. -/
def bought (tenantId : ℕ) (d : Db) : List (String × Option String × ℕ) :=
  (groupBy (optionKeyOf collate) (selectionsOf tenantId d)).filterMap fun rows =>
    rows.head?.map fun r => (r.1.optionKey,
      greatest? (asc collate) (rows.map fun r => r.1.optionLabel),
      countDistinct (fun r => r.1.orderEventId) rows)

def optionConversion (tenantId : ℕ) (d : Db) : Capped OptionConversion :=
  let rows := (leftJoin (fun v o => decide (collate o.1 = collate v.1)) (viewed collate tenantId d)
    (bought collate tenantId d)).map fun r =>
      let orders := (r.2.map fun o => o.2.2).getD 0
      { optionKey := r.1.1
        label := (r.2.bind fun o => o.2.1).getD r.1.1
        views := r.1.2
        orders
        rate := rate orders r.1.2 : OptionConversion }
  capped ((orderBy (compareLex (desc OptionConversion.views)
      (asc fun row => collate row.optionKey)) rows).take maxRows)
    (countDistinct (fun vc => collate vc.optionKey) (viewsOf tenantId d))

/-! ## Option sets -/

/-- What a set earned. -/
structure OptionSetRevenue where
  optionSetId : String
  name : String
  revenueMinor : Binary64
  orders : ℕ
  deriving DecidableEq

/-- The selections that name a set, each with the set, live. -/
def setRows (tenantId : ℕ) (d : Db) : List ((OrderSelection × OrderEvent) × OptionSet) :=
  join (fun r os => decide (collate os.id = collate (r.1.optionSetId.getD "")) && os.live)
    ((selectionsOf tenantId d).filter fun r => r.1.optionSetId.isSome) d.optionSets

/-- A group of them: the id, the name, the sum and the count. -/
def setSold? (rows : List ((OrderSelection × OrderEvent) × OptionSet)) :
    Option (String × String × ℤ × ℕ) :=
  rows.head?.map fun r => (r.1.1.optionSetId.getD "", r.2.name,
    (rows.map fun r => r.1.1.priceDeltaMinor).sum, rows.length)

def optionSetRevenue (tenantId : ℕ) (d : Db) : Capped OptionSetRevenue :=
  let groups := groupBy (fun r => (collate (r.1.1.optionSetId.getD ""), collate r.2.name))
    (setRows collate tenantId d)
  capped (((orderBy (compareLex (desc fun p => p.2.2.1) (compareLex (desc fun p => p.2.2.2)
      (asc fun p => collate p.2.1))) (groups.filterMap setSold?)).take maxRows).map
        fun p => ⟨p.1, p.2.1, number p.2.2.1, p.2.2.2⟩)
    (countDistinct (fun r => collate (r.1.1.optionSetId.getD "")) (setRows collate tenantId d))

/-- `currency`: the one of all orders. -/
def currency (tenantId : ℕ) (d : Db) : Option String :=
  match groupBy collate ((eventsOf tenantId d).map OrderEvent.currency) with
  | [currencies] => currencies.head?
  | _ => none

def unattributedSelections (tenantId : ℕ) (d : Db) : ℕ :=
  ((selectionsOf tenantId d).filter fun r => r.1.optionSetId.isNone).length

/-! ## The summary -/

/-- Everything the analytics screen renders. -/
structure AnalyticsSummary where
  attach : AttachRate
  topOptions : Capped OptionRevenue
  topValues : Capped ValueRevenue
  leastValues : Capped ValueRevenue
  deadOptions : Capped DeadOption
  trend : RevenueTrend
  conversion : Capped OptionConversion
  products : Capped ProductRevenue
  unattributedProductSelections : ℕ
  optionSets : Capped OptionSetRevenue
  unattributedSelections : ℕ
  currency : Option String
  deriving DecidableEq

/-- `AnalyticsService.summary`, at a time. -/
def summary (now : ℤ) (tenantId : ℕ) (d : Db) : AnalyticsSummary where
  attach := attachRate tenantId d
  topOptions := optionRevenue collate tenantId d
  topValues := valueRevenue collate tenantId d .most
  leastValues := valueRevenue collate tenantId d .least
  deadOptions := deadOptions collate tenantId d
  trend := revenueTrend now tenantId d 30
  conversion := optionConversion collate tenantId d
  products := productRevenue collate tenantId d
  unattributedProductSelections := unattributedProducts tenantId d
  optionSets := optionSetRevenue collate tenantId d
  unattributedSelections := unattributedSelections tenantId d
  currency := currency collate tenantId d

/-! ## The export -/

/-- The characters that open a formula. -/
def opensFormula (c : Char) : Bool :=
  c == '=' || c == '+' || c == '-' || c == '@' || c == '\t' || c == '\r'

/-- A cell: guarded where it is no number, and quoted where it must be. -/
def escape (numericColumns : List ℕ) (raw : String) (column : ℕ) (isHeader : Bool) : String :=
  let exempt := !isHeader && decide (column ∈ numericColumns)
  let guarded := if !exempt && raw.toList.head?.any opensFormula then "\t" ++ raw else raw
  if guarded.toList.any fun c => c == '"' || c == ',' || c == '\r' || c == '\n' then
    "\"" ++ String.ofList (guarded.toList.flatMap fun c => if c = '"' then ['"', '"'] else [c]) ++
      "\""
  else guarded

def toCsv (header : List String) (rows : List (List String)) (numericColumns : List ℕ) : String :=
  "\r\n".intercalate ((header :: rows).mapIdx fun index row =>
    ",".intercalate (row.mapIdx fun column cell =>
      escape numericColumns cell column (decide (index = 0))))

def exportOptionRevenue (tenantId : ℕ) (d : Db) : String :=
  toCsv ["option_key", "option_label", "revenue_minor", "currency", "orders"]
    ((optionsSold collate tenantId d).map fun row =>
      [row.optionKey, row.label, Js.numberString row.revenueMinor,
        (currency collate tenantId d).getD "", Js.numberString (number row.orders)])
    [2, 4]

end Optionia.Analytics
