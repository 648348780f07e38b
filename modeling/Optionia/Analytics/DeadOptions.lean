import Optionia.Analytics.Service
import Optionia.Orders.Earned
/-!
# Options that nobody chose

An order's lines keep an answer under the option's id, and a report names the
option by what it finds there. The dashboard looks for live options of which
no order of the set's store names the key. However often and in whatever order
reports are taken, the tables have the names of each order's last report alone
(`recorded_run`), so that an option is listed as unused just when no such
report names its key (`mem_neverChosen_iff`): also an option that was sold,
where its key is not its id (`neverChosen_of_sold`). The list is right exactly
where an option is named by its key just when it was chosen by its id
(`listsTheUnchosen_iff`).
-/

namespace Optionia.Analytics

open Query Runs
open Reporting (Selection OrderItem Order Shop Report answerText? metaSelections clamp maxOptionKey
  maxSelections lineSelections attributeDelta selectionOf build withAmount attributeDelta_eq
  selections_eq)
open Orders (Delivery State lines storedSelections? Leaves Apart)

/-! ## What an order names -/

/-- The options a line has an answer of, by id. -/
def answeredIds (item : OrderItem) : List String :=
  match Php.jsonDecode (item.getMeta metaSelections) with
  | .arr decoded => decoded.filterMap fun p => (answerText? p.2).map fun _ => p.1
  | _ => []

/-- The options an order has an answer of. -/
def orderIds (order : Order) : List String := (lines order).flatMap answeredIds

/-- What the report of an order names its options by: as many as it lists, each
as long as it may be. -/
def reportedKeys (order : Order) : List String :=
  ((orderIds order).take maxSelections).map fun id => clamp id maxOptionKey

theorem keys_attributeDelta (rows : List Selection) (item : OrderItem) :
    (attributeDelta rows item).map Selection.optionKey = rows.map Selection.optionKey := by
  cases rows with
  | nil => rfl
  | cons first rest =>
    unfold attributeDelta
    cases Reporting.lineMinor? item <;> rfl

theorem keys_lineSelections (shop : Shop) (item : OrderItem) :
    (lineSelections shop item).map Selection.optionKey =
      (answeredIds item).map fun id => clamp id maxOptionKey := by
  unfold lineSelections answeredIds
  cases Php.jsonDecode (item.getMeta metaSelections) with
  | arr decoded =>
    dsimp only
    rw [keys_attributeDelta, List.map_filterMap, List.map_filterMap]
    refine List.filterMap_congr fun p _ => ?_
    rw [Option.map_map, Option.map_map]
    rfl
  | _ => rfl

/-- **A report names the options its order has an answer of.** -/
theorem keys_build {shop : Shop} {order : Order} {dto : Report} (h : build shop order = some dto) :
    dto.selections.map Selection.optionKey = reportedKeys order := by
  unfold build at h
  dsimp only at h
  split_ifs at h
  obtain rfl := Option.some.inj h
  change (Reporting.selections shop (lines order)).selections.map Selection.optionKey = _
  have hkeys : ((lines order).flatMap (lineSelections shop)).map Selection.optionKey =
      (orderIds order).map fun id => clamp id maxOptionKey := by
    rw [orderIds, List.map_flatMap, List.map_flatMap]
    exact List.flatMap_congr fun item _ => keys_lineSelections shop item
  rw [(selections_eq shop _).1, List.map_take, hkeys, reportedKeys, List.map_take]

theorem keys_storedSelections? {selections rows : List Selection}
    (h : storedSelections? selections = some rows) :
    rows.map Selection.optionKey = selections.map Selection.optionKey := by
  induction selections generalizing rows with
  | nil =>
    obtain rfl := Option.some.inj h
    rfl
  | cons selection selections ih =>
    obtain ⟨row, hrow, h⟩ := Option.bind_eq_some_iff.1 h
    obtain ⟨rest, hrest, rfl⟩ := Option.map_eq_some_iff.1 h
    obtain ⟨amount, -, hrow⟩ := Option.bind_eq_some_iff.1 hrow
    obtain ⟨version, -, rfl⟩ := Option.map_eq_some_iff.1 hrow
    rw [List.map_cons, List.map_cons, ih hrest]

/-! ## What is on record -/

/-- Every event has the names of its order's last report, and every order that
was reported has an event. -/
structure Recorded (s : State) : Prop where
  apart : Apart s.db
  /-- An event has the names its order was last reported with. -/
  keys : ∀ key event, s.db.events.get? key = some event → ∃ told, s.last.get? key = some told ∧
    (s.db.selectionsOf event.id).map Selection.optionKey = reportedKeys told.2
  events : ∀ key told, s.last.get? key = some told → ∃ event, s.db.events.get? key = some event

theorem recorded_fresh : Recorded Orders.fresh := by
  have hnone : ∀ key event, Orders.fresh.db.events.get? key = some event → False := by
    intro key event hevent
    exact absurd hevent.symm (Option.some_ne_none event)
  refine ⟨⟨?_, ?_⟩, ?_, ?_⟩
  · exact fun key event hevent => (hnone key event hevent).elim
  · exact fun key _ event _ hevent => (hnone key event hevent).elim
  · exact fun key event hevent => (hnone key event hevent).elim
  · intro key told htold
    exact absurd htold.symm (Option.some_ne_none told)

/-- **A report keeps the record**, whether it is taken or not. -/
theorem recorded_step (validDate : String → Bool) (s : State) (delivery : Delivery)
    (h : Recorded s) : Recorded (Orders.step validDate s delivery) := by
  obtain ⟨-, hsame⟩ | ⟨dto, db, -, hbuild, hleaves, hstep⟩ :=
    Orders.step_cases validDate s delivery
  · rw [hsame]
    exact h
  · obtain ⟨event, hevent, -, hrows, hid⟩ := hleaves.event
    rw [hstep]
    refine ⟨Orders.apart_leaves h.apart hleaves, fun key other hother => ?_,
      fun key told htold => ?_⟩
    · by_cases hkey : key = (delivery.storeId, dto.externalOrderId)
      · subst hkey
        rw [hevent] at hother
        obtain rfl := Option.some.inj hother
        refine ⟨_, OrderedMap.get?_set_self _ _ _, ?_⟩
        rw [keys_storedSelections? hrows, keys_build hbuild]
      · -- Another event keeps its selections: its id is not the one written under.
        rw [hleaves.others key hkey] at hother
        obtain ⟨told, hlast, hkeys⟩ := h.keys key other hother
        have hother' : other.id ≠ ((s.db.events.get? (delivery.storeId,
            dto.externalOrderId)).map Orders.OrderEvent.id).getD s.db.nextId :=
          h.apart.ne_written hother hkey
        refine ⟨told, (OrderedMap.get?_set_ne _ _ hkey).trans hlast, ?_⟩
        rw [hleaves.selections other.id hother', hkeys]
    · by_cases hkey : key = (delivery.storeId, dto.externalOrderId)
      · subst hkey
        exact ⟨event, hevent⟩
      · rw [OrderedMap.get?_set_ne _ _ hkey] at htold
        obtain ⟨other, hother⟩ := h.events key told htold
        exact ⟨other, (hleaves.others key hkey).trans hother⟩

theorem recorded_run (validDate : String → Bool) (deliveries : List Delivery) :
    Recorded (run (Orders.step validDate) Orders.fresh deliveries) :=
  invariant_of_forall (recorded_step validDate) recorded_fresh deliveries

/-! ## The tables -/

/-- A row of `options`, with its id: what the configuration names it by, and so
what an order keeps its answer under. -/
structure ConfiguredOption where
  id : String
  row : OptionRow

/-- The tables beside those of orders. -/
structure Configuration where
  stores : List Store
  optionSets : List OptionSet
  optionGroups : List OptionGroup
  options : List ConfiguredOption
  optionViewCounts : List OptionViewCount
  storeProducts : List StoreProduct

section Tables

variable (collate : String → String) (instant : String → ℤ) (config : Configuration)
  (tenantId : ℕ)

/-- All tables, as analytics reads them. The rows' own ids are their places. -/
def tables (db : Orders.Db) : Db where
  stores := config.stores
  orderEvents := db.events.entries.map fun p =>
    { id := p.2.id
      storeId := p.1.1
      orderTotalMinor := p.2.orderTotalMinor
      currency := p.2.currency
      optionRevenueMinor := p.2.optionRevenueMinor
      occurredAt := instant p.2.occurredAt }
  orderSelections := db.selections.zipIdx.map fun p =>
    { id := p.2
      orderEventId := p.1.1
      optionKey := p.1.2.optionKey
      optionLabel := p.1.2.optionLabel
      valueKey := p.1.2.valueKey
      optionSetId := p.1.2.optionSetId
      productRef := p.1.2.productRef
      priceDeltaMinor := p.1.2.priceDeltaMinor }
  optionViewCounts := config.optionViewCounts
  storeProducts := config.storeProducts
  optionSets := config.optionSets
  optionGroups := config.optionGroups
  options := config.options.map ConfiguredOption.row

/-- A live option of a live set of the tenant. -/
def LiveOption (db : Orders.Db) (os : OptionSet) (g : OptionGroup) (o : ConfiguredOption) : Prop :=
  o ∈ config.options ∧ ((os, g), o.row) ∈ liveOptions collate tenantId (tables instant config db)

end Tables

/-- An order that a store reported has an answer of the option. -/
def Chosen (s : State) (storeId : ℕ) (optionId : String) : Prop :=
  ∃ externalOrderId told, s.last.get? (storeId, externalOrderId) = some told ∧
    optionId ∈ orderIds told.2

/-- An order that a store reported names an option by this key. -/
def Named (collate : String → String) (s : State) (storeId : ℕ) (key : String) : Prop :=
  ∃ externalOrderId told, s.last.get? (storeId, externalOrderId) = some told ∧
    ∃ name ∈ reportedKeys told.2, collate name = collate key

section Listing

variable {collate : String → String} {instant : String → ℤ} {config : Configuration}
  {tenantId storeId : ℕ} {s : State} {key : String}

/-- **The store's selections name what its orders do.** -/
theorem chosen_tables_iff (h : Recorded s) :
    chosen collate (tables instant config s.db) storeId key = true ↔
      Named collate s storeId key := by
  rw [chosen, List.any_eq_true]
  constructor
  · rintro ⟨⟨sel, e⟩, hmem, htest⟩
    obtain ⟨hsel, he, hon⟩ := mem_join.1 hmem
    obtain ⟨⟨⟨eventId, row⟩, place⟩, hrow, rfl⟩ := List.mem_map.1 hsel
    obtain ⟨⟨⟨store, externalOrderId⟩, event⟩, hevent, rfl⟩ := List.mem_map.1 he
    obtain ⟨hname, rfl⟩ := of_decide_eq_true htest
    obtain rfl : event.id = eventId := of_decide_eq_true hon
    obtain ⟨told, hlast, hkeys⟩ := h.keys _ event (OrderedMap.get?_eq_some.2 hevent)
    refine ⟨externalOrderId, told, hlast, row.optionKey, ?_, hname⟩
    have hrow' : row ∈ s.db.selectionsOf event.id := by
      refine List.mem_map.2 ⟨(event.id, row), List.mem_filter.2 ⟨?_, beq_self_eq_true _⟩, rfl⟩
      exact List.fst_mem_of_mem_zipIdx hrow
    rw [← hkeys]
    exact List.mem_map_of_mem hrow'
  · rintro ⟨externalOrderId, told, hlast, name, hname, heq⟩
    obtain ⟨event, hevent⟩ := h.events _ told hlast
    obtain ⟨told', hlast', hkeys⟩ := h.keys _ event hevent
    rw [hlast] at hlast'
    obtain rfl := Option.some.inj hlast'
    rw [← hkeys] at hname
    obtain ⟨row, hrow, rfl⟩ := List.mem_map.1 hname
    obtain ⟨⟨eventId, row'⟩, hmem, rfl⟩ := List.mem_map.1 hrow
    obtain ⟨hmem, hid⟩ := List.mem_filter.1 hmem
    obtain ⟨place, hplace⟩ := List.mem_iff_getElem?.1 hmem
    refine ⟨(_, _), mem_join.2 ⟨List.mem_map_of_mem (List.mk_mem_zipIdx_iff_getElem?.2 hplace),
      List.mem_map_of_mem (OrderedMap.get?_eq_some.1 hevent), ?_⟩, ?_⟩
    · exact decide_eq_true (eq_of_beq hid).symm
    · exact decide_eq_true ⟨heq, rfl⟩

/-- **An option is unused to analytics just when no order of its set's store
names its key.** -/
theorem mem_neverChosen_iff (h : Recorded s) {r : (OptionSet × OptionGroup) × OptionRow}
    (hr : r ∈ liveOptions collate tenantId (tables instant config s.db)) :
    r ∈ neverChosen collate tenantId (tables instant config s.db) ↔
      ¬ Named collate s r.1.1.storeId r.2.key := by
  rw [neverChosen, List.mem_filter, Bool.not_eq_true', ← Bool.not_eq_true, chosen_tables_iff h]
  exact and_iff_right hr

/-- **An option that was sold is unused to analytics** where what its store's
orders are named by is never its key. -/
theorem neverChosen_of_sold (h : Recorded s) {os : OptionSet} {g : OptionGroup}
    {o : ConfiguredOption} (hlive : LiveOption collate instant config tenantId s.db os g o)
    (hapart : ∀ externalOrderId told, s.last.get? (os.storeId, externalOrderId) = some told →
      ∀ id ∈ orderIds told.2, collate (clamp id maxOptionKey) ≠ collate o.row.key) :
    ((os, g), o.row) ∈ neverChosen collate tenantId (tables instant config s.db) := by
  refine (mem_neverChosen_iff h hlive.2).2 ?_
  rintro ⟨externalOrderId, told, hlast, name, hname, heq⟩
  obtain ⟨id, hid, rfl⟩ := List.mem_map.1 hname
  exact hapart externalOrderId told hlast id (List.mem_of_mem_take hid) heq

end Listing

/-! ## The list -/

/-- An option as it is listed. -/
def listed (r : (OptionSet × OptionGroup) × OptionRow) : DeadOption :=
  ⟨r.1.1.id, r.1.1.name, r.2.key, r.2.label⟩

/-- **The dead options are those nobody chose**: the total counts a live option
of a live set just when no order that the set's store reported has an answer of
it, and up to its bound the list has what the total counts. -/
structure ListsTheUnchosen (collate : String → String) (instant : String → ℤ)
    (config : Configuration) (tenantId : ℕ) (s : State) : Prop where
  total : (deadOptions collate tenantId (tables instant config s.db)).total =
    (neverChosen collate tenantId (tables instant config s.db)).length
  rows : (neverChosen collate tenantId (tables instant config s.db)).length ≤ maxRows →
    (deadOptions collate tenantId (tables instant config s.db)).rows.Perm
      ((neverChosen collate tenantId (tables instant config s.db)).map listed)
  counted : ∀ os g o, LiveOption collate instant config tenantId s.db os g o →
    (((os, g), o.row) ∈ neverChosen collate tenantId (tables instant config s.db) ↔
      ¬ Chosen s os.storeId o.id)

/-- **The list is right just where an option is named by its key exactly when
it was chosen by its id**, in every state that reports lead to. -/
theorem listsTheUnchosen_iff (collate : String → String) (validDate : String → Bool)
    (instant : String → ℤ) (config : Configuration) (tenantId : ℕ) (deliveries : List Delivery) :
    ListsTheUnchosen collate instant config tenantId
        (run (Orders.step validDate) Orders.fresh deliveries) ↔
      ∀ os g o, LiveOption collate instant config tenantId
          (run (Orders.step validDate) Orders.fresh deliveries).db os g o →
        (Chosen (run (Orders.step validDate) Orders.fresh deliveries) os.storeId o.id ↔
          Named collate (run (Orders.step validDate) Orders.fresh deliveries) os.storeId
            o.row.key) := by
  have hrecorded := recorded_run validDate deliveries
  generalize run (Orders.step validDate) Orders.fresh deliveries = s at hrecorded ⊢
  constructor
  · intro h os g o hlive
    have hcounted := h.counted os g o hlive
    rw [mem_neverChosen_iff hrecorded hlive.2] at hcounted
    exact (not_iff_not.1 hcounted).symm
  · intro h
    refine ⟨rfl, fun hfew => ?_, fun os g o hlive => ?_⟩
    · refine List.Perm.map _ ?_
      rw [List.take_of_length_le]
      · exact List.mergeSort_perm _ _
      · exact (List.mergeSort_perm _ _).length_eq.trans_le hfew
    · rw [mem_neverChosen_iff hrecorded hlive.2]
      exact not_iff_not.2 (h os g o hlive).symm

/-! ## An option that was sold -/

/-- The id of an option whose key is `finish`. -/
def finishId : String := "01890a5d-ac96-774b-bcce-b302099a8057"

/-- Its set, in a shop with nothing else. -/
def finishSet : OptionSet := ⟨"01890a5d-ac96-774b-bcce-b302099a8050", 7, 1, "Finishes", true⟩

def finishGroup : OptionGroup := ⟨1, finishSet.id, true⟩

def finishOption : ConfiguredOption := ⟨finishId, ⟨1, "finish", "Finish", 0, true⟩⟩

/-- The one shop of a tenant. -/
def finishes : Configuration :=
  ⟨[⟨1, 7⟩], [finishSet], [finishGroup], [finishOption], [], []⟩

def finishOrdered : Delivery :=
  Orders.oneLine ⟨[(metaSelections,
    "\x7b\"01890a5d-ac96-774b-bcce-b302099a8057\":\"lux\"\x7d")], by decide⟩

/-- **An option that was sold is listed as unused.** -/
theorem not_forall_listsTheUnchosen : ¬ ∀ (collate : String → String) (validDate : String → Bool)
    (instant : String → ℤ) (config : Configuration) (tenantId : ℕ) (deliveries : List Delivery),
    ListsTheUnchosen collate instant config tenantId
      (run (Orders.step validDate) Orders.fresh deliveries) := by
  intro h
  have hlist := h id (fun _ => true) (fun _ => 0) finishes 7 [finishOrdered]
  have hlive : ((finishSet, finishGroup), finishOption.row) ∈ liveOptions id 7 (tables (fun _ => 0)
      finishes (run (Orders.step fun _ => true) Orders.fresh [finishOrdered]).db) := by
    decide +kernel
  have hunused : ((finishSet, finishGroup), finishOption.row) ∈ neverChosen id 7 (tables
      (fun _ => 0) finishes (run (Orders.step fun _ => true) Orders.fresh [finishOrdered]).db) := by
    decide +kernel
  have hchosen : ((run (Orders.step fun _ => true) Orders.fresh [finishOrdered]).last.get?
      (1, "32")).map (fun told => orderIds told.2) = some [finishId] := by
    decide +kernel
  obtain ⟨told, htold, hids⟩ := Option.map_eq_some_iff.1 hchosen
  refine (hlist.counted _ _ finishOption ⟨List.mem_singleton_self _, hlive⟩).1 hunused
    ⟨"32", told, htold, ?_⟩
  rw [hids]
  exact List.mem_singleton_self _

end Optionia.Analytics
