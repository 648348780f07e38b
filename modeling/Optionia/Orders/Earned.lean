import Optionia.Lib.Runs
import Optionia.Reporting.Listing
/-!
# The cloud's record of orders, and what they earned

`OrdersService.report`: one transaction, which puts an order's event under the
store's and the order's id, or rewrites the one that is there, and puts the
report's selections in the place of those the event had. The report is what
`OrderPayload::build` made, sent as JSON, so its amounts pass through the
numbers of JavaScript.
-/

namespace Optionia.Orders

open Reporting

/-- What a column of integers holds of an integer that came as JSON: it is read
as a double and handed to the database in decimal. Beyond the column's range it
is refused. -/
def bigint? (n : ℤ) : Option ℤ :=
  (Decimal.plain? (Js.numberString (.ofInt n)).toList).bind fun q =>
    if q.den = 1 ∧ -2 ^ 63 ≤ q.num ∧ q.num < 2 ^ 63 then some q.num else none

/-- A row of `order_events`. -/
structure OrderEvent where
  id : ℕ
  orderTotalMinor : ℤ
  currency : String
  optionRevenueMinor : ℤ
  occurredAt : String

/-- The two tables: the events under the store and the order's own id, and the
selections, each with the event it is of. -/
structure Db where
  events : OrderedMap (ℕ × String) OrderEvent
  selections : List (ℕ × Selection)
  /-- The id that `UUID()` gives next. -/
  nextId : ℕ

namespace Db

def selectionsOf (db : Db) (id : ℕ) : List Selection :=
  (db.selections.filter (·.1 == id)).map Prod.snd

end Db

/-- A selection as it is stored. -/
def storedSelection? (selection : Selection) : Option Selection :=
  (bigint? selection.priceDeltaMinor).bind fun priceDeltaMinor =>
    (bigint? selection.configVersion).map fun configVersion =>
      { selection with priceDeltaMinor := priceDeltaMinor, configVersion := configVersion }

/-- All of them, or none where one is refused. -/
def storedSelections? : List Selection → Option (List Selection)
  | [] => some []
  | selection :: selections =>
    (storedSelection? selection).bind fun row =>
      (storedSelections? selections).map fun rows => row :: rows

section

variable (validDate : String → Bool)

/-- `OrdersService.report`, which leaves nothing where a statement fails. -/
def report (db : Db) (storeId : ℕ) (dto : Report) : Option Db :=
  if validDate dto.occurredAt then
    (bigint? dto.orderTotalMinor).bind fun orderTotalMinor =>
    (bigint? dto.optionRevenueMinor).bind fun optionRevenueMinor =>
    (storedSelections? dto.selections).map fun rows =>
      let key := (storeId, dto.externalOrderId)
      let id := ((db.events.get? key).map OrderEvent.id).getD db.nextId
      { events := db.events.set key
          ⟨id, orderTotalMinor, dto.currency.toUpper, optionRevenueMinor, dto.occurredAt⟩
        selections := db.selections.filter (·.1 != id) ++ rows.map fun row => (id, row)
        nextId := db.nextId + 1 }
  else none

/-! ## Reports of orders -/

/-- The tables, and for each event the order that the last report told of. -/
structure State where
  db : Db
  /-- The order as it was when its last report was built. -/
  last : OrderedMap (ℕ × String) (Shop × Order)

def fresh : State := ⟨⟨∅, [], 0⟩, ∅⟩

/-- A report of an order, or a retry of one: the order is as it is when the
report is built, and the database may fail. -/
structure Delivery where
  storeId : ℕ
  shop : Shop
  order : Order
  fails : Bool

/-- What the report of an order leaves, where it is taken. -/
def Delivery.taken (delivery : Delivery) (db : Db) : Option (Report × Db) :=
  (build delivery.shop delivery.order).bind fun dto =>
    if delivery.fails then none
    else (report validDate db delivery.storeId dto).map fun db' => (dto, db')

def step (s : State) (delivery : Delivery) : State :=
  match delivery.taken validDate s.db with
  | some (dto, db) =>
    { db
      last := s.last.set (delivery.storeId, dto.externalOrderId) (delivery.shop, delivery.order) }
  | none => s

end

end Optionia.Orders

/-! ## What options earned, as it is stored

A report counts what the rows of an order's lines carry, and a line carries its
amount on the first of its rows: a line of which no selection can be read has
none, and its amount is not counted (`revenue_eq`). Everything else comes
through: however often and in whatever order reports are taken, an event has
the rows of its last report alone (`Recorded`), and where the amounts are
within what a double holds they are stored as they were counted. So
`told_iff`: in every state of a run the stored revenue is what the order's
lines earned just when in every report that is taken the lines without a row
come to nothing.
-/

namespace Optionia.Orders

open Reporting Runs

variable {validDate : String → Bool} {db db' : Db} {s : State} {delivery : Delivery}
  {shop : Shop} {order : Order} {item : OrderItem} {dto : Report} {n : ℤ} {storeId : ℕ}
  {key : ℕ × String} {event : OrderEvent}

/-! ## Numbers on the way -/

/-- **An integer that a double holds is stored as it is.** -/
theorem bigint?_of_le (h : |n| ≤ 2 ^ 53) : bigint? n = some n := by
  obtain ⟨v, hv, hval⟩ := Binary64.exists_ofInt_eq h
  have hden : v.val.den = 1 := by
    rw [hval]
    exact Rat.den_intCast n
  have hnum : v.val.num = n := by
    rw [hval]
    exact Rat.num_intCast n
  have hsmall : |v.val| ≤ 2 ^ 53 := by
    rw [hval]
    exact_mod_cast h
  have hmagnitude : Js.magnitudeString v.val = Nat.toDigits 10 n.natAbs := by
    unfold Js.magnitudeString
    rw [if_pos ⟨hden, hsmall⟩, hnum]
    exact String.toList_ofList
  have hsign : decide (v.val < 0) = decide (n < 0) := by
    rw [hval]
    exact decide_eq_decide.2 Int.cast_lt_zero
  have htext : (Js.numberString (.ofInt n)).toList =
      Decimal.signText (decide (n < 0)) (Nat.toDigits 10 n.natAbs ++ Decimal.pointed []) := by
    have hsigned : (Js.numberString (.finite v)).toList =
        Decimal.signText (decide (v.val < 0)) (Js.magnitudeString v.val) := by
      unfold Js.numberString Decimal.signText
      rw [String.toList_ofList]
      simp only [decide_eq_true_eq]
    rw [hv, hsigned, hsign, hmagnitude, Decimal.pointed, if_pos rfl, List.append_nil]
  have hread : Decimal.plain? (Js.numberString (.ofInt n)).toList = some (n : ℚ) := by
    rw [htext, Decimal.plain?_eq Nat.toDigits_ne_nil
      (fun c hc => Decimal.isDigit_of_mem_toDigits hc) fun c hc => absurd hc List.not_mem_nil]
    have hdigits : Decimal.scaled (Nat.toDigits 10 n.natAbs) [] 0 = (n.natAbs : ℚ) := by
      unfold Decimal.scaled
      simp
    rw [hdigits, Decimal.signed]
    by_cases hneg : n < 0
    · rw [if_pos (decide_eq_true hneg), Nat.cast_natAbs, abs_of_neg hneg]
      push_cast
      rw [neg_neg]
    · rw [if_neg (by simpa using hneg), Nat.cast_natAbs, abs_of_nonneg (not_lt.1 hneg)]
  unfold bigint?
  rw [hread, Option.bind_some, if_pos]
  · rw [Rat.num_intCast]
  · have hbounds := abs_le.1 h
    rw [Rat.num_intCast, Rat.den_intCast]
    exact ⟨rfl, by omega, by omega⟩

/-! ## What a report counts -/

def lines (order : Order) : List OrderItem := order.items.getD []

/-- What the options of an order earned: the amounts of its lines, each the
amount per unit by the quantity. -/
def earned (order : Order) : ℤ := ((lines order).map lineMinor).sum

/-- The lines of which a selection can be read. -/
def listedLines (shop : Shop) (order : Order) : List OrderItem :=
  (lines order).filter fun item => !(lineSelections shop item).isEmpty

/-- The lines of which none can. -/
def unlistedLines (shop : Shop) (order : Order) : List OrderItem :=
  (lines order).filter fun item => (lineSelections shop item).isEmpty

/-- How many options were chosen on a line. -/
def chosen (item : OrderItem) : ℕ :=
  match Php.jsonDecode (item.getMeta metaSelections) with
  | .arr decoded => decoded.length
  | _ => 0

theorem exists_rows (shop : Shop) (item : OrderItem) : ∃ rows : List Selection,
    lineSelections shop item = withAmount (lineMinor item) rows ∧ rows.length ≤ chosen item ∧
      ∀ row ∈ rows, row.priceDeltaMinor = 0 := by
  unfold lineSelections chosen
  cases Php.jsonDecode (item.getMeta metaSelections) with
  | arr decoded =>
    have hzero : ∀ row ∈ decoded.filterMap fun p =>
        (answerText? p.2).map (selectionOf shop item p.1), row.priceDeltaMinor = 0 := by
      intro row hrow
      obtain ⟨p, -, hp⟩ := List.mem_filterMap.1 hrow
      obtain ⟨text, -, rfl⟩ := Option.map_eq_some_iff.1 hp
      rfl
    exact ⟨_, attributeDelta_eq item hzero, List.length_filterMap_le _ _, hzero⟩
  | _ => exact ⟨[], rfl, Nat.zero_le _, fun row hrow => absurd hrow List.not_mem_nil⟩

theorem sum_lineSelections (shop : Shop) (item : OrderItem) :
    ((lineSelections shop item).map Selection.priceDeltaMinor).sum =
      if (lineSelections shop item).isEmpty then 0 else lineMinor item := by
  obtain ⟨rows, hrows, -, hzero⟩ := exists_rows shop item
  rw [hrows]
  cases rows with
  | nil => rfl
  | cons first rest =>
    rw [sum_withAmount (List.cons_ne_nil _ _) hzero]
    rfl

/-- **What a report counts is what the lines earned of which a selection can be
read.** -/
theorem revenue_eq (shop : Shop) (order : Order) :
    (selections shop (lines order)).revenue = ((listedLines shop order).map lineMinor).sum := by
  rw [(selections_eq shop (lines order)).2]
  unfold listedLines
  induction lines order with
  | nil => rfl
  | cons item items ih =>
    have hline := sum_lineSelections shop item
    rw [List.flatMap_cons, List.map_append, List.sum_append, ih, hline]
    cases hnone : (lineSelections shop item).isEmpty with
    | true =>
      rw [List.filter_cons_of_neg (by simp [hnone]), if_pos rfl, zero_add]
    | false =>
      rw [List.filter_cons_of_pos (by simp [hnone]), if_neg Bool.false_ne_true, List.map_cons,
        List.sum_cons]

theorem earned_eq (shop : Shop) (order : Order) :
    earned order = ((listedLines shop order).map lineMinor).sum +
      ((unlistedLines shop order).map lineMinor).sum := by
  unfold earned listedLines unlistedLines
  induction lines order with
  | nil => rfl
  | cons item items ih =>
    rw [List.map_cons, List.sum_cons, ih]
    cases hnone : (lineSelections shop item).isEmpty with
    | true =>
      rw [List.filter_cons_of_neg (by simp [hnone]), List.filter_cons_of_pos (by simp [hnone]),
        List.map_cons, List.sum_cons]
      ring
    | false =>
      rw [List.filter_cons_of_pos (by simp [hnone]), List.filter_cons_of_neg (by simp [hnone]),
        List.map_cons, List.sum_cons]
      ring

theorem sum_selections (h : ((lines order).map chosen).sum ≤ maxSelections) :
    ((selections shop (lines order)).selections.map Selection.priceDeltaMinor).sum =
      (selections shop (lines order)).revenue := by
  obtain ⟨hlisted, hrevenue⟩ := selections_eq shop (lines order)
  have hlength : ((lines order).flatMap (lineSelections shop)).length ≤ maxSelections := by
    refine le_trans ?_ h
    rw [List.length_flatMap]
    refine List.sum_le_sum fun item _ => ?_
    obtain ⟨rows, hrows, hle, -⟩ := exists_rows shop item
    rw [hrows, length_withAmount]
    exact hle
  rw [hlisted, hrevenue, List.take_of_length_le hlength]

theorem abs_priceDeltaMinor_le {selection : Selection}
    (h : selection ∈ (selections shop (lines order)).selections) :
    |selection.priceDeltaMinor| ≤ 2 ^ 53 := by
  rw [(selections_eq shop (lines order)).1] at h
  obtain ⟨item, -, hrow⟩ := List.mem_flatMap.1 (List.mem_of_mem_take h)
  obtain ⟨rows, hrows, -, hzero⟩ := exists_rows shop item
  rw [hrows] at hrow
  have hamount : |lineMinor item| ≤ 2 ^ 53 := by
    unfold lineMinor lineMinor?
    cases hunit : tryFromDecimal (item.getMeta metaPriceDelta) 2 with
    | none => simp
    | some unit =>
      rw [Option.bind_some]
      split_ifs with hlarge
      · simp
      · have hquantity : 0 < quantity item := by
          unfold quantity
          split
          · exact Int.one_pos
          · split_ifs with hpos
            · exact hpos
            · exact Int.one_pos
        have hunit : |unit| * quantity item ≤ maxMinor :=
          (Int.le_ediv_iff_mul_le hquantity).1 (not_lt.1 hlarge)
        have hmax : maxMinor ≤ 2 ^ 53 := by norm_num [maxMinor]
        rw [Option.getD_some, abs_mul, abs_of_pos hquantity]
        exact hunit.trans hmax
  cases rows with
  | nil => exact absurd hrow List.not_mem_nil
  | cons first rest =>
    obtain heq | hrest := List.mem_cons.1 hrow
    · rw [heq]
      dsimp only
      exact hamount
    · rw [hzero selection (List.mem_cons_of_mem _ hrest)]
      norm_num

/-! ## What is stored -/

/-- The columns a stored selection has are those it was sent with, and its
amount is. -/
theorem storedSelections?_amounts {selections rows : List Selection}
    (hsmall : ∀ selection ∈ selections, |selection.priceDeltaMinor| ≤ 2 ^ 53)
    (h : storedSelections? selections = some rows) :
    rows.map Selection.priceDeltaMinor = selections.map Selection.priceDeltaMinor := by
  induction selections generalizing rows with
  | nil =>
    obtain rfl := Option.some.inj h
    rfl
  | cons selection selections ih =>
    obtain ⟨row, hrow, hrest⟩ := Option.bind_eq_some_iff.1 h
    obtain ⟨rows', hrows', rfl⟩ := Option.map_eq_some_iff.1 hrest
    obtain ⟨amount, hamount, hrow⟩ := Option.bind_eq_some_iff.1 hrow
    obtain ⟨version, -, rfl⟩ := Option.map_eq_some_iff.1 hrow
    rw [bigint?_of_le (hsmall selection List.mem_cons_self)] at hamount
    obtain rfl := Option.some.inj hamount
    have hrest := ih (fun other hother => hsmall other (List.mem_cons_of_mem _ hother)) hrows'
    rw [List.map_cons, List.map_cons, hrest]

/-- What a taken report leaves under its key. -/
structure Leaves (db db' : Db) (storeId : ℕ) (dto : Report) : Prop where
  /-- The event is as the report says, and has the report's selections alone. -/
  event : ∃ event, db'.events.get? (storeId, dto.externalOrderId) = some event ∧
    bigint? dto.optionRevenueMinor = some event.optionRevenueMinor ∧
      storedSelections? dto.selections = some (db'.selectionsOf event.id) ∧
        event.id = ((db.events.get? (storeId, dto.externalOrderId)).map OrderEvent.id).getD db.nextId
  others : ∀ key, key ≠ (storeId, dto.externalOrderId) →
    db'.events.get? key = db.events.get? key
  selections : ∀ id,
    id ≠ ((db.events.get? (storeId, dto.externalOrderId)).map OrderEvent.id).getD db.nextId →
      db'.selectionsOf id = db.selectionsOf id
  nextId : db'.nextId = db.nextId + 1

/-- **A report replaces what its event had, and touches no other.** -/
theorem leaves_report (h : report validDate db storeId dto = some db') :
    Leaves db db' storeId dto := by
  unfold report at h
  split_ifs at h
  obtain ⟨total, -, h⟩ := Option.bind_eq_some_iff.1 h
  obtain ⟨revenue, hrevenue, h⟩ := Option.bind_eq_some_iff.1 h
  obtain ⟨rows, hrows, rfl⟩ := Option.map_eq_some_iff.1 h
  obtain ⟨id, hid⟩ : ∃ id,
      ((db.events.get? (storeId, dto.externalOrderId)).map OrderEvent.id).getD db.nextId = id :=
    ⟨_, rfl⟩
  dsimp only
  have hold : ((db.selections.filter (·.1 != id)).filter (·.1 == id)) = [] := by
    rw [List.filter_filter, List.filter_eq_nil_iff]
    intro row _
    simp
  have hnew : ((rows.map fun row => (id, row)).filter (·.1 == id)) =
      rows.map fun row => (id, row) := by
    rw [List.filter_eq_self]
    intro row hrow
    obtain ⟨selection, -, rfl⟩ := List.mem_map.1 hrow
    simp
  rw [hid]
  refine ⟨⟨_, OrderedMap.get?_set_self _ _ _, hrevenue, ?_, hid.symm⟩, fun key hkey => ?_,
    fun other hother => ?_, rfl⟩
  · rw [hrows, Db.selectionsOf, List.filter_append, hold, hnew, List.nil_append, List.map_map]
    simp [Function.comp_def]
  · exact OrderedMap.get?_set_ne _ _ hkey
  · rw [hid] at hother
    have hkept : ((db.selections.filter (·.1 != id)).filter (·.1 == other)) =
        db.selections.filter (·.1 == other) := by
      rw [List.filter_filter]
      refine List.filter_congr fun row _ => ?_
      by_cases hrow : row.1 = other
      · simp [hrow, hother]
      · simp [hrow]
    have hnone : ((rows.map fun row => (id, row)).filter (·.1 == other)) = [] := by
      rw [List.filter_eq_nil_iff]
      intro row hrow
      obtain ⟨selection, -, rfl⟩ := List.mem_map.1 hrow
      simpa using Ne.symm hother
    rw [Db.selectionsOf, List.filter_append, hkept, hnone, List.append_nil, Db.selectionsOf]

/-! ## Runs -/

/-- No two events have one id, and none has the next. -/
structure Apart (db : Db) : Prop where
  below : ∀ key event, db.events.get? key = some event → event.id < db.nextId
  inj : ∀ key key' event event', db.events.get? key = some event →
    db.events.get? key' = some event' → event.id = event'.id → key = key'

/-- What an event should say of the order its last report was of. -/
structure Says (db : Db) (event : OrderEvent) (shop : Shop) (order : Order) : Prop where
  replaced : ∃ dto, build shop order = some dto ∧
    storedSelections? dto.selections = some (db.selectionsOf event.id)
  revenue : event.optionRevenueMinor = earned order
  /-- And the selections come to it, where the bound lists them all. -/
  selections : ((lines order).map chosen).sum ≤ maxSelections →
    ((db.selectionsOf event.id).map Selection.priceDeltaMinor).sum = event.optionRevenueMinor

def Told (s : State) : Prop :=
  ∀ key event, s.db.events.get? key = some event →
    ∃ shop order, s.last.get? key = some (shop, order) ∧ Says s.db event shop order

/-- The amounts a report counts are within the machine's integers as they are
added up, and their sum within what a double holds. -/
def Small (_ : State) (delivery : Delivery) : Prop :=
  (∀ n, |(((listedLines delivery.shop delivery.order).map lineMinor).take n).sum| < 2 ^ 63) ∧
    |((listedLines delivery.shop delivery.order).map lineMinor).sum| ≤ 2 ^ 53

/-- The lines of which no selection can be read come to nothing, in a report
that is taken. -/
def Counted (validDate : String → Bool) (s : State) (delivery : Delivery) : Prop :=
  (delivery.taken validDate s.db).isSome →
    ((unlistedLines delivery.shop delivery.order).map lineMinor).sum = 0

theorem step_cases (validDate : String → Bool) (s : State) (delivery : Delivery) :
    (delivery.taken validDate s.db = none ∧ step validDate s delivery = s) ∨
      ∃ dto db, delivery.taken validDate s.db = some (dto, db) ∧
        build delivery.shop delivery.order = some dto ∧ Leaves s.db db delivery.storeId dto ∧
          step validDate s delivery = ⟨db, s.last.set (delivery.storeId, dto.externalOrderId)
            (delivery.shop, delivery.order)⟩ := by
  cases htaken : delivery.taken validDate s.db with
  | none => exact .inl ⟨rfl, by rw [step, htaken]⟩
  | some taken =>
    obtain ⟨dto, db⟩ := taken
    refine .inr ⟨dto, db, rfl, ?_⟩
    have hstep : step validDate s delivery = ⟨db, s.last.set
        (delivery.storeId, dto.externalOrderId) (delivery.shop, delivery.order)⟩ := by
      rw [step, htaken]
    obtain ⟨dto', hbuild, hreport⟩ := Option.bind_eq_some_iff.1 htaken
    split_ifs at hreport
    obtain ⟨db', hdb, heq⟩ := Option.map_eq_some_iff.1 hreport
    obtain ⟨rfl, rfl⟩ := Prod.mk.inj heq
    exact ⟨hbuild, leaves_report hdb, hstep⟩

/-- **The event of a report that is taken says what its order earned just when
the lines without a row come to nothing.** -/
theorem says_iff (hsmall : Small s delivery) (hbuild : build delivery.shop delivery.order = some dto)
    (hrevenue : bigint? dto.optionRevenueMinor = some event.optionRevenueMinor)
    (hrows : storedSelections? dto.selections = some (db.selectionsOf event.id)) :
    Says db event delivery.shop delivery.order ↔
      ((unlistedLines delivery.shop delivery.order).map lineMinor).sum = 0 := by
  have hkeep := hbuild
  unfold build at hbuild
  dsimp only at hbuild
  split_ifs at hbuild
  obtain rfl := Option.some.inj hbuild
  have hcounted := revenue_eq delivery.shop delivery.order
  change bigint? (selections delivery.shop (lines delivery.order)).revenue = _ at hrevenue
  change storedSelections? (selections delivery.shop (lines delivery.order)).selections = _ at hrows
  have hstored : event.optionRevenueMinor =
      ((listedLines delivery.shop delivery.order).map lineMinor).sum := by
    rw [hcounted, bigint?_of_le hsmall.2] at hrevenue
    exact (Option.some.inj hrevenue).symm
  have hearned := earned_eq delivery.shop delivery.order
  have hamounts := storedSelections?_amounts (fun _ => abs_priceDeltaMinor_le) hrows
  constructor
  · intro h
    have hsays := h.revenue
    omega
  · intro hnone
    refine ⟨⟨_, hkeep, hrows⟩, by omega, fun hall => ?_⟩
    rw [hamounts, sum_selections hall, hcounted, hstored]

theorem apart_leaves (h : Apart db) (hleaves : Leaves db db' storeId dto) : Apart db' := by
  obtain ⟨event, hevent, -, -, hid⟩ := hleaves.event
  have hnext := hleaves.nextId
  -- The event that is written has the id it had, or the next.
  have hwritten : event.id < db'.nextId ∧ ∀ key other, db.events.get? key = some other →
      key ≠ (storeId, dto.externalOrderId) → event.id ≠ other.id := by
    cases hold : db.events.get? (storeId, dto.externalOrderId) with
    | none =>
      rw [hold, Option.map_none, Option.getD_none] at hid
      refine ⟨by omega, fun key other hother _ heq => ?_⟩
      have hbelow := h.below key other hother
      omega
    | some old =>
      rw [hold, Option.map_some, Option.getD_some] at hid
      have hbelow := h.below _ old hold
      refine ⟨by omega, fun key other hother hkey heq => hkey ?_⟩
      exact h.inj _ _ other old hother hold (by omega)
  have hcases : ∀ key other, db'.events.get? key = some other →
      (key = (storeId, dto.externalOrderId) ∧ other = event) ∨
        (key ≠ (storeId, dto.externalOrderId) ∧ db.events.get? key = some other) := by
    intro key other hother
    by_cases hkey : key = (storeId, dto.externalOrderId)
    · subst hkey
      rw [hevent] at hother
      exact .inl ⟨rfl, (Option.some.inj hother).symm⟩
    · rw [hleaves.others key hkey] at hother
      exact .inr ⟨hkey, hother⟩
  constructor
  · intro key other hother
    obtain ⟨-, rfl⟩ | ⟨-, hother⟩ := hcases key other hother
    · exact hwritten.1
    · have hbelow := h.below key other hother
      omega
  · intro key key' other other' hother hother' heq
    obtain ⟨rfl, rfl⟩ | ⟨hkey, hother⟩ := hcases key other hother
    · obtain ⟨rfl, -⟩ | ⟨hkey', hother'⟩ := hcases key' other' hother'
      · rfl
      · exact absurd heq (hwritten.2 key' other' hother' hkey')
    · obtain ⟨rfl, rfl⟩ | ⟨-, hother'⟩ := hcases key' other' hother'
      · exact absurd heq.symm (hwritten.2 key other hother hkey)
      · exact h.inj key key' other other' hother hother' heq

theorem Apart.ne_written (h : Apart db) {key' : ℕ × String}
    (hevent : db.events.get? key = some event) (hkey : key ≠ key') :
    event.id ≠ ((db.events.get? key').map OrderEvent.id).getD db.nextId := by
  intro heq
  cases hold : db.events.get? key' with
  | none =>
    rw [hold, Option.map_none, Option.getD_none] at heq
    have hbelow := h.below key event hevent
    omega
  | some old =>
    rw [hold, Option.map_some, Option.getD_some] at heq
    exact hkey (h.inj _ _ event old hevent hold heq)

/-- **After a report the events say what their orders earned just when they did
and its order's lines without a row come to nothing.** -/
theorem told_step_iff (hapart : Apart s.db) (htold : Told s) (hsmall : Small s delivery) :
    Counted validDate s delivery ↔ Told (step validDate s delivery) := by
  obtain ⟨hnone, hsame⟩ | ⟨dto, db, htaken, hbuild, hleaves, hstep⟩ :=
    step_cases validDate s delivery
  · rw [hsame]
    refine iff_of_true (fun hsome => ?_) htold
    rw [hnone] at hsome
    simp at hsome
  · obtain ⟨event, hevent, hrevenue, hrows, hid⟩ := hleaves.event
    have hsays := says_iff hsmall hbuild hrevenue hrows
    rw [hstep]
    constructor
    · intro hcounted key other hother
      by_cases hkey : key = (delivery.storeId, dto.externalOrderId)
      · subst hkey
        rw [hevent] at hother
        obtain rfl := Option.some.inj hother
        refine ⟨delivery.shop, delivery.order, OrderedMap.get?_set_self _ _ _, hsays.2 ?_⟩
        exact hcounted (by rw [htaken]; rfl)
      · -- Another event keeps its selections: its id is not the one written under.
        rw [hleaves.others key hkey] at hother
        obtain ⟨shop, order, hlast, hbefore⟩ := htold key other hother
        refine ⟨shop, order, (OrderedMap.get?_set_ne _ _ hkey).trans hlast, ?_⟩
        have hother' : other.id ≠ ((s.db.events.get? (delivery.storeId,
            dto.externalOrderId)).map OrderEvent.id).getD s.db.nextId :=
          hapart.ne_written hother hkey
        have hkept := hleaves.selections other.id hother'
        refine ⟨?_, hbefore.revenue, fun hall => ?_⟩
        · rw [hkept]
          exact hbefore.replaced
        · rw [hkept]
          exact hbefore.selections hall
    · intro h _
      obtain ⟨shop, order, hlast, htells⟩ := h _ event hevent
      rw [OrderedMap.get?_set_self] at hlast
      obtain ⟨rfl, rfl⟩ := Prod.mk.inj (Option.some.inj hlast)
      exact hsays.1 htells

/-- **What the merchant is told options earned is what they earned**, in every
state of a run whose amounts are small, just when in every report that is taken
the lines of which no selection can be read come to nothing. -/
theorem told_iff (validDate : String → Bool) (deliveries : List Delivery)
    (hsmall : Throughout (step validDate) Small fresh deliveries) :
    (∀ before, before <+: deliveries → Told (run (step validDate) fresh before)) ↔
      Throughout (step validDate) (Counted validDate) fresh deliveries := by
  have hnone : ∀ key event, fresh.db.events.get? key = some event → False := by
    intro key event hevent
    exact absurd hevent.symm (Option.some_ne_none event)
  refine forall_prefix_iff (I := fun s => Apart s.db ∧ Told s) (P := Told)
    (fun s delivery hsmall hcounted h => ⟨?_, (told_step_iff h.1 h.2 hsmall).1 hcounted⟩)
    (fun s delivery hsmall h => told_step_iff h.1 h.2 hsmall) hsmall ⟨⟨?_, ?_⟩, ?_⟩ ?_
  · obtain ⟨-, hsame⟩ | ⟨dto, db, -, -, hleaves, hstep⟩ := step_cases validDate s delivery
    · rw [hsame]
      exact h.1
    · rw [hstep]
      exact apart_leaves h.1 hleaves
  · exact fun key event hevent => (hnone key event hevent).elim
  · exact fun key _ event _ hevent => (hnone key event hevent).elim
  · exact fun key event hevent => (hnone key event hevent).elim
  · exact fun key event hevent => (hnone key event hevent).elim

/-! ## A line that lost its selections -/

/-- An order of one line, delivered to the cloud. -/
def oneLine (metaData : OrderedMap String String) : Delivery where
  storeId := 1
  shop := ⟨id, fun _ => "", 2, fun _ => [], .str "EUR", "2026-03-01T10:00:00+00:00"⟩
  order := ⟨.int 32, .str "25.00", .str "EUR", none, some [⟨none, none, some (.int 1), metaData⟩]⟩
  fails := false

/-- The line as it was ordered. -/
def kept : Delivery :=
  oneLine ⟨[(metaSelections, "\x7b\"opt-a\":\"lux\"\x7d"), (metaPriceDelta, "5.00")], by decide⟩

/-- And the same with its selections no longer readable. -/
def lost : Delivery := oneLine ⟨[(metaSelections, ""), (metaPriceDelta, "5.00")], by decide⟩

/-- Its amount is counted, and stored. -/
theorem kept_is_told : Throughout (step fun _ => true) Small fresh [kept] ∧
    Told (run (step fun _ => true) fresh [kept]) := by
  have hlisted : (listedLines kept.shop kept.order).map lineMinor = [500] := by decide +kernel
  have hunlisted : (unlistedLines kept.shop kept.order).map lineMinor = [] := by decide +kernel
  have hsmall : Throughout (step fun _ => true) Small fresh [kept] := by
    refine ⟨⟨fun n => ?_, ?_⟩, trivial⟩
    · rw [hlisted]
      cases n with
      | zero => norm_num
      | succ n => norm_num
    · rw [hlisted]
      norm_num
  refine ⟨hsmall, (told_iff _ _ hsmall).2 ⟨fun _ => ?_, trivial⟩ _ (List.prefix_refl _)⟩
  rw [hunlisted, List.sum_nil]

/-- **A line without a row earns nothing for the merchant**: it did, and the
report says zero. -/
theorem lost_row_loses_revenue : ¬ ∀ validDate deliveries before, before <+: deliveries →
    Told (run (step validDate) fresh before) := by
  intro h
  have hrevenue : ((run (step fun _ => true) fresh [lost]).db.events.get? (1, "32")).map
      OrderEvent.optionRevenueMinor = some 0 := by decide +kernel
  have hearned : ((run (step fun _ => true) fresh [lost]).last.get? (1, "32")).map
      (fun told => earned told.2) = some 500 := by decide +kernel
  obtain ⟨event, hevent, hzero⟩ := Option.map_eq_some_iff.1 hrevenue
  obtain ⟨shop, order, hlast, hsays⟩ := h (fun _ => true) [lost] [lost] (List.prefix_refl _) _ event
    hevent
  rw [hlast, Option.map_some] at hearned
  have hamount : earned order = 500 := Option.some.inj hearned
  have hstored := hsays.revenue
  omega

end Optionia.Orders
