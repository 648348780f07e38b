import Optionia.Billing.Lifecycle
import Optionia.Lib.Runs
/-!
# Deliveries, and the events of a first purchase

`BillingWebhookService.record`: the first delivery of an event writes a row
for it and runs its handler; a delivery of an event whose row says it was
processed changes nothing.
-/

namespace Optionia.Billing

open Js

/-- The row of an event. -/
structure BillingEvent where
  type : String
  payload : Value
  processedAt : Option ℤ

/-- A verified delivery. -/
structure Delivery where
  eventId : String
  type : String
  payload : Value
  now : ℤ

/-- The events recorded, and the tables their handlers write. -/
structure Inbox where
  /-- `billing_events`, by the provider's ids. -/
  events : OrderedMap String BillingEvent
  tables : Database

def Inbox.processed (inbox : Inbox) (eventId : String) : Bool :=
  ((inbox.events.get? eventId).bind (·.processedAt)).isSome

def record (inbox : Inbox) (d : Delivery) : Inbox :=
  if inbox.processed d.eventId then inbox
  else
    { events := inbox.events.set d.eventId ⟨d.type, d.payload, some d.now⟩
      tables := applied d.now d.type d.payload inbox.tables }

/-- **A delivery processes its event**, and no other. -/
theorem processed_record (inbox : Inbox) (d : Delivery) (eventId : String) :
    (record inbox d).processed eventId =
      (decide (eventId = d.eventId) || inbox.processed eventId) := by
  unfold record
  split
  · next h =>
    by_cases hid : eventId = d.eventId
    · rw [hid, h, Bool.or_true]
    · rw [decide_eq_false hid, Bool.false_or]
  · unfold Inbox.processed
    dsimp only
    rw [OrderedMap.get?_set]
    by_cases hid : eventId = d.eventId
    · rw [if_pos hid, decide_eq_true hid, Bool.true_or]
      rfl
    · rw [if_neg hid, decide_eq_false hid, Bool.false_or]

/-- **What a delivery does to the tables**: nothing the second time. -/
theorem tables_record (inbox : Inbox) (d : Delivery) :
    (record inbox d).tables =
      if inbox.processed d.eventId then inbox.tables
      else applied d.now d.type d.payload inbox.tables := by
  unfold record
  split
  · rfl
  · rfl

/-! ## The events of a first purchase

Five events tell of one purchase, and any order is possible. Only the
checkout knows the tenant: what is worked before it finds no row, changes
nothing, and is processed for good. So the purchase arrives whole exactly
where the checkout comes before one of the two events that carry the plan and
the period, and before one of the two that carry the invoice
(`purchase_arrives_iff`).
-/

open Runs

/-- The events of a first purchase. -/
inductive Kind where
  | checkout
  | created
  | updated
  | paid
  | succeeded
  deriving DecidableEq

def Kind.type : Kind → String
  | checkout => "checkout.session.completed"
  | created => "customer.subscription.created"
  | updated => "customer.subscription.updated"
  | paid => "invoice.paid"
  | succeeded => "invoice.payment_succeeded"

/-- A tenant's first purchase: its row, which knows no provider, and what the
provider sends of the customer and the subscription, both new here. -/
structure FirstPurchase (db : Database) where
  tenantId : String
  customer : String
  subscription : String
  id : String
  row : Subscription
  get_row : db.subscriptions.get? id = some row
  row_tenant : row.tenantId = tenantId
  unique : ∀ id' s, db.subscriptions.get? id' = some s → s.tenantId = tenantId → id' = id
  row_provider : row.provider = "none"
  /-- No row is linked to the subscription or the customer. -/
  fresh : ∀ id' s, db.subscriptions.get? id' = some s →
    s.providerSubscriptionId ≠ some subscription ∧ s.providerCustomerId ≠ some customer
  session : Value
  session_tenant : asId (session.field "client_reference_id") = some tenantId
  session_customer : asId (session.field "customer") = some customer
  session_subscription : asId (session.field "subscription") = some subscription
  remote : Value
  remote_id : asId (remote.field "id") = some subscription
  remote_customer : asId (remote.field "customer") = some customer
  remote_status : readStatus (remote.field "status") = some .active
  periodEnd : Date
  remote_period : asDate (readPeriodEnd remote) = some periodEnd
  price : String × PlanPrice
  remote_price : (readPriceId remote).bind db.priceOf = some price
  payload : Value
  invoice : MappedInvoice
  payload_invoice : mapInvoice payload = some invoice
  invoice_subscription : invoice.providerSubscriptionId = some subscription
  invoice_customer : ∀ c ∈ invoice.providerCustomerId, c = customer
  /-- It is not stored yet, nor any other for the row. -/
  no_invoice : ∀ k stored, db.invoices.get? k = some stored →
    k ≠ invoice.columns.providerInvoiceId ∧ stored.subscriptionId ≠ id
  eventId : Kind → String
  eventId_injective : Function.Injective eventId

namespace FirstPurchase

variable {db : Database} (P : FirstPurchase db)

def carries : Kind → Value
  | .checkout => P.session
  | .created | .updated => P.remote
  | .paid | .succeeded => P.payload

/-- An event, delivered at an instant. -/
def delivery (k : Kind) (now : ℤ) : Delivery := ⟨P.eventId k, k.type, P.carries k, now⟩

/-- The deliveries made, from an inbox that has none of the events. -/
def deliver (events : OrderedMap String BillingEvent) (deliveries : List (Kind × ℤ)) : Inbox :=
  run (fun inbox d => record inbox (P.delivery d.1 d.2)) ⟨events, db⟩ deliveries

/-- A row shows what was bought: the price, its plan, and the period. -/
def Shows (s : Subscription) : Prop :=
  s.planId = P.price.2.planId ∧ s.planPriceId = some P.price.1 ∧
    s.currentPeriodEnd = some P.periodEnd

/-- A row is linked to the customer and the subscription. -/
def LinkedTo (s : Subscription) : Prop :=
  s.providerCustomerId = some P.customer ∧ s.providerSubscriptionId = some P.subscription

/-- A row is active, and no grace runs. -/
def Current (s : Subscription) : Prop := s.status = .active ∧ s.graceEndsAt = none

/-- **The purchase has arrived whole**: the row is linked and active, shows
what was bought, and has exactly one invoice. -/
def Arrived (inbox : Inbox) : Prop :=
  (∃ s, inbox.tables.subscriptions.get? P.id = some s ∧
    P.LinkedTo s ∧ Current s ∧ P.Shows s) ∧
  ∃! k, ∃ stored, inbox.tables.invoices.get? k = some stored ∧ stored.subscriptionId = P.id

end FirstPurchase

/-- The first `b` of a list comes after some `a`. -/
def Precedes {α : Type} (l : List α) (a b : α) : Prop :=
  ∃ pre post, l = pre ++ b :: post ∧ b ∉ pre ∧ a ∈ pre

theorem precedes_concat {α : Type} {l : List α} {k a b : α} :
    Precedes (l ++ [k]) a b ↔ Precedes l a b ∨ k = b ∧ b ∉ l ∧ a ∈ l := by
  constructor
  · rintro ⟨pre, post, hl, hb, ha⟩
    rcases List.eq_nil_or_concat post with rfl | ⟨post', k', rfl⟩
    · obtain ⟨rfl, hk⟩ := List.append_inj' hl rfl
      obtain rfl := List.singleton_inj.1 hk
      exact Or.inr ⟨rfl, hb, ha⟩
    · rw [List.concat_eq_append, ← List.cons_append, ← List.append_assoc] at hl
      exact Or.inl ⟨pre, post', (List.append_inj' hl rfl).1, hb, ha⟩
  · rintro (⟨pre, post, rfl, hb, ha⟩ | ⟨rfl, hb, ha⟩)
    · exact ⟨pre, post ++ [k], by rw [List.append_assoc, List.cons_append], hb, ha⟩
    · exact ⟨l, [], rfl, hb, ha⟩

theorem Precedes.mem_left {α : Type} {l : List α} {a b : α} (h : Precedes l a b) : a ∈ l := by
  obtain ⟨pre, post, rfl, -, ha⟩ := h
  exact List.mem_append_left _ ha

/-- The checkout comes before one of two other events. -/
def Leads (ks : List Kind) (b b' : Kind) : Prop :=
  Precedes ks .checkout b ∨ Precedes ks .checkout b'

/-- It comes before one that carries the plan and the period. -/
def Followed (ks : List Kind) : Prop := Leads ks .created .updated

/-- It comes before one that carries the invoice. -/
def Invoiced (ks : List Kind) : Prop := Leads ks .paid .succeeded

/-- **One more event**: it leads where it did, and to a first event of the
two after it. -/
theorem leads_concat {ks : List Kind} {k b b' : Kind} :
    Leads (ks ++ [k]) b b' ↔ Leads ks b b' ∨ (k = b ∨ k = b') ∧ k ∉ ks ∧ .checkout ∈ ks := by
  unfold Leads
  rw [precedes_concat, precedes_concat]
  constructor
  · rintro ((h | ⟨rfl, h⟩) | h | ⟨rfl, h⟩)
    · exact Or.inl (Or.inl h)
    · exact Or.inr ⟨Or.inl rfl, h⟩
    · exact Or.inl (Or.inr h)
    · exact Or.inr ⟨Or.inr rfl, h⟩
  · rintro ((h | h) | ⟨rfl | rfl, h⟩)
    · exact Or.inl (Or.inl h)
    · exact Or.inr (Or.inl h)
    · exact Or.inl (Or.inr ⟨rfl, h⟩)
    · exact Or.inr (Or.inr ⟨rfl, h⟩)

theorem not_leads {ks : List Kind} {b b' : Kind} (h : .checkout ∉ ks) : ¬ Leads ks b b' := by
  rintro (hb | hb)
  · exact h hb.mem_left
  · exact h hb.mem_left

/-- An event that is worked in vain: it was before, or it finds no row. -/
def Idle (ks : List Kind) (k : Kind) : Prop := k ∈ ks ∨ k ≠ .checkout ∧ .checkout ∉ ks

theorem Idle.leads_iff {ks : List Kind} {k b b' : Kind} (h : Idle ks k) :
    Leads (ks ++ [k]) b b' ↔ Leads ks b b' := by
  rw [leads_concat]
  refine or_iff_left fun hnew => ?_
  rcases h with h | h
  · exact hnew.2.1 h
  · exact h.2 hnew.2.2

theorem Idle.checkout_mem_iff {ks : List Kind} {k : Kind} (h : Idle ks k) :
    .checkout ∈ ks ++ [k] ↔ .checkout ∈ ks := by
  rw [List.mem_append, List.mem_singleton]
  refine or_iff_left_of_imp fun hk => ?_
  rcases h with h | h
  · rwa [hk]
  · exact absurd hk.symm h.1

/-! ## What is reached -/

namespace FirstPurchase

variable {db : Database} (P : FirstPurchase db)

/-- The row of the purchase once these events were worked. -/
structure Standing (ks : List Kind) (s : Subscription) : Prop where
  tenant : s.tenantId = P.tenantId
  before : .checkout ∉ ks → s = P.row
  linked : .checkout ∈ ks → P.LinkedTo s
  /-- It shows what was bought from the first event on that carries it. -/
  followed : Followed ks → P.Shows s
  unfollowed : ¬ Followed ks → (P.Shows s ↔ P.Shows P.row)
  /-- It is active from the first event on that finds it. -/
  current : Followed ks ∨ Invoiced ks → Current s

/-- The tables once these events were worked. -/
structure Reached (ks : List Kind) (t : Database) : Prop where
  prices : t.prices = db.prices
  others : ∀ id, id ≠ P.id → t.subscriptions.get? id = db.subscriptions.get? id
  row : ∃ s, t.subscriptions.get? P.id = some s ∧ P.Standing ks s
  invoiced : Invoiced ks → ∃ stored,
    t.invoices.get? P.invoice.columns.providerInvoiceId = some stored ∧
      stored.subscriptionId = P.id
  uninvoiced : ¬ Invoiced ks →
    t.invoices.get? P.invoice.columns.providerInvoiceId = none
  other_invoices : ∀ k stored, k ≠ P.invoice.columns.providerInvoiceId →
    t.invoices.get? k = some stored → stored.subscriptionId ≠ P.id

variable {P} {ks : List Kind} {k : Kind} {s : Subscription} {t : Database}

theorem Standing.idle (hs : P.Standing ks s) (h : Idle ks k) : P.Standing (ks ++ [k]) s where
  tenant := hs.tenant
  before hno := hs.before (mt h.checkout_mem_iff.2 hno)
  linked hin := hs.linked (h.checkout_mem_iff.1 hin)
  followed hf := hs.followed (h.leads_iff.1 hf)
  unfollowed hf := hs.unfollowed (mt h.leads_iff.2 hf)
  current hc := hs.current (hc.imp h.leads_iff.1 h.leads_iff.1)

theorem Standing.link (hs : P.Standing ks s) (hno : .checkout ∉ ks) :
    P.Standing (ks ++ [.checkout]) { s with
      provider := "stripe"
      providerCustomerId := some P.customer
      providerSubscriptionId := some P.subscription } := by
  have hleads : ∀ {b b'}, b ≠ .checkout → b' ≠ .checkout → ¬ Leads (ks ++ [.checkout]) b b' := by
    intro b b' hb hb' h
    rcases leads_concat.1 h with h | ⟨h | h, -⟩
    · exact not_leads hno h
    · exact hb h.symm
    · exact hb' h.symm
  have hf : ¬ Followed (ks ++ [.checkout]) := hleads (by decide) (by decide)
  have hi : ¬ Invoiced (ks ++ [.checkout]) := hleads (by decide) (by decide)
  exact {
    tenant := hs.tenant
    before := fun h => absurd (List.mem_append_right _ List.mem_cons_self) h
    linked := fun _ => ⟨rfl, rfl⟩
    followed := fun h => absurd h hf
    unfollowed := fun _ => hs.unfollowed (not_leads hno)
    current := fun h => absurd h (not_or.2 ⟨hf, hi⟩) }

theorem Standing.follow (hs : P.Standing ks s) (hin : .checkout ∈ ks)
    (hf : Followed (ks ++ [k])) :
    P.Standing (ks ++ [k]) (s.follow P.subscription .active P.remote (some P.price)) where
  tenant := hs.tenant
  before h := absurd (List.mem_append_left _ hin) h
  linked _ := ⟨(hs.linked hin).1, rfl⟩
  followed _ := ⟨rfl, rfl, P.remote_period⟩
  unfollowed h := absurd hf h
  current _ := ⟨rfl, rfl⟩

theorem Standing.paid (hs : P.Standing ks s) (hin : .checkout ∈ ks)
    (hk : k ≠ .created ∧ k ≠ .updated) :
    P.Standing (ks ++ [k]) { s with status := .active, graceEndsAt := none } := by
  have hleads : Followed (ks ++ [k]) ↔ Followed ks := by
    refine leads_concat.trans (or_iff_left fun h => ?_)
    rcases h.1 with rfl | rfl
    · exact hk.1 rfl
    · exact hk.2 rfl
  exact {
    tenant := hs.tenant
    before := fun h => absurd (List.mem_append_left _ hin) h
    linked := fun _ => hs.linked hin
    followed := fun hf => hs.followed (hleads.1 hf)
    unfollowed := fun hf => hs.unfollowed (mt hleads.2 hf)
    current := fun _ => ⟨rfl, rfl⟩ }

/-! ## What finds the row -/

/-- **The row is found by the subscription** once it is linked. -/
theorem Reached.found (h : P.Reached ks t) (hin : .checkout ∈ ks)
    (hs : t.subscriptions.get? P.id = some s) (hstanding : P.Standing ks s)
    (c : Option String) :
    t.findSubscription (some P.subscription) c = some (P.id, s) := by
  have hfind : findOne t.subscriptions
      (fun s => s.providerSubscriptionId = some P.subscription) = some (P.id, s) := by
    refine findOne_of_unique hs (decide_eq_true (hstanding.linked hin).2) ?_
    intro id' s' hget hfits
    by_contra hid
    rw [h.others id' hid] at hget
    exact (P.fresh id' s' hget).1 (of_decide_eq_true hfits)
  rw [Database.findSubscription, Option.bind_some, hfind, Option.some_or]

/-- **No row is found** before that. -/
theorem Reached.missed (h : P.Reached ks t) (hno : .checkout ∉ ks) {c : Option String}
    (hc : ∀ d ∈ c, d = P.customer) :
    t.findSubscription (some P.subscription) c = none := by
  have hdb : ∀ id s, t.subscriptions.get? id = some s →
      db.subscriptions.get? id = some s := by
    intro id s hget
    by_cases hid : id = P.id
    · obtain ⟨s', hs', hstanding⟩ := h.row
      rw [hid] at hget ⊢
      rw [← Option.some.inj (hs'.symm.trans hget), hstanding.before hno, P.get_row]
    · rwa [h.others id hid] at hget
  cases hfind : t.findSubscription (some P.subscription) c with
  | none => rfl
  | some p =>
    obtain ⟨hget, ⟨y, hy, hlink⟩ | ⟨-, d, hd, hlink⟩⟩ := findSubscription_eq_some hfind
    · obtain rfl := Option.some.inj hy
      exact absurd hlink (P.fresh _ _ (hdb _ _ hget)).1
    · obtain rfl := hc d hd
      exact absurd hlink (P.fresh _ _ (hdb _ _ hget)).2

theorem Reached.found_by_tenant (h : P.Reached ks t)
    (hs : t.subscriptions.get? P.id = some s) (hstanding : P.Standing ks s) :
    findOne t.subscriptions (fun s => s.tenantId = P.tenantId) = some (P.id, s) := by
  refine findOne_of_unique hs (decide_eq_true hstanding.tenant) ?_
  intro id' s' hget hfits
  by_contra hid
  rw [h.others id' hid] at hget
  exact hid (P.unique id' s' hget (of_decide_eq_true hfits))

/-! ## One delivery -/

theorem apply_type (k : Kind) (now : ℤ) (payload : Value) (db : Database) :
    apply now k.type payload db =
      match k with
      | .checkout => onCheckoutCompleted db payload
      | .created | .updated => onSubscriptionChanged db payload
      | .paid | .succeeded => onInvoicePaid db payload := by
  cases k <;> simp [apply, Kind.type, subscriptionEvents, paidEvents]

theorem Reached.idle (h : P.Reached ks t) (hidle : Idle ks k) : P.Reached (ks ++ [k]) t where
  prices := h.prices
  others := h.others
  row := h.row.imp fun _ hs => ⟨hs.1, hs.2.idle hidle⟩
  invoiced hi := h.invoiced (hidle.leads_iff.1 hi)
  uninvoiced hi := h.uninvoiced (mt hidle.leads_iff.2 hi)
  other_invoices := h.other_invoices

theorem Reached.save (h : P.Reached ks t) {s' : Subscription} (hs : P.Standing (ks ++ [k]) s')
    (hk : k ≠ .paid ∧ k ≠ .succeeded) {t' : Database}
    (hsubscriptions : t'.subscriptions = t.subscriptions.set P.id s')
    (hprices : t'.prices = t.prices) (hinvoices : t'.invoices = t.invoices) :
    P.Reached (ks ++ [k]) t' := by
  have hleads : Invoiced (ks ++ [k]) ↔ Invoiced ks := by
    refine leads_concat.trans (or_iff_left fun h => ?_)
    rcases h.1 with rfl | rfl
    · exact hk.1 rfl
    · exact hk.2 rfl
  refine ⟨hprices.trans h.prices, ?_, ⟨s', ?_, hs⟩, ?_, ?_, ?_⟩
  · intro id hid
    rw [hsubscriptions, OrderedMap.get?_set_ne _ _ hid, h.others id hid]
  · rw [hsubscriptions, OrderedMap.get?_set_self]
  · rw [hinvoices, hleads]
    exact h.invoiced
  · rw [hinvoices, hleads]
    exact h.uninvoiced
  · rw [hinvoices]
    exact h.other_invoices

theorem Reached.link (h : P.Reached ks t) (hno : .checkout ∉ ks) (now : ℤ) :
    P.Reached (ks ++ [.checkout]) (applied now Kind.checkout.type P.session t) := by
  obtain ⟨s, hget, hs⟩ := h.row
  have happly : apply now Kind.checkout.type P.session t = some (t.save P.id { s with
      provider := "stripe"
      providerCustomerId := some P.customer
      providerSubscriptionId := some P.subscription }) := by
    rw [apply_type]
    dsimp only [onCheckoutCompleted]
    rw [P.session_tenant, Option.bind_eq_bind, Option.bind_some, h.found_by_tenant hget hs,
      P.session_customer, P.session_subscription]
    rfl
  rw [applied, happly, Option.getD_some]
  exact h.save (hs.link hno) (by decide) rfl rfl rfl

theorem Reached.follow (h : P.Reached ks t) (hin : .checkout ∈ ks) (hk : k = .created ∨ k = .updated)
    (hnew : k ∉ ks) (now : ℤ) : P.Reached (ks ++ [k]) (applied now k.type P.remote t) := by
  obtain ⟨s, hget, hs⟩ := h.row
  have hprice : (readPriceId P.remote).bind t.priceOf = some P.price := by
    rw [← P.remote_price]
    unfold Database.priceOf
    rw [h.prices]
  have happly : apply now k.type P.remote t =
      some (t.follow P.id s P.subscription .active P.remote) := by
    have hchanged : apply now k.type P.remote t = onSubscriptionChanged t P.remote := by
      rcases hk with rfl | rfl
      · exact apply_type ..
      · exact apply_type ..
    rw [hchanged, onSubscriptionChanged, P.remote_id, Option.bind_eq_bind, Option.bind_some,
      h.found hin hget hs, P.remote_status]
    rfl
  rw [applied, happly, Option.getD_some]
  have hfollowed : Followed (ks ++ [k]) := leads_concat.2 (Or.inr ⟨hk, hnew, hin⟩)
  have hno : k ≠ .paid ∧ k ≠ .succeeded := by
    rcases hk with rfl | rfl <;> decide
  refine h.save (hs.follow hin hfollowed) hno ?_ ?_ ?_
  · rw [subscriptions_follow, hprice]
  · unfold Database.follow
    dsimp only
    split <;> rfl
  · unfold Database.follow
    dsimp only
    split <;> rfl

theorem Reached.stored (h : P.Reached ks t) {stored : Invoice}
    (hget : t.invoices.get? P.invoice.columns.providerInvoiceId = some stored) :
    stored.subscriptionId = P.id := by
  by_cases hi : Invoiced ks
  · obtain ⟨stored', hget', hid⟩ := h.invoiced hi
    rwa [Option.some.inj (hget.symm.trans hget')]
  · rw [h.uninvoiced hi] at hget
    simp at hget

theorem Reached.get?_storeInvoice (h : P.Reached ks t) (s : Subscription) :
    ∃ stored, (t.storeInvoice P.id s P.invoice.columns).invoices =
        t.invoices.set P.invoice.columns.providerInvoiceId stored ∧
      stored.subscriptionId = P.id := by
  unfold Database.storeInvoice
  dsimp only
  cases hget : t.invoices.get? P.invoice.columns.providerInvoiceId with
  | none => exact ⟨_, rfl, rfl⟩
  | some existing =>
    have hid : existing.subscriptionId = P.id := h.stored hget
    exact ⟨_, rfl, hid⟩

theorem Reached.pay (h : P.Reached ks t) (hin : .checkout ∈ ks) (hk : k = .paid ∨ k = .succeeded)
    (hnew : k ∉ ks) (now : ℤ) : P.Reached (ks ++ [k]) (applied now k.type P.payload t) := by
  obtain ⟨s, hget, hs⟩ := h.row
  have happly : apply now k.type P.payload t =
      some ((t.storeInvoice P.id s P.invoice.columns).save P.id
        { s with status := .active, graceEndsAt := none }) := by
    have hpaid : apply now k.type P.payload t = onInvoicePaid t P.payload := by
      rcases hk with rfl | rfl
      · exact apply_type ..
      · exact apply_type ..
    rw [hpaid, onInvoicePaid, P.payload_invoice, Option.bind_eq_bind, Option.bind_some,
      P.invoice_subscription, h.found hin hget hs]
    rfl
  rw [applied, happly, Option.getD_some]
  obtain ⟨stored, hinvoices, hstored⟩ := h.get?_storeInvoice s
  have hno : k ≠ .created ∧ k ≠ .updated := by
    rcases hk with rfl | rfl <;> decide
  refine ⟨h.prices, ?_, ⟨_, OrderedMap.get?_set_self .., hs.paid hin hno⟩, ?_, ?_, ?_⟩
  · intro id hid
    change (t.subscriptions.set P.id _).get? id = _
    rw [OrderedMap.get?_set_ne _ _ hid, h.others id hid]
  · intro _
    refine ⟨stored, ?_, hstored⟩
    change (t.storeInvoice P.id s P.invoice.columns).invoices.get? _ = _
    rw [hinvoices, OrderedMap.get?_set_self]
  · exact fun hi => absurd (leads_concat.2 (Or.inr ⟨hk, hnew, hin⟩)) hi
  · intro k' stored' hk' hget'
    change (t.storeInvoice P.id s P.invoice.columns).invoices.get? _ = _ at hget'
    rw [hinvoices, OrderedMap.get?_set_ne _ _ hk'] at hget'
    exact h.other_invoices k' stored' hk' hget'

theorem Reached.early (h : P.Reached ks t) (hk : k ≠ .checkout) (hno : .checkout ∉ ks) (now : ℤ) :
    applied now k.type (P.carries k) t = t := by
  have hremote : onSubscriptionChanged t P.remote = none := by
    rw [onSubscriptionChanged, P.remote_id, Option.bind_eq_bind, Option.bind_some,
      h.missed hno (by rw [P.remote_customer]; exact fun d hd => (Option.some.inj hd).symm)]
    rfl
  have hpayload : onInvoicePaid t P.payload = none := by
    rw [onInvoicePaid, P.payload_invoice, Option.bind_eq_bind, Option.bind_some,
      P.invoice_subscription, h.missed hno P.invoice_customer]
    rfl
  have happly : apply now k.type (P.carries k) t = none := by
    rw [apply_type]
    cases k with
    | checkout => exact absurd rfl hk
    | created => exact hremote
    | updated => exact hremote
    | paid => exact hpayload
    | succeeded => exact hpayload
  rw [applied, happly, Option.getD_none]

/-- **A first delivery**, of any event. -/
theorem Reached.first (h : P.Reached ks t) (hnew : k ∉ ks) (now : ℤ) :
    P.Reached (ks ++ [k]) (applied now k.type (P.carries k) t) := by
  by_cases hin : .checkout ∈ ks
  · cases k with
    | checkout => exact absurd hin hnew
    | created => exact h.follow hin (Or.inl rfl) hnew now
    | updated => exact h.follow hin (Or.inr rfl) hnew now
    | paid => exact h.pay hin (Or.inl rfl) hnew now
    | succeeded => exact h.pay hin (Or.inr rfl) hnew now
  · by_cases hk : k = .checkout
    · subst hk
      exact h.link hin now
    · rw [h.early hk hin now]
      exact h.idle (Or.inr ⟨hk, hin⟩)

/-! ## All deliveries -/

theorem reached_nil : P.Reached [] db where
  prices := rfl
  others _ _ := rfl
  row := ⟨P.row, P.get_row, {
    tenant := P.row_tenant
    before := fun _ => rfl
    linked := fun h => absurd h List.not_mem_nil
    followed := fun h => absurd h (not_leads List.not_mem_nil)
    unfollowed := fun _ => Iff.rfl
    current := fun h => absurd h
      (not_or.2 ⟨not_leads List.not_mem_nil, not_leads List.not_mem_nil⟩) }⟩
  invoiced h := absurd h (not_leads List.not_mem_nil)
  uninvoiced _ := by
    cases hget : db.invoices.get? P.invoice.columns.providerInvoiceId with
    | none => rfl
    | some stored => exact absurd rfl (P.no_invoice _ stored hget).1
  other_invoices k stored _ hget := (P.no_invoice k stored hget).2

/-- **Whatever the order**, the tables reached are those of the events worked,
and those are the ones processed. -/
theorem reached_deliver {events : OrderedMap String BillingEvent}
    (hnew : ∀ k, (Inbox.mk events db).processed (P.eventId k) = false)
    (deliveries : List (Kind × ℤ)) :
    (∀ k, (P.deliver events deliveries).processed (P.eventId k) =
        decide (k ∈ deliveries.map Prod.fst)) ∧
      P.Reached (deliveries.map Prod.fst) (P.deliver events deliveries).tables := by
  induction deliveries using List.reverseRecOn with
  | nil => exact ⟨fun k => by rw [List.map_nil, decide_eq_false List.not_mem_nil]; exact hnew k,
      reached_nil⟩
  | append_singleton deliveries d ih =>
    obtain ⟨hprocessed, hreached⟩ := ih
    have hrun : P.deliver events (deliveries ++ [d]) =
        record (P.deliver events deliveries) (P.delivery d.1 d.2) := run_concat
    rw [hrun, List.map_append, List.map_singleton]
    constructor
    · intro k
      rw [processed_record, hprocessed k, ← Bool.decide_or]
      refine decide_eq_decide.2 ?_
      rw [List.mem_append, List.mem_singleton, or_comm]
      exact or_congr_right P.eventId_injective.eq_iff
    · rw [tables_record]
      change P.Reached _ (if (P.deliver events deliveries).processed (P.eventId d.1) then _ else _)
      rw [hprocessed d.1]
      by_cases hmem : d.1 ∈ deliveries.map Prod.fst
      · rw [if_pos (decide_eq_true hmem)]
        exact hreached.idle (Or.inl hmem)
      · rw [if_neg (by rwa [decide_eq_true_iff])]
        exact hreached.first hmem d.2

end FirstPurchase

/-- **A first purchase arrives whole exactly where the checkout comes before
one of the events that carry the plan and the period, and before one of those
that carry the invoice**, in whatever order and however often the events are
delivered. A row that shows the plan and the period of old needs no first. -/
theorem purchase_arrives_iff {db : Database} (P : FirstPurchase db)
    {events : OrderedMap String BillingEvent}
    (hnew : ∀ k, (Inbox.mk events db).processed (P.eventId k) = false)
    {deliveries : List (Kind × ℤ)} (hall : ∀ k, k ∈ deliveries.map Prod.fst) :
    P.Arrived (P.deliver events deliveries) ↔
      (P.Shows P.row ∨ Followed (deliveries.map Prod.fst)) ∧
        Invoiced (deliveries.map Prod.fst) := by
  obtain ⟨-, hreached⟩ := P.reached_deliver hnew deliveries
  obtain ⟨s, hget, hs⟩ := hreached.row
  constructor
  · rintro ⟨⟨s', hget', -, -, hshows⟩, k, ⟨stored, hstored, hid⟩, -⟩
    obtain rfl := Option.some.inj (hget.symm.trans hget')
    constructor
    · by_cases hf : Followed (deliveries.map Prod.fst)
      · exact Or.inr hf
      · exact Or.inl ((hs.unfollowed hf).1 hshows)
    · by_contra hi
      by_cases hk : k = P.invoice.columns.providerInvoiceId
      · rw [hk, hreached.uninvoiced hi] at hstored
        simp at hstored
      · exact hreached.other_invoices k stored hk hstored hid
  · rintro ⟨hshows, hi⟩
    have hshown : P.Shows s := by
      by_cases hf : Followed (deliveries.map Prod.fst)
      · exact hs.followed hf
      · exact (hs.unfollowed hf).2 (hshows.resolve_right hf)
    refine ⟨⟨s, hget, hs.linked (hall _), hs.current (Or.inr hi), hshown⟩,
      P.invoice.columns.providerInvoiceId, hreached.invoiced hi, ?_⟩
    rintro k ⟨stored, hstored, hid⟩
    by_contra hk
    exact hreached.other_invoices k stored hk hstored hid

/-! ## One purchase -/

/-- The row of a tenant that has bought nothing. -/
def unsubscribed : Subscription where
  tenantId := "t"
  planId := "free"
  provider := "none"
  providerSubscriptionId := none
  providerCustomerId := none
  planPriceId := none
  status := .active
  currentPeriodEnd := none
  graceEndsAt := none
  cancelAt := none

/-- A database with that row, and a price. -/
def freshDatabase : Database :=
  ⟨∅, (∅ : OrderedMap String PlanPrice).set "pp" ⟨"pro", some "price_1"⟩, ∅, ∅,
    (∅ : OrderedMap String Subscription).set "s" unsubscribed, ∅⟩

/-- The tenant buys a subscription whose period ends a second into the
epoch. -/
def purchase : FirstPurchase freshDatabase where
  tenantId := "t"
  customer := "cus_1"
  subscription := "sub_1"
  id := "s"
  row := unsubscribed
  get_row := rfl
  row_tenant := rfl
  unique id s h _ := (OrderedMap.get?_set_empty_eq_some.1 h).1
  row_provider := rfl
  fresh id s h := by
    obtain ⟨-, rfl⟩ := OrderedMap.get?_set_empty_eq_some.1 h
    exact ⟨(Option.some_ne_none _).symm, (Option.some_ne_none _).symm⟩
  session := .obj [("client_reference_id", .str "t"), ("customer", .str "cus_1"),
    ("subscription", .str "sub_1")]
  session_tenant := by decide +kernel
  session_customer := by decide +kernel
  session_subscription := by decide +kernel
  remote := .obj [("id", .str "sub_1"), ("customer", .str "cus_1"), ("status", .str "active"),
    ("items", .obj [("data", .arr [.obj [("current_period_end", .num (.ofInt 1)),
      ("price", .obj [("id", .str "price_1")])]])])]
  remote_id := by decide +kernel
  remote_customer := by decide +kernel
  remote_status := by decide +kernel
  periodEnd := .at 1000
  remote_period := by decide +kernel
  price := ("pp", ⟨"pro", some "price_1"⟩)
  remote_price := by rfl
  payload := .obj [("id", .str "in_1"), ("status", .str "paid"), ("currency", .str "eur"),
    ("subtotal", .num (.ofInt 5)), ("total", .num (.ofInt 5)), ("customer", .str "cus_1"),
    ("parent", .obj [("subscription_details", .obj [("subscription", .str "sub_1")])])]
  invoice := {
    columns := ⟨"in_1", "paid", "EUR", .ofInt 5, .ofInt 0, .ofInt 5, none, none, none, none⟩
    providerCustomerId := some "cus_1"
    providerSubscriptionId := some "sub_1" }
  payload_invoice := by decide +kernel
  invoice_subscription := rfl
  invoice_customer c hc := (Option.some.inj hc).symm
  no_invoice k stored h := absurd h.symm (Option.some_ne_none _)
  eventId := Kind.type
  eventId_injective a b h := by
    cases a <;> cases b <;> first | rfl | exact absurd h (by decide)

/-- The events, in the order they happened. -/
def inOrder : List (Kind × ℤ) :=
  [(.checkout, 0), (.created, 1), (.updated, 2), (.paid, 3), (.succeeded, 4)]

/-- In that order it arrives whole. -/
theorem purchase_arrives_in_order : purchase.Arrived (purchase.deliver ∅ inOrder) := by
  refine (purchase_arrives_iff purchase (fun _ => rfl) (fun k => ?_)).2 ⟨Or.inr ?_, ?_⟩
  · cases k <;> decide
  · exact Or.inl ⟨[.checkout], [.updated, .paid, .succeeded], rfl, by decide, by decide⟩
  · exact Or.inl ⟨[.checkout, .created, .updated], [.succeeded], rfl, by decide, by decide⟩

/-- The events, those of the subscription first. -/
def subscriptionFirst : List (Kind × ℤ) :=
  [(.created, 0), (.updated, 1), (.checkout, 2), (.paid, 3), (.succeeded, 4)]

/-- **In another order the plan and the period never come.** -/
theorem plan_never_comes :
    (∀ k, k ∈ subscriptionFirst.map Prod.fst) ∧
      ¬ purchase.Arrived (purchase.deliver ∅ subscriptionFirst) := by
  refine ⟨fun k => by cases k <;> decide, ?_⟩
  rintro ⟨⟨s, hget, -, -, -, -, hperiod⟩, -⟩
  have hnone : ((purchase.deliver ∅ subscriptionFirst).tables.subscriptions.get? "s").map
      (·.currentPeriodEnd) = some none := by decide +kernel
  change (purchase.deliver ∅ subscriptionFirst).tables.subscriptions.get? "s" = some s at hget
  rw [hget, Option.map_some, hperiod] at hnone
  exact Option.some_ne_none _ (Option.some.inj hnone)

end Optionia.Billing
