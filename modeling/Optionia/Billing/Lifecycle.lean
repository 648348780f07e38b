import Optionia.Billing.Payload
/-!
# Subscriptions, driven by the provider's events

`SubscriptionLifecycleService.apply`: an event of the provider moves the row
of the subscription it is about. The row is found by the provider's
subscription id, and failing that by the customer's, and only some events
write either.
-/

namespace Optionia.Billing

open Js

/-! ## Rows -/

/-- A plan. -/
structure Plan where
  code : String
  name : String
  limits : List (String × Option ℤ)
  features : List (String × Bool)

/-- A price of a plan. -/
structure PlanPrice where
  planId : String
  providerPriceId : Option String

/-- A tenant. -/
structure Tenant where
  planId : String

/-- A store. -/
structure Store where
  tenantId : String
  configVersion : ℕ

/-- A subscription. -/
structure Subscription where
  tenantId : String
  planId : String
  provider : String
  providerSubscriptionId : Option String
  providerCustomerId : Option String
  planPriceId : Option String
  status : SubscriptionStatus
  currentPeriodEnd : Option Date
  graceEndsAt : Option Date
  cancelAt : Option Date

/-- An invoice. -/
structure Invoice where
  tenantId : String
  subscriptionId : String
  columns : InvoiceColumns

/-- The tables, by the ids of their rows; of invoices, by the provider's. -/
structure Database where
  plans : OrderedMap String Plan
  prices : OrderedMap String PlanPrice
  tenants : OrderedMap String Tenant
  stores : OrderedMap String Store
  subscriptions : OrderedMap String Subscription
  invoices : OrderedMap String Invoice

/-- `findOne`: the first row of a table that fits. -/
def findOne {α : Type} (table : OrderedMap String α) (fits : α → Bool) : Option (String × α) :=
  table.entries.find? fun p => fits p.2

namespace Database

variable (db : Database)

/-- `findSubscription`: by the subscription's id, and failing that by the
customer's. -/
def findSubscription (providerSubscriptionId providerCustomerId : Option String) :
    Option (String × Subscription) :=
  (providerSubscriptionId.bind fun x =>
      findOne db.subscriptions fun s => s.providerSubscriptionId = some x).or
    (providerCustomerId.bind fun c =>
      findOne db.subscriptions fun s => s.providerCustomerId = some c)

/-- The price the provider has an id for. -/
def priceOf (providerPriceId : String) : Option (String × PlanPrice) :=
  findOne db.prices fun price => price.providerPriceId = some providerPriceId

/-- `save`, of a subscription. -/
def save (id : String) (subscription : Subscription) : Database :=
  { db with subscriptions := db.subscriptions.set id subscription }

/-- `invalidate`: every store of the tenant has a new revision. -/
def invalidate (tenantId : String) : Database :=
  { db with stores := db.stores.mapValues fun store =>
      if store.tenantId = tenantId then { store with configVersion := store.configVersion + 1 }
      else store }

/-- `storeInvoice`: a new row, or the columns of the one there is. -/
def storeInvoice (id : String) (subscription : Subscription) (columns : InvoiceColumns) :
    Database :=
  let stored := match db.invoices.get? columns.providerInvoiceId with
    | some existing => { existing with columns := columns }
    | none => ⟨subscription.tenantId, id, columns⟩
  { db with invoices := db.invoices.set columns.providerInvoiceId stored }

end Database

/-! ## Handlers

Each returns the tables it leaves, or nothing where it changes nothing. -/

/-- How long a merchant keeps full use after a failed payment, in
milliseconds. -/
def gracePeriod : ℤ := 14 * 24 * 60 * 60 * 1000

/-- The end of the grace that starts now. -/
def graceFrom (now : ℤ) : Date := .at (now + gracePeriod)

/-- `onCheckoutCompleted`: the tenant is bound to its provider identity. -/
def onCheckoutCompleted (db : Database) (session : Value) : Option Database := do
  let tenantId ← asId (session.field "client_reference_id")
  let (id, subscription) ← findOne db.subscriptions fun s => s.tenantId = tenantId
  some (db.save id { subscription with
    provider := "stripe"
    providerCustomerId := asId (session.field "customer")
    providerSubscriptionId := asId (session.field "subscription") })

/-- `adoptPlanFromPrice`: the plan of a price that is known. -/
def Subscription.adopt (subscription : Subscription) :
    Option (String × PlanPrice) → Subscription
  | some (id, price) => { subscription with planId := price.planId, planPriceId := some id }
  | none => subscription

/-- Whether adopting a price moves the plan. -/
def Subscription.moves (subscription : Subscription) : Option (String × PlanPrice) → Bool
  | some (id, price) => subscription.planPriceId ≠ some id || subscription.planId ≠ price.planId
  | none => false

/-- Whether a state is one that a paying merchant is in. -/
def SubscriptionStatus.isCurrent : SubscriptionStatus → Bool
  | .active | .trialing => true
  | _ => false

/-- The row as a subscription event leaves it. -/
def Subscription.follow (subscription : Subscription) (providerSubscriptionId : String)
    (status : SubscriptionStatus) (remote : Value) (price : Option (String × PlanPrice)) :
    Subscription :=
  Subscription.adopt { subscription with
    providerSubscriptionId := some providerSubscriptionId
    provider := "stripe"
    status := status
    currentPeriodEnd := asDate (readPeriodEnd remote)
    cancelAt := asDate (remote.field "cancel_at")
    graceEndsAt := if status.isCurrent then none else subscription.graceEndsAt } price

/-- The tables once a row follows: where its plan moved, the stores are told. -/
def Database.follow (db : Database) (id : String) (subscription : Subscription)
    (providerSubscriptionId : String) (status : SubscriptionStatus) (remote : Value) : Database :=
  let price := (readPriceId remote).bind db.priceOf
  let saved := db.save id (subscription.follow providerSubscriptionId status remote price)
  if subscription.moves price then saved.invalidate subscription.tenantId else saved

/-- `onSubscriptionChanged`: the row follows the provider's, its plan the
price. -/
def onSubscriptionChanged (db : Database) (remote : Value) : Option Database := do
  let providerSubscriptionId ← asId (remote.field "id")
  let (id, subscription) ←
    db.findSubscription (some providerSubscriptionId) (asId (remote.field "customer"))
  let status ← readStatus (remote.field "status")
  some (db.follow id subscription providerSubscriptionId status remote)

/-- `onInvoicePaid`: the invoice is stored and the subscription active, in one
transaction. -/
def onInvoicePaid (db : Database) (payload : Value) : Option Database := do
  let invoice ← mapInvoice payload
  let (id, subscription) ←
    db.findSubscription invoice.providerSubscriptionId invoice.providerCustomerId
  some ((db.storeInvoice id subscription invoice.columns).save id
    { subscription with status := .active, graceEndsAt := none })

/-- `onPaymentFailed`: the grace of a lapse starts once. -/
def onPaymentFailed (now : ℤ) (db : Database) (invoice : Value) : Option Database := do
  let (id, subscription) ←
    db.findSubscription (readSubscriptionId invoice) (asId (invoice.field "customer"))
  some (db.save id { subscription with
    status := .pastDue
    graceEndsAt := some (subscription.graceEndsAt.getD (graceFrom now)) })

/-- `onTrialWillEnd`: a notice, and no write. -/
def onTrialWillEnd (db : Database) (remote : Value) : Option Database := do
  let _ ← db.findSubscription (asId (remote.field "id")) (asId (remote.field "customer"))
  let _ ← asDate (remote.field "trial_end")
  some db

def subscriptionEvents : List String :=
  ["customer.subscription.created", "customer.subscription.updated",
    "customer.subscription.deleted"]

/-- Events of an invoice that was paid. -/
def paidEvents : List String := ["invoice.paid", "invoice.payment_succeeded"]

def apply (now : ℤ) (type : String) (payload : Value) (db : Database) : Option Database :=
  if type = "checkout.session.completed" then onCheckoutCompleted db payload
  else if type ∈ subscriptionEvents then onSubscriptionChanged db payload
  else if type ∈ paidEvents then onInvoicePaid db payload
  else if type = "invoice.payment_failed" then onPaymentFailed now db payload
  else if type = "customer.subscription.trial_will_end" then onTrialWillEnd db payload
  else none

def applied (now : ℤ) (type : String) (payload : Value) (db : Database) : Database :=
  (apply now type payload db).getD db

/-! ## What is found -/

variable {id : String} {db' : Database} {remote : Value}

theorem findOne_eq_some {α : Type} {table : OrderedMap String α} {fits : α → Bool} {row : α}
    (h : findOne table fits = some (id, row)) : table.get? id = some row ∧ fits row = true :=
  ⟨OrderedMap.get?_eq_some.2 (List.mem_of_find?_eq_some h),
    List.find?_some (p := fun p : String × α => fits p.2) h⟩

theorem findOne_eq_none {α : Type} {table : OrderedMap String α} {fits : α → Bool} :
    findOne table fits = none ↔ ∀ id row, table.get? id = some row → fits row = false := by
  rw [findOne, List.find?_eq_none]
  constructor
  · intro h id row hrow
    exact Bool.eq_false_iff.2 (h (id, row) (OrderedMap.get?_eq_some.1 hrow))
  · rintro h ⟨id, row⟩ hrow
    rw [h id row (OrderedMap.get?_eq_some.2 hrow)]
    exact Bool.false_ne_true

/-- **The one row that fits is found.** -/
theorem findOne_of_unique {α : Type} {table : OrderedMap String α} {fits : α → Bool} {row : α}
    (h : table.get? id = some row) (hfits : fits row = true)
    (hunique : ∀ id' row', table.get? id' = some row' → fits row' = true → id' = id) :
    findOne table fits = some (id, row) := by
  cases hfind : findOne table fits with
  | none =>
    rw [findOne_eq_none.1 hfind id row h] at hfits
    simp at hfits
  | some p =>
    obtain ⟨id', row'⟩ := p
    obtain ⟨hget, hfits'⟩ := findOne_eq_some hfind
    obtain rfl := hunique id' row' hget hfits'
    obtain rfl := Option.some.inj (hget.symm.trans h)
    rfl

/-- **A subscription that is found is in the table**, under the id it is
sought by or, where none is, under the customer's. -/
theorem findSubscription_eq_some {db : Database} {x c : Option String} {subscription : Subscription}
    (h : db.findSubscription x c = some (id, subscription)) :
    db.subscriptions.get? id = some subscription ∧
      ((∃ y, x = some y ∧ subscription.providerSubscriptionId = some y) ∨
        (∀ y, x = some y → ∀ id row, db.subscriptions.get? id = some row →
          row.providerSubscriptionId ≠ some y) ∧
        ∃ d, c = some d ∧ subscription.providerCustomerId = some d) := by
  rw [Database.findSubscription, Option.or_eq_some_iff] at h
  rcases h with h | ⟨hnone, h⟩
  · obtain ⟨y, hy, h⟩ := Option.bind_eq_some_iff.1 h
    obtain ⟨hget, hfits⟩ := findOne_eq_some h
    exact ⟨hget, Or.inl ⟨y, hy, of_decide_eq_true hfits⟩⟩
  · obtain ⟨d, hd, h⟩ := Option.bind_eq_some_iff.1 h
    obtain ⟨hget, hfits⟩ := findOne_eq_some h
    refine ⟨hget, Or.inr ⟨?_, d, hd, of_decide_eq_true hfits⟩⟩
    rintro y rfl id row hrow
    rw [Option.bind_some] at hnone
    exact of_decide_eq_false (findOne_eq_none.1 hnone id row hrow)

/-! ## What an event does to a row -/

/-- What an event makes of the row it moves. -/
inductive RowMove (now : ℤ) : Subscription → Subscription → Prop
  | linked (s : Subscription) (customer subscription : Option String) :
    RowMove now s { s with
      provider := "stripe", providerCustomerId := customer, providerSubscriptionId := subscription }
  | followed (s : Subscription) (x : String) (status : SubscriptionStatus) (remote : Value)
      (price : Option (String × PlanPrice)) :
    RowMove now s (s.follow x status remote price)
  | paid (s : Subscription) : RowMove now s { s with status := .active, graceEndsAt := none }
  | failed (s : Subscription) :
    RowMove now s { s with
      status := .pastDue, graceEndsAt := some (s.graceEndsAt.getD (graceFrom now)) }

theorem subscriptions_follow (db : Database) (id : String) (s : Subscription) (x : String)
    (status : SubscriptionStatus) (remote : Value) :
    (db.follow id s x status remote).subscriptions =
      db.subscriptions.set id
        (s.follow x status remote ((readPriceId remote).bind db.priceOf)) := by
  unfold Database.follow
  dsimp only
  split
  · rfl
  · rfl

/-- **A checkout that changes something links the row of its tenant.** -/
theorem onCheckoutCompleted_eq_some {db : Database} {session : Value}
    (h : onCheckoutCompleted db session = some db') :
    ∃ tenantId id s, asId (session.field "client_reference_id") = some tenantId ∧
      findOne db.subscriptions (fun s => s.tenantId = tenantId) = some (id, s) ∧
      db' = db.save id { s with
        provider := "stripe"
        providerCustomerId := asId (session.field "customer")
        providerSubscriptionId := asId (session.field "subscription") } := by
  obtain ⟨tenantId, ht, h⟩ := Option.bind_eq_some_iff.1 h
  obtain ⟨⟨id, s⟩, hs, h⟩ := Option.bind_eq_some_iff.1 h
  exact ⟨tenantId, id, s, ht, hs, (Option.some.inj h).symm⟩

/-- **A subscription event that changes something makes the row it finds
follow.** -/
theorem onSubscriptionChanged_eq_some {db : Database}
    (h : onSubscriptionChanged db remote = some db') :
    ∃ x id s status, asId (remote.field "id") = some x ∧
      db.findSubscription (some x) (asId (remote.field "customer")) = some (id, s) ∧
      readStatus (remote.field "status") = some status ∧ db' = db.follow id s x status remote := by
  obtain ⟨x, hx, h⟩ := Option.bind_eq_some_iff.1 h
  obtain ⟨⟨id, s⟩, hs, h⟩ := Option.bind_eq_some_iff.1 h
  obtain ⟨status, hstatus, h⟩ := Option.bind_eq_some_iff.1 h
  exact ⟨x, id, s, status, hx, hs, hstatus, (Option.some.inj h).symm⟩

/-- **A paid invoice that changes something makes the row it finds active.** -/
theorem onInvoicePaid_eq_some {db : Database} {payload : Value}
    (h : onInvoicePaid db payload = some db') : ∃ invoice id s, mapInvoice payload = some invoice ∧
      db.findSubscription invoice.providerSubscriptionId invoice.providerCustomerId =
        some (id, s) ∧
      db' = (db.storeInvoice id s invoice.columns).save id
        { s with status := .active, graceEndsAt := none } := by
  obtain ⟨invoice, hinvoice, h⟩ := Option.bind_eq_some_iff.1 h
  obtain ⟨⟨id, s⟩, hs, h⟩ := Option.bind_eq_some_iff.1 h
  exact ⟨invoice, id, s, hinvoice, hs, (Option.some.inj h).symm⟩

/-- **A failed payment that changes something starts or keeps the grace of
the row it finds.** -/
theorem onPaymentFailed_eq_some {now : ℤ} {db : Database} {invoice : Value}
    (h : onPaymentFailed now db invoice = some db') :
    ∃ id s, db.findSubscription (readSubscriptionId invoice) (asId (invoice.field "customer")) =
        some (id, s) ∧
      db' = db.save id { s with
        status := .pastDue, graceEndsAt := some (s.graceEndsAt.getD (graceFrom now)) } := by
  obtain ⟨⟨id, s⟩, hs, h⟩ := Option.bind_eq_some_iff.1 h
  exact ⟨id, s, hs, (Option.some.inj h).symm⟩

theorem onTrialWillEnd_eq_some {db : Database} (h : onTrialWillEnd db remote = some db') :
    db' = db := by
  obtain ⟨_, -, h⟩ := Option.bind_eq_some_iff.1 h
  obtain ⟨_, -, h⟩ := Option.bind_eq_some_iff.1 h
  exact (Option.some.inj h).symm

/-- Following clears the grace of a merchant who is current, and keeps it
otherwise. -/
theorem graceEndsAt_follow (s : Subscription) (x : String) (status : SubscriptionStatus)
    (remote : Value) (price : Option (String × PlanPrice)) :
    (s.follow x status remote price).graceEndsAt =
      if status.isCurrent then none else s.graceEndsAt := by
  cases price <;> rfl

theorem graceEndsAt_follow_of_none {s : Subscription} {x : String} {status : SubscriptionStatus}
    {price : Option (String × PlanPrice)} (h : s.graceEndsAt = none) :
    (s.follow x status remote price).graceEndsAt = none := by
  rw [graceEndsAt_follow, h, ite_self]

theorem status_follow (s : Subscription) (x : String) (status : SubscriptionStatus)
    (remote : Value) (price : Option (String × PlanPrice)) :
    (s.follow x status remote price).status = status := by
  cases price <;> rfl

/-- **An event leaves the subscriptions as they are, or moves one row.** -/
theorem applied_cases (now : ℤ) (type : String) (payload : Value) (db : Database) :
    (applied now type payload db).subscriptions = db.subscriptions ∨
      ∃ id s s', db.subscriptions.get? id = some s ∧
        (applied now type payload db).subscriptions = db.subscriptions.set id s' ∧
        RowMove now s s' ∧
        (s'.graceEndsAt ≠ none → s.graceEndsAt = none → type = "invoice.payment_failed") := by
  rw [applied]
  cases happly : apply now type payload db with
  | none => exact Or.inl rfl
  | some db' =>
    rw [Option.getD_some]
    unfold apply at happly
    split_ifs at happly with hcheckout hchanged hpaid hfailed htrial
    · obtain ⟨_, id, s, -, hs, rfl⟩ := onCheckoutCompleted_eq_some happly
      exact Or.inr ⟨id, s, _, (findOne_eq_some hs).1, rfl, .linked s _ _, fun h h' => absurd h' h⟩
    · obtain ⟨x, id, s, status, -, hs, -, rfl⟩ := onSubscriptionChanged_eq_some happly
      refine Or.inr ⟨id, s, _, (findSubscription_eq_some hs).1, subscriptions_follow ..,
        .followed s x status payload _, ?_⟩
      intro h h'
      exact absurd (graceEndsAt_follow_of_none h') h
    · obtain ⟨invoice, id, s, -, hs, rfl⟩ := onInvoicePaid_eq_some happly
      exact Or.inr ⟨id, s, _, (findSubscription_eq_some hs).1, rfl, .paid s, fun h _ => absurd rfl h⟩
    · obtain ⟨id, s, hs, rfl⟩ := onPaymentFailed_eq_some happly
      exact Or.inr ⟨id, s, _, (findSubscription_eq_some hs).1, rfl, .failed s, fun _ _ => hfailed⟩
    · exact Or.inl (congrArg _ (onTrialWillEnd_eq_some happly))

end Optionia.Billing
