import Optionia.Billing.Grace
/-!
# The plan that is enforced

The guards and the published document read the plan of a tenant's own row,
and no handler writes that row: events and passes move the plan of the
subscription. So the plan enforced is the one the tenant's row names, whatever
is billed (`planOf_run`), and it is that of every price seen exactly in the
runs that see no price of another plan (`billed_is_enforced`). What the
handlers do is tell every store of the tenant that the subscription's plan
moved, in every run.
-/

namespace Optionia.Billing

open Js Runs

/-! ## What is read of a tenant's plan -/

/-- The plan that a tenant's row names. -/
def Database.planOf (db : Database) (tenantId : String) : Option Plan :=
  (db.tenants.get? tenantId).bind fun tenant => db.plans.get? tenant.planId

/-- A write over a plan's limit. -/
structure PlanLimitExceeded where
  metric : String
  limit : ℤ
  current : ℤ
  plan : String
  deriving DecidableEq

/-- A feature that a plan does not include. -/
structure PlanFeatureUnavailable where
  feature : String
  plan : String
  deriving DecidableEq

/-- What a plan says of one more, where there is so much. No number is no
limit, and neither is no entry. -/
def Plan.withinLimit (plan : Plan) (metric : String) (current : ℤ) :
    Except PlanLimitExceeded Unit :=
  match (plan.limits.lookup metric).join with
  | none => .ok ()
  | some limit => if current < limit then .ok () else .error ⟨metric, limit, current, plan.code⟩

/-- What it says of a feature; no entry is no feature. -/
def Plan.hasFeature (plan : Plan) (feature : String) : Except PlanFeatureUnavailable Unit :=
  if plan.features.lookup feature = some true then .ok () else .error ⟨feature, plan.name⟩

def assertWithinPlan (db : Database) (tenantId metric : String) (current : ℤ) :
    Except PlanLimitExceeded Unit :=
  match db.planOf tenantId with
  | none => .ok ()
  | some plan => plan.withinLimit metric current

def assertHasFeature (db : Database) (tenantId feature : String) :
    Except PlanFeatureUnavailable Unit :=
  match db.planOf tenantId with
  | none => .ok ()
  | some plan => plan.hasFeature feature

/-- What a document says of a plan. -/
structure ConfigPlanState where
  code : String
  name : String
  readOnly : Bool
  graceEndsAt : Option Date

/-- A date is not after now. -/
def Date.isPast (now : ℤ) : Date → Bool
  | .at ms => decide (ms ≤ now)
  | .invalid => false

def planState (now : ℤ) (db : Database) (tenantId : String) : ConfigPlanState :=
  match db.planOf tenantId with
  | none => ⟨"unknown", "Unknown", false, none⟩
  | some plan =>
    let graceEndsAt := (findOne db.subscriptions fun s => s.tenantId = tenantId).bind
      fun p => p.2.graceEndsAt
    ⟨plan.code, plan.name, (graceEndsAt.map (Date.isPast now)).getD false, graceEndsAt⟩

/-- **A plan is enforced for a tenant**: the limits, the features and the code
read are its own. -/
structure Enforces (db : Database) (tenantId : String) (plan : Plan) : Prop where
  limits : ∀ metric current,
    assertWithinPlan db tenantId metric current = plan.withinLimit metric current
  features : ∀ feature, assertHasFeature db tenantId feature = plan.hasFeature feature
  code : ∀ now, (planState now db tenantId).code = plan.code

theorem enforces_of_planOf {db : Database} {tenantId : String} {plan : Plan}
    (h : db.planOf tenantId = some plan) : Enforces db tenantId plan where
  limits metric current := by rw [assertWithinPlan, h]
  features feature := by rw [assertHasFeature, h]
  code now := by rw [planState, h]

/-! ## What the schema keeps -/

/-- The unique code of a plan, and the rows that other rows name. -/
structure Constraints (db : Database) : Prop where
  codes : ∀ id id' plan plan', db.plans.get? id = some plan → db.plans.get? id' = some plan' →
    plan.code = plan'.code → id = id'
  prices : ∀ id price, db.prices.get? id = some price → (db.plans.get? price.planId).isSome
  tenants : ∀ id tenant, db.tenants.get? id = some tenant → (db.plans.get? tenant.planId).isSome
  subscriptions : ∀ id s, db.subscriptions.get? id = some s → (db.tenants.get? s.tenantId).isSome

/-! ## What stores are told -/

/-- No store is lost or falls back. -/
def Keeps (db db' : Database) : Prop :=
  ∀ storeId store, db.stores.get? storeId = some store → ∃ store',
    db'.stores.get? storeId = some store' ∧ store'.tenantId = store.tenantId ∧
      store.configVersion ≤ store'.configVersion

/-- Every store of a tenant has a newer revision. -/
def Told (tenantId : String) (db db' : Database) : Prop :=
  ∀ storeId store, db.stores.get? storeId = some store → store.tenantId = tenantId → ∃ store',
    db'.stores.get? storeId = some store' ∧ store'.tenantId = tenantId ∧
      store.configVersion < store'.configVersion

section Told

variable {db db' db'' : Database} {tenantId : String}

theorem keeps_of_stores (h : db'.stores = db.stores) : Keeps db db' :=
  fun _ store hget => ⟨store, by rw [h, hget], rfl, le_rfl⟩

theorem Keeps.trans (h : Keeps db db') (h' : Keeps db' db'') : Keeps db db'' := by
  intro storeId store hget
  obtain ⟨store', hget', htenant, hle⟩ := h storeId store hget
  obtain ⟨store'', hget'', htenant', hle'⟩ := h' storeId store' hget'
  exact ⟨store'', hget'', htenant'.trans htenant, hle.trans hle'⟩

theorem Keeps.told (h : Keeps db db') (h' : Told tenantId db' db'') : Told tenantId db db'' := by
  intro storeId store hget hstore
  obtain ⟨store', hget', htenant, hle⟩ := h storeId store hget
  obtain ⟨store'', hget'', htenant', hlt⟩ := h' storeId store' hget' (htenant.trans hstore)
  exact ⟨store'', hget'', htenant', hle.trans_lt hlt⟩

theorem Told.keeps (h : Told tenantId db db') (h' : Keeps db' db'') : Told tenantId db db'' := by
  intro storeId store hget hstore
  obtain ⟨store', hget', htenant, hlt⟩ := h storeId store hget hstore
  obtain ⟨store'', hget'', htenant', hle⟩ := h' storeId store' hget'
  exact ⟨store'', hget'', htenant'.trans htenant, hlt.trans_le hle⟩

theorem get?_invalidate (db : Database) (tenantId storeId : String) :
    (db.invalidate tenantId).stores.get? storeId = (db.stores.get? storeId).map fun store =>
      if store.tenantId = tenantId then { store with configVersion := store.configVersion + 1 }
      else store :=
  OrderedMap.get?_mapValues ..

/-- **An invalidation tells every store of the tenant.** -/
theorem told_invalidate (db : Database) (tenantId : String) :
    Told tenantId db (db.invalidate tenantId) := by
  intro storeId store hget hstore
  refine ⟨{ store with configVersion := store.configVersion + 1 }, ?_, hstore, Nat.lt_succ_self _⟩
  rw [get?_invalidate, hget, Option.map_some, if_pos hstore]

theorem keeps_invalidate (db : Database) (tenantId : String) :
    Keeps db (db.invalidate tenantId) := by
  intro storeId store hget
  by_cases hstore : store.tenantId = tenantId
  · obtain ⟨store', hget', htenant, hlt⟩ := told_invalidate db tenantId storeId store hget hstore
    exact ⟨store', hget', htenant.trans hstore.symm, hlt.le⟩
  · refine ⟨store, ?_, rfl, le_rfl⟩
    rw [get?_invalidate, hget, Option.map_some, if_neg hstore]

end Told

/-! ## One step -/

/-- **What a step changes of a tenant's plan**: the tables it is read of are
as they were, and so is the tenant of each row; where the plan of a row moves,
every store of the tenant is told. -/
structure Moved (db db' : Database) : Prop where
  plans : db'.plans = db.plans
  prices : db'.prices = db.prices
  tenants : db'.tenants = db.tenants
  stores : Keeps db db'
  rows : ∀ id s', db'.subscriptions.get? id = some s' → ∃ s,
    db.subscriptions.get? id = some s ∧ s'.tenantId = s.tenantId ∧
      (s'.planId ≠ s.planId → Told s.tenantId db db')

theorem moved_refl (db : Database) : Moved db db where
  plans := rfl
  prices := rfl
  tenants := rfl
  stores := keeps_of_stores rfl
  rows _ s' hget := ⟨s', hget, rfl, fun h => absurd rfl h⟩

theorem moved_save {db db' : Database} {id : String} {s s' : Subscription}
    (hget : db.subscriptions.get? id = some s) (hs' : db'.subscriptions = db.subscriptions.set id s')
    (hplans : db'.plans = db.plans) (hprices : db'.prices = db.prices)
    (htenants : db'.tenants = db.tenants) (hstores : Keeps db db')
    (htenant : s'.tenantId = s.tenantId)
    (htold : s'.planId ≠ s.planId → Told s.tenantId db db') : Moved db db' := by
  refine ⟨hplans, hprices, htenants, hstores, fun id' t' hget' => ?_⟩
  rw [hs'] at hget'
  rcases OrderedMap.get?_set_eq_some.1 hget' with ⟨rfl, rfl⟩ | ⟨-, hget'⟩
  · exact ⟨s, hget, htenant, htold⟩
  · exact ⟨t', hget', rfl, fun h => absurd rfl h⟩

theorem planId_follow {s : Subscription} {x : String} {status : SubscriptionStatus}
    {remote : Value} {price : Option (String × PlanPrice)}
    (h : (s.follow x status remote price).planId ≠ s.planId) : s.moves price = true := by
  cases price with
  | none => exact absurd rfl h
  | some p =>
    change (decide (s.planPriceId ≠ some p.1) || decide (s.planId ≠ p.2.planId)) = true
    rw [decide_eq_true (Ne.symm h : s.planId ≠ p.2.planId), Bool.or_true]

theorem tenantId_follow (s : Subscription) (x : String) (status : SubscriptionStatus)
    (remote : Value) (price : Option (String × PlanPrice)) :
    (s.follow x status remote price).tenantId = s.tenantId := by
  cases price <;> rfl

theorem moved_follow {db : Database} {id : String} {s : Subscription}
    (hget : db.subscriptions.get? id = some s) (x : String) (status : SubscriptionStatus)
    (remote : Value) : Moved db (db.follow id s x status remote) := by
  have hsubscriptions := subscriptions_follow db id s x status remote
  have htenant := tenantId_follow s x status remote ((readPriceId remote).bind db.priceOf)
  unfold Database.follow at hsubscriptions ⊢
  dsimp only at hsubscriptions ⊢
  split
  · next h =>
    rw [if_pos h] at hsubscriptions
    exact moved_save hget hsubscriptions rfl rfl rfl
      ((keeps_of_stores rfl).trans (keeps_invalidate _ _)) htenant
      fun _ => (keeps_of_stores rfl).told (told_invalidate _ _)
  · next h =>
    rw [if_neg h] at hsubscriptions
    exact moved_save hget hsubscriptions rfl rfl rfl (keeps_of_stores rfl) htenant
      fun hplan => absurd (planId_follow hplan) h

theorem moved_applied (now : ℤ) (type : String) (payload : Value) (db : Database) :
    Moved db (applied now type payload db) := by
  rw [applied]
  cases happly : apply now type payload db with
  | none => exact moved_refl db
  | some db' =>
    rw [Option.getD_some]
    unfold apply at happly
    split_ifs at happly with hcheckout hchanged hpaid hfailed htrial
    · obtain ⟨_, id, s, -, hs, rfl⟩ := onCheckoutCompleted_eq_some happly
      exact moved_save (findOne_eq_some hs).1 rfl rfl rfl rfl (keeps_of_stores rfl) rfl
        fun h => absurd rfl h
    · obtain ⟨x, id, s, status, -, hs, -, rfl⟩ := onSubscriptionChanged_eq_some happly
      exact moved_follow (findSubscription_eq_some hs).1 x status payload
    · obtain ⟨invoice, id, s, -, hs, rfl⟩ := onInvoicePaid_eq_some happly
      exact moved_save (findSubscription_eq_some hs).1 rfl rfl rfl rfl (keeps_of_stores rfl) rfl
        fun h => absurd rfl h
    · obtain ⟨id, s, hs, rfl⟩ := onPaymentFailed_eq_some happly
      exact moved_save (findSubscription_eq_some hs).1 rfl rfl rfl rfl (keeps_of_stores rfl) rfl
        fun h => absurd rfl h
    · rw [onTrialWillEnd_eq_some happly]
      exact moved_refl db

/-- One candidate of a pass keeps the catalogue and the stores, and tells them
where it adopts a price. -/
theorem reconcileOne_moved (ask : String → Answer) (db : Database)
    (candidate : String × Subscription) :
    let db' := reconcileOne false ask db candidate
    (db'.plans = db.plans ∧ db'.tenants = db.tenants) ∧ Keeps db db' ∧
      ∀ remote ∈ candidate.2.remote? ask, (candidate.2.newPrice db remote).isSome = true →
        Told candidate.2.tenantId db db' := by
  dsimp only
  unfold reconcileOne
  cases candidate.2.remote? ask with
  | none => exact ⟨⟨rfl, rfl⟩, keeps_of_stores rfl, fun _ h => absurd h.symm (Option.some_ne_none _)⟩
  | some remote =>
    simp only [Bool.false_eq_true, if_false]
    split
    · exact ⟨⟨rfl, rfl⟩, (keeps_of_stores rfl).trans (keeps_invalidate _ _),
        fun _ _ _ => (keeps_of_stores rfl).told (told_invalidate _ _)⟩
    · next hnew =>
      refine ⟨⟨rfl, rfl⟩, keeps_of_stores rfl, fun remote' h hsome => absurd hsome ?_⟩
      rwa [← Option.some.inj h]

theorem foldl_reconcileOne_moved (ask : String → Answer) (db : Database)
    (l : List (String × Subscription)) {db' : Database} (hprices : db'.prices = db.prices) :
    let db'' := l.foldl (reconcileOne false ask) db'
    (db''.plans = db'.plans ∧ db''.prices = db.prices ∧ db''.tenants = db'.tenants) ∧
      Keeps db' db'' ∧
      ∀ candidate ∈ l, ∀ remote ∈ candidate.2.remote? ask,
        (candidate.2.newPrice db remote).isSome = true → Told candidate.2.tenantId db' db'' := by
  dsimp only
  induction l generalizing db' with
  | nil => exact ⟨⟨rfl, hprices, rfl⟩, keeps_of_stores rfl, fun _ h => absurd h List.not_mem_nil⟩
  | cons p l ih =>
    obtain ⟨⟨hplans, htenants⟩, hkeeps, htold⟩ := reconcileOne_moved ask db' p
    have hprices' := (reconcileOne_spec ask db' p).1.trans hprices
    obtain ⟨⟨hplans', hprices'', htenants'⟩, hkeeps', htold'⟩ := ih hprices'
    rw [List.foldl_cons]
    refine ⟨⟨hplans'.trans hplans, hprices'', htenants'.trans htenants⟩, hkeeps.trans hkeeps', ?_⟩
    intro candidate hmem remote hremote hsome
    rcases List.mem_cons.1 hmem with rfl | hmem
    · refine (htold remote hremote ?_).keeps hkeeps'
      rwa [newPrice_congr hprices]
    · exact hkeeps.told (htold' candidate hmem remote hremote hsome)

theorem planId_repaired {s : Subscription} {db : Database} {remote : ProviderSubscription}
    (h : (s.repaired db remote).planId ≠ s.planId) : (s.newPrice db remote).isSome = true := by
  cases hnew : s.newPrice db remote with
  | none =>
    refine absurd ?_ h
    rw [Subscription.repaired, hnew]
    rfl
  | some p => rfl

theorem tenantId_repaired (s : Subscription) (db : Database) (remote : ProviderSubscription) :
    (s.repaired db remote).tenantId = s.tenantId := by
  unfold Subscription.repaired
  cases s.newPrice db remote <;> rfl

theorem moved_reconcile (provider : Option (String → Answer)) (db : Database) :
    Moved db (reconcile false provider db) := by
  cases provider with
  | none => exact moved_refl db
  | some ask =>
    obtain ⟨⟨hplans, hprices, htenants⟩, hkeeps, htold⟩ :=
      foldl_reconcileOne_moved ask db db.subscriptions.entries rfl
    refine ⟨hplans, hprices, htenants, hkeeps, fun id s' hget => ?_⟩
    rw [get?_reconcile] at hget
    obtain ⟨s, hs, rfl⟩ := Option.map_eq_some_iff.1 hget
    refine ⟨s, hs, ?_⟩
    rw [Subscription.reconciled, Subscription.repair?]
    cases hremote : s.remote? ask with
    | none => exact ⟨rfl, fun h => absurd rfl h⟩
    | some remote =>
      exact ⟨tenantId_repaired s db remote, fun h =>
        htold (id, s) (OrderedMap.get?_eq_some.1 hs) remote hremote (planId_repaired h)⟩

/-- **Whatever the step**, no plan of a row moves without the stores being
told. -/
theorem moved_step (db : Database) (a : Action) : Moved db (step db a) := by
  cases a with
  | event now type payload => exact moved_applied now type payload db
  | repair provider => exact moved_reconcile provider db

theorem planOf_step (db : Database) (a : Action) (tenantId : String) :
    (step db a).planOf tenantId = db.planOf tenantId := by
  unfold Database.planOf
  rw [(moved_step db a).tenants, (moved_step db a).plans]

theorem Constraints.step {db : Database} (h : Constraints db) (a : Action) :
    Constraints (step db a) := by
  have hmoved := moved_step db a
  refine ⟨?_, ?_, ?_, ?_⟩
  · rw [hmoved.plans]
    exact h.codes
  · rw [hmoved.plans, hmoved.prices]
    exact h.prices
  · rw [hmoved.plans, hmoved.tenants]
    exact h.tenants
  · intro id s' hget
    obtain ⟨s, hs, htenant, -⟩ := hmoved.rows id s' hget
    rw [hmoved.tenants, htenant]
    exact h.subscriptions id s hs

/-! ## What is billed -/

/-- **A step sees a price that is known**, of the tenant of a row. -/
inductive Sees (db : Database) : Action → String → String × PlanPrice → Prop
  | event {now : ℤ} {type : String} {payload : Value} {x id : String} {s : Subscription}
      {status : SubscriptionStatus} {price : String × PlanPrice} (htype : type ∈ subscriptionEvents)
      (hid : asId (payload.field "id") = some x)
      (hfound : db.findSubscription (some x) (asId (payload.field "customer")) = some (id, s))
      (hstatus : readStatus (payload.field "status") = some status)
      (hprice : (readPriceId payload).bind db.priceOf = some price) :
      Sees db (.event now type payload) s.tenantId price
  | repair {ask : String → Answer} {id : String} {s : Subscription}
      {remote : ProviderSubscription} {price : String × PlanPrice}
      (hget : db.subscriptions.get? id = some s) (hremote : s.remote? ask = some remote)
      (hprice : remote.providerPriceId.bind db.priceOf = some price) :
      Sees db (.repair (some ask)) s.tenantId price

/-- **What a step sees billed, it leaves enforced.** -/
def BilledIsEnforced (db : Database) (a : Action) : Prop :=
  ∀ tenantId price, Sees db a tenantId price → ∃ plan,
    db.plans.get? price.2.planId = some plan ∧ Enforces (step db a) tenantId plan

/-- Every price a step sees is of the plan the tenant's row names. -/
def SeesOwnPlan (db : Database) (a : Action) : Prop :=
  ∀ tenantId price, Sees db a tenantId price → ∃ tenant,
    db.tenants.get? tenantId = some tenant ∧ tenant.planId = price.2.planId

theorem Sees.mem {db : Database} {a : Action} {tenantId : String} {price : String × PlanPrice}
    (h : Sees db a tenantId price) :
    db.prices.get? price.1 = some price.2 ∧
      ∃ id s, db.subscriptions.get? id = some s ∧ s.tenantId = tenantId := by
  have hprice : ∀ {x : Option String}, x.bind db.priceOf = some price →
      db.prices.get? price.1 = some price.2 := by
    intro x hx
    obtain ⟨y, -, hy⟩ := Option.bind_eq_some_iff.1 hx
    exact (findOne_eq_some hy).1
  cases h with
  | event _ _ hfound _ hp => exact ⟨hprice hp, _, _, (findSubscription_eq_some hfound).1, rfl⟩
  | repair hget _ hp => exact ⟨hprice hp, _, _, hget, rfl⟩

/-- **A step leaves enforced what it sees billed exactly where that is the plan
the tenant's row names.** -/
theorem billedIsEnforced_iff {db : Database} (h : Constraints db) (a : Action) :
    BilledIsEnforced db a ↔ SeesOwnPlan db a := by
  constructor
  · intro henforced tenantId price hsees
    obtain ⟨plan, hplan, hread⟩ := henforced tenantId price hsees
    obtain ⟨-, id, s, hs, rfl⟩ := hsees.mem
    obtain ⟨tenant, htenant⟩ := Option.isSome_iff_exists.1 (h.subscriptions id s hs)
    obtain ⟨own, hown⟩ := Option.isSome_iff_exists.1 (h.tenants _ _ htenant)
    have hplanOf : db.planOf s.tenantId = some own := by
      rw [Database.planOf, htenant, Option.bind_some, hown]
    have hcode : own.code = plan.code := by
      rw [← hread.code 0, ← (enforces_of_planOf hplanOf).code 0, planState, planState, planOf_step,
        hplanOf]
    exact ⟨tenant, htenant, h.codes _ _ own plan hown hplan hcode⟩
  · intro hown tenantId price hsees
    obtain ⟨tenant, htenant, hplan⟩ := hown tenantId price hsees
    obtain ⟨plan, hget⟩ := Option.isSome_iff_exists.1 (h.prices _ _ hsees.mem.1)
    refine ⟨plan, hget, enforces_of_planOf ?_⟩
    rw [planOf_step, Database.planOf, htenant, Option.bind_some, hplan, hget]

/-- Where the plan of a row moves, every store of its tenant is told. -/
def TellsStores (db : Database) (a : Action) : Prop :=
  ∀ id s s', db.subscriptions.get? id = some s → (step db a).subscriptions.get? id = some s' →
    s'.planId ≠ s.planId → Told s.tenantId db (step db a)

theorem tellsStores (db : Database) (a : Action) : TellsStores db a := by
  intro id s s' hs hs' hplan
  obtain ⟨t, ht, -, htold⟩ := (moved_step db a).rows id s' hs'
  obtain rfl := Option.some.inj (hs.symm.trans ht)
  exact htold hplan

/-- **In a run, every price seen is enforced exactly where each is of the plan
the tenant's row names**; and in every run the stores are told of a plan that
moves. -/
theorem billed_is_enforced {db : Database} (h : Constraints db) (actions : List Action) :
    (Throughout step BilledIsEnforced db actions ↔ Throughout step SeesOwnPlan db actions) ∧
      Throughout step TellsStores db actions :=
  ⟨throughout_congr (fun _ a hdb => hdb.step a) (fun _ a hdb => billedIsEnforced_iff hdb a) h,
    throughout_of_forall tellsStores db actions⟩

/-! ## One upgrade -/

def freePlan : Plan := ⟨"free", "Free", [("option_sets", some 10)], [("analytics", false)]⟩

def proPlan : Plan := ⟨"pro", "Pro", [("option_sets", some 50)], [("analytics", true)]⟩

/-- The two plans, a price of the higher, and a tenant whose row names one of
them, with the subscription of a paying merchant. -/
def shop (planId : String) : Database where
  plans := ((∅ : OrderedMap String Plan).set "free" freePlan).set "pro" proPlan
  prices := (∅ : OrderedMap String PlanPrice).set "pp" ⟨"pro", some "price_1"⟩
  tenants := (∅ : OrderedMap String Tenant).set "t" ⟨planId⟩
  stores := (∅ : OrderedMap String Store).set "store" ⟨"t", 1⟩
  subscriptions := (∅ : OrderedMap String Subscription).set "s" { paying with planId := planId }
  invoices := ∅

/-- The provider's subscription, at the price of the higher plan. -/
def upgraded : Value :=
  .obj [("id", .str "sub_1"), ("status", .str "active"),
    ("items", .obj [("data", .arr [.obj [("price", .str "price_1")]])])]

/-- The provider bills the higher plan. -/
def upgrade : Action := .event 0 "customer.subscription.updated" upgraded

theorem constraints_shop {planId : String} (h : planId = "free" ∨ planId = "pro") :
    Constraints (shop planId) := by
  have hplan : ((shop planId).plans.get? planId).isSome = true := by
    rcases h with rfl | rfl <;> rfl
  refine ⟨?_, ?_, ?_, ?_⟩
  · intro id id' plan plan' hget hget' hcode
    rcases OrderedMap.get?_set_eq_some.1 hget with ⟨rfl, rfl⟩ | ⟨-, hget⟩ <;>
      rcases OrderedMap.get?_set_eq_some.1 hget' with ⟨rfl, rfl⟩ | ⟨-, hget'⟩
    · rfl
    · obtain ⟨-, rfl⟩ := OrderedMap.get?_set_empty_eq_some.1 hget'
      exact absurd hcode (by decide)
    · obtain ⟨-, rfl⟩ := OrderedMap.get?_set_empty_eq_some.1 hget
      exact absurd hcode (by decide)
    · obtain ⟨rfl, -⟩ := OrderedMap.get?_set_empty_eq_some.1 hget
      exact (OrderedMap.get?_set_empty_eq_some.1 hget').1.symm
  · intro id price hget
    obtain ⟨-, rfl⟩ := OrderedMap.get?_set_empty_eq_some.1 hget
    rfl
  · intro id tenant hget
    obtain ⟨-, rfl⟩ := OrderedMap.get?_set_empty_eq_some.1 hget
    exact hplan
  · intro id s hget
    obtain ⟨-, rfl⟩ := OrderedMap.get?_set_empty_eq_some.1 hget
    rfl

/-- An upgrade of a tenant whose row names the higher plan already. -/
theorem billed_is_enforced_renewal : BilledIsEnforced (shop "pro") upgrade := by
  refine ((billed_is_enforced (constraints_shop (Or.inr rfl)) [upgrade]).1.2 ⟨?_, trivial⟩).1
  intro tenantId price hsees
  obtain ⟨hprice, id, s, hget, rfl⟩ := hsees.mem
  obtain ⟨-, hplan⟩ := OrderedMap.get?_set_empty_eq_some.1 hprice
  obtain ⟨-, rfl⟩ := OrderedMap.get?_set_empty_eq_some.1 hget
  exact ⟨⟨"pro"⟩, rfl, congrArg PlanPrice.planId hplan⟩

/-- **The tenant pays for the higher plan and keeps the limits of the old
one.** -/
theorem upgrade_not_enforced : Constraints (shop "free") ∧ ¬ BilledIsEnforced (shop "free") upgrade := by
  refine ⟨constraints_shop (Or.inl rfl), fun h => ?_⟩
  have htype : "customer.subscription.updated" ∈ subscriptionEvents := by decide
  have hid : asId (upgraded.field "id") = some "sub_1" := by decide +kernel
  have hstatus : readStatus (upgraded.field "status") = some .active := by decide +kernel
  have hsees : Sees (shop "free") upgrade "t" ("pp", ⟨"pro", some "price_1"⟩) :=
    .event (s := { paying with planId := "free" }) htype hid rfl hstatus rfl
  obtain ⟨plan, hplan, henforced⟩ := h _ _ hsees
  obtain rfl := Option.some.inj hplan
  exact absurd (henforced.limits "option_sets" 10) (by decide +kernel)

end Optionia.Billing
