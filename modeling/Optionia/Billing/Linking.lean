import Optionia.Billing.Lifecycle
import Optionia.Lib.Runs
/-!
# Whose row an event moves

An event names a subscription of the provider, and moves the row linked to it.
Where none is, it moves the first row of the same customer, and that row may
be linked to another subscription: the one the customer has since. An event
leaves the rows of other subscriptions alone exactly where it does not fall
back on one it would change (`leaves_others_iff`), and in a run of such events
each row carries the status last reported of its own subscription
(`status_of_run`).
-/

namespace Optionia.Billing

open Js Runs

/-! ## Events about a subscription -/

/-- An event about a subscription, at an instant. -/
structure Event where
  now : ℤ
  type : String
  payload : Value

/-- What an event is about, and the status it reports of it. -/
inductive Event.Reports (e : Event) : String → Option SubscriptionStatus → Prop
  | changed {x : String} (htype : e.type ∈ subscriptionEvents)
      (hx : asId (e.payload.field "id") = some x) :
    Reports e x (readStatus (e.payload.field "status"))
  | paid {x : String} (htype : e.type ∈ paidEvents) (hx : readSubscriptionId e.payload = some x) :
    Reports e x ((mapInvoice e.payload).map fun _ => .active)
  | failed {x : String} (htype : e.type = "invoice.payment_failed")
      (hx : readSubscriptionId e.payload = some x) : Reports e x (some .pastDue)

def handled (db : Database) (e : Event) : Database := applied e.now e.type e.payload db

/-- A row is linked to a subscription. -/
def Linked (db : Database) (id x : String) : Prop :=
  ∃ s, db.subscriptions.get? id = some s ∧ s.providerSubscriptionId = some x

/-- The row an event falls back on: the first of the customer, where none is
linked to the subscription. -/
def Fallback (db : Database) (e : Event) (x id : String) (s : Subscription) : Prop :=
  (∀ id, ¬ Linked db id x) ∧ ∃ c, asId (e.payload.field "customer") = some c ∧
    findOne db.subscriptions (fun s => s.providerCustomerId = some c) = some (id, s)

/-- A subscription is left as it was: its link, its status, its plan, its
period and its grace. -/
structure Subscription.Kept (s s' : Subscription) : Prop where
  link : s'.providerSubscriptionId = s.providerSubscriptionId
  status : s'.status = s.status
  plan : s'.planId = s.planId
  price : s'.planPriceId = s.planPriceId
  period : s'.currentPeriodEnd = s.currentPeriodEnd
  grace : s'.graceEndsAt = s.graceEndsAt

/-- The rows linked to other subscriptions are left as they were. -/
def LeavesOthers (db db' : Database) (x : String) : Prop :=
  ∀ id s y, db.subscriptions.get? id = some s → s.providerSubscriptionId = some y → y ≠ x →
    ∃ s', db'.subscriptions.get? id = some s' ∧ s.Kept s'

/-- An event would leave the row as it is, its link aside: it reports nothing,
or a payment that the row has already taken. -/
def Event.Inert (e : Event) (s : Subscription) : Prop :=
  if e.type ∈ subscriptionEvents then readStatus (e.payload.field "status") = none
  else if e.type ∈ paidEvents then
    mapInvoice e.payload = none ∨ s.status = .active ∧ s.graceEndsAt = none
  else s.status = .pastDue ∧ s.graceEndsAt ≠ none

/-- **An event does not fall back on a row it would take from another
subscription.** -/
def SparesOthers (db : Database) (e : Event) (x : String) : Prop :=
  ∀ id s, Fallback db e x id s → s.providerSubscriptionId ≠ none → e.Inert s

/-! ## What an event moves -/

/-- What an event makes of the row it finds. -/
inductive Event.Moves (e : Event) (db : Database) (x : String) (s : Subscription) :
    Subscription → Prop
  | followed (htype : e.type ∈ subscriptionEvents) {status : SubscriptionStatus}
      (hstatus : readStatus (e.payload.field "status") = some status) :
    Moves e db x s (s.follow x status e.payload ((readPriceId e.payload).bind db.priceOf))
  | paid (htype : e.type ∈ paidEvents) (hmapped : mapInvoice e.payload ≠ none) :
    Moves e db x s { s with status := .active, graceEndsAt := none }
  | failed (htype : e.type = "invoice.payment_failed") :
    Moves e db x s { s with
      status := .pastDue, graceEndsAt := some (s.graceEndsAt.getD (graceFrom e.now)) }

variable {db : Database} {e : Event} {x : String} {status : Option SubscriptionStatus}

theorem apply_of_subscriptionEvent (h : e.type ∈ subscriptionEvents) :
    apply e.now e.type e.payload db = onSubscriptionChanged db e.payload := by
  have hne : e.type ≠ "checkout.session.completed" := by
    rintro heq
    rw [heq] at h
    exact absurd h (by decide)
  rw [apply, if_neg hne, if_pos h]

theorem not_subscriptionEvent_of_paid {type : String} (h : type ∈ paidEvents) :
    type ∉ subscriptionEvents := by
  unfold paidEvents at h
  rw [List.mem_pair] at h
  rcases h with rfl | rfl
  · decide
  · decide

theorem apply_of_paidEvent (h : e.type ∈ paidEvents) :
    apply e.now e.type e.payload db = onInvoicePaid db e.payload := by
  have hne : e.type ≠ "checkout.session.completed" := by
    rintro heq
    rw [heq] at h
    exact absurd h (by decide)
  rw [apply, if_neg hne, if_neg (not_subscriptionEvent_of_paid h), if_pos h]

theorem apply_of_failedEvent (h : e.type = "invoice.payment_failed") :
    apply e.now e.type e.payload db = onPaymentFailed e.now db e.payload := by
  rw [apply, h, if_neg (by decide), if_neg (by decide), if_neg (by decide), if_pos rfl]

/-- The subscription a mapped invoice is for is the one its payload names, and
so is the customer. -/
theorem ids_of_mapInvoice {payload : Value} {invoice : MappedInvoice}
    (h : mapInvoice payload = some invoice) :
    invoice.providerSubscriptionId = readSubscriptionId payload ∧
      invoice.providerCustomerId = asId (payload.field "customer") := by
  unfold mapInvoice at h
  simp only [Option.bind_eq_bind, Option.bind_eq_some_iff] at h
  obtain ⟨_, -, _, -, _, -, _, -, _, -, _, -, h⟩ := h
  split at h
  · obtain rfl := Option.some.inj h
    exact ⟨rfl, rfl⟩
  · simp at h

variable {id : String} {s : Subscription} {st : SubscriptionStatus}

theorem not_linked_iff (h : db.subscriptions.get? id = some s) :
    ¬ Linked db id x ↔ s.providerSubscriptionId ≠ some x := by
  constructor
  · exact fun hn hs => hn ⟨s, h, hs⟩
  · rintro hn ⟨t, ht, hx⟩
    obtain rfl := Option.some.inj (h.symm.trans ht)
    exact hn hx

/-- **A row found for an event is linked to what it is about, or is what it
falls back on.** -/
theorem linked_or_fallback
    (h : db.findSubscription (some x) (asId (e.payload.field "customer")) = some (id, s)) :
    db.subscriptions.get? id = some s ∧
      (s.providerSubscriptionId = some x ∨ Fallback db e x id s) := by
  rw [Database.findSubscription, Option.or_eq_some_iff, Option.bind_some] at h
  rcases h with h | ⟨hnone, h⟩
  · obtain ⟨hget, hfits⟩ := findOne_eq_some h
    exact ⟨hget, Or.inl (of_decide_eq_true hfits)⟩
  · obtain ⟨c, hc, h⟩ := Option.bind_eq_some_iff.1 h
    refine ⟨(findOne_eq_some h).1, Or.inr ⟨?_, c, hc, h⟩⟩
    rintro id' ⟨s', hs', hx⟩
    exact of_decide_eq_false (findOne_eq_none.1 hnone id' s' hs') hx

theorem Fallback.found (h : Fallback db e x id s) :
    db.findSubscription (some x) (asId (e.payload.field "customer")) = some (id, s) := by
  obtain ⟨hnone, c, hc, hs⟩ := h
  have hfirst : findOne db.subscriptions (fun s => s.providerSubscriptionId = some x) = none := by
    rw [findOne_eq_none]
    intro id' s' hs'
    exact decide_eq_false ((not_linked_iff hs').1 (hnone id'))
  rw [Database.findSubscription, Option.bind_some, hfirst, Option.none_or, hc, Option.bind_some, hs]

/-- **An event about a subscription changes nothing, or moves the row found
for it.** It changes nothing where no row is found, or it reports nothing. -/
theorem Event.Reports.cases (h : e.Reports x status) (db : Database) :
    ((status = none ∨
        db.findSubscription (some x) (asId (e.payload.field "customer")) = none) ∧
      apply e.now e.type e.payload db = none) ∨
    ∃ id s s' st db', status = some st ∧
      db.findSubscription (some x) (asId (e.payload.field "customer")) = some (id, s) ∧
      e.Moves db x s s' ∧ s'.status = st ∧ apply e.now e.type e.payload db = some db' ∧
      db'.subscriptions = db.subscriptions.set id s' := by
  cases h with
  | changed htype hx =>
    rw [apply_of_subscriptionEvent htype, onSubscriptionChanged, hx]
    dsimp only [Option.bind_eq_bind, Option.bind_some]
    cases db.findSubscription (some x) (asId (e.payload.field "customer")) with
    | none => exact Or.inl ⟨Or.inr rfl, rfl⟩
    | some p =>
      obtain ⟨id, s⟩ := p
      cases hstatus : readStatus (e.payload.field "status") with
      | none => exact Or.inl ⟨Or.inl rfl, rfl⟩
      | some st =>
        exact Or.inr ⟨id, s, _, st, db.follow id s x st e.payload, rfl, rfl,
          .followed htype hstatus, status_follow .., rfl, subscriptions_follow ..⟩
  | paid htype hx =>
    rw [apply_of_paidEvent htype, onInvoicePaid]
    cases hmapped : mapInvoice e.payload with
    | none => exact Or.inl ⟨Or.inl rfl, rfl⟩
    | some invoice =>
      obtain ⟨hsubscription, hcustomer⟩ := ids_of_mapInvoice hmapped
      dsimp only [Option.bind_eq_bind, Option.bind_some]
      rw [hsubscription, hcustomer, hx]
      cases db.findSubscription (some x) (asId (e.payload.field "customer")) with
      | none => exact Or.inl ⟨Or.inr rfl, rfl⟩
      | some p =>
        obtain ⟨id, s⟩ := p
        have hsome : mapInvoice e.payload ≠ none := by
          rw [hmapped]
          exact Option.some_ne_none _
        exact Or.inr ⟨id, s, _, .active, _, rfl, rfl, .paid htype hsome, rfl, rfl, rfl⟩
  | failed htype hx =>
    rw [apply_of_failedEvent htype, onPaymentFailed, hx]
    cases db.findSubscription (some x) (asId (e.payload.field "customer")) with
    | none => exact Or.inl ⟨Or.inr rfl, rfl⟩
    | some p =>
      obtain ⟨id, s⟩ := p
      exact Or.inr ⟨id, s, _, .pastDue, _, rfl, rfl, .failed htype, rfl, rfl, rfl⟩

/-! ## One event -/

theorem Subscription.Kept.refl (s : Subscription) : s.Kept s := ⟨rfl, rfl, rfl, rfl, rfl, rfl⟩

/-- **An event that moves a row of another subscription keeps it exactly where
it is inert.** -/
theorem Event.Moves.kept_iff {s' : Subscription} (h : e.Moves db x s s')
    (hx : s.providerSubscriptionId ≠ some x) : s.Kept s' ↔ e.Inert s := by
  rw [Inert]
  cases h with
  | followed htype hstatus =>
    rw [if_pos htype, hstatus]
    refine iff_of_false (fun hkept => hx ?_) (Option.some_ne_none _)
    rw [← hkept.link]
    cases (readPriceId e.payload).bind db.priceOf <;> rfl
  | paid htype hmapped =>
    rw [if_neg (not_subscriptionEvent_of_paid htype), if_pos htype]
    constructor
    · exact fun hkept => Or.inr ⟨hkept.status.symm, hkept.grace.symm⟩
    · rintro (hnone | ⟨hstatus, hgrace⟩)
      · exact absurd hnone hmapped
      · exact ⟨rfl, hstatus.symm, rfl, rfl, rfl, hgrace.symm⟩
  | failed htype =>
    rw [htype, if_neg (by decide), if_neg (by decide)]
    constructor
    · exact fun hkept => ⟨hkept.status.symm, by rw [← hkept.grace]; exact Option.some_ne_none _⟩
    · rintro ⟨hstatus, hgrace⟩
      obtain ⟨d, hd⟩ := Option.ne_none_iff_exists'.1 hgrace
      exact ⟨rfl, hstatus.symm, rfl, rfl, rfl, by rw [hd]; rfl⟩

theorem Event.Reports.inert (h : e.Reports x status) (hnone : status = none) (s : Subscription) :
    e.Inert s := by
  rw [Inert]
  cases h with
  | changed htype hx =>
    rw [if_pos htype]
    exact hnone
  | paid htype hx =>
    rw [if_neg (not_subscriptionEvent_of_paid htype), if_pos htype]
    exact Or.inl (Option.map_eq_none_iff.1 hnone)
  | failed htype hx => simp at hnone

/-- **An event about a subscription leaves the rows of all others alone
exactly where it does not fall back on one it would change.** -/
theorem leaves_others_iff (h : e.Reports x status) :
    LeavesOthers db (handled db e) x ↔ SparesOthers db e x := by
  have hrows := h.cases db
  constructor
  · intro hleaves id s hfallback hlinked
    obtain ⟨y, hy⟩ := Option.ne_none_iff_exists'.1 hlinked
    obtain ⟨hget, -⟩ := linked_or_fallback hfallback.found
    have hxs : s.providerSubscriptionId ≠ some x := (not_linked_iff hget).1 (hfallback.1 id)
    have hyx : y ≠ x := fun h => hxs (h ▸ hy)
    obtain ⟨s', hs', hkept⟩ := hleaves id s y hget hy hyx
    rcases hrows with ⟨hnothing, -⟩ | ⟨id', t, t', st, db', -, hfind, hmoves, -, happly, hset⟩
    · rcases hnothing with hnone | hnone
      · exact h.inert hnone s
      · rw [hfallback.found] at hnone
        simp at hnone
    · obtain ⟨rfl, rfl⟩ := Prod.mk.inj (Option.some.inj (hfallback.found.symm.trans hfind))
      rw [handled, applied, happly, Option.getD_some, hset, OrderedMap.get?_set_self] at hs'
      obtain rfl := Option.some.inj hs'
      exact (hmoves.kept_iff hxs).1 hkept
  · intro hspares id s y hget hy hyx
    have hxs : s.providerSubscriptionId ≠ some x := by
      rw [hy]
      exact fun h => hyx (Option.some.inj h)
    rcases hrows with ⟨-, happly⟩ | ⟨id', t, t', st, db', -, hfind, hmoves, -, happly, hset⟩
    · refine ⟨s, ?_, .refl s⟩
      rw [handled, applied, happly]
      exact hget
    · rw [handled, applied, happly, Option.getD_some, hset]
      by_cases hid : id = id'
      · -- The row found is the other subscription's, so it was fallen back on.
        obtain ⟨hget', hcases⟩ := linked_or_fallback hfind
        rw [hid] at hget
        obtain rfl := Option.some.inj (hget'.symm.trans hget)
        have hinert : e.Inert t := by
          rcases hcases with hlinked | hfallback
          · exact absurd hlinked hxs
          · exact hspares id' t hfallback (by rw [hy]; exact Option.some_ne_none _)
        exact ⟨t', by rw [hid, OrderedMap.get?_set_self], (hmoves.kept_iff hxs).2 hinert⟩
      · exact ⟨s, by rw [OrderedMap.get?_set_ne _ _ hid, hget], .refl s⟩

/-! ## Runs -/

/-- No two rows are linked to one subscription. -/
def DistinctLinks (db : Database) : Prop :=
  ∀ id id' x, Linked db id x → Linked db id' x → id = id'

/-- An event names some subscription, and does not fall back on a row it would
take from another. -/
def Spares (db : Database) (e : Event) : Prop :=
  ∃ x status, e.Reports x status ∧ SparesOthers db e x

theorem get?_handled (h : e.Reports x status) (hs : (handled db e).subscriptions.get? id = some s) :
    db.subscriptions.get? id = some s ∨
      ∃ t, db.findSubscription (some x) (asId (e.payload.field "customer")) = some (id, t) ∧
        e.Moves db x t s ∧ status = some s.status := by
  rcases h.cases db with ⟨-, happly⟩ | ⟨id', t, t', st, db', hst, hfind, hmoves, hstatus,
    happly, hset⟩
  · rw [handled, applied, happly] at hs
    exact Or.inl hs
  · rw [handled, applied, happly, Option.getD_some, hset, OrderedMap.get?_set] at hs
    split at hs
    · next hid =>
      obtain rfl := Option.some.inj hs
      exact Or.inr ⟨t, by rw [hid]; exact hfind, hmoves, by rw [hst, hstatus]⟩
    · exact Or.inl hs

/-- A row an event moves is linked to what the event is about, or as it was. -/
theorem Event.Moves.link {s' : Subscription} (h : e.Moves db x s s') :
    s'.providerSubscriptionId = some x ∨ s'.providerSubscriptionId = s.providerSubscriptionId := by
  cases h with
  | followed htype hstatus =>
    refine Or.inl ?_
    cases (readPriceId e.payload).bind db.priceOf <;> rfl
  | paid htype hmapped => exact Or.inr rfl
  | failed htype => exact Or.inr rfl

/-- **Links stay distinct**: an event links a row only where none is linked
to its subscription. -/
theorem DistinctLinks.handled (hnames : e.Reports x status) (h : DistinctLinks db) :
    DistinctLinks (handled db e) := by
  -- A row linked after the event was linked before, or is the row found for it.
  have hback : ∀ {id y}, Linked (Billing.handled db e) id y → Linked db id y ∨
      y = x ∧ (∀ id', ¬ Linked db id' x) ∧
        ∃ t, db.findSubscription (some x) (asId (e.payload.field "customer")) = some (id, t) := by
    rintro id y ⟨s, hs, hy⟩
    rcases get?_handled hnames hs with hsame | ⟨t, hfind, hmoves, -⟩
    · exact Or.inl ⟨s, hsame, hy⟩
    · obtain ⟨hget, hcases⟩ := linked_or_fallback hfind
      rcases hmoves.link with hlink | hlink
      · obtain rfl : x = y := Option.some.inj (hlink.symm.trans hy)
        rcases hcases with hlinked | hfallback
        · exact Or.inl ⟨t, hget, hlinked⟩
        · exact Or.inr ⟨rfl, hfallback.1, t, hfind⟩
      · exact Or.inl ⟨t, hget, hlink.symm.trans hy⟩
  intro id id' y hid hid'
  rcases hback hid with hold | ⟨rfl, hnone, t, hfind⟩
  · rcases hback hid' with hold' | ⟨rfl, hnone', -, -⟩
    · exact h id id' y hold hold'
    · exact absurd hold (hnone' id)
  · rcases hback hid' with hold' | ⟨-, -, t', hfind'⟩
    · exact absurd hold' (hnone id')
    · exact (Prod.mk.inj (Option.some.inj (hfind.symm.trans hfind'))).1

/-- **A row linked to a subscription after an event that does not report of
it was linked to it before, with the same status.** -/
theorem status_before {y : String} (hok : Spares db e)
    (hs : (handled db e).subscriptions.get? id = some s) (hy : s.providerSubscriptionId = some y)
    (hnot : ∀ st, e.Reports y st → apply e.now e.type e.payload db = none) :
    ∃ t, db.subscriptions.get? id = some t ∧ t.providerSubscriptionId = some y ∧
      t.status = s.status := by
  obtain ⟨x, status, hreports, hspares⟩ := hok
  by_cases hxy : x = y
  · subst hxy
    rw [handled, applied, hnot status hreports] at hs
    exact ⟨s, hs, hy, rfl⟩
  · rcases get?_handled hreports hs with hsame | ⟨t, hfind, hmoves, -⟩
    · exact ⟨s, hsame, hy, rfl⟩
    · have hlink : t.providerSubscriptionId = some y := by
        rcases hmoves.link with h | h
        · exact absurd (Option.some.inj (h.symm.trans hy)) hxy
        · exact h.symm.trans hy
      have hget := (linked_or_fallback hfind).1
      obtain ⟨s', hs', hkept⟩ :=
        (leaves_others_iff hreports).2 hspares id t y hget hlink (Ne.symm hxy)
      obtain rfl := Option.some.inj (hs'.symm.trans hs)
      exact ⟨t, hget, hlink, hkept.status.symm⟩

/-- **A row linked to the subscription an applied event reports of carries
what it reports.** -/
theorem status_after {y : String} (hdistinct : DistinctLinks db) (hreports : e.Reports y (some st))
    (happlied : apply e.now e.type e.payload db ≠ none)
    (hs : (handled db e).subscriptions.get? id = some s) (hy : s.providerSubscriptionId = some y) :
    s.status = st := by
  rcases hreports.cases db with ⟨-, hnone⟩ | ⟨id', t, t', st', db', hst, hfind, -, hstatus,
    happly, hset⟩
  · exact absurd hnone happlied
  · obtain rfl := Option.some.inj hst
    rw [handled, applied, happly, Option.getD_some, hset, OrderedMap.get?_set] at hs
    split at hs
    · obtain rfl := Option.some.inj hs
      exact hstatus
    · next hid =>
      -- Another row is linked already, and is the one that would have been found.
      obtain ⟨hget, hlinked | hfallback⟩ := linked_or_fallback hfind
      · exact absurd (hdistinct id id' y ⟨s, hs, hy⟩ ⟨t, hget, hlinked⟩) hid
      · exact absurd ⟨s, hs, hy⟩ (hfallback.1 id)

/-- **In a run whose events spare others, a row carries the status of the last
event applied about its subscription.** -/
theorem status_of_run {events before after : List Event} {y : String} (hdistinct : DistinctLinks db)
    (hok : Throughout handled Spares db events) (hsplit : events = before ++ e :: after)
    (hs : (run handled db events).subscriptions.get? id = some s)
    (hy : s.providerSubscriptionId = some y) (hreports : e.Reports y (some st))
    (happlied : apply e.now e.type e.payload (run handled db before) ≠ none)
    (hlast : ∀ mid e' rest, after = mid ++ e' :: rest → ∀ st', e'.Reports y st' →
      apply e'.now e'.type e'.payload (run handled db (before ++ e :: mid)) = none) :
    s.status = st := by
  subst hsplit
  induction after using List.reverseRecOn generalizing s with
  | nil =>
    have hdistinct' : DistinctLinks (run handled db before) :=
      invariant (fun _ _ hspares h => by
        obtain ⟨_, _, hnames, -⟩ := hspares
        exact h.handled hnames) (throughout_append.1 hok).1 hdistinct
    rw [run_concat] at hs
    exact status_after hdistinct' hreports happlied hs hy
  | append_singleton mid e' ih =>
    rw [← List.cons_append, ← List.append_assoc] at hok hs
    rw [run_concat] at hs
    obtain ⟨t, ht, hty, hstatus⟩ := status_before hok.at hs hy
      (fun st' hst' => hlast mid e' [] rfl st' hst')
    rw [← hstatus]
    refine ih hty (fun mid' e'' rest hmid => ?_) (throughout_append.1 hok).1 ht
    exact hlast mid' e'' (rest ++ [e']) (by rw [hmid, List.append_assoc, List.cons_append])

/-- **An event about one subscription leaves the rows of all others alone
exactly where it does not fall back on one it would change; and in a run of
events that do so, from rows linked each to its own subscription, a row
carries the status of the last event applied about its own.** -/
theorem others_spared (db : Database) :
    (∀ e x status, e.Reports x status →
      (LeavesOthers db (handled db e) x ↔ SparesOthers db e x)) ∧
    ∀ events before e after id y s st, DistinctLinks db → Throughout handled Spares db events →
      events = before ++ e :: after →
      (run handled db events).subscriptions.get? id = some s →
      s.providerSubscriptionId = some y → e.Reports y (some st) →
      apply e.now e.type e.payload (run handled db before) ≠ none →
      (∀ mid e' rest, after = mid ++ e' :: rest → ∀ st', e'.Reports y st' →
        apply e'.now e'.type e'.payload (run handled db (before ++ e :: mid)) = none) →
      s.status = st :=
  ⟨fun _ _ _ => leaves_others_iff, fun _ _ _ _ _ _ _ _ => status_of_run⟩

/-! ## A customer who came back -/

/-- A merchant who cancelled `sub_1` and subscribed anew, as `sub_2`. -/
def returning : Subscription where
  tenantId := "t"
  planId := "pro"
  provider := "stripe"
  providerSubscriptionId := some "sub_2"
  providerCustomerId := some "cus_1"
  planPriceId := some "price"
  status := .active
  currentPeriodEnd := none
  graceEndsAt := none
  cancelAt := none

/-- A database with that merchant's row alone. -/
def returningDatabase : Database :=
  ⟨∅, ∅, ∅, ∅, (∅ : OrderedMap String Subscription).set "s" returning, ∅⟩

/-- A payment of the new subscription is late. -/
def lapse : Event :=
  ⟨0, "customer.subscription.updated",
    .obj [("id", .str "sub_2"), ("customer", .str "cus_1"), ("status", .str "past_due")]⟩

/-- An event of the new subscription moves its row. -/
theorem others_spared_lapse :
    (run handled returningDatabase [lapse]).subscriptions.get? "s" =
        some (returning.follow "sub_2" .pastDue lapse.payload none) ∧
      (returning.follow "sub_2" .pastDue lapse.payload none).status = .pastDue := by
  have hreports : lapse.Reports "sub_2" (some .pastDue) := .changed (by decide) (by decide +kernel)
  have hlinked : ∀ id y, Linked returningDatabase id y → id = "s" := by
    rintro id y ⟨s, hs, -⟩
    exact (OrderedMap.get?_set_empty_eq_some.1 hs).1
  have hspares : SparesOthers returningDatabase lapse "sub_2" := by
    intro id s hfallback _
    exact absurd ⟨returning, rfl, rfl⟩ (hfallback.1 "s")
  have hrow : (run handled returningDatabase [lapse]).subscriptions.get? "s" =
      some (returning.follow "sub_2" .pastDue lapse.payload none) := by
    rfl
  refine ⟨hrow, ?_⟩
  refine (others_spared returningDatabase).2 [lapse] [] lapse [] "s" "sub_2" _ .pastDue
    (fun id id' x h h' => (hlinked id x h).trans (hlinked id' x h').symm)
    ⟨⟨"sub_2", _, hreports, hspares⟩, trivial⟩ rfl hrow rfl hreports (fun h => ?_) ?_
  · have hsome : (apply 0 lapse.type lapse.payload returningDatabase).isSome = true := by
      decide +kernel
    change apply 0 lapse.type lapse.payload returningDatabase = none at h
    rw [h] at hsome
    simp at hsome
  · intro mid e' rest h
    exact absurd h.symm (by simp)

/-- The end of the subscription cancelled, delivered late. -/
def lateEnd : Event :=
  ⟨0, "customer.subscription.deleted",
    .obj [("id", .str "sub_1"), ("customer", .str "cus_1"), ("status", .str "canceled")]⟩

/-- **A late event of the old subscription takes the new one's row.** -/
theorem late_end_takes_row :
    lateEnd.Reports "sub_1" (some .cancelled) ∧
      ¬ LeavesOthers returningDatabase (handled returningDatabase lateEnd) "sub_1" := by
  refine ⟨.changed (by decide) (by decide +kernel), fun h => ?_⟩
  obtain ⟨s', hs', hkept⟩ := h "s" returning "sub_2" rfl rfl (by decide)
  have hrow : ((handled returningDatabase lateEnd).subscriptions.get? "s").map (·.status) =
      some .cancelled := by decide +kernel
  rw [hs', Option.map_some, hkept.status] at hrow
  exact absurd hrow (by decide)

end Optionia.Billing
