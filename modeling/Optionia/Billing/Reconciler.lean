import Optionia.Billing.Lifecycle
/-!
# Subscriptions, compared with the provider's

`SubscriptionReconcilerService.reconcile`: every subscription the provider
knows of is asked for, compared, and where repairs are on made to agree. A
pass reads its candidates first; each comparison writes one row, so what a
pass makes of a row is what it makes of the row as it was.
-/

namespace Optionia.Billing

/-- A subscription as the provider has it. -/
structure ProviderSubscription where
  providerCustomerId : Option String
  status : SubscriptionStatus
  currentPeriodEnd : Option Date
  providerPriceId : Option String

/-- What the provider answers when asked for a subscription. -/
inductive Answer where
  | known (remote : ProviderSubscription)
  | forgotten
  /-- Asking failed, or its state has no name here. -/
  | failed

/-- The price a subscription is billed at and its row does not name. -/
def Subscription.newPrice (s : Subscription) (db : Database) (remote : ProviderSubscription) :
    Option (String × PlanPrice) :=
  (remote.providerPriceId.bind db.priceOf).filter fun p => s.planPriceId ≠ some p.1

/-- `compare`, with repairs on: the row with every field that differed. -/
def Subscription.repaired (s : Subscription) (db : Database) (remote : ProviderSubscription) :
    Subscription :=
  Subscription.adopt { s with
    status := remote.status
    currentPeriodEnd := remote.currentPeriodEnd
    providerCustomerId := remote.providerCustomerId.or s.providerCustomerId }
    (s.newPrice db remote)

/-- What the provider has for a row that is asked for. -/
def Subscription.remote? (s : Subscription) (provider : String → Answer) :
    Option ProviderSubscription :=
  if s.provider = "none" then none
  else match s.providerSubscriptionId.map provider with
    | some (.known remote) => some remote
    | _ => none

def reconcileOne (dryRun : Bool) (provider : String → Answer) (db : Database)
    (candidate : String × Subscription) : Database :=
  match candidate.2.remote? provider with
  | none => db
  | some remote =>
    if dryRun then db
    else
      let saved := db.save candidate.1 (candidate.2.repaired db remote)
      if (candidate.2.newPrice db remote).isSome then saved.invalidate candidate.2.tenantId
      else saved

/-- `reconcile`; without a provider there is nothing to compare with. -/
def reconcile (dryRun : Bool) (provider : Option (String → Answer)) (db : Database) : Database :=
  match provider with
  | none => db
  | some provider => db.subscriptions.entries.foldl (reconcileOne dryRun provider) db

/-! ## What a pass does to a row -/

theorem reconcileOne_spec (provider : String → Answer) (db : Database)
    (candidate : String × Subscription) :
    (reconcileOne false provider db candidate).prices = db.prices ∧
      (reconcileOne false provider db candidate).subscriptions =
        match candidate.2.remote? provider with
        | none => db.subscriptions
        | some remote => db.subscriptions.set candidate.1 (candidate.2.repaired db remote) := by
  unfold reconcileOne
  cases candidate.2.remote? provider with
  | none => exact ⟨rfl, rfl⟩
  | some remote =>
    simp only [Bool.false_eq_true, if_false]
    split
    · exact ⟨rfl, rfl⟩
    · exact ⟨rfl, rfl⟩

variable {s : Subscription} {db db' : Database}

theorem newPrice_congr (h : db'.prices = db.prices) (remote : ProviderSubscription) :
    s.newPrice db' remote = s.newPrice db remote := by
  unfold Subscription.newPrice Database.priceOf
  rw [h]

theorem repaired_congr (h : db'.prices = db.prices) (remote : ProviderSubscription) :
    s.repaired db' remote = s.repaired db remote := by
  rw [Subscription.repaired, newPrice_congr h, ← Subscription.repaired]

/-- What a candidate of a pass with repairs writes. -/
def Subscription.repair? (s : Subscription) (db : Database) (provider : String → Answer) :
    Option Subscription :=
  (s.remote? provider).map fun remote => s.repaired db remote

theorem get?_reconcileOne (provider : String → Answer) (db : Database)
    (candidate : String × Subscription) (id : String) :
    (reconcileOne false provider db candidate).subscriptions.get? id =
      (if id = candidate.1 then candidate.2.repair? db provider else none).or
        (db.subscriptions.get? id) := by
  rw [(reconcileOne_spec provider db candidate).2, Subscription.repair?]
  cases candidate.2.remote? provider with
  | none =>
    rw [Option.map_none, ite_self, Option.none_or]
  | some remote =>
    change (db.subscriptions.set candidate.1 _).get? id = _
    rw [OrderedMap.get?_set, Option.map_some]
    split
    · rfl
    · rfl

theorem repair?_congr (h : db'.prices = db.prices) (provider : String → Answer) :
    s.repair? db' provider = s.repair? db provider :=
  congrArg (Option.map · _) (funext fun remote => repaired_congr h remote)

theorem get?_foldl_reconcileOne (provider : String → Answer) (db : Database) (id : String)
    (l : List (String × Subscription)) (hnd : (l.map Prod.fst).Nodup)
    (hprices : db'.prices = db.prices) :
    (l.foldl (reconcileOne false provider) db').subscriptions.get? id =
      ((l.lookup id).bind fun s => s.repair? db provider).or (db'.subscriptions.get? id) := by
  induction l generalizing db' with
  | nil => rfl
  | cons p l ih =>
    obtain ⟨id', s⟩ := p
    rw [List.map_cons, List.nodup_cons] at hnd
    have hkept := (reconcileOne_spec provider db' (id', s)).1
    rw [List.foldl_cons, ih hnd.2 (hkept.trans hprices), get?_reconcileOne, List.lookup_cons]
    by_cases hid : id = id'
    · have hnone : l.lookup id = none := by
        rw [List.lookup_eq_none_iff]
        rintro ⟨k, b⟩ hq
        refine bne_iff_ne.2 fun h => hnd.1 ?_
        obtain rfl : k = id' := h.symm.trans hid
        exact List.mem_map.2 ⟨(k, b), hq, rfl⟩
      rw [hnone, Option.bind_none, Option.none_or, if_pos hid, repair?_congr hprices, hid,
        beq_self_eq_true]
      rfl
    · rw [if_neg hid, Option.none_or, beq_false_of_ne hid]

/-- The row after a pass with repairs. -/
def Subscription.reconciled (s : Subscription) (db : Database) (provider : String → Answer) :
    Subscription :=
  (s.repair? db provider).getD s

/-- **A pass with repairs makes of each row what it makes of it alone.** -/
theorem get?_reconcile (provider : String → Answer) (db : Database) (id : String) :
    (reconcile false (some provider) db).subscriptions.get? id =
      (db.subscriptions.get? id).map fun s => s.reconciled db provider := by
  have hfold := get?_foldl_reconcileOne provider db id db.subscriptions.entries
    db.subscriptions.nodup rfl
  change (db.subscriptions.entries.foldl (reconcileOne false provider) db).subscriptions.get? id = _
  rw [hfold]
  change ((db.subscriptions.get? id).bind _).or _ = _
  cases db.subscriptions.get? id with
  | none => rfl
  | some s =>
    rw [Option.bind_some, Option.map_some, Subscription.reconciled]
    cases s.repair? db provider <;> rfl

@[simp] theorem graceEndsAt_repaired (s : Subscription) (db : Database)
    (remote : ProviderSubscription) : (s.repaired db remote).graceEndsAt = s.graceEndsAt := by
  unfold Subscription.repaired
  cases s.newPrice db remote <;> rfl

@[simp] theorem status_repaired (s : Subscription) (db : Database)
    (remote : ProviderSubscription) : (s.repaired db remote).status = remote.status := by
  unfold Subscription.repaired
  cases s.newPrice db remote <;> rfl

end Optionia.Billing
