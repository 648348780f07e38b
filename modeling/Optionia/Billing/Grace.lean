import Optionia.Billing.Reconciler
import Optionia.Lib.Runs
/-!
# The grace after a failed payment

A payment that fails starts a clock, which nothing moves until the merchant
recovers. Every handler that finds the merchant current stops it; the
reconciler, which writes the same state, does not look at it. So the clock of
a lapse is one instant in every run (`grace_of_lapse`), and a merchant who is
current has none as long as no pass makes one current while it runs
(`recovered_of_run`).
-/

namespace Optionia.Billing

open Js Runs

/-- What moves subscriptions. -/
inductive Action where
  | event (now : ℤ) (type : String) (payload : Value)
  /-- A pass of the reconciler, with repairs, over what the provider answers. -/
  | repair (provider : Option (String → Answer))

def step (db : Database) : Action → Database
  | .event now type payload => applied now type payload db
  | .repair provider => reconcile false provider db

def clock (db : Database) (id : String) : Option Date :=
  (db.subscriptions.get? id).bind (·.graceEndsAt)

/-- A merchant who is current has no clock running. -/
def Recovered (db : Database) : Prop :=
  ∀ id s, db.subscriptions.get? id = some s → s.status.isCurrent = true → s.graceEndsAt = none

/-- No pass finds a merchant current whose clock runs. -/
def LeavesClocks (db : Database) : Action → Prop
  | .event .. => True
  | .repair provider => ∀ ask ∈ provider, ∀ id s, db.subscriptions.get? id = some s →
      ∀ remote ∈ s.remote? ask, remote.status.isCurrent = true → s.graceEndsAt = none

/-! ## One step -/

theorem RowMove.recovered {now : ℤ} {s s' : Subscription} (h : RowMove now s s')
    (hs : s.status.isCurrent = true → s.graceEndsAt = none) (hs' : s'.status.isCurrent = true) :
    s'.graceEndsAt = none := by
  cases h with
  | linked customer subscription => exact hs hs'
  | followed x status remote price =>
    rw [status_follow] at hs'
    rw [graceEndsAt_follow, if_pos hs']
  | paid => rfl
  | failed => exact absurd hs' Bool.false_ne_true

/-- What an event does to a running clock: nothing, or it stops it. -/
theorem RowMove.clock {now : ℤ} {s s' : Subscription} (h : RowMove now s s') :
    s'.graceEndsAt = none ∨ s'.graceEndsAt = s.graceEndsAt ∨
      s.graceEndsAt = none ∧ s'.graceEndsAt = some (graceFrom now) := by
  cases h with
  | linked customer subscription => exact Or.inr (Or.inl rfl)
  | followed x status remote price =>
    rw [graceEndsAt_follow]
    split
    · exact Or.inl rfl
    · exact Or.inr (Or.inl rfl)
  | paid => exact Or.inl rfl
  | failed =>
    cases hg : s.graceEndsAt with
    | none => exact Or.inr (Or.inr ⟨rfl, rfl⟩)
    | some d => exact Or.inr (Or.inl rfl)

/-- **A step keeps merchants recovered, unless a pass finds one current whose
clock runs.** -/
theorem Recovered.step {db : Database} {a : Action} (hok : LeavesClocks db a) (h : Recovered db) :
    Recovered (step db a) := by
  cases a with
  | event now type payload =>
    intro id s hs hcurrent
    change (applied now type payload db).subscriptions.get? id = some s at hs
    rcases applied_cases now type payload db with hsame | ⟨id', t, t', ht, hset, hmove, -⟩
    · rw [hsame] at hs
      exact h id s hs hcurrent
    · rw [hset, OrderedMap.get?_set] at hs
      split at hs
      · obtain rfl := Option.some.inj hs
        exact hmove.recovered (h id' t ht) hcurrent
      · exact h id s hs hcurrent
  | repair provider =>
    cases provider with
    | none => exact h
    | some ask =>
      intro id s hs hcurrent
      change (reconcile false (some ask) db).subscriptions.get? id = some s at hs
      rw [get?_reconcile] at hs
      obtain ⟨t, ht, rfl⟩ := Option.map_eq_some_iff.1 hs
      rw [Subscription.reconciled, Subscription.repair?] at hcurrent ⊢
      cases hremote : t.remote? ask with
      | none =>
        rw [hremote] at hcurrent
        exact h id t ht hcurrent
      | some remote =>
        rw [hremote] at hcurrent
        change (t.repaired db remote).status.isCurrent = true at hcurrent
        rw [status_repaired] at hcurrent
        change (t.repaired db remote).graceEndsAt = none
        rw [graceEndsAt_repaired]
        exact hok ask rfl id t ht remote hremote hcurrent

/-- **What a step does to a clock**: nothing, or it stops it, or it starts one
that stood still, which only a failed payment does. -/
theorem clock_step (db : Database) (a : Action) (id : String) :
    clock (step db a) id = none ∨ clock (step db a) id = clock db id ∨
      clock db id = none ∧ ∃ now payload, a = .event now "invoice.payment_failed" payload ∧
        clock (step db a) id = some (graceFrom now) := by
  cases a with
  | event now type payload =>
    rcases applied_cases now type payload db with hsame | ⟨id', t, t', ht, hset, hmove, hfailed⟩
    · refine Or.inr (Or.inl ?_)
      change ((applied now type payload db).subscriptions.get? id).bind _ = _
      rw [hsame]
      rfl
    · by_cases hid : id = id'
      · have hnew : clock (step db (.event now type payload)) id = t'.graceEndsAt := by
          change ((applied now type payload db).subscriptions.get? id).bind _ = _
          rw [hset, hid, OrderedMap.get?_set_self]
          rfl
        have hold : clock db id = t.graceEndsAt := by
          rw [clock, hid, ht]
          rfl
        rw [hnew, hold]
        rcases hmove.clock with hstop | hkeep | ⟨hstill, hstart⟩
        · exact Or.inl hstop
        · exact Or.inr (Or.inl hkeep)
        · have htype := hfailed (by rw [hstart]; exact Option.some_ne_none _) hstill
          exact Or.inr (Or.inr ⟨hstill, now, payload, by rw [htype], hstart⟩)
      · refine Or.inr (Or.inl ?_)
        change ((applied now type payload db).subscriptions.get? id).bind _ = _
        rw [hset, OrderedMap.get?_set_ne _ _ hid]
        rfl
  | repair provider =>
    refine Or.inr (Or.inl ?_)
    cases provider with
    | none => rfl
    | some ask =>
      change ((reconcile false (some ask) db).subscriptions.get? id).bind _ = _
      rw [get?_reconcile, clock]
      cases db.subscriptions.get? id with
      | none => rfl
      | some s =>
        change (s.reconciled db ask).graceEndsAt = s.graceEndsAt
        rw [Subscription.reconciled, Subscription.repair?]
        cases s.remote? ask with
        | none => rfl
        | some remote => exact graceEndsAt_repaired s db remote

/-! ## Runs -/

/-- **A clock that starts in a run was started by a failed payment, and stands
at the end of its grace as long as it runs.** -/
theorem grace_of_lapse {db : Database} {before during : List Action} {a : Action} {id : String}
    (hstill : clock (run step db before) id = none)
    (hruns : ∀ reached, reached <+: during → clock (run step db (before ++ a :: reached)) id ≠ none) :
    ∃ now payload, a = .event now "invoice.payment_failed" payload ∧
      ∀ reached, reached <+: during →
        clock (run step db (before ++ a :: reached)) id = some (graceFrom now) := by
  have hfirst : run step db (before ++ [a]) = step (run step db before) a := run_concat
  have hstart := hruns [] List.nil_prefix
  rw [hfirst] at hstart
  have hcases := clock_step (run step db before) a id
  rw [hstill] at hcases
  obtain ⟨now, payload, ha, hnow⟩ : ∃ now payload, a = .event now "invoice.payment_failed" payload ∧
      clock (step (run step db before) a) id = some (graceFrom now) := by
    rcases hcases with hnone | hnone | ⟨-, h⟩
    · exact absurd hnone hstart
    · exact absurd hnone hstart
    · exact h
  refine ⟨now, payload, ha, fun reached hreached => ?_⟩
  -- Along the lapse, each state has the clock of the one before.
  induction reached using List.reverseRecOn with
  | nil => rw [hfirst, hnow]
  | append_singleton reached b ih =>
    have hshort : reached <+: during := (List.prefix_append _ _).trans hreached
    have hlong := hruns _ hreached
    have hstep : run step db (before ++ a :: (reached ++ [b])) =
        step (run step db (before ++ a :: reached)) b := by
      rw [← List.cons_append, ← List.append_assoc, run_concat]
    rw [hstep] at hlong ⊢
    have hprev := ih hshort
    rcases clock_step (run step db (before ++ a :: reached)) b id with hnone | hsame | ⟨hnone, -⟩
    · exact absurd hnone hlong
    · rw [hsame, hprev]
    · rw [hprev] at hnone
      simp at hnone

/-- **As long as no pass finds a merchant current whose clock runs, recovery
has stopped every clock**; and in every run the clock of a lapse is the grace
of its first failed payment. -/
theorem grace_of_run {db : Database} {actions : List Action} (hstart : Recovered db)
    (hok : Throughout step LeavesClocks db actions) :
    (∀ reached, reached <+: actions → Recovered (run step db reached)) ∧
      ∀ id before a during, before ++ a :: during <+: actions →
        clock (run step db before) id = none →
        (∀ reached, reached <+: during → clock (run step db (before ++ a :: reached)) id ≠ none) →
        ∃ now payload, a = .event now "invoice.payment_failed" payload ∧
          ∀ reached, reached <+: during →
            clock (run step db (before ++ a :: reached)) id = some (graceFrom now) :=
  ⟨fun _ hreached => invariant (fun _ _ => Recovered.step) (hok.of_prefix hreached) hstart,
    fun _ _ _ _ _ => grace_of_lapse⟩

/-! ## One subscription -/

def paying : Subscription where
  tenantId := "t"
  planId := "pro"
  provider := "stripe"
  providerSubscriptionId := some "sub_1"
  providerCustomerId := some "cus_1"
  planPriceId := some "price"
  status := .active
  currentPeriodEnd := none
  graceEndsAt := none
  cancelAt := none

/-- A database with that merchant's row alone. -/
def payingDatabase : Database := ⟨∅, ∅, ∅, ∅, (∅ : OrderedMap String Subscription).set "s" paying, ∅⟩

/-- A payment of that merchant fails. -/
def paymentFails : Action := .event 0 "invoice.payment_failed" (.obj [("customer", .str "cus_1")])

/-- A pass finds every subscription in one state. -/
def repairTo (status : SubscriptionStatus) : Action :=
  .repair (some fun _ => .known ⟨some "cus_1", status, none, none⟩)

theorem recovered_payingDatabase : Recovered payingDatabase := by
  intro id s hs _
  obtain ⟨-, rfl⟩ := OrderedMap.get?_set_empty_eq_some.1 hs
  rfl

/-- A pass that finds the lapse as it is. -/
theorem grace_of_run_repaired :
    Recovered (run step payingDatabase [paymentFails, repairTo .pastDue]) := by
  have hok : Throughout step LeavesClocks payingDatabase [paymentFails, repairTo .pastDue] := by
    refine ⟨trivial, ?_, trivial⟩
    intro ask hask id s _ remote hremote hcurrent
    obtain rfl := Option.some.inj hask
    unfold Subscription.remote? at hremote
    split at hremote
    · simp at hremote
    · cases hid : s.providerSubscriptionId with
      | none =>
        rw [hid] at hremote
        exact absurd hremote.symm (Option.some_ne_none _)
      | some x =>
        rw [hid] at hremote
        obtain rfl := Option.some.inj hremote
        exact absurd hcurrent Bool.false_ne_true
  exact (grace_of_run recovered_payingDatabase hok).1 _ (List.prefix_refl _)

/-- **A pass that finds the merchant active leaves the clock running.** -/
theorem clock_outlives_repair :
    Recovered payingDatabase ∧
      ¬ Recovered (run step payingDatabase [paymentFails, repairTo .active]) := by
  refine ⟨recovered_payingDatabase, fun h => ?_⟩
  have hrow : (run step payingDatabase [paymentFails, repairTo .active]).subscriptions.get? "s" =
      some { paying with graceEndsAt := some (graceFrom 0) } := by rfl
  exact absurd (h "s" _ hrow rfl) (Option.some_ne_none _)

end Optionia.Billing
