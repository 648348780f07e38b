import Optionia.Render.Requester
import Optionia.Reporting.OrderPayload
import Optionia.Views.Collector
/-!
# Orders on their way to the cloud

An order that is to be reported is put on a queue. `OrderReporter::drain` takes
the first ten, posts each that has no marker, marks what the cloud accepted and
forgets what it accepted or refused for good; any other answer ends the pass.
Hooks and drains run at once, and the queue is one option, which each reads in
one statement and writes in another. Where no write is overtaken and the queue
is not full, no order is lost on the way (`reports_kept`).
-/

namespace Optionia.Reporting.Reporter

open Runs Calls.System
open Render.Requester (OrderQueue)

/-! ## The reporter -/

/-- What the shop stores, and what became of orders. No statement reads the
last three. -/
structure Ledger where
  queue : OrderQueue := .empty
  /-- `META_REPORTED_AT` of an order is set. -/
  reported : ℕ → Bool := fun _ => false
  queued : List ℕ := []
  accepted : List (ℕ × Report) := []
  /-- `OUTCOME_REJECTED`, but for those reported before. -/
  rejected : List ℕ := []

/-- What a statement meets. -/
structure Input where
  disconnected : Bool := false
  /-- `wc_get_order`, in the shop as it is. -/
  order : Option (Shop × Order) := none
  answer : Views.Answer := .ok
  /-- The cloud accepts what is posted, and another answer arrives. -/
  unheard : Bool := false

/-- What is asked. -/
inductive Request where
  | queue (order : ℕ)
  | drain

/-- What is made of the queue, and by whom. -/
inductive Change where
  | push (order : ℕ)
  /-- With the orders of the batch that are left. -/
  | forget (order : ℕ) (orders : List ℕ)

/-- How far it is. -/
inductive Phase where
  | queueing (order : ℕ)
  | starting
  /-- The orders of a batch that are left, the next one first. -/
  | reporting (orders : List ℕ)
  | marking (order : ℕ) (orders : List ℕ)
  | reading (change : Change)
  | writing (change : Change) (found : OrderQueue)
  | done

def enter : Request → Phase
  | .queue order => .queueing order
  | .drain => .starting

/-- `OrderReporter::BATCH_SIZE` -/
def batchSize : ℕ := 10

def Change.apply : Change → OrderQueue → OrderQueue
  | .push order, queue => queue.push order
  | .forget order _, queue => queue.forget order

def Change.pushed : Change → List ℕ
  | .push order => [order]
  | .forget _ _ => []

def Change.next : Change → Phase
  | .push _ => .done
  | .forget _ orders => .reporting orders

def Ledger.write (ledger : Ledger) (change : Change) (found : OrderQueue) : Ledger :=
  { ledger with
    queue := change.apply found
    queued := change.pushed ++ ledger.queued }

def Ledger.accept (ledger : Ledger) (order : ℕ) (dto : Report) : Ledger :=
  { ledger with accepted := (order, dto) :: ledger.accepted }

/-- What the cloud has accepted where another answer arrives. -/
def Ledger.unheard (ledger : Ledger) (input : Input) (order : ℕ) (dto : Report) : Ledger :=
  if input.unheard then ledger.accept order dto else ledger

def Ledger.reject (ledger : Ledger) (order : ℕ) : Ledger :=
  { ledger with rejected := order :: ledger.rejected }

/-- `report`, and what `drain` does with its outcome. -/
def report (input : Input) (ledger : Ledger) (order : ℕ) (orders : List ℕ) : Ledger × Phase :=
  if input.order.isSome ∧ ledger.reported order then (ledger, .reading (.forget order orders))
  else
    match input.order.bind fun found => build found.1 found.2 with
    | none => (ledger.reject order, .reading (.forget order orders))
    | some dto =>
      match input.answer with
      | .ok => (ledger.accept order dto, .marking order orders)
      | .status code =>
        if Views.permanent code then
          ((ledger.unheard input order dto).reject order, .reading (.forget order orders))
        else (ledger.unheard input order dto, .done)

/-- **The next statement.** -/
def statement (input : Input) (ledger : Ledger) : Phase → Ledger × Phase
  | .queueing order =>
    (ledger, if order ≠ 0 ∧ input.order.isSome ∧ ledger.reported order = false then
      .reading (.push order) else .done)
  | .starting =>
    (ledger, if input.disconnected then .done else .reporting (ledger.queue.ids.take batchSize))
  | .reporting [] => (ledger, .done)
  | .reporting (order :: orders) => report input ledger order orders
  | .marking order orders =>
    ({ ledger with reported := fun id => decide (id = order) || ledger.reported id },
      .reading (.forget order orders))
  | .reading change =>
    (ledger, if (change.apply ledger.queue).ids = ledger.queue.ids then change.next
      else .writing change ledger.queue)
  | .writing change found => (ledger.write change found, change.next)
  | .done => (ledger, .done)

/-- **The reporter of a shop.** -/
def reporting : Calls.System Ledger Request Phase Input where
  enter _ request := some (enter request)
  statement := statement

abbrev State := Calls.State Ledger Request Phase

abbrev Action := Calls.Action Request Input

def fresh : State := ⟨{}, []⟩

/-! ## What became of an order -/

def Ledger.Accepted (ledger : Ledger) (order : ℕ) : Prop := ∃ dto, (order, dto) ∈ ledger.accepted

/-- The cloud has it, or it was let go without. -/
def Ledger.Settled (ledger : Ledger) (order : ℕ) : Prop :=
  ledger.Accepted order ∨ order ∈ ledger.rejected

/-- **A write finds the queue as it was read**, and a push finds room on it. -/
def Phase.Careful (ledger : Ledger) : Phase → Prop
  | .writing change found => ledger.queue = found ∧
    (change.pushed = [] ∨ found.ids.length < OrderQueue.maxEntries)
  | _ => True

def Queued (ledger : Ledger) : Prop :=
  ∀ order ∈ ledger.queued, order ∈ ledger.queue.ids ∨ ledger.Settled order

/-- **What a run of hooks and drains keeps of its orders.** -/
structure ReportsKept (actions : List Action) (ledger : Ledger) : Prop where
  /-- An order that was queued waits, or is settled. -/
  queued : Throughout reporting.step (AsksOf fun _ => Phase.Careful) fresh actions → Queued ledger
  marked : ∀ order, ledger.reported order = true → ledger.Accepted order
  fits : ledger.queue.ids.length ≤ OrderQueue.maxEntries

/-! ## What a statement keeps -/

variable {ledger ledger' : Ledger} {input : Input} {order : ℕ} {phase : Phase}

/-- What became of orders is not undone. -/
structure Grows (ledger ledger' : Ledger) : Prop where
  accepted : ledger.accepted ⊆ ledger'.accepted
  rejected : ledger.rejected ⊆ ledger'.rejected

theorem Grows.of_eq (haccepted : ledger'.accepted = ledger.accepted)
    (hrejected : ledger'.rejected = ledger.rejected) : Grows ledger ledger' :=
  ⟨haccepted ▸ List.Subset.refl _, hrejected ▸ List.Subset.refl _⟩

theorem Grows.of_accepted (h : Grows ledger ledger') (haccepted : ledger.Accepted order) :
    ledger'.Accepted order :=
  haccepted.imp fun _ hmem => h.accepted hmem

theorem Grows.settled (h : Grows ledger ledger') (hsettled : ledger.Settled order) :
    ledger'.Settled order :=
  hsettled.imp h.of_accepted fun hmem => h.rejected hmem

/-- What a call is about to mark was accepted, what it forgets is settled, and
what it writes is a change of a queue. -/
def Phase.Sure (ledger : Ledger) : Phase → Prop
  | .marking order _ => ledger.Accepted order
  | .reading (.forget order _) => ledger.Settled order
  | .writing (.forget order _) found =>
    ledger.Settled order ∧ found.ids.length ≤ OrderQueue.maxEntries
  | .reading (.push order) => order ≠ 0
  | .writing (.push order) found => order ≠ 0 ∧ found.ids.length ≤ OrderQueue.maxEntries
  | _ => True

theorem Grows.sure (h : Grows ledger ledger') (hphase : phase.Sure ledger) :
    phase.Sure ledger' := by
  obtain _ | _ | _ | _ | (_ | _) | ⟨_ | _, _⟩ | _ := phase
  case marking => exact h.of_accepted hphase
  case reading.forget => exact h.settled hphase
  case writing.forget => exact ⟨h.settled hphase.1, hphase.2⟩
  all_goals exact hphase

/-- What is kept whatever is overtaken. -/
structure Kept (ledger : Ledger) : Prop where
  marked : ∀ order, ledger.reported order = true → ledger.Accepted order
  fits : ledger.queue.ids.length ≤ OrderQueue.maxEntries

theorem length_apply (change : Change) (queue : OrderQueue)
    (h : queue.ids.length ≤ OrderQueue.maxEntries) :
    (change.apply queue).ids.length ≤ OrderQueue.maxEntries := by
  cases change with
  | forget order orders => exact (List.length_filter_le _ _).trans h
  | push order =>
    unfold Change.apply OrderQueue.push
    dsimp only
    split_ifs
    · exact h
    · rw [List.length_drop]
      omega

/-- A push onto a queue with room. -/
theorem ids_push {queue : OrderQueue} (horder : order ≠ 0)
    (h : queue.ids.length < OrderQueue.maxEntries) :
    order ∈ (queue.push order).ids ∧ queue.ids ⊆ (queue.push order).ids := by
  unfold OrderQueue.push
  split_ifs with hthere
  · exact ⟨hthere.resolve_left horder, List.Subset.refl _⟩
  · have hzero : (queue.ids ++ [order]).length - OrderQueue.maxEntries = 0 := by
      rw [List.length_append, List.length_singleton]
      omega
    dsimp only
    rw [hzero]
    exact ⟨List.mem_append_right _ (List.mem_singleton_self order), List.subset_append_left _ _⟩

/-- What follows a ledger with the same queue. -/
structure Follows (ledger : Ledger) (after : Ledger × Phase) : Prop where
  grows : Grows ledger after.1
  sure : after.2.Sure after.1
  queue : after.1.queue = ledger.queue
  queued : after.1.queued = ledger.queued
  reported : after.1.reported = ledger.reported

/-- **A report settles what it lets go.** -/
theorem follows_report (input : Input) (h : Kept ledger) (order : ℕ) (orders : List ℕ) :
    Follows ledger (report input ledger order orders) := by
  have hreject : ∀ ledger : Ledger, Grows ledger (ledger.reject order) := fun ledger =>
    ⟨List.Subset.refl _, List.subset_cons_self _ _⟩
  unfold report
  split_ifs with hmarked
  · exact ⟨.of_eq rfl rfl, .inl (h.marked order hmarked.2), rfl, rfl, rfl⟩
  · split
    · exact ⟨hreject ledger, .inr List.mem_cons_self, rfl, rfl, rfl⟩
    · next dto _ =>
      have haccept : Grows ledger (ledger.accept order dto) :=
        ⟨List.subset_cons_self _ _, List.Subset.refl _⟩
      split
      · exact ⟨haccept, ⟨dto, List.mem_cons_self⟩, rfl, rfl, rfl⟩
      · -- The cloud may have accepted what was not heard of.
        have hunheard : Follows ledger (ledger.unheard input order dto, .done) := by
          unfold Ledger.unheard
          split_ifs
          · exact ⟨haccept, trivial, rfl, rfl, rfl⟩
          · exact ⟨.of_eq rfl rfl, trivial, rfl, rfl, rfl⟩
        split_ifs
        · exact ⟨⟨hunheard.grows.accepted, fun _ hmem => (hreject _).rejected
            (hunheard.grows.rejected hmem)⟩, .inr List.mem_cons_self, hunheard.queue,
            hunheard.queued, hunheard.reported⟩
        · exact hunheard

/-- **What every statement keeps.** -/
theorem kept_statement (h : Kept ledger) (hphase : phase.Sure ledger) :
    Kept (statement input ledger phase).1 ∧
      (statement input ledger phase).2.Sure (statement input ledger phase).1 ∧
        Grows ledger (statement input ledger phase).1 := by
  have hsame : Grows ledger ledger := .of_eq rfl rfl
  cases phase with
  | queueing order =>
    refine ⟨h, ?_, hsame⟩
    unfold statement
    dsimp only
    split_ifs with hpush
    · exact hpush.1
    · trivial
  | starting =>
    refine ⟨h, ?_, hsame⟩
    unfold statement
    dsimp only
    split_ifs <;> trivial
  | reporting orders =>
    cases orders with
    | nil => exact ⟨h, trivial, hsame⟩
    | cons order orders =>
      have hreport := follows_report input h order orders
      refine ⟨⟨fun other hmark => ?_, ?_⟩, hreport.sure, hreport.grows⟩
      · exact hreport.grows.of_accepted (h.marked other (hreport.reported ▸ hmark))
      · exact hreport.queue ▸ h.fits
  | marking order orders =>
    refine ⟨⟨fun other hother => ?_, h.fits⟩, .inl hphase, .of_eq rfl rfl⟩
    obtain heq | hother := Bool.or_eq_true_iff.1 hother
    · rw [of_decide_eq_true heq]
      exact hphase
    · exact h.marked other hother
  | reading change =>
    refine ⟨h, ?_, hsame⟩
    unfold statement
    dsimp only
    split_ifs
    · cases change <;> trivial
    · cases change <;> exact ⟨hphase, h.fits⟩
  | writing change found =>
    refine ⟨⟨h.marked, length_apply change found ?_⟩, ?_, .of_eq rfl rfl⟩
    · cases change <;> exact hphase.2
    · cases change <;> trivial
  | done => exact ⟨h, trivial, hsame⟩

/-- **A statement that is careful loses no order.** -/
theorem queued_statement (hkept : Kept ledger) (hphase : phase.Sure ledger)
    (hcareful : phase.Careful ledger) (h : Queued ledger) :
    Queued (statement input ledger phase).1 := by
  cases phase with
  | reporting orders =>
    cases orders with
    | nil => exact h
    | cons order orders =>
      have hreport := follows_report input hkept order orders
      intro other hother
      rw [statement, hreport.queued] at hother
      rw [statement, hreport.queue]
      exact (h other hother).imp_right hreport.grows.settled
  | writing change found =>
    obtain ⟨rfl, hroom⟩ := hcareful
    intro other hother
    cases change with
    | push order =>
      obtain ⟨hmem, hsub⟩ := ids_push hphase.1 (hroom.resolve_left (List.cons_ne_nil _ _))
      obtain rfl | hother := List.mem_cons.1 hother
      · exact .inl hmem
      · exact (h other hother).imp_left fun hqueue => hsub hqueue
    | forget order orders =>
      obtain hqueue | hsettled := h other hother
      · by_cases heq : other = order
        · exact .inr (heq ▸ hphase.1)
        · exact .inl (List.mem_filter.2 ⟨hqueue, decide_eq_true heq⟩)
      · exact .inr hsettled
  | _ => exact h

/-! ## Over whole runs -/

/-- What a run leaves of the ledger and of its calls. -/
def Orderly (s : State) : Prop :=
  Kept s.data ∧ ∀ (i : ℕ) request phase, s.calls[i]? = some (request, phase) → phase.Sure s.data

theorem orderly_step (s : State) (action : Action) (h : Orderly s) :
    Orderly (reporting.step s action) := by
  obtain ⟨hkept, hcalls⟩ := h
  refine ⟨data_step (Q := Kept) hkept fun i input request phase _ hcall =>
    (kept_statement hkept (hcalls i request phase hcall)).1, ?_⟩
  refine forall_calls (K := fun (data : Ledger) _ (phase : Phase) => phase.Sure data)
    (fun request phase _ henter => ?_)
    (fun i input request phase _ hcall hsure => (kept_statement hkept hsure).2.1)
    (fun i input request phase _ hcall _ other hsure =>
      (kept_statement hkept (hcalls i request phase hcall)).2.2.sure hsure) hcalls
  obtain rfl := Option.some.inj henter
  cases request <;> trivial

/-- **No order is lost on its way where no write is overtaken**, whatever runs
at once, whatever the cloud answers and wherever a drain dies. -/
theorem reports_kept (actions : List Action) :
    ReportsKept actions (run reporting.step fresh actions).data := by
  have hfresh : Orderly fresh := ⟨⟨by simp [fresh], by decide⟩, by simp [fresh]⟩
  have hrun := invariant_of_forall (I := Orderly) orderly_step hfresh actions
  refine ⟨fun hcareful => ?_, hrun.1.marked, hrun.1.fits⟩
  refine (invariant (I := fun s : State => Orderly s ∧ Queued s.data)
    (fun s action hasks hs => ⟨orderly_step s action hs.1, ?_⟩) hcareful
    ⟨hfresh, by simp [fresh, Queued]⟩).2
  refine data_step (Q := Queued) hs.2 ?_
  rintro i input request phase rfl hcall
  exact queued_statement hs.1.1 (hs.1.2 i request phase hcall) (hasks (request, phase) hcall) hs.2

end Optionia.Reporting.Reporter
