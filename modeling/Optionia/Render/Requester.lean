import Optionia.Lib.OrderedMap
import Optionia.Render.Acceptance
/-!
# Asking for print files

Checkout puts an order on a queue; `RenderRequester::drain` takes the queue's
first orders, asks the cloud for each designed line that has no render id, and
forgets the order. A retryable answer ends the pass and leaves the order on the
queue; any other refusal is taken for a refusal of the scene, and an acceptance
without an id for none at all. An order is let go rightly just when no such
answer is among those it was let go by (`released_rightly_iff`).
-/

namespace Optionia.Render.Requester

open Runs

/-! ## The queue -/

/-- `OrderQueue`, as `all` reads it: ids above zero, each once. -/
structure OrderQueue where
  ids : List ℕ
  nodup : ids.Nodup
  positive : 0 ∉ ids

namespace OrderQueue

def maxEntries : ℕ := 500

def empty : OrderQueue := ⟨[], List.nodup_nil, List.not_mem_nil⟩

/-- `push`: the oldest are dropped from a full queue. -/
def push (queue : OrderQueue) (order : ℕ) : OrderQueue :=
  if h : order = 0 ∨ order ∈ queue.ids then queue
  else
    have hnodup : (queue.ids ++ [order]).Nodup :=
      List.nodup_append'.2 ⟨queue.nodup, List.nodup_singleton order,
        List.disjoint_singleton.2 fun hmem => h (.inr hmem)⟩
    have hpositive : 0 ∉ queue.ids ++ [order] := fun hmem =>
      (List.mem_append.1 hmem).elim queue.positive
        fun hzero => h (.inl (List.mem_singleton.1 hzero).symm)
    { ids := (queue.ids ++ [order]).drop ((queue.ids ++ [order]).length - maxEntries)
      nodup := hnodup.sublist (List.drop_sublist _ _)
      positive := fun hmem => hpositive (List.mem_of_mem_drop hmem) }

def forget (queue : OrderQueue) (order : ℕ) : OrderQueue where
  ids := queue.ids.filter fun queued => decide (queued ≠ order)
  nodup := queue.nodup.filter _
  positive := fun hmem => queue.positive (List.mem_of_mem_filter hmem)

end OrderQueue

/-! ## A pass -/

/-- What the cloud answers: whether it was taken, with what status, and the
id in it that is not empty. -/
structure Answer where
  ok : Bool
  status : ℕ
  id : Option ℕ
  deriving DecidableEq

def isRetryable (status : ℕ) : Bool := decide (status = 0 ∨ status = 429 ∨ 500 ≤ status)

/-- A line item, and the scene it composes where it is designed. -/
structure Line where
  item : ℕ
  scene : Option String
  deriving DecidableEq

/-- What a pass finds and is answered. -/
structure Pass where
  /-- The connection state is `DISCONNECTED`. -/
  disconnected : Bool
  /-- `wc_get_order`, and the lines of the order. -/
  lines : ℕ → Option (List Line)
  /-- What the cloud answers to the request for a line of an order. -/
  answer : ℕ → ℕ → Answer

/-- The queue, and `META_RENDER_IDS` of the orders. -/
structure Shop where
  queue : OrderQueue
  renderIds : ℕ → OrderedMap ℕ ℕ

def batchSize : ℕ := 10

/-- The loop of `request_for` over the lines. -/
def requestLines (answer : ℕ → Answer) :
    List Line → OrderedMap ℕ ℕ → ℕ → Option (OrderedMap ℕ ℕ × ℕ)
  | [], existing, requested => some (existing, requested)
  | line :: lines, existing, requested =>
    -- Already has a render: a retry must not produce a second file.
    if (existing.get? line.item).isSome then requestLines answer lines existing requested
    else
      match line.scene with
      | none => requestLines answer lines existing requested
      | some _ =>
        if (answer line.item).ok then
          match (answer line.item).id with
          | none => requestLines answer lines existing requested
          | some id => requestLines answer lines (existing.set line.item id) (requested + 1)
        else if isRetryable (answer line.item).status then none
        else requestLines answer lines existing requested

/-- `request_for`: the render ids of the order after it and how many were
requested, or nothing on a retryable failure. -/
def requestFor (pass : Pass) (existing : OrderedMap ℕ ℕ) (order : ℕ) :
    Option (OrderedMap ℕ ℕ × ℕ) :=
  match pass.lines order with
  | none => some (existing, 0)
  | some lines =>
    match requestLines (pass.answer order) lines existing 0 with
    | none => none
    | some (ids, requested) => if 0 < requested then some (ids, requested) else some (existing, 0)

/-- The loop of `drain`, with how many were requested. -/
def drainLoop (pass : Pass) : List ℕ → Shop → ℕ → Shop × ℕ
  | [], shop, requested => (shop, requested)
  | order :: orders, shop, requested =>
    match requestFor pass (shop.renderIds order) order with
    | none => (shop, requested)
    | some (ids, more) =>
      drainLoop pass orders
        { queue := shop.queue.forget order
          renderIds := fun other => if other = order then ids else shop.renderIds other }
        (requested + more)

def drain (pass : Pass) (shop : Shop) : Shop × ℕ :=
  if pass.disconnected then (shop, 0)
  else drainLoop pass (shop.queue.ids.take batchSize) shop 0

/-- What happens in the shop. -/
inductive Action where
  | queue (order : ℕ)
  | drain (pass : Pass)

def step (shop : Shop) : Action → Shop
  | .queue order => { shop with queue := shop.queue.push order }
  | .drain pass => (drain pass shop).1

/-! ## The statement -/

/-- The cloud refuses the scene itself: it cannot be read, is too large, or
cannot be drawn. -/
def Answer.refusesScene (answer : Answer) : Bool :=
  decide (answer.ok = false ∧ (answer.status = 400 ∨ answer.status = 413 ∨ answer.status = 422))

/-- **An order a pass lets go** has a render id for each designed line, or the
cloud refused the line's scene. -/
def ReleasesRightly (shop : Shop) (pass : Pass) : Prop :=
  ∀ order ∈ shop.queue.ids, order ∉ (drain pass shop).1.queue.ids →
    ∀ lines, pass.lines order = some lines → ∀ line ∈ lines, line.scene.isSome = true →
      (((drain pass shop).1.renderIds order).get? line.item).isSome = true ∨
        (((shop.renderIds order).get? line.item).isSome = false ∧
          (pass.answer order line.item).refusesScene = true)

/-- No designed line is forgotten in a run. -/
def NothingForgotten (shop : Shop) (actions : List Action) : Prop :=
  ∀ before pass after, actions = before ++ .drain pass :: after →
    ReleasesRightly (run step shop before) pass

/-! ## When it holds -/

/-- A designed line that has no render id. -/
def Line.asked (existing : OrderedMap ℕ ℕ) (line : Line) : Bool :=
  line.scene.isSome && !(existing.get? line.item).isSome

/-- An answer that is to be asked for again. -/
def Answer.retried (answer : Answer) : Bool := !answer.ok && isRetryable answer.status

/-- An answer that settles a line: an id, or a refusal of its scene. -/
def Answer.settles (answer : Answer) : Bool :=
  answer.ok && answer.id.isSome || answer.refusesScene

/-- A line of the order is to be asked for again. -/
def Pass.retries (pass : Pass) (existing : OrderedMap ℕ ℕ) (order : ℕ) : Bool :=
  match pass.lines order with
  | none => false
  | some lines => lines.any fun line => line.asked existing && (pass.answer order line.item).retried

/-- Every line of the order that is asked for is settled. -/
def Pass.settles (pass : Pass) (existing : OrderedMap ℕ ℕ) (order : ℕ) : Bool :=
  match pass.lines order with
  | none => true
  | some lines =>
    lines.all fun line => !line.asked existing || (pass.answer order line.item).settles

/-- The orders of a pass up to the first it is to ask for again. -/
def Pass.reached (pass : Pass) (shop : Shop) : List ℕ :=
  if pass.disconnected then []
  else (shop.queue.ids.take batchSize).takeWhile fun order =>
    !pass.retries (shop.renderIds order) order

/-- **Every order that a pass gets through is settled by its answers.** -/
def Settled (shop : Shop) : Action → Prop
  | .queue _ => True
  | .drain pass => ∀ order ∈ pass.reached shop, pass.settles (shop.renderIds order) order = true

instance (shop : Shop) : ∀ a, Decidable (Settled shop a)
  | .queue _ => inferInstanceAs (Decidable True)
  | .drain pass => inferInstanceAs (Decidable (∀ order ∈ pass.reached shop, _ = true))

/-! ## What a pass does -/

variable {answer : ℕ → Answer} {existing : OrderedMap ℕ ℕ} {line : Line}

/-- Recording an id of a line that was taken changes no line that is to be
asked for again. -/
theorem asked_set_and_retried {item id : ℕ} (hok : (answer item).ok = true) (line : Line) :
    (line.asked (existing.set item id) && (answer line.item).retried) =
      (line.asked existing && (answer line.item).retried) := by
  by_cases hitem : line.item = item
  · have hnot : (answer line.item).retried = false := by
      rw [hitem, Answer.retried, hok]
      rfl
    rw [hnot, Bool.and_false, Bool.and_false]
  · rw [Line.asked, Line.asked, OrderedMap.get?_set_ne existing id hitem]

/-- **The lines are gone through unless one is to be asked for again.** -/
theorem requestLines_eq_none_iff (lines : List Line) (requested : ℕ) :
    requestLines answer lines existing requested = none ↔
      (lines.any fun line => line.asked existing && (answer line.item).retried) = true := by
  induction lines generalizing existing requested with
  | nil => exact ⟨fun h => absurd h.symm (by simp [requestLines]), fun h => absurd h (by simp)⟩
  | cons line lines ih =>
    rw [List.any_cons, Bool.or_eq_true]
    unfold requestLines
    by_cases hrecorded : (existing.get? line.item).isSome = true
    · rw [if_pos hrecorded, ih]
      have hnot : line.asked existing = false := by simp [Line.asked, hrecorded]
      simp [hnot]
    · rw [if_neg hrecorded]
      cases hscene : line.scene with
      | none =>
        have hnot : line.asked existing = false := by simp [Line.asked, hscene]
        dsimp only
        rw [ih]
        simp [hnot]
      | some scene =>
        have hasked : line.asked existing = true := by simp [Line.asked, hscene, hrecorded]
        dsimp only
        by_cases hok : (answer line.item).ok = true
        · have hnot : (answer line.item).retried = false := by simp [Answer.retried, hok]
          rw [if_pos hok, hnot, Bool.and_false]
          cases hid : (answer line.item).id with
          | none =>
            dsimp only
            rw [ih]
            simp
          | some id =>
            dsimp only
            rw [ih, funext (asked_set_and_retried hok)]
            simp
        · rw [if_neg hok, hasked, Bool.true_and]
          by_cases hretry : isRetryable (answer line.item).status = true
          · rw [if_pos hretry]
            simp [Answer.retried, hok, hretry]
          · rw [if_neg hretry, ih]
            simp [Answer.retried, hretry]

/-- **What is recorded after the lines**: what was, and what the cloud gave an
id. -/
theorem requestLines_recorded {lines : List Line} {requested : ℕ} {result : OrderedMap ℕ ℕ × ℕ}
    (h : requestLines answer lines existing requested = some result) :
    requested ≤ result.2 ∧ (result.2 = requested → result.1 = existing) ∧
      ∀ item, (result.1.get? item).isSome = true ↔ (existing.get? item).isSome = true ∨
        ∃ line ∈ lines, line.item = item ∧ line.scene.isSome = true ∧
          (answer item).ok = true ∧ (answer item).id.isSome = true := by
  induction lines generalizing existing requested with
  | nil =>
    obtain rfl := Option.some.inj h
    exact ⟨le_rfl, fun _ => rfl, fun item => by simp⟩
  | cons line lines ih =>
    -- A line that is passed over gives no id.
    have hskip : (∀ item, ¬ (line.item = item ∧ line.scene.isSome = true ∧
        (answer item).ok = true ∧ (answer item).id.isSome = true) ∨
          (existing.get? item).isSome = true) →
        requestLines answer lines existing requested = some result →
        requested ≤ result.2 ∧ (result.2 = requested → result.1 = existing) ∧
          ∀ item, (result.1.get? item).isSome = true ↔ (existing.get? item).isSome = true ∨
            ∃ other ∈ line :: lines, other.item = item ∧ other.scene.isSome = true ∧
              (answer item).ok = true ∧ (answer item).id.isSome = true := by
      intro hnone hrest
      obtain ⟨hle, hsame, hrecorded⟩ := ih hrest
      refine ⟨hle, hsame, fun item => (hrecorded item).trans ⟨?_, ?_⟩⟩
      · rintro (hold | ⟨other, hother, hof⟩)
        · exact .inl hold
        · exact .inr ⟨other, List.mem_cons_of_mem _ hother, hof⟩
      · rintro (hold | ⟨other, hother, hof⟩)
        · exact .inl hold
        · obtain rfl | hother := List.mem_cons.1 hother
          · exact .inl ((hnone item).resolve_left fun hnot => hnot hof)
          · exact .inr ⟨other, hother, hof⟩
    unfold requestLines at h
    by_cases hrecorded : (existing.get? line.item).isSome = true
    · rw [if_pos hrecorded] at h
      refine hskip (fun item => ?_) h
      by_cases hitem : line.item = item
      · exact .inr (hitem ▸ hrecorded)
      · exact .inl fun hof => hitem hof.1
    · rw [if_neg hrecorded] at h
      cases hscene : line.scene with
      | none =>
        rw [hscene] at h
        exact hskip (fun item => .inl fun hof => by simp [hscene] at hof) h
      | some scene =>
        rw [hscene] at h
        dsimp only at h
        by_cases hok : (answer line.item).ok = true
        · rw [if_pos hok] at h
          cases hid : (answer line.item).id with
          | none =>
            rw [hid] at h
            refine hskip (fun item => .inl ?_) h
            rintro ⟨rfl, -, -, hsome⟩
            simp [hid] at hsome
          | some id =>
            rw [hid] at h
            obtain ⟨hle, -, hrest⟩ := ih h
            refine ⟨by omega, fun heq => absurd heq (by omega), fun item => (hrest item).trans ?_⟩
            by_cases hitem : item = line.item
            · subst hitem
              rw [OrderedMap.get?_set_self]
              refine ⟨fun _ => .inr ⟨line, List.mem_cons_self, rfl, by simp [hscene], hok,
                by simp [hid]⟩, fun _ => .inl rfl⟩
            · rw [OrderedMap.get?_set_ne existing id hitem]
              refine or_congr_right ⟨?_, ?_⟩
              · rintro ⟨other, hother, hof⟩
                exact ⟨other, List.mem_cons_of_mem _ hother, hof⟩
              · rintro ⟨other, hother, hof⟩
                obtain rfl | hother := List.mem_cons.1 hother
                · exact absurd hof.1.symm hitem
                · exact ⟨other, hother, hof⟩
        · rw [if_neg hok] at h
          by_cases hretry : isRetryable (answer line.item).status = true
          · rw [if_pos hretry] at h
            simp at h
          · rw [if_neg hretry] at h
            refine hskip (fun item => .inl ?_) h
            rintro ⟨rfl, -, hok', -⟩
            exact hok hok'

variable {pass : Pass} {shop : Shop} {order : ℕ}

theorem requestFor_eq_none_iff :
    requestFor pass existing order = none ↔ pass.retries existing order = true := by
  unfold requestFor Pass.retries
  cases pass.lines order with
  | none => exact ⟨fun h => absurd h (by simp), fun h => absurd h (by simp)⟩
  | some lines =>
    dsimp only
    rw [← requestLines_eq_none_iff lines 0]
    cases requestLines (pass.answer order) lines existing 0 with
    | none => exact ⟨fun _ => rfl, fun _ => rfl⟩
    | some result =>
      dsimp only
      split_ifs
      · exact ⟨fun h => absurd h (by simp), fun h => absurd h (by simp)⟩
      · exact ⟨fun h => absurd h (by simp), fun h => absurd h (by simp)⟩

theorem requestFor_recorded {ids : OrderedMap ℕ ℕ} {requested : ℕ}
    (h : requestFor pass existing order = some (ids, requested)) {lines : List Line}
    (hlines : pass.lines order = some lines) (item : ℕ) :
    (ids.get? item).isSome = true ↔ (existing.get? item).isSome = true ∨
      ∃ line ∈ lines, line.item = item ∧ line.scene.isSome = true ∧
        (pass.answer order item).ok = true ∧ (pass.answer order item).id.isSome = true := by
  unfold requestFor at h
  rw [hlines] at h
  dsimp only at h
  cases hresult : requestLines (pass.answer order) lines existing 0 with
  | none =>
    rw [hresult] at h
    simp at h
  | some result =>
    obtain ⟨-, hsame, hrecorded⟩ := requestLines_recorded hresult
    rw [hresult] at h
    dsimp only at h
    split_ifs at h with hpos
    · obtain ⟨rfl, -⟩ := Prod.mk.inj (Option.some.inj h)
      exact hrecorded item
    · obtain ⟨rfl, -⟩ := Prod.mk.inj (Option.some.inj h)
      rw [← hrecorded item, hsame (Nat.eq_zero_of_not_pos hpos)]

theorem takeWhile_congr {p q : ℕ → Bool} {orders : List ℕ}
    (h : ∀ order ∈ orders, p order = q order) : orders.takeWhile p = orders.takeWhile q := by
  induction orders with
  | nil => rfl
  | cons order orders ih =>
    rw [List.takeWhile_cons, List.takeWhile_cons, h order List.mem_cons_self,
      ih fun other hother => h other (List.mem_cons_of_mem order hother)]

/-- **What the loop of a pass does**: the orders up to the first that is to be
asked for again are forgotten, each with the ids it was given. -/
theorem drainLoop_spec (pass : Pass) (shop : Shop) {orders : List ℕ} (hnodup : orders.Nodup)
    (requested : ℕ) :
    (∀ order, order ∈ (drainLoop pass orders shop requested).1.queue.ids ↔
      order ∈ shop.queue.ids ∧ order ∉ orders.takeWhile fun order =>
        !pass.retries (shop.renderIds order) order) ∧
    (∀ order ∈ orders.takeWhile fun order => !pass.retries (shop.renderIds order) order,
      ∃ more, requestFor pass (shop.renderIds order) order =
        some ((drainLoop pass orders shop requested).1.renderIds order, more)) ∧
    ∀ order ∉ orders, (drainLoop pass orders shop requested).1.renderIds order =
      shop.renderIds order := by
  induction orders generalizing shop requested with
  | nil => exact ⟨fun order => by simp [drainLoop], fun order horder => by simp at horder,
      fun order _ => rfl⟩
  | cons order orders ih =>
    obtain ⟨hnew, hrest⟩ := List.nodup_cons.1 hnodup
    unfold drainLoop
    cases hresult : requestFor pass (shop.renderIds order) order with
    | none =>
      have hretries := requestFor_eq_none_iff.1 hresult
      rw [List.takeWhile_cons, hretries]
      exact ⟨fun other => by simp, fun other hother => by simp at hother, fun other _ => rfl⟩
    | some result =>
      obtain ⟨ids, more⟩ := result
      have hretries : pass.retries (shop.renderIds order) order = false := by
        rw [← Bool.not_eq_true, ← requestFor_eq_none_iff, hresult]
        exact Option.some_ne_none _
      dsimp only
      obtain ⟨hqueue, hids, hothers⟩ := ih { queue := shop.queue.forget order, renderIds :=
        fun other => if other = order then ids else shop.renderIds other } hrest (requested + more)
      have hsame : ∀ other ∈ orders,
          (if other = order then ids else shop.renderIds other) = shop.renderIds other :=
        fun other hother => if_neg (ne_of_mem_of_not_mem hother hnew)
      have htake : (orders.takeWhile fun other =>
          !pass.retries (if other = order then ids else shop.renderIds other) other) =
            orders.takeWhile fun other => !pass.retries (shop.renderIds other) other :=
        takeWhile_congr fun other hother => by rw [hsame other hother]
      dsimp only at hqueue hids hothers
      rw [htake] at hqueue hids
      rw [List.takeWhile_cons, hretries]
      refine ⟨fun other => (hqueue other).trans ?_, fun other hother => ?_, fun other hother => ?_⟩
      · have hforget : other ∈ (shop.queue.forget order).ids ↔
            other ∈ shop.queue.ids ∧ other ≠ order := by
          simp [OrderQueue.forget, List.mem_filter]
        rw [hforget]
        simp only [Bool.not_false, if_true, List.mem_cons, not_or]
        exact and_assoc
      · obtain rfl | hother := List.mem_cons.1 hother
        · refine ⟨more, ?_⟩
          rw [hothers other hnew, if_pos rfl]
          exact hresult
        · obtain ⟨more', hmore⟩ := hids other hother
          rw [hsame other ((List.takeWhile_sublist _).subset hother)] at hmore
          exact ⟨more', hmore⟩
      · obtain ⟨hne, hother⟩ := not_or.1 fun hmem => hother (List.mem_cons.2 hmem)
        rw [hothers other hother, if_neg hne]

/-- **An order a pass lets go**: one it gets through, with the ids it was
given. -/
theorem drain_spec (pass : Pass) (shop : Shop) :
    (∀ order, order ∈ (drain pass shop).1.queue.ids ↔
      order ∈ shop.queue.ids ∧ order ∉ pass.reached shop) ∧
    ∀ order ∈ pass.reached shop, ∃ more, requestFor pass (shop.renderIds order) order =
      some ((drain pass shop).1.renderIds order, more) := by
  unfold drain Pass.reached
  split_ifs
  · exact ⟨fun order => by simp, fun order horder => absurd horder List.not_mem_nil⟩
  · have hnodup : (shop.queue.ids.take batchSize).Nodup :=
      shop.queue.nodup.sublist (List.take_sublist _ _)
    obtain ⟨hqueue, hids, -⟩ := drainLoop_spec pass shop hnodup 0
    exact ⟨hqueue, hids⟩

theorem mem_of_reached (h : order ∈ pass.reached shop) : order ∈ shop.queue.ids := by
  unfold Pass.reached at h
  split_ifs at h
  · simp at h
  · exact List.mem_of_mem_take ((List.takeWhile_sublist _).subset h)

/-- **A pass lets its orders go rightly just when its answers settle them.** -/
theorem releasesRightly_iff (shop : Shop) (pass : Pass) :
    ReleasesRightly shop pass ↔
      ∀ order ∈ pass.reached shop, pass.settles (shop.renderIds order) order = true := by
  obtain ⟨hqueue, hids⟩ := drain_spec pass shop
  constructor
  · intro h order hreached
    obtain ⟨more, hresult⟩ := hids order hreached
    have hgone : order ∉ (drain pass shop).1.queue.ids := fun hmem =>
      ((hqueue order).1 hmem).2 hreached
    unfold Pass.settles
    cases hlines : pass.lines order with
    | none => rfl
    | some lines =>
      refine List.all_eq_true.2 fun line hline => ?_
      by_cases hasked : line.asked (shop.renderIds order) = true
      · rw [hasked, Bool.not_true, Bool.false_or]
        obtain ⟨hscene, hnew⟩ := Bool.and_eq_true_iff.1 hasked
        rw [Bool.not_eq_true'] at hnew
        obtain hrecorded | ⟨-, hrefused⟩ :=
          h order (mem_of_reached hreached) hgone lines hlines line hline hscene
        · rw [requestFor_recorded hresult hlines, hnew] at hrecorded
          obtain ⟨other, -, -, -, hok, hid⟩ := hrecorded.resolve_left Bool.false_ne_true
          rw [Answer.settles, hok, hid]
          rfl
        · rw [Answer.settles, hrefused, Bool.or_true]
      · rw [Bool.eq_false_iff.2 hasked]
        rfl
  · intro h order hmem hgone lines hlines line hline hscene
    have hreached : order ∈ pass.reached shop := by
      by_contra hnot
      exact hgone ((hqueue order).2 ⟨hmem, hnot⟩)
    obtain ⟨more, hresult⟩ := hids order hreached
    rw [requestFor_recorded hresult hlines]
    have hsettles := h order hreached
    unfold Pass.settles at hsettles
    rw [hlines] at hsettles
    have hof := List.all_eq_true.1 hsettles line hline
    by_cases hrecorded : ((shop.renderIds order).get? line.item).isSome = true
    · exact .inl (.inl hrecorded)
    · have hasked : line.asked (shop.renderIds order) = true := by
        simp [Line.asked, hscene, hrecorded]
      rw [hasked, Bool.not_true, Bool.false_or, Answer.settles, Bool.or_eq_true] at hof
      obtain htaken | hrefused := hof
      · obtain ⟨hok, hid⟩ := Bool.and_eq_true_iff.1 htaken
        exact .inl (.inr ⟨line, hline, rfl, hscene, hok, hid⟩)
      · exact .inr ⟨Bool.eq_false_iff.2 hrecorded, hrefused⟩

/-! ## Runs -/

/-- **No designed line is forgotten, and none has two jobs**, just when every
order that a pass gets through is settled by its answers. -/
theorem nothingForgotten_iff (shop : Shop) (actions : List Action)
    (requests : List Acceptance.Action) :
    (NothingForgotten shop actions ∧ Acceptance.OneJob (Acceptance.served requests)) ↔
      Throughout step Settled shop actions := by
  refine (and_iff_left (Acceptance.oneJob requests)).trans ⟨fun h => ?_, fun h => ?_⟩
  · refine throughout_of_prefix fun before a after hsplit => ?_
    cases a with
    | queue order => trivial
    | drain pass => exact (releasesRightly_iff _ pass).1 (h before pass after hsplit)
  · rintro before pass after rfl
    exact (releasesRightly_iff _ pass).2 (Throughout.at h)

/-- The shop before its first designed order. -/
def firstOrder : Shop := ⟨OrderQueue.empty, fun _ => ∅⟩

/-- Order 12 has one designed line, and the cloud answers that the credential
is not accepted. -/
def rejectedPass : Pass where
  disconnected := false
  lines := fun order => if order = 12 then some [⟨3, some "scene"⟩] else none
  answer := fun _ _ => ⟨false, 401, none⟩

/-- **The order is forgotten.** -/
theorem forgotten_when_rejected : ¬ ∀ shop actions requests,
    NothingForgotten shop actions ∧ Acceptance.OneJob (Acceptance.served requests) := by
  intro h
  have hline := (h firstOrder [.queue 12, .drain rejectedPass] []).1 [.queue 12] rejectedPass [] rfl
    12 (by decide +kernel) (by decide +kernel) _ rfl ⟨3, some "scene"⟩ (by decide) rfl
  revert hline
  decide +kernel

end Optionia.Render.Requester
