import Mathlib.Algebra.Order.BigOperators.Group.List
import Optionia.Views.Collector
/-!
# Views are counted at least once

What the cloud added, what is pending and what it refused for good cover what
beacons counted, however answers get lost and drains overlap. They are equal in
a run where no answer is lost, no clear finds less than it sent, and no key
contains the separator (`counted_at_least_once`).
-/

namespace Optionia.Views

open Runs Calls.System

variable {s : State} {ledger : Ledger} {pair : Pair} {batch : List ViewCount} {input : Input}
  {action : Action} {phase : Phase} {request : Request}

/-! ## What is asked -/

/-- A drain is between its read and its end. -/
def Phase.underWay : Phase → Bool
  | .posting _ => true
  | .clearing _ => true
  | _ => false

def Idle (s : State) : Prop := ∀ call ∈ s.calls, call.2.underWay = false

instance (s : State) : Decidable (Idle s) :=
  inferInstanceAs (Decidable (∀ call ∈ s.calls, call.2.underWay = false))

/-- What became of the views of a pair. -/
def Ledger.found (ledger : Ledger) (pair : Pair) : ℕ :=
  ledger.cloud.getD pair 0 + ledger.refused.getD pair 0 + viewsOf (pending ledger.counts) pair

/-- **What a statement needs for every view to count once.** -/
def Phase.Once (input : Input) (ledger : Ledger) : Phase → Prop
  | .adding setId options day => ∀ pair ∈ (add ledger.counts setId options day).2, Plain pair
  | .posting _ => input.lost = 0
  | .clearing batch =>
    ∀ row ∈ batch, viewsOf batch row.pair ≤ ledger.counts.getD (pairKey row.pair) 0
  | _ => True

instance decidableOnce (input : Input) (ledger : Ledger) (phase : Phase) :
    Decidable (phase.Once input ledger) := by
  unfold Phase.Once
  split
  · infer_instance
  · infer_instance
  · infer_instance
  · infer_instance

/-- **What a run of beacons and drains keeps of its views**, when no drain is
under way. -/
structure Accounted (s : State) (actions : List Action) : Prop where
  atLeast : ∀ pair, Plain pair → s.data.counted.getD pair 0 ≤ s.data.found pair
  /-- None counts twice either, where every statement is as asked. -/
  once : Throughout reporting.step (AsksOf Phase.Once) fresh actions →
    ∀ pair, s.data.found pair = s.data.counted.getD pair 0

/-! ## What is on its way -/

/-- The rows of a batch that is to be cleared. -/
def Phase.sent : Phase → List ViewCount
  | .clearing batch => batch
  | _ => []

/-- The rows a drain has read. -/
def Phase.rows : Phase → List ViewCount
  | .posting batch => batch
  | .clearing batch => batch
  | _ => []

/-- The views of a pair that are sent and not yet cleared. -/
def owed (s : State) (pair : Pair) : ℕ := (s.calls.map fun call => viewsOf call.2.sent pair).sum

theorem owed_of_idle (h : Idle s) (pair : Pair) : owed s pair = 0 := by
  refine List.sum_eq_zero fun n hn => ?_
  obtain ⟨⟨request, phase⟩, hcall, rfl⟩ := List.mem_map.1 hn
  have hidle := h _ hcall
  cases phase with
  | clearing batch => exact absurd hidle (by simp [Phase.underWay])
  | _ => rfl

/-- What a drain has read has no separators. -/
def BatchesPlain (s : State) : Prop :=
  ∀ (i : ℕ) request phase, s.calls[i]? = some (request, phase) →
    ∀ row ∈ phase.rows, Plain row.pair

theorem viewsOf_of_plain (h : ∀ row ∈ batch, Plain row.pair) (hpair : ¬ Plain pair) :
    viewsOf batch pair = 0 := by
  refine List.sum_eq_zero fun n hn => ?_
  obtain ⟨row, hrow, rfl⟩ := List.mem_map.1 hn
  have hne : row.pair ≠ pair := fun heq => hpair (heq ▸ h row hrow)
  exact if_neg hne

/-- The rows a statement leaves a drain with were pending, or it had them. -/
theorem batch_statement (input : Input) (ledger : Ledger) (phase : Phase) {row : ViewCount}
    (h : row ∈ (statement input ledger phase).2.rows) :
    row ∈ phase.rows ∨ row ∈ pending ledger.counts := by
  cases phase with
  | reading =>
    unfold statement at h
    dsimp only at h
    split_ifs at h
    · exact absurd h List.not_mem_nil
    · exact .inr (List.mem_of_mem_take h)
  | posting batch =>
    unfold statement post at h
    dsimp only at h
    split at h
    · exact .inl h
    · split_ifs at h
      · exact .inl h
      · exact absurd h List.not_mem_nil
  | _ => exact absurd h List.not_mem_nil

theorem batchesPlain_step (h : BatchesPlain s) (action : Action) :
    BatchesPlain (reporting.step s action) := by
  refine forall_calls (K := fun _ _ (phase : Phase) => ∀ row ∈ phase.rows, Plain row.pair)
    (fun request phase _ henter row hrow => ?_) (fun i input request phase _ _ hplain row hrow => ?_)
    (fun _ _ _ _ _ _ _ _ hplain => hplain) h
  · obtain rfl := Option.some.inj henter
    cases request with
    | add setId options day => exact absurd hrow List.not_mem_nil
    | drain => exact absurd hrow List.not_mem_nil
  · obtain hold | hpending := batch_statement input s.data phase hrow
    · exact hplain row hold
    · exact plain_of_mem_pending hpending

/-! ## One statement -/

theorem counted_post (input : Input) (ledger : Ledger) (batch : List ViewCount) :
    (post input ledger batch).1.counted = ledger.counted := by
  unfold post
  dsimp only
  split
  · rfl
  · split_ifs
    · rfl
    · rfl

/-- **What a post does**: what it finds of a pair is more by what it then owes,
and by what the cloud recorded unheard. -/
theorem found_post (input : Input) (ledger : Ledger) (batch : List ViewCount) (pair : Pair) :
    (post input ledger batch).1.found pair =
      ledger.found pair + viewsOf (post input ledger batch).2.sent pair +
        input.lost * viewsOf batch pair := by
  have hcloud := getD_record_iterate batch ledger.cloud pair input.lost
  unfold Ledger.found
  cases hanswer : input.answer with
  | ok =>
    have hrecord := getD_record batch ((record batch)^[input.lost] ledger.cloud) pair
    unfold post
    simp only [hanswer, Phase.sent]
    omega
  | status code =>
    have hrefused := getD_record batch ledger.refused pair
    have hnil : viewsOf [] pair = 0 := rfl
    unfold post
    simp only [hanswer]
    split_ifs
    · simp only [Phase.sent]
      omega
    · simp only [Phase.sent]
      omega

/-- What a beacon finds and counts is the same of a pair without separators. -/
theorem found_add (input : Input) (ledger : Ledger) (setId : String) (options : List (Option String)) (day : String)
    (hpair : Plain pair) :
    (statement input ledger (.adding setId options day)).1.found pair +
        ledger.counted.getD pair 0 =
      ledger.found pair +
        (statement input ledger (.adding setId options day)).1.counted.getD pair 0 := by
  have hpending := viewsOf_pending (add ledger.counts setId options day).1 hpair
  have hbefore := viewsOf_pending ledger.counts hpair
  have hadd := getD_add ledger.counts setId options day (pairKey pair)
  have hcounted := getD_counted (add ledger.counts setId options day).2 ledger.counted pair
  have hcount : (add ledger.counts setId options day).2.countP
      (fun other => decide (pairKey other = pairKey pair)) =
        (add ledger.counts setId options day).2.countP fun other => decide (other = pair) := by
    refine List.countP_congr fun other _ => ?_
    simp only [decide_eq_true_eq]
    exact pairKey_inj hpair
  unfold statement Ledger.found
  dsimp only
  omega

theorem found_clear (input : Input) (ledger : Ledger) (batch : List ViewCount) (hpair : Plain pair) :
    (statement input ledger (.clearing batch)).1.found pair =
      ledger.cloud.getD pair 0 + ledger.refused.getD pair 0 +
        (viewsOf (pending ledger.counts) pair - viewsOf batch pair) := by
  have hpending := viewsOf_pending (clear ledger.counts batch) hpair
  have hbefore := viewsOf_pending ledger.counts hpair
  have hclear := getD_clear ledger.counts batch (pairKey pair)
  have hrows := sum_rows hpair batch
  unfold statement Ledger.found
  dsimp only
  rw [hpending, hclear, hrows, hbefore]

/-- **A statement that takes nothing away**: what is found covers what is
counted and owed as it did before. -/
theorem covers_statement (input : Input) (ledger : Ledger) (phase : Phase) (hpair : Plain pair)
    (rest : ℕ)
    (h : ledger.counted.getD pair 0 + (viewsOf phase.sent pair + rest) ≤ ledger.found pair) :
    (statement input ledger phase).1.counted.getD pair 0 +
      (viewsOf (statement input ledger phase).2.sent pair + rest) ≤
        (statement input ledger phase).1.found pair := by
  have hnil : viewsOf [] pair = 0 := rfl
  cases phase with
  | adding setId options day =>
    have hadd := found_add input ledger setId options day hpair
    change ledger.counted.getD pair 0 + (viewsOf [] pair + rest) ≤ ledger.found pair at h
    show _ + (viewsOf [] pair + rest) ≤ _
    omega
  | posting batch =>
    have hpost := found_post input ledger batch pair
    have hcounted := counted_post input ledger batch
    change ledger.counted.getD pair 0 + (viewsOf [] pair + rest) ≤ ledger.found pair at h
    show (post input ledger batch).1.counted.getD pair 0 +
      (viewsOf (post input ledger batch).2.sent pair + rest) ≤ (post input ledger batch).1.found pair
    rw [hcounted]
    have hlost : 0 ≤ input.lost * viewsOf batch pair := Nat.zero_le _
    omega
  | clearing batch =>
    have hclear := found_clear input ledger batch hpair
    change ledger.counted.getD pair 0 + (viewsOf batch pair + rest) ≤ ledger.found pair at h
    unfold Ledger.found at h
    show ledger.counted.getD pair 0 + (viewsOf [] pair + rest) ≤ _
    rw [hclear]
    omega
  | reading =>
    unfold statement
    dsimp only
    split_ifs
    · exact h
    · exact h
  | done => exact h

/-- **A statement as asked keeps them equal.** -/
theorem even_statement (hbatch : ∀ row ∈ phase.rows, Plain row.pair)
    (hasked : phase.Once input ledger) (pair : Pair) (rest : ℕ)
    (h : ledger.counted.getD pair 0 + (viewsOf phase.sent pair + rest) = ledger.found pair) :
    (statement input ledger phase).1.counted.getD pair 0 +
      (viewsOf (statement input ledger phase).2.sent pair + rest) =
        (statement input ledger phase).1.found pair := by
  have hnil : viewsOf [] pair = 0 := rfl
  cases phase with
  | adding setId options day =>
    change ledger.counted.getD pair 0 + (viewsOf [] pair + rest) = ledger.found pair at h
    show _ + (viewsOf [] pair + rest) = _
    by_cases hpair : Plain pair
    · have hadd := found_add input ledger setId options day hpair
      omega
    · -- A key with the separator was not counted, and is not pending either.
      have hnone : (add ledger.counts setId options day).2.countP (fun other => other = pair) = 0 := by
        refine List.countP_eq_zero.2 fun other hother => ?_
        have hne : other ≠ pair := fun heq => hpair (heq ▸ hasked other hother)
        simpa using hne
      have hcounted := getD_counted (add ledger.counts setId options day).2 ledger.counted pair
      have hbefore := viewsOf_pending_of_not_plain ledger.counts hpair
      have hafter := viewsOf_pending_of_not_plain (add ledger.counts setId options day).1 hpair
      unfold statement
      unfold Ledger.found at h ⊢
      dsimp only
      omega
  | posting batch =>
    have hpost := found_post input ledger batch pair
    have hcounted := counted_post input ledger batch
    have hlost : input.lost = 0 := hasked
    rw [hlost, Nat.zero_mul] at hpost
    change ledger.counted.getD pair 0 + (viewsOf [] pair + rest) = ledger.found pair at h
    show (post input ledger batch).1.counted.getD pair 0 +
      (viewsOf (post input ledger batch).2.sent pair + rest) = (post input ledger batch).1.found pair
    rw [hcounted]
    omega
  | clearing batch =>
    change ledger.counted.getD pair 0 + (viewsOf batch pair + rest) = ledger.found pair at h
    show ledger.counted.getD pair 0 + (viewsOf [] pair + rest) = _
    by_cases hpair : Plain pair
    · have hclear := found_clear input ledger batch hpair
      have hpending := viewsOf_pending ledger.counts hpair
      have henough : viewsOf batch pair ≤ ledger.counts.getD (pairKey pair) 0 := by
        by_cases hrow : ∃ row ∈ batch, row.pair = pair
        · obtain ⟨row, hrow, rfl⟩ := hrow
          exact hasked row hrow
        · have hzero : viewsOf batch pair = 0 := by
            refine List.sum_eq_zero fun n hn => ?_
            obtain ⟨row, hmem, rfl⟩ := List.mem_map.1 hn
            exact if_neg fun heq => hrow ⟨row, hmem, heq⟩
          omega
      unfold Ledger.found at h
      rw [hclear]
      omega
    · have hzero := viewsOf_of_plain hbatch hpair
      have hbefore := viewsOf_pending_of_not_plain ledger.counts hpair
      have hafter := viewsOf_pending_of_not_plain (clear ledger.counts batch) hpair
      unfold statement
      unfold Ledger.found at h ⊢
      change viewsOf batch pair = 0 at hzero
      dsimp only
      omega
  | reading =>
    unfold statement
    dsimp only
    split_ifs
    · exact h
    · exact h
  | done => exact h

/-! ## Runs -/

theorem owed_split (pair : Pair) {i : ℕ} {call : Request × Phase} (h : s.calls[i]? = some call)
    (call' : Request × Phase) (data : Ledger) : ∃ rest,
    owed s pair = viewsOf call.2.sent pair + rest ∧
      owed ⟨data, s.calls.set i call'⟩ pair = viewsOf call'.2.sent pair + rest := by
  have hset := sum_set h call' fun call => viewsOf call.2.sent pair
  have hpart : viewsOf call.2.sent pair ≤ owed s pair :=
    List.single_le_sum (fun _ _ => Nat.zero_le _) _
      (List.mem_map.2 ⟨call, List.mem_of_getElem? h, rfl⟩)
  refine ⟨owed s pair - viewsOf call.2.sent pair, by omega, ?_⟩
  unfold owed at hset hpart ⊢
  dsimp only at hset ⊢
  omega

theorem owed_start (request : Request) (data : Ledger) :
    owed ⟨data, s.calls ++ [(request, enter request)]⟩ pair = owed s pair := by
  unfold owed
  rw [List.map_append, List.sum_append]
  cases request with
  | add setId options day => rfl
  | drain => rfl

/-- **Every action covers what is counted and owed.** -/
theorem covers_step (hpair : Plain pair) (action : Action)
    (h : s.data.counted.getD pair 0 + owed s pair ≤ s.data.found pair) :
    (reporting.step s action).data.counted.getD pair 0 + owed (reporting.step s action) pair ≤
      (reporting.step s action).data.found pair := by
  obtain hsame | ⟨request, phase, rfl, henter, hstep⟩ |
    ⟨i, input, request, phase, rfl, hcall, hstep⟩ := step_cases reporting s action
  · rw [hsame]
    exact h
  · obtain rfl := Option.some.inj henter
    rw [hstep, owed_start]
    exact h
  · obtain ⟨rest, hbefore, hafter⟩ := owed_split pair hcall
      (request, (statement input s.data phase).2) (statement input s.data phase).1
    have hone := covers_statement input s.data phase hpair rest (by rw [← hbefore]; exact h)
    rw [hstep]
    exact hafter ▸ hone

/-- **Every action as asked keeps them equal.** -/
theorem even_step (hbatches : BatchesPlain s) (hasked : AsksOf Phase.Once s action)
    (h : ∀ pair, s.data.counted.getD pair 0 + owed s pair = s.data.found pair) (pair : Pair) :
    (reporting.step s action).data.counted.getD pair 0 + owed (reporting.step s action) pair =
      (reporting.step s action).data.found pair := by
  obtain hsame | ⟨request, phase, rfl, henter, hstep⟩ |
    ⟨i, input, request, phase, rfl, hcall, hstep⟩ := step_cases reporting s action
  · rw [hsame]
    exact h pair
  · obtain rfl := Option.some.inj henter
    rw [hstep, owed_start]
    exact h pair
  · obtain ⟨rest, hbefore, hafter⟩ := owed_split pair hcall
      (request, (statement input s.data phase).2) (statement input s.data phase).1
    have hone := even_statement (hbatches i request phase hcall) (hasked _ hcall) pair rest
      (by rw [← hbefore]; exact h pair)
    rw [hstep]
    exact hafter ▸ hone

/-- **In every state a run reaches with no drain under way, no counted view is
lost, and every one counts once where every statement is as asked.** -/
theorem counted_at_least_once (actions : List Action) (hidle : Idle (run reporting.step fresh actions)) :
    Accounted (run reporting.step fresh actions) actions := by
  have hbatches : BatchesPlain fresh := fun i request phase hcall =>
    absurd hcall.symm (Option.some_ne_none _)
  constructor
  · intro pair hpair
    have hcovers := invariant_of_forall
      (I := fun s : State => s.data.counted.getD pair 0 + owed s pair ≤ s.data.found pair)
      (fun s action h => covers_step hpair action h) (s := fresh) (Nat.zero_le _) actions
    rw [owed_of_idle hidle] at hcovers
    exact hcovers
  · intro hasked pair
    have heven := invariant
      (I := fun s : State => BatchesPlain s ∧
        ∀ pair, s.data.counted.getD pair 0 + owed s pair = s.data.found pair)
      (fun s action hok h => ⟨batchesPlain_step h.1 action, even_step h.1 hok h.2⟩) hasked
      ⟨hbatches, fun _ => rfl⟩
    have hpair := heven.2 pair
    rw [owed_of_idle hidle] at hpair
    exact hpair.symm

/-! ## A lost answer -/

def advance (call : ℕ) (input : Input) : Action := .advance call input

/-- One view is counted, and a drain posts it, with the answer lost or not. Then
another drain. -/
def twoDrains (first : Input) : List Action :=
  [.start (.add "set" [some "engraving"] "2026-09-29"), advance 0 {}, .start .drain, advance 1 {},
    advance 1 first, advance 1 {}, .start .drain, advance 2 {}, advance 2 {}, advance 2 {}]

/-- **A view whose report the cloud recorded unheard counts twice.** -/
theorem lost_answer_counts_twice :
    ¬ ∀ actions : List Action, Idle (run reporting.step fresh actions) → ∀ pair,
      (run reporting.step fresh actions).data.found pair =
        (run reporting.step fresh actions).data.counted.getD pair 0 := by
  intro h
  have hidle : Idle (run reporting.step fresh (twoDrains { lost := 1, answer := .status 0 })) := by
    decide +kernel
  have htwice := h _ hidle ("set", "engraving", "2026-09-29")
  exact absurd htwice (by decide +kernel)

/-- **A view whose report was answered counts once.** -/
theorem answered_counts_once :
    (run reporting.step fresh (twoDrains {})).data.found ("set", "engraving", "2026-09-29") =
        (run reporting.step fresh (twoDrains {})).data.counted.getD
          ("set", "engraving", "2026-09-29") 0 ∧
      (run reporting.step fresh (twoDrains {})).data.cloud.getD
        ("set", "engraving", "2026-09-29") 0 = 1 :=
  ⟨(counted_at_least_once (twoDrains {}) (by decide +kernel)).once (by decide +kernel) _,
    by decide +kernel⟩

end Optionia.Views
