import Optionia.Lib.Calls
import Optionia.Render.Jobs
/-!
# The render worker

`RenderWorkerService` on one job: a pass claims the job in a transaction of its
own, renders it, and writes the result by the job's id. Passes, collections and
crashes interleave; a pass that crashes is one whose next step is never taken.
-/

namespace Optionia.Render

open Runs

def RENDER_AFTER_MS : ℤ := 5000

/-- A job that `claim` takes. -/
def RenderJob.claimable (row : RenderJob) (cutoff : ℤ) : Bool :=
  decide (row.processedAt = none ∧ row.deadAt = none ∧ row.createdAt < cutoff)

/-! ## Calls -/

/-- What is asked. -/
inductive Request where
  | renderPending
  | markCollected (fileUrl : String)
  deriving DecidableEq

/-- How far a call is. -/
inductive Phase where
  | claiming
  | claimed (attempts : ℕ)
  /-- It has started the render, and has this result or none yet. -/
  | started (attempts : ℕ) (outcome : Outcome)
  | written
  | idle
  | marking (fileUrl : String)
  | marked
  deriving DecidableEq

/-- The time of a step, and what a render comes to in it. -/
structure Input where
  now : ℤ
  outcome : Outcome
  deriving DecidableEq

/-- The next step of a call. -/
def statement (input : Input) (row : RenderJob) : Phase → RenderJob × Phase
  | .claiming =>
    if row.claimable (input.now - RENDER_AFTER_MS) then
      ({ row with attempts := row.attempts + 1 }, .claimed (row.attempts + 1))
    else (row, .idle)
  | .claimed attempts => (row, .started attempts input.outcome)
  | .started attempts outcome => (row.written attempts input.now outcome, .written)
  | .marking fileUrl => (row.collected fileUrl, .marked)
  | phase => (row, phase)

/-- The phase a call starts in. -/
def enter : Request → Phase
  | .renderPending => .claiming
  | .markCollected fileUrl => .marking fileUrl

def service : Calls.System RenderJob Request Phase Input where
  enter := fun _ request => some (enter request)
  statement := statement

abbrev State := Calls.State RenderJob Request Phase

abbrev Action := Calls.Action Request Input

/-- The state after a run on a job that was just accepted. -/
abbrev served (job : RenderJob) (actions : List Action) : State :=
  run service.step ⟨job, []⟩ actions

/-! ## The statement -/

/-- A pass that has started the render. -/
def Phase.hasStarted : Phase → Bool
  | .started _ _ | .written => true
  | _ => false

def Moves (status status' : RenderStatus) : Prop :=
  status' = status ∨ (status = .preparing ∧ status' = .rendered) ∨
    (status = .rendered ∧ status' = .ready) ∨ (status = .preparing ∧ status' = .failed)

/-- **The lifecycle of a job.** -/
structure Lifecycle (job : RenderJob) (actions : List Action) : Prop where
  /-- Its render is started so many times at most. -/
  starts : (served job actions).calls.countP (fun c => c.2.hasStarted) ≤ MAX_RENDER_ATTEMPTS
  moves : ∀ before a after, actions = before ++ a :: after →
    Moves (statusOf (served job before).data) (statusOf (service.step (served job before) a).data)
  /-- What is rendered, ready or failed is out of reach of workers. -/
  reach : statusOf (served job actions).data ≠ .preparing →
    ∀ cutoff, (served job actions).data.claimable cutoff = false
  collected : ∀ before after, actions = before ++ after →
    (∃ c ∈ (served job before).calls, c.2 = .marked) →
      (served job actions).data.png = none ∧ (served job actions).data.fileUrl ≠ none

/-! ## When it holds -/

/-- What a write finds for the lifecycle to go on. -/
def RenderJob.Awaits (row : RenderJob) (attempts : ℕ) : Outcome → Prop
  | .ok _ _ => row.fileUrl = none
  | .failed _ =>
    if MAX_RENDER_ATTEMPTS ≤ attempts then row.processedAt = none ∧ row.fileUrl = none
    else row.deadAt = none ∧ (row.processedAt = none → row.attempts = attempts)

instance (row : RenderJob) (attempts : ℕ) : ∀ outcome, Decidable (row.Awaits attempts outcome)
  | .ok _ _ => inferInstanceAs (Decidable (row.fileUrl = none))
  | .failed _ => inferInstanceAs (Decidable (if MAX_RENDER_ATTEMPTS ≤ attempts then _ else _))

/-- What the next step of a call finds for the lifecycle to go on. -/
def RenderJob.Heeds (row : RenderJob) (input : Input) : Phase → Prop
  | .claiming =>
    row.claimable (input.now - RENDER_AFTER_MS) = true → row.attempts < MAX_RENDER_ATTEMPTS
  | .started attempts outcome => row.Awaits attempts outcome
  | .marking _ => statusOf row ≠ .preparing
  | _ => True

instance (row : RenderJob) (input : Input) : ∀ phase, Decidable (row.Heeds input phase)
  | .claiming => inferInstanceAs (Decidable (_ → _))
  | .started attempts outcome => inferInstanceAs (Decidable (row.Awaits attempts outcome))
  | .marking _ => inferInstanceAs (Decidable (statusOf row ≠ .preparing))
  | .claimed _ | .written | .idle | .marked => inferInstanceAs (Decidable True)

/-- **No pass claims a job that has used its attempts, or writes over what
became of the job meanwhile, and no collection is recorded before a render.** -/
def Heeded (s : State) : Action → Prop
  | .start _ => True
  | .advance call input => ∀ c ∈ s.calls[call]?, s.data.Heeds input c.2

instance (s : State) : ∀ a : Action, Decidable (Heeded s a)
  | .start _ => inferInstanceAs (Decidable True)
  | .advance call input => inferInstanceAs (Decidable (∀ c ∈ s.calls[call]?, s.data.Heeds input c.2))

/-! ## What every step keeps -/

/-- A pass that has claimed the job. -/
def Phase.hasClaimed : Phase → Bool
  | .claimed _ | .started _ _ | .written => true
  | _ => false

variable {phase : Phase} {calls : List (Request × Phase)}

theorem hasClaimed_of_hasStarted (h : phase.hasStarted = true) : phase.hasClaimed = true := by
  cases phase with
  | started attempts outcome => rfl
  | written => rfl
  | _ => exact absurd h Bool.false_ne_true

/-- **What every step keeps.** -/
structure Alive (s : State) : Prop where
  /-- So many passes have claimed the job at most. -/
  limited : s.calls.countP (fun c => c.2.hasClaimed) ≤ MAX_RENDER_ATTEMPTS
  /-- Until it is finished the row says how many. -/
  counted : s.data.processedAt = none → s.data.deadAt = none →
    s.calls.countP (fun c => c.2.hasClaimed) = s.data.attempts
  /-- What has a file was rendered or given up. -/
  filed : s.data.fileUrl ≠ none → s.data.processedAt ≠ none ∨ s.data.deadAt ≠ none
  collected : (∃ c ∈ s.calls, c.2 = .marked) → s.data.png = none ∧ s.data.fileUrl ≠ none

theorem alive_start (id : ℕ) (storeId lineRef scene : String) (width height createdAt : ℤ) :
    Alive ⟨fresh id storeId lineRef scene width height createdAt, []⟩ where
  limited := Nat.zero_le _
  counted := fun _ _ => rfl
  filed := fun h => absurd rfl h
  collected := fun ⟨_, hmem, _⟩ => absurd hmem List.not_mem_nil

theorem not_claimable {row : RenderJob} (hfiled : row.fileUrl ≠ none →
    row.processedAt ≠ none ∨ row.deadAt ≠ none) (h : statusOf row ≠ .preparing) (cutoff : ℤ) :
    row.claimable cutoff = false := by
  refine decide_eq_false ?_
  rintro ⟨hprocessed, hdead, -⟩
  have hurl : row.fileUrl = none := by
    by_contra hurl
    obtain hnot | hnot := hfiled hurl
    · exact hnot hprocessed
    · exact hnot hdead
  refine h ?_
  simp [statusOf, hprocessed, hdead, hurl]

theorem marked_cases {i : ℕ} {request : Request}
    (h : ∃ c ∈ calls.set i (request, phase), c.2 = .marked) :
    (∃ c ∈ calls, c.2 = .marked) ∨ phase = .marked := by
  obtain ⟨c, hmem, hmarked⟩ := h
  obtain hmem | rfl := List.mem_or_eq_of_mem_set hmem
  · exact .inl ⟨c, hmem, hmarked⟩
  · exact .inr hmarked

variable {s : State} {input : Input}

/-- **A result that finds the job as it should** keeps what every step keeps. -/
theorem alive_written {attempts : ℕ} {outcome : Outcome} (h : Alive s)
    (hok : s.data.Awaits attempts outcome)
    (hcount : calls.countP (fun c => c.2.hasClaimed) = s.calls.countP fun c => c.2.hasClaimed)
    (hmarked : (∃ c ∈ calls, c.2 = .marked) → ∃ c ∈ s.calls, c.2 = .marked) :
    Alive ⟨s.data.written attempts input.now outcome, calls⟩ := by
  cases outcome with
  | ok png imageFailures =>
    refine ⟨hcount.trans_le h.limited, fun hnone => absurd hnone (Option.some_ne_none _),
      fun _ => .inl (Option.some_ne_none _), fun hsome => ?_⟩
    exact absurd hok (h.collected (hmarked hsome)).2
  | failed message =>
    have hwait : if MAX_RENDER_ATTEMPTS ≤ attempts then
        s.data.processedAt = none ∧ s.data.fileUrl = none
        else s.data.deadAt = none ∧ (s.data.processedAt = none → s.data.attempts = attempts) := hok
    by_cases hlast : MAX_RENDER_ATTEMPTS ≤ attempts
    · rw [if_pos hlast] at hwait
      have hdead : (s.data.written attempts input.now (.failed message)).deadAt ≠ none := by
        rw [RenderJob.written, if_pos hlast]
        exact Option.some_ne_none _
      exact ⟨hcount.trans_le h.limited, fun _ hnone => absurd hnone hdead, fun _ => .inr hdead,
        fun hsome => h.collected (hmarked hsome)⟩
    · rw [if_neg hlast] at hwait
      refine ⟨hcount.trans_le h.limited, fun hnone _ => ?_, fun hurl => ?_,
        fun hsome => h.collected (hmarked hsome)⟩
      · exact (hcount.trans (h.counted hnone hwait.1)).trans (hwait.2 hnone)
      · obtain hprocessed | hdead := h.filed hurl
        · exact .inl hprocessed
        · exact absurd hwait.1 hdead

/-- **Every step that is heeded keeps it.** -/
theorem Alive.statement {i : ℕ} {request : Request} (h : Alive s)
    (hcall : s.calls[i]? = some (request, phase)) (hok : s.data.Heeds input phase) :
    Alive ⟨(Render.statement input s.data phase).1,
      s.calls.set i (request, (Render.statement input s.data phase).2)⟩ := by
  have hcount : ∀ phase', (s.calls.set i (request, phase')).countP (fun c => c.2.hasClaimed) +
      (if phase.hasClaimed then 1 else 0) =
        s.calls.countP (fun c => c.2.hasClaimed) + if phase'.hasClaimed then 1 else 0 :=
    fun phase' => Calls.System.countP_set hcall (request, phase') fun c => c.2.hasClaimed
  have hmarked : ∀ phase', phase' ≠ .marked →
      (∃ c ∈ s.calls.set i (request, phase'), c.2 = .marked) → ∃ c ∈ s.calls, c.2 = .marked :=
    fun phase' hnot hsome => (marked_cases hsome).resolve_right hnot
  -- A step that leaves the row and the claims as they were.
  have hidle : ∀ phase', phase'.hasClaimed = phase.hasClaimed → (phase' = .marked → phase = .marked) →
      Alive ⟨s.data, s.calls.set i (request, phase')⟩ := by
    intro phase' hsame hmark
    have hcount' := hcount phase'
    rw [hsame] at hcount'
    have heq : (s.calls.set i (request, phase')).countP (fun c => c.2.hasClaimed) =
        s.calls.countP fun c => c.2.hasClaimed := by omega
    refine ⟨heq.le.trans h.limited, fun hnone hdead => heq.trans (h.counted hnone hdead), h.filed,
      fun hsome => h.collected ?_⟩
    obtain hold | rfl := marked_cases hsome
    · exact hold
    · exact ⟨_, List.mem_of_getElem? hcall, hmark rfl⟩
  cases phase with
  | claiming =>
    have hcount' := hcount (.claimed (s.data.attempts + 1))
    unfold Render.statement
    dsimp only
    split_ifs with hclaimable
    · have hlimit : s.data.attempts < MAX_RENDER_ATTEMPTS := hok hclaimable
      obtain ⟨hprocessed, hdead, -⟩ := of_decide_eq_true (by exact hclaimable)
      have hattempts := h.counted hprocessed hdead
      have hone : (s.calls.set i (request, .claimed (s.data.attempts + 1))).countP
          (fun c => c.2.hasClaimed) = s.data.attempts + 1 := by
        simp only [Phase.hasClaimed, Bool.false_eq_true, if_false, if_true] at hcount' hattempts ⊢
        omega
      exact ⟨hone.le.trans hlimit, fun _ _ => hone, h.filed,
        fun hsome => h.collected (hmarked (.claimed (s.data.attempts + 1)) nofun hsome)⟩
    · exact hidle .idle rfl nofun
  | claimed attempts => exact hidle (.started attempts input.outcome) rfl nofun
  | started attempts outcome =>
    have hcount' := hcount .written
    exact alive_written h hok (Nat.add_right_cancel hcount') (hmarked .written nofun)
  | marking fileUrl =>
    have hcount' := hcount .marked
    refine ⟨(Nat.add_right_cancel hcount').le.trans h.limited, fun hnone hdead =>
      (Nat.add_right_cancel hcount').trans (h.counted hnone hdead), fun _ => ?_,
      fun _ => ⟨rfl, Option.some_ne_none fileUrl⟩⟩
    -- What is not being prepared was rendered or given up.
    by_contra hnot
    have hprocessed : s.data.processedAt = none := by
      by_contra hprocessed
      exact hnot (.inl hprocessed)
    have hdead : s.data.deadAt = none := by
      by_contra hdead
      exact hnot (.inr hdead)
    have hurl : s.data.fileUrl = none := by
      by_contra hurl
      exact hnot (h.filed hurl)
    refine hok ?_
    simp [statusOf, hprocessed, hdead, hurl]
  | written => exact hidle .written rfl nofun
  | idle => exact hidle .idle rfl nofun
  | marked => exact hidle .marked rfl fun _ => rfl

/-- **A step that is heeded moves the status forward.** -/
theorem moves_statement (hok : s.data.Heeds input phase) :
    Moves (statusOf s.data) (statusOf (Render.statement input s.data phase).1) := by
  cases phase with
  | claiming =>
    unfold Render.statement
    dsimp only
    split_ifs
    · exact .inl rfl
    · exact .inl rfl
  | started attempts outcome =>
    cases outcome with
    | ok png imageFailures =>
      have hurl : s.data.fileUrl = none := hok
      by_cases hdead : s.data.deadAt = none
      · have hafter : statusOf (s.data.written attempts input.now (.ok png imageFailures)) =
            .rendered := by
          simp [statusOf, RenderJob.written, hurl, hdead]
        by_cases hprocessed : s.data.processedAt = none
        · exact .inr (.inl ⟨by simp [statusOf, hurl, hdead, hprocessed], hafter⟩)
        · exact .inl (hafter.trans (by simp [statusOf, hurl, hdead, hprocessed]))
      · refine .inl ?_
        simp [statusOf, Render.statement, RenderJob.written, hdead]
    | failed message =>
      have hwait : if MAX_RENDER_ATTEMPTS ≤ attempts then
          s.data.processedAt = none ∧ s.data.fileUrl = none
          else s.data.deadAt = none ∧ (s.data.processedAt = none → s.data.attempts = attempts) := hok
      by_cases hlast : MAX_RENDER_ATTEMPTS ≤ attempts
      · rw [if_pos hlast] at hwait
        have hafter : statusOf (s.data.written attempts input.now (.failed message)) = .failed := by
          simp [statusOf, RenderJob.written, hlast]
        by_cases hdead : s.data.deadAt = none
        · exact .inr (.inr (.inr ⟨by simp [statusOf, hwait.1, hwait.2, hdead], hafter⟩))
        · exact .inl (hafter.trans (by simp [statusOf, hdead]))
      · rw [if_neg hlast] at hwait
        refine .inl ?_
        simp [statusOf, Render.statement, RenderJob.written, hlast, hwait.1]
  | marking fileUrl =>
    by_cases hdead : s.data.deadAt = none
    · have hafter : statusOf (s.data.collected fileUrl) = .ready := by
        simp [statusOf, RenderJob.collected, hdead]
      by_cases hurl : s.data.fileUrl = none
      · have hprocessed : s.data.processedAt ≠ none := fun hnone =>
          hok (by simp [statusOf, hdead, hurl, hnone])
        exact .inr (.inr (.inl ⟨by simp [statusOf, hdead, hurl, hprocessed], hafter⟩))
      · exact .inl (hafter.trans (by simp [statusOf, hdead, hurl]))
    · refine .inl ?_
      simp [statusOf, Render.statement, RenderJob.collected, hdead]
  | _ => exact .inl rfl

/-- **Every action that is heeded keeps what every step keeps**, and moves the
status forward. -/
theorem Alive.step {a : Action} (h : Alive s) (hok : Heeded s a) :
    Alive (service.step s a) ∧ Moves (statusOf s.data) (statusOf (service.step s a).data) := by
  obtain hsame | ⟨request, phase, rfl, henter, hstep⟩ |
    ⟨i, input, request, phase, rfl, hcall, hstep⟩ := Calls.System.step_cases service s a
  · rw [hsame]
    exact ⟨h, .inl rfl⟩
  · obtain rfl : enter request = phase := Option.some.inj henter
    have hnew : (enter request).hasClaimed = false ∧ enter request ≠ .marked := by
      cases request with
      | renderPending => exact ⟨rfl, by simp [enter]⟩
      | markCollected fileUrl => exact ⟨rfl, by simp [enter]⟩
    have hcount : (s.calls ++ [(request, enter request)]).countP (fun c => c.2.hasClaimed) =
        s.calls.countP fun c => c.2.hasClaimed := by
      rw [List.countP_append, List.countP_singleton, hnew.1]
      rfl
    rw [hstep]
    refine ⟨⟨hcount.le.trans h.limited, fun hnone hdead => hcount.trans (h.counted hnone hdead),
      h.filed, fun ⟨c, hmem, hmarked⟩ => h.collected ?_⟩, .inl rfl⟩
    obtain hold | hsame := List.mem_append.1 hmem
    · exact ⟨c, hold, hmarked⟩
    · obtain rfl := List.mem_singleton.1 hsame
      exact absurd hmarked hnew.2
  · rw [hstep]
    exact ⟨h.statement hcall (hok _ hcall), moves_statement (hok _ hcall)⟩

/-! ## Runs -/

variable {id : ℕ} {storeId lineRef scene : String} {width height createdAt : ℤ}

/-- **Where results find the job as they should**, its lifecycle is kept. -/
theorem lifecycle_of_heeded {actions : List Action}
    (h : Throughout service.step Heeded
      ⟨fresh id storeId lineRef scene width height createdAt, []⟩ actions) :
    Lifecycle (fresh id storeId lineRef scene width height createdAt) actions := by
  have hall : ∀ before after, actions = before ++ after →
      Alive (served (fresh id storeId lineRef scene width height createdAt) before) := by
    rintro before after rfl
    exact invariant (fun s a hok h => (h.step hok).1) (h.of_prefix (List.prefix_append before after))
      (alive_start id storeId lineRef scene width height createdAt)
  have halive := hall actions [] (List.append_nil actions).symm
  refine ⟨?_, ?_, ?_, ?_⟩
  · refine le_trans (List.countP_mono_left fun c _ hstarted => ?_) halive.limited
    exact hasClaimed_of_hasStarted hstarted
  · rintro before a after rfl
    exact ((hall before (a :: after) rfl).step (Throughout.at h)).2
  · exact fun hstatus cutoff => not_claimable halive.filed hstatus cutoff
  · rintro before after rfl ⟨c, hmem, hmarked⟩
    obtain ⟨i, hcall⟩ := List.mem_iff_getElem?.1 hmem
    obtain ⟨request, phase⟩ := c
    obtain rfl : phase = .marked := hmarked
    have hdone : service.Done Phase.marked := fun _ _ => rfl
    refine halive.collected ⟨(request, .marked), ?_, rfl⟩
    unfold served
    rw [run_append]
    exact List.mem_of_getElem? (hdone.run hcall after)

/-! ## A render that kills its worker -/

def banner : RenderJob := fresh 0 "store" "12:3" "{}" 2000 2000 0

/-- A pass that claims the job, starts the render, and is killed by it. -/
def killedPass (i : ℕ) : List Action :=
  [.start .renderPending, .advance i ⟨6000, .failed "killed"⟩, .advance i ⟨6000, .failed "killed"⟩]

/-- **It is started a fourth time.** -/
theorem started_again : ¬ ∀ actions, Lifecycle banner actions := by
  intro h
  have hstarts := (h (killedPass 0 ++ killedPass 1 ++ killedPass 2 ++ killedPass 3)).starts
  have hfour : (served banner (killedPass 0 ++ killedPass 1 ++ killedPass 2 ++
      killedPass 3)).calls.countP (fun c => c.2.hasStarted) = 4 := by
    decide +kernel
  rw [hfour] at hstarts
  exact absurd hstarts (by decide)

/-- Two attempts that fail, one that succeeds, and its collection. -/
theorem lifecycle_of_thirdAttempt : Lifecycle banner
    [.start .renderPending, .advance 0 ⟨6000, .failed ""⟩, .advance 0 ⟨6000, .failed "too slow"⟩,
      .advance 0 ⟨6000, .failed ""⟩, .start .renderPending, .advance 1 ⟨7000, .failed ""⟩,
      .advance 1 ⟨7000, .failed "too slow"⟩, .advance 1 ⟨7000, .failed ""⟩, .start .renderPending,
      .advance 2 ⟨8000, .failed ""⟩, .advance 2 ⟨8000, .ok [137] ""⟩, .advance 2 ⟨8000, .failed ""⟩,
      .start (.markCollected "print-file"), .advance 3 ⟨9000, .failed ""⟩,
      .start .renderPending, .advance 4 ⟨9000, .failed ""⟩] :=
  lifecycle_of_heeded (by decide +kernel)

end Optionia.Render
