import Mathlib.Data.Int.Notation
import Mathlib.Logic.Function.Basic
import Optionia.Lib.OrderedMap
import Optionia.Lib.Runs
/-!
# Who works an event

A billing event is a row, and whoever runs its handler is a runner: the
delivery that wrote the row, a redelivery that found it unfinished, or a
worker that claimed it. Each statement, each transaction and each run of a
handler is one action, and any runner may die between two of them. A runner is
known to the table by nothing but `processedAt`, which stands for unfinished
and for being worked on alike.
-/

namespace Optionia.Billing.Runners

/-! ## Rows -/

def maxAttempts : ℕ := 5

/-- `RETRY_AFTER_MS` -/
def retryAfter : ℤ := 60000

/-- The row of an event. -/
structure EventRow where
  createdAt : ℤ
  processedAt : Option ℤ
  error : Option String
  attempts : ℕ
  deadAt : Option ℤ

/-- A run of a handler that a runner owes. -/
structure Job where
  eventId : String
  /-- A worker's count of its attempts; a delivery has none. -/
  attempts : Option ℕ

/-- Where a runner stands. -/
inductive Phase where
  | duplicate (eventId : String)
  /-- It is about to start the first of its jobs. -/
  | ready (jobs : List Job)
  | working (job : Job) (rest : List Job)
  /-- A handler is through, with an error or without. -/
  | worked (job : Job) (error : Option String) (rest : List Job)

/-- The jobs a runner has taken and not settled. -/
def Phase.jobs : Phase → List Job
  | duplicate _ => []
  | ready jobs => jobs
  | working job rest => job :: rest
  | worked job _ rest => job :: rest

/-- Those among them it has not started. -/
def Phase.waiting : Phase → List Job
  | duplicate _ => []
  | ready jobs => jobs
  | working _ rest => rest
  | worked _ _ rest => rest

/-- The table, the runners, and how often workers started each handler. -/
structure Site where
  /-- `billing_events`, by the provider's ids. -/
  rows : OrderedMap String EventRow
  runners : ℕ → Option Phase
  starts : String → ℕ

/-! ## Actions -/

/-- What can happen. -/
inductive Action where
  | deliver (runner : ℕ) (eventId : String) (now : ℤ)
  /-- A delivery that found a row looks at it. -/
  | look (runner : ℕ)
  /-- A worker claims what can be retried, past the rows others lock. -/
  | claim (runner : ℕ) (now : ℤ) (locked : List String)
  | start (runner : ℕ)
  | finish (runner : ℕ) (error : Option String)
  | settle (runner : ℕ) (now : ℤ)
  | die (runner : ℕ)

namespace Site

variable (s : Site)

/-- The same with a runner elsewhere, or gone. -/
def move (runner : ℕ) (phase : Option Phase) : Site :=
  { s with runners := Function.update s.runners runner phase }

/-- A row that workers retry: unfinished, not given up, and old enough. -/
def retryable (now : ℤ) (locked : List String) (row : String × EventRow) : Bool :=
  row.2.processedAt.isNone && row.2.deadAt.isNone &&
    decide (row.2.createdAt < now - retryAfter) && decide (row.1 ∉ locked)

/-- The rows a claim takes: the fifty oldest. -/
def claimed (now : ℤ) (locked : List String) : List (String × EventRow) :=
  ((s.rows.entries.filter (retryable now locked)).mergeSort
    fun a b => a.2.createdAt ≤ b.2.createdAt).take 50

/-- `claim`: each row taken counts one more attempt, before the work. -/
def claim (runner : ℕ) (now : ℤ) (locked : List String) : Site :=
  let taken := s.claimed now locked
  let jobs := taken.map fun row => ⟨row.1, some (row.2.attempts + 1)⟩
  { s.move runner (if jobs.isEmpty then none else some (.ready jobs)) with
    rows := s.rows.mapAt (taken.map Prod.fst) fun row => { row with attempts := row.attempts + 1 } }

/-- `record`, up to its insert. -/
def deliver (runner : ℕ) (eventId : String) (now : ℤ) : Site :=
  match s.rows.get? eventId with
  | some _ => s.move runner (some (.duplicate eventId))
  | none => { s.move runner (some (.ready [⟨eventId, none⟩])) with
      rows := s.rows.set eventId ⟨now, none, none, 0, none⟩ }

/-- `record`, where its insert found a row: what is unfinished is worked. -/
def look (runner : ℕ) (eventId : String) : Site :=
  match s.rows.get? eventId with
  | none => s.move runner none
  | some row =>
    s.move runner (if row.processedAt.isSome then none else some (.ready [⟨eventId, none⟩]))

def begin (runner : ℕ) (job : Job) (rest : List Job) : Site :=
  { s.move runner (some (.working job rest)) with
    starts := if job.attempts.isSome then
      Function.update s.starts job.eventId (s.starts job.eventId + 1) else s.starts }

end Site

/-- The row once a job is settled. A worker writes its own count, and gives up
or takes that back. -/
def EventRow.settled (row : EventRow) (job : Job) (error : Option String) (now : ℤ) : EventRow :=
  match error, job.attempts with
  | none, none => { row with processedAt := some now, error := none }
  | none, some n => { row with processedAt := some now, error := none, attempts := n }
  | some message, none => { row with error := some message }
  | some message, some n =>
    { row with
      error := some message, attempts := n, deadAt := if maxAttempts ≤ n then some now else none }

/-- What came of a handler is written, and the next job is up. -/
def Site.settle (s : Site) (runner : ℕ) (job : Job) (error : Option String) (rest : List Job)
    (now : ℤ) : Site :=
  { s.move runner (if rest.isEmpty then none else some (.ready rest)) with
    rows := s.rows.mapAt [job.eventId] fun row => row.settled job error now }

/-- One action; what cannot happen changes nothing. -/
def step (s : Site) : Action → Site
  | .deliver runner eventId now =>
    if (s.runners runner).isSome then s else s.deliver runner eventId now
  | .look runner =>
    match s.runners runner with
    | some (.duplicate eventId) => s.look runner eventId
    | _ => s
  | .claim runner now locked =>
    if (s.runners runner).isSome then s else s.claim runner now locked
  | .start runner =>
    match s.runners runner with
    | some (.ready (job :: rest)) => s.begin runner job rest
    | _ => s
  | .finish runner error =>
    match s.runners runner with
    | some (.working job rest) => s.move runner (some (.worked job error rest))
    | _ => s
  | .settle runner now =>
    match s.runners runner with
    | some (.worked job error rest) => s.settle runner job error rest now
    | _ => s
  | .die runner => s.move runner none

def empty : Site := ⟨∅, fun _ => none, fun _ => 0⟩

/-! ## What is promised -/

def Site.jobsOf (s : Site) (runner : ℕ) : List Job := (s.runners runner).elim [] Phase.jobs

def Site.waitingOf (s : Site) (runner : ℕ) : List Job := (s.runners runner).elim [] Phase.waiting

/-- A handler of an event runs. -/
def Site.Works (s : Site) (runner : ℕ) (eventId : String) : Prop :=
  ∃ job rest, s.runners runner = some (.working job rest) ∧ job.eventId = eventId

/-- **No two runs of the handler of one event are in progress.** -/
def OneAtATime (s : Site) : Prop :=
  ∀ runner runner' eventId, s.Works runner eventId → s.Works runner' eventId → runner = runner'

/-- **A handler that starts is of an event that is not processed.** -/
def StartsUnprocessed (s : Site) : Action → Prop
  | .start runner => ∀ job rest, s.runners runner = some (.ready (job :: rest)) →
      ∀ row, s.rows.get? job.eventId = some row → row.processedAt = none
  | _ => True

/-- Workers are through with an event: it was processed, or it was given up. -/
def Site.Closed (s : Site) (eventId : String) : Prop :=
  ∃ row, s.rows.get? eventId = some row ∧
    (row.processedAt.isSome = true ∨ row.deadAt.isSome = true)

/-- **Workers start the handler of an event at most so often**; and once they
did, and the last is settled or died, they are through with it. -/
def GivesUp (s : Site) : Prop :=
  ∀ eventId, s.starts eventId ≤ maxAttempts ∧
    (s.starts eventId = maxAttempts →
      (∃ runner, ∃ job ∈ s.jobsOf runner, job.eventId = eventId ∧ job.attempts.isSome = true) ∨
        s.Closed eventId)

/-! ## What it takes -/

/-- **An event is taken up only where no runner has it.** -/
def TakesFree (s : Site) : Action → Prop
  | .look runner => ∀ eventId, s.runners runner = some (.duplicate eventId) →
      ∀ row, s.rows.get? eventId = some row → row.processedAt = none →
        ∀ runner', ∀ job ∈ s.jobsOf runner', job.eventId ≠ eventId
  | .claim _ now locked => ∀ row ∈ s.claimed now locked,
      ∀ runner', ∀ job ∈ s.jobsOf runner', job.eventId ≠ row.1
  | _ => True

/-- **No worker dies with the last start of an event.** -/
def SettlesLast (s : Site) : Action → Prop
  | .die runner => ∀ job ∈ s.jobsOf runner, job.attempts.isSome = true →
      s.starts job.eventId ≠ maxAttempts
  | _ => True

end Optionia.Billing.Runners
