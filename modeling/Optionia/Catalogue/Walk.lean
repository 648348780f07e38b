import Mathlib.Logic.Function.Basic
import Optionia.Lib.Runs
/-!
# The walk over the catalogue

`CataloguePusher::run` pushes one batch of the catalogue at the offset that
`CatalogueCursor` keeps in an option, and advances it. The option is read and
written whole, by `claim`, `start`, `advance` and `release`, and deleted by
`forget`; each read, each write, each page of products and each request is a
step of its own, and any number of runs are under way at once.
-/

namespace Optionia.Catalogue

/-! ## The cursor -/

/-- The position of the walk. -/
structure Cursor where
  /-- `run_id`; none is the empty text. -/
  runId : Option ℕ
  offset : ℕ
  total : ℕ
  startedAt : ℕ
  updatedAt : ℕ
  claimedAt : ℕ
  deriving DecidableEq

namespace Cursor

/-- `EMPTY_CURSOR` -/
def empty : Cursor := ⟨none, 0, 0, 0, 0, 0⟩

def claimSeconds : ℕ := 300

def isClaimed (cursor : Cursor) (now : ℕ) : Bool :=
  cursor.claimedAt != 0 && decide (now - cursor.claimedAt < claimSeconds)

def isComplete (cursor : Cursor) : Bool :=
  cursor.runId.isSome && decide (cursor.total ≤ cursor.offset)

def hasRun (cursor : Cursor) : Bool := cursor.runId.isSome

end Cursor

/-! ## The runs -/

/-- What a run does next, with what it holds. -/
inductive Doing where
  | idle
  /-- `claim` writes what it read. -/
  | claiming (cursor : Cursor)
  /-- `push` reads the cursor. -/
  | pushing
  | first
  /-- `start` reads the claim. -/
  | starting (total : ℕ)
  | started (total claimedAt : ℕ)
  /-- `push` reads the cursor again. -/
  | resuming
  | paging (cursor : Cursor)
  | sending (runId : Option ℕ) (base count : ℕ)
  | halving (runId : Option ℕ) (base count : ℕ)
  /-- `advance` reads the cursor. -/
  | advancing (runId : Option ℕ) (base count : ℕ)
  | advanced (cursor : Cursor)
  /-- `release` reads the cursor. -/
  | releasing
  | released (cursor : Cursor)
  deriving DecidableEq

/-- What becomes of a batch. -/
inductive Reply where
  | ok
  | lost
  | tooLarge
  | failed
  deriving DecidableEq

/-- The site, its catalogue and the runs on it. -/
structure Site where
  stored : Option Cursor
  doing : ℕ → Doing
  size : ℕ
  now : ℕ
  /-- The next run id: `wp_generate_uuid4` makes one that was not there. -/
  nextRun : ℕ
  /-- The positions that were in a batch the cloud accepted. -/
  sent : ℕ → Bool
  /-- The positions that were refused as too large, alone. -/
  refused : ℕ → Bool

/-- One step of anyone. -/
inductive Move where
  /-- Cron begins a run: `claim` reads the cursor. -/
  | begin (run : ℕ)
  | option (run : ℕ)
  /-- A run reads a page of products; `fits` says which batches are within the
  byte budget. -/
  | page (run : ℕ) (fits : ℕ → Bool)
  /-- The page of a run comes back without products. -/
  | noPage (run : ℕ)
  | post (run : ℕ) (reply : Reply)
  | throws (run : ℕ)
  | crash (run : ℕ)
  | forget
  | grow (products : ℕ)
  | tick (seconds : ℕ)

def batchSize : ℕ := 250

def minBatch : ℕ := 1

/-- `fitting_slice`: how many of so many products are sent. -/
def fittingSlice (fits : ℕ → Bool) (size : ℕ) : ℕ :=
  if size ≤ minBatch then minBatch
  else if fits size then size
  else fittingSlice fits (size / 2)
termination_by size
decreasing_by
  rename_i h _
  unfold minBatch at h
  omega

namespace Site

def read (s : Site) : Cursor := s.stored.getD Cursor.empty

/-- A run goes on with something else. -/
def goOn (s : Site) (run : ℕ) (doing : Doing) : Site :=
  { s with doing := Function.update s.doing run doing }

/-- `update_option`: a value that is there already is not written. -/
def write (s : Site) (cursor : Cursor) : Site × Bool :=
  if s.stored = some cursor then (s, false) else ({ s with stored := some cursor }, true)

def span (base count : ℕ) (position : ℕ) : Bool :=
  decide (base ≤ position) && decide (position < base + count)

def accept (s : Site) (base count : ℕ) : Site :=
  { s with sent := fun position => s.sent position || span base count position }

/-- A read or a write of the option. -/
def option (s : Site) (run : ℕ) : Site :=
  match s.doing run with
  | .claiming cursor =>
    (s.write cursor).1.goOn run (if (s.write cursor).2 then .pushing else .idle)
  | .pushing =>
    let cursor := s.read
    s.goOn run (if cursor.hasRun && cursor.isComplete then .releasing
      else if !cursor.hasRun then .first else .paging cursor)
  | .starting total => s.goOn run (.started total s.read.claimedAt)
  | .started total claimedAt =>
    let cursor := ⟨some s.nextRun, 0, total, s.now, s.now, claimedAt⟩
    { (s.write cursor).1 with nextRun := s.nextRun + 1 }.goOn run .resuming
  | .resuming => s.goOn run (.paging s.read)
  | .advancing runId _ count =>
    let cursor := s.read
    s.goOn run (if runId = none ∨ cursor.runId ≠ runId then .releasing
      else .advanced { cursor with offset := cursor.offset + count, updatedAt := s.now })
  | .advanced cursor => (s.write cursor).1.goOn run .releasing
  | .releasing =>
    let cursor := s.read
    s.goOn run (if cursor.claimedAt = 0 then .idle else .released { cursor with claimedAt := 0 })
  | .released cursor => (s.write cursor).1.goOn run .idle
  | .idle | .first | .paging _ | .sending .. | .halving .. => s

/-- The page that a run reads, of so many products. -/
def page (s : Site) (run : ℕ) (products : ℕ → ℕ) (total : ℕ) (fits : ℕ → Bool) : Site :=
  match s.doing run with
  | .first => s.goOn run (if total = 0 then .releasing else .starting total)
  | .paging cursor =>
    let count := products cursor.offset
    s.goOn run (if count = 0 then
        .advancing cursor.runId cursor.offset (cursor.total - cursor.offset)
      else .sending cursor.runId cursor.offset (fittingSlice fits count))
  | _ => s

/-- The answer to what a run posts. -/
def post (s : Site) (run : ℕ) (reply : Reply) : Site :=
  match s.doing run with
  | .sending runId base count =>
    match reply with
    | .ok => (s.accept base count).goOn run (.advancing runId base count)
    | .lost => (s.accept base count).goOn run .releasing
    | .tooLarge =>
      if minBatch < count then s.goOn run (.halving runId base (max minBatch (count / 2)))
      else if count = minBatch then
        { s with refused := fun position => s.refused position || span base count position }.goOn
          run (.advancing runId base 1)
      else s.goOn run .releasing
    | .failed => s.goOn run .releasing
  | .halving runId base count =>
    match reply with
    | .ok => (s.accept base count).goOn run (.advancing runId base count)
    | .lost => (s.accept base count).goOn run .releasing
    | .tooLarge | .failed => s.goOn run .releasing
  | _ => s

def step (s : Site) : Move → Site
  | .begin run =>
    if s.doing run = .idle then
      if s.read.isClaimed s.now then s else s.goOn run (.claiming { s.read with claimedAt := s.now })
    else s
  | .option run => s.option run
  | .page run fits => s.page run (fun offset => min batchSize (s.size - offset)) s.size fits
  | .noPage run => s.page run (fun _ => 0) 0 fun _ => false
  | .post run reply => s.post run reply
  | .throws run =>
    match s.doing run with
    | .idle | .claiming _ | .releasing | .released _ => s
    | _ => s.goOn run .releasing
  | .crash run => s.goOn run .idle
  | .forget => { s with stored := none }
  | .grow products => { s with size := s.size + products }
  | .tick seconds => { s with now := s.now + seconds }

end Site

end Optionia.Catalogue
