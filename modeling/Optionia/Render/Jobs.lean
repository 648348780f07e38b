import Mathlib.Data.Int.Notation
import Mathlib.Data.Nat.Notation
/-!
# Render jobs

A row of `render_jobs` is one request to render a line's design to a print
file. The worker renders it and leaves the bytes in the row; the plugin fetches
them, stores the file and says so, and the row keeps the file's address and
lets the bytes go. An id that `UUID()` makes stands as a natural number that was
never given out before.
-/

namespace Optionia.Render

abbrev Bytes := List UInt8

structure RenderJob where
  id : ℕ
  storeId : String
  lineRef : String
  scene : String
  width : ℤ
  height : ℤ
  attempts : ℕ
  createdAt : ℤ
  processedAt : Option ℤ
  deadAt : Option ℤ
  fileUrl : Option String
  lastError : Option String
  png : Option Bytes
  collectBy : Option ℤ
  deriving DecidableEq

inductive RenderStatus where
  | preparing
  | rendered
  | ready
  | failed
  deriving DecidableEq

/-- `statusOf`: what is dead is tested first. -/
def statusOf (row : RenderJob) : RenderStatus :=
  if row.deadAt ≠ none then .failed
  else if row.fileUrl ≠ none then .ready
  else if row.processedAt ≠ none then .rendered
  else .preparing

/-- The row after `markCollected`. -/
def RenderJob.collected (row : RenderJob) (fileUrl : String) : RenderJob :=
  { row with fileUrl := some fileUrl, png := none, collectBy := none }

/-- A job that was just accepted. -/
def fresh (id : ℕ) (storeId lineRef scene : String) (width height createdAt : ℤ) : RenderJob where
  id := id
  storeId := storeId
  lineRef := lineRef
  scene := scene
  width := width
  height := height
  attempts := 0
  createdAt := createdAt
  processedAt := none
  deadAt := none
  fileUrl := none
  lastError := none
  png := none
  collectBy := none

def MAX_RENDER_ATTEMPTS : ℕ := 3

def COLLECT_WITHIN_MS : ℤ := 24 * 60 * 60 * 1000

/-- What `render` makes of a scene. -/
inductive Outcome where
  | ok (png : Bytes) (imageFailures : String)
  | failed (message : String)
  deriving DecidableEq

/-- The row after the result of a render is written. -/
def RenderJob.written (row : RenderJob) (attempts : ℕ) (now : ℤ) : Outcome → RenderJob
  | .ok png imageFailures =>
    { row with
      processedAt := some now
      lastError := if imageFailures = "" then none else some imageFailures
      attempts := attempts
      png := some png
      collectBy := some (now + COLLECT_WITHIN_MS) }
  | .failed message =>
    { row with
      lastError := some message
      attempts := attempts
      deadAt := if MAX_RENDER_ATTEMPTS ≤ attempts then some now else none }

theorem written_kept (row : RenderJob) (attempts : ℕ) (now : ℤ) (outcome : Outcome) :
    (row.written attempts now outcome).fileUrl = row.fileUrl ∧
      (row.processedAt ≠ none → (row.written attempts now outcome).processedAt ≠ none) := by
  cases outcome with
  | ok png imageFailures => exact ⟨rfl, fun _ => Option.some_ne_none now⟩
  | failed message => exact ⟨rfl, fun h => h⟩

/-- What `collect` serves of a row. -/
def RenderJob.servable (row : RenderJob) : Option Bytes :=
  match row.png with
  | some png => if png = [] then none else some png
  | none => none

end Optionia.Render
