import Mathlib.Data.List.Nodup
import Optionia.Lib.Calls
import Optionia.Render.Jobs
/-!
# Accepting a render request

`RenderJobsService.accept` checks the canvas, writes the job by an upsert on
the unique key of its line, and reads it back in a second statement. Any number
of calls run at once, and with them the worker's results and the collections,
which change rows by their id. A line has one job (`Unique`), and that is what
every call answers (`oneJob`).
-/

namespace Optionia.Render.Acceptance

open Runs

/-! ## The door -/

structure RenderRequest where
  lineRef : String
  scene : String
  width : ℤ
  height : ℤ
  deriving DecidableEq

def MAX_RENDER_MEGAPIXELS : ℤ := 36

/-- `RenderBoundsFailure`: its reason. -/
inductive BoundsFailure where
  | notPositive
  | tooLarge
  deriving DecidableEq

/-- `checkRenderBounds`, of whole numbers. -/
def checkRenderBounds (width height : ℤ) : Option BoundsFailure :=
  if width ≤ 0 ∨ height ≤ 0 then some .notPositive
  else if MAX_RENDER_MEGAPIXELS * 1000000 < width * height then some .tooLarge
  else none

structure AcceptedRender where
  id : ℕ
  duplicate : Bool
  status : RenderStatus
  fileUrl : Option String
  deriving DecidableEq

/-! ## Calls -/

/-- `render_jobs`, and the ids given out so far. -/
structure Table where
  rows : List RenderJob
  next : ℕ

/-- A row with the key of a line. -/
def ofLine (storeId lineRef : String) (row : RenderJob) : Bool :=
  decide (row.storeId = storeId ∧ row.lineRef = lineRef)

/-- What is asked. -/
inductive Request where
  | accept (storeId : String) (request : RenderRequest)
  | write (id attempts : ℕ) (outcome : Outcome)
  | markCollected (storeId : String) (id : ℕ) (fileUrl : String)
  deriving DecidableEq

/-- How far a call is. -/
inductive Phase where
  /-- `accept` checks the canvas. -/
  | checking (storeId : String) (request : RenderRequest)
  | refused (failure : BoundsFailure)
  | upserting (storeId : String) (request : RenderRequest)
  | reading (storeId lineRef : String) (duplicate : Bool)
  | accepted (answer : AcceptedRender)
  | unreadable
  | writing (id attempts : ℕ) (outcome : Outcome)
  | marking (storeId : String) (id : ℕ) (fileUrl : String)
  | changed
  deriving DecidableEq

def updateWhere (rows : List RenderJob) (fits : RenderJob → Bool)
    (change : RenderJob → RenderJob) : List RenderJob :=
  rows.map fun row => if fits row then change row else row

/-- The next statement of a call. -/
def statement (now : ℤ) (table : Table) : Phase → Table × Phase
  | .checking storeId request =>
    match checkRenderBounds request.width request.height with
    | some failure => (table, .refused failure)
    | none => (table, .upserting storeId request)
  | .upserting storeId request =>
    -- `ON DUPLICATE KEY UPDATE` leaves the row as it is.
    if table.rows.any (ofLine storeId request.lineRef) then
      (table, .reading storeId request.lineRef true)
    else
      ({ rows := table.rows ++ [fresh table.next storeId request.lineRef request.scene
          request.width request.height now]
         next := table.next + 1 }, .reading storeId request.lineRef false)
  | .reading storeId lineRef duplicate =>
    match table.rows.find? (ofLine storeId lineRef) with
    | some row => (table, .accepted ⟨row.id, duplicate, statusOf row, row.fileUrl⟩)
    | none => (table, .unreadable)
  | .writing id attempts outcome =>
    ({ table with rows := updateWhere table.rows (fun row => decide (row.id = id)) fun row =>
        row.written attempts now outcome }, .changed)
  | .marking storeId id fileUrl =>
    ({ table with rows := updateWhere table.rows (fun row =>
        decide (row.id = id ∧ row.storeId = storeId)) fun row => row.collected fileUrl }, .changed)
  | phase => (table, phase)

/-- The phase a call starts in. -/
def enter : Request → Phase
  | .accept storeId request => .checking storeId request
  | .write id attempts outcome => .writing id attempts outcome
  | .markCollected storeId id fileUrl => .marking storeId id fileUrl

def service : Calls.System Table Request Phase ℤ where
  enter := fun _ request => some (enter request)
  statement := statement

/-- The table with the calls on it. -/
abbrev State := Calls.State Table Request Phase

abbrev Action := Calls.Action Request ℤ

/-- The state after a run from an empty table. -/
abbrev served (actions : List Action) : State := run service.step ⟨⟨[], 0⟩, []⟩ actions

/-! ## Rows -/

variable {now : ℤ} {table : Table} {phase : Phase} {s : State} {storeId lineRef : String}

/-- A row as it was, but for what became of its render. -/
structure Kept (row row' : RenderJob) : Prop where
  id : row'.id = row.id
  storeId : row'.storeId = row.storeId
  lineRef : row'.lineRef = row.lineRef

theorem Kept.refl (row : RenderJob) : Kept row row := ⟨rfl, rfl, rfl⟩

theorem kept_written (row : RenderJob) (attempts : ℕ) (now : ℤ) (outcome : Outcome) :
    Kept row (row.written attempts now outcome) := by
  cases outcome with
  | ok png imageFailures => exact ⟨rfl, rfl, rfl⟩
  | failed message => exact ⟨rfl, rfl, rfl⟩

theorem kept_collected (row : RenderJob) (fileUrl : String) : Kept row (row.collected fileUrl) :=
  ⟨rfl, rfl, rfl⟩

theorem Kept.ofLine {row row' : RenderJob} (h : Kept row row') :
    ofLine storeId lineRef row' = Acceptance.ofLine storeId lineRef row := by
  unfold Acceptance.ofLine
  rw [h.storeId, h.lineRef]

/-- **What a statement does to the rows**: it keeps them all, or adds the job
of a line that has none. -/
theorem statement_rows (now : ℤ) (table : Table) (phase : Phase) :
    ((statement now table phase).1.next = table.next ∧
        ∃ change : RenderJob → RenderJob, (∀ row, Kept row (change row)) ∧
          (statement now table phase).1.rows = table.rows.map change) ∨
      ∃ storeId request, phase = .upserting storeId request ∧
        table.rows.any (ofLine storeId request.lineRef) = false ∧
          (statement now table phase).1 = ⟨table.rows ++ [fresh table.next storeId request.lineRef
            request.scene request.width request.height now], table.next + 1⟩ := by
  have hsame : table.next = table.next ∧ ∃ change : RenderJob → RenderJob,
      (∀ row, Kept row (change row)) ∧ table.rows = table.rows.map change :=
    ⟨rfl, id, Kept.refl, (List.map_id _).symm⟩
  cases phase with
  | checking storeId request =>
    unfold statement
    dsimp only
    split
    · exact .inl hsame
    · exact .inl hsame
  | upserting storeId request =>
    unfold statement
    dsimp only
    split_ifs with hany
    · exact .inl hsame
    · exact .inr ⟨storeId, request, rfl, Bool.eq_false_iff.2 hany, rfl⟩
  | reading storeId lineRef duplicate =>
    unfold statement
    dsimp only
    split
    · exact .inl hsame
    · exact .inl hsame
  | writing id attempts outcome =>
    refine .inl ⟨rfl, _, fun row => ?_, rfl⟩
    dsimp only
    split_ifs
    · exact kept_written row attempts now outcome
    · exact Kept.refl row
  | marking storeId id fileUrl =>
    refine .inl ⟨rfl, _, fun row => ?_, rfl⟩
    dsimp only
    split_ifs
    · exact kept_collected row fileUrl
    · exact Kept.refl row
  | refused failure => exact .inl hsame
  | accepted answer => exact .inl hsame
  | unreadable => exact .inl hsame
  | changed => exact .inl hsame

theorem exists_kept {row : RenderJob} (hrow : row ∈ table.rows) :
    ∃ row' ∈ (statement now table phase).1.rows, Kept row row' := by
  obtain ⟨-, change, hkept, hrows⟩ | ⟨_, _, -, -, htable⟩ := statement_rows now table phase
  · exact ⟨change row, by rw [hrows]; exact List.mem_map_of_mem hrow, hkept row⟩
  · exact ⟨row, by rw [htable]; exact List.mem_append_left _ hrow, Kept.refl row⟩

/-! ## One job for a line -/

/-- What a call holds: that its line has a job, and that it has answered it. -/
def Held (table : Table) (request : Request) : Phase → Prop
  | .checking storeId asked | .upserting storeId asked => request = .accept storeId asked
  | .reading storeId lineRef _ => (∃ asked, request = .accept storeId asked ∧
      asked.lineRef = lineRef) ∧ ∃ row ∈ table.rows, ofLine storeId lineRef row = true
  | .accepted answer => ∃ storeId asked, request = .accept storeId asked ∧
      ∃ row ∈ table.rows, ofLine storeId asked.lineRef row = true ∧ row.id = answer.id
  | .unreadable => False
  | _ => True

/-- **A line has one job**, and every call that has answered, answered it. -/
structure Unique (s : State) : Prop where
  lines : (s.data.rows.map fun row => (row.storeId, row.lineRef)).Nodup
  ids : (s.data.rows.map (·.id)).Nodup
  fresh : ∀ row ∈ s.data.rows, row.id < s.data.next
  held : ∀ (i : ℕ) request phase, s.calls[i]? = some (request, phase) → Held s.data request phase

theorem unique_start : Unique ⟨⟨[], 0⟩, []⟩ where
  lines := List.nodup_nil
  ids := List.nodup_nil
  fresh := fun _ hrow => absurd hrow List.not_mem_nil
  held := fun _ _ _ h => absurd h.symm (Option.some_ne_none _)

theorem Unique.rows_statement (h : Unique s) (now : ℤ) (phase : Phase) :
    ((statement now s.data phase).1.rows.map fun row => (row.storeId, row.lineRef)).Nodup ∧
      ((statement now s.data phase).1.rows.map (·.id)).Nodup ∧
        ∀ row ∈ (statement now s.data phase).1.rows,
          row.id < (statement now s.data phase).1.next := by
  obtain ⟨hnext, change, hkept, hrows⟩ | ⟨storeId, request, -, hnone, htable⟩ :=
    statement_rows now s.data phase
  · rw [hnext, hrows, List.map_map, List.map_map]
    have hline : (fun row : RenderJob => (row.storeId, row.lineRef)) ∘ change =
        fun row => (row.storeId, row.lineRef) :=
      funext fun row => Prod.ext (hkept row).storeId (hkept row).lineRef
    have hid : (fun row : RenderJob => row.id) ∘ change = fun row => row.id :=
      funext fun row => (hkept row).id
    rw [hline, hid]
    refine ⟨h.lines, h.ids, fun row hrow => ?_⟩
    obtain ⟨old, hold, rfl⟩ := List.mem_map.1 hrow
    rw [(hkept old).id]
    exact h.fresh old hold
  · rw [htable]
    dsimp only
    rw [List.map_append, List.map_append, List.nodup_append', List.nodup_append']
    refine ⟨⟨h.lines, List.nodup_singleton _, ?_⟩, ⟨h.ids, List.nodup_singleton _, ?_⟩,
      fun row hrow => ?_⟩
    · rintro line hline hnew
      obtain ⟨row, hrow, rfl⟩ := List.mem_map.1 hline
      obtain ⟨hstore, href⟩ := Prod.mk.inj (List.mem_singleton.1 hnew)
      exact List.any_eq_false.1 hnone row hrow (decide_eq_true ⟨hstore, href⟩)
    · rintro id hid hnew
      obtain ⟨row, hrow, rfl⟩ := List.mem_map.1 hid
      exact (h.fresh row hrow).ne (List.mem_singleton.1 hnew)
    · obtain hrow | hrow := List.mem_append.1 hrow
      · exact (h.fresh row hrow).trans (Nat.lt_succ_self _)
      · obtain rfl := List.mem_singleton.1 hrow
        exact Nat.lt_succ_self _

theorem Held.statement {request : Request} {other : Phase} (h : Held table request phase) :
    Held (Acceptance.statement now table other).1 request phase := by
  cases phase with
  | reading storeId lineRef duplicate =>
    obtain ⟨hrequest, row, hrow, hline⟩ := h
    obtain ⟨row', hrow', hkept⟩ := exists_kept hrow
    exact ⟨hrequest, row', hrow', hkept.ofLine.trans hline⟩
  | accepted answer =>
    obtain ⟨storeId, asked, hrequest, row, hrow, hline, hid⟩ := h
    obtain ⟨row', hrow', hkept⟩ := exists_kept hrow
    exact ⟨storeId, asked, hrequest, row', hrow', hkept.ofLine.trans hline, hkept.id.trans hid⟩
  | _ => exact h

/-- **Its own give it the job of its line.** -/
theorem Held.own {request : Request} (h : Held table request phase) :
    Held (Acceptance.statement now table phase).1 request
      (Acceptance.statement now table phase).2 := by
  cases phase with
  | checking storeId asked =>
    unfold Acceptance.statement
    dsimp only
    split
    · trivial
    · exact h
  | upserting storeId asked =>
    unfold Acceptance.statement
    dsimp only
    split_ifs with hany
    · obtain ⟨row, hrow, hline⟩ := List.any_eq_true.1 hany
      exact ⟨⟨asked, h, rfl⟩, row, hrow, hline⟩
    · exact ⟨⟨asked, h, rfl⟩, _, List.mem_append_right _ (List.mem_singleton.2 rfl),
        decide_eq_true ⟨rfl, rfl⟩⟩
  | reading storeId lineRef duplicate =>
    obtain ⟨⟨asked, hrequest, rfl⟩, row, hrow, hline⟩ := h
    unfold Acceptance.statement
    dsimp only
    split
    · next found hfound =>
      exact ⟨storeId, asked, hrequest, found, List.mem_of_find?_eq_some hfound,
        List.find?_some hfound, rfl⟩
    · next hnone => exact List.find?_eq_none.1 hnone row hrow hline
  | unreadable => exact h
  | accepted answer => exact h
  | refused failure => trivial
  | writing id attempts outcome => trivial
  | marking storeId id fileUrl => trivial
  | changed => trivial

/-- **Every action keeps one job for a line.** -/
theorem Unique.step (h : Unique s) (a : Action) : Unique (service.step s a) := by
  have hrows : ((service.step s a).data.rows.map fun row => (row.storeId, row.lineRef)).Nodup ∧
      ((service.step s a).data.rows.map (·.id)).Nodup ∧
        ∀ row ∈ (service.step s a).data.rows, row.id < (service.step s a).data.next := by
    obtain hsame | ⟨_, _, -, -, hstep⟩ | ⟨i, input, request, phase, -, -, hstep⟩ :=
      Calls.System.step_cases service s a
    · rw [hsame]
      exact ⟨h.lines, h.ids, h.fresh⟩
    · rw [hstep]
      exact ⟨h.lines, h.ids, h.fresh⟩
    · rw [hstep]
      exact h.rows_statement input phase
  refine ⟨hrows.1, hrows.2.1, hrows.2.2, ?_⟩
  refine Calls.System.forall_calls (K := Held) (fun request phase _ henter => ?_)
    (fun i input request phase _ _ hheld => hheld.own)
    (fun i input request phase _ _ request' phase' hheld => hheld.statement) h.held
  obtain rfl : enter request = phase := Option.some.inj henter
  cases request with
  | accept storeId asked => rfl
  | write id attempts outcome => trivial
  | markCollected storeId id fileUrl => trivial

/-! ## Runs -/

/-- **`accept` creates one job for a line and answers it.** -/
structure OneJob (s : State) : Prop where
  one : ∀ row ∈ s.data.rows, ∀ row' ∈ s.data.rows, row.storeId = row'.storeId →
    row.lineRef = row'.lineRef → row = row'
  answered : ∀ (i : ℕ) storeId request answer,
    s.calls[i]? = some (.accept storeId request, .accepted answer) →
      ∃ row ∈ s.data.rows, row.storeId = storeId ∧ row.lineRef = request.lineRef ∧
        row.id = answer.id
  readable : ∀ (i : ℕ) request, s.calls[i]? ≠ some (request, .unreadable)

/-- **However often and however concurrently it is asked.** -/
theorem oneJob (actions : List Action) : OneJob (served actions) := by
  have hunique : Unique (served actions) :=
    invariant_of_forall (fun _ a h => h.step a) unique_start actions
  refine ⟨fun row hrow row' hrow' hstore href => ?_, fun i storeId request answer hcall => ?_,
    fun i request hcall => hunique.held i request _ hcall⟩
  · exact List.inj_on_of_nodup_map hunique.lines hrow hrow' (Prod.ext hstore href)
  · obtain ⟨storeId', asked, hrequest, row, hrow, hline, hid⟩ := hunique.held i _ _ hcall
    obtain ⟨rfl, rfl⟩ := Request.accept.inj hrequest
    obtain ⟨hstore, href⟩ := of_decide_eq_true (by exact hline)
    exact ⟨row, hrow, hstore, href, hid⟩

end Optionia.Render.Acceptance
