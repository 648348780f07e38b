import Optionia.Lib.OrderedMap
import Optionia.Lib.Runs
import Optionia.Render.Jobs
/-!
# Collecting print files

`RenderCollector::drain` goes through the orders that carry render ids; on each
it fetches every file that is not recorded, stores it, tells the cloud, which
lets its own copy go, and writes what it has stored onto the order once, at the
end. What the cloud answers is up to it, and the pass may be cut off after any
of its steps: a confirmation that the cloud takes always comes before the order
names the file (`holds_iff_unconfirmed`).
-/

namespace Optionia.Render

open Runs

/-! ## What is recorded -/

/-- What an order records, by line item. -/
structure OrderMeta where
  renders : OrderedMap ℕ ℕ
  files : OrderedMap ℕ String
  failures : OrderedMap ℕ String
  partials : OrderedMap ℕ String

/-- The answer of the file route. -/
structure FileAnswer where
  ok : Bool
  status : ℕ
  bytes : Bytes
  /-- `content-length`, where it is a number. -/
  promised : Option ℕ

/-- The answer of the status route. -/
structure StatusAnswer where
  ok : Bool
  status : String
  lastError : String

def pngSignature : Bytes := [0x89, 0x50, 0x4E, 0x47, 0x0D, 0x0A, 0x1A, 0x0A]

/-- What becomes of the request for a file. -/
inductive Fetched where
  | retry
  | later
  | absent
  | file (bytes : Bytes)

/-- `fetch_and_store`, up to the write. -/
def fetched (answer : FileAnswer) : Fetched :=
  if answer.ok then
    if answer.promised ≠ none ∧ answer.promised ≠ some answer.bytes.length then .retry
    else if pngSignature.isPrefixOf answer.bytes then .file answer.bytes
    else .later
  else if answer.status = 404 then .absent
  else if answer.status = 0 ∨ answer.status = 429 ∨ 500 ≤ answer.status then .retry
  else .later

/-- `outcome_of`: why a render was given up on. -/
def failureOf (answer : StatusAnswer) : Option String :=
  if answer.ok ∧ answer.status = "failed" then
    some (if answer.lastError ≠ "" then answer.lastError
      else "The cloud could not render this design.")
  else none

/-- `note_if_partial`: why a file is incomplete. -/
def partialOf (answer : StatusAnswer) : Option String :=
  if answer.ok ∧ answer.lastError ≠ "" then some answer.lastError else none

/-! ## A pass -/

/-- Where `collect_for` is. -/
structure Progress where
  orders : List ℕ
  order : ℕ
  renders : OrderedMap ℕ ℕ
  /-- The lines the loop has yet to look at. -/
  lines : List (ℕ × ℕ)
  files : OrderedMap ℕ String
  failures : OrderedMap ℕ String
  stored : ℕ
  /-- The renders found to be given up on, with the reason. -/
  failed : OrderedMap ℕ String
  /-- The renders found to be incomplete, with the reason. -/
  incomplete : OrderedMap ℕ String
  asked : List ℕ

/-- What the pass is about to do. -/
inductive CollectorPhase where
  | idle
  | between (orders : List ℕ)
  /-- It looks at the next line, and asks for its file. -/
  | collecting (at_ : Progress)
  | asking (at_ : Progress) (render : ℕ)
  | writing (at_ : Progress) (item render : ℕ) (bytes : Bytes)
  | noting (at_ : Progress) (item render : ℕ)
  /-- It tells the cloud that the file is stored. -/
  | confirming (at_ : Progress) (item render : ℕ)
  | recording (at_ : Progress)
  | flagging (at_ : Progress)
  | annotating (at_ : Progress)

/-- The cloud's rows, the orders, the files that were stored, and the pass. -/
structure World where
  jobs : List RenderJob
  orders : ℕ → Option OrderMeta
  stored : List (String × Bytes)
  phase : CollectorPhase

/-- What meets a step of the pass. -/
structure StepInput where
  file : FileAnswer
  status : StatusAnswer
  /-- The name under which a file could be written, if it could. -/
  name : Option String
  applied : Bool
  fileUrl : String

def World.record (world : World) (order : ℕ) (change : OrderMeta → OrderMeta) : World :=
  { world with orders := fun other =>
      if other = order then (world.orders order).map change else world.orders other }

/-- The reasons of the renders that have one, by the lines that carry them. -/
def byLine (renders : OrderedMap ℕ ℕ) (reasons known : OrderedMap ℕ String) :
    OrderedMap ℕ String :=
  renders.entries.foldl (fun known line =>
    match reasons.get? line.2 with
    | some reason => known.set line.1 reason
    | none => known) known

def World.go (world : World) (phase : CollectorPhase) : World := { world with phase := phase }

/-- Where `collect_for` starts on an order. -/
def Progress.start (orders : List ℕ) (order : ℕ) (record : OrderMeta) : Progress where
  orders := orders
  order := order
  renders := record.renders
  lines := record.renders.entries
  files := record.files
  failures := record.failures
  stored := 0
  failed := ∅
  incomplete := ∅
  asked := []

/-- The row of a job, after a confirmation that the cloud takes. -/
def World.confirmed (world : World) (render : ℕ) (fileUrl : String) : World :=
  { world with jobs := world.jobs.map fun job =>
      if job.id = render then job.collected fileUrl else job }

def World.advance (world : World) (input : StepInput) : World :=
  match world.phase with
  | .idle => world
  | .between [] => world.go .idle
  | .between (order :: orders) =>
    match world.orders order with
    | none => world.go (.between orders)
    | some record => world.go (.collecting (.start orders order record))
  | .collecting at_ =>
    match at_.lines with
    | [] => world.go (.recording
        { at_ with failures := byLine at_.renders at_.failed at_.failures })
    | (item, render) :: lines =>
      if (at_.files.get? item).isSome ∨ (at_.failures.get? item).isSome then
        world.go (.collecting { at_ with lines := lines })
      else
        match fetched input.file with
        -- The first retryable failure ends the pass, with what it has stored.
        | .retry => world.go .idle
        | .later => world.go (.collecting { at_ with lines := lines })
        | .absent => world.go (.asking { at_ with lines := lines } render)
        | .file bytes => world.go (.writing { at_ with lines := lines } item render bytes)
  | .asking at_ render =>
    if render ∈ at_.asked then world.go (.collecting at_)
    else
      match failureOf input.status with
      | some reason => world.go (.collecting
          { at_ with asked := render :: at_.asked, failed := at_.failed.set render reason })
      | none => world.go (.collecting { at_ with asked := render :: at_.asked })
  | .writing at_ item render bytes =>
    match input.name with
    | none => world.go .idle
    | some name =>
      { world with stored := (name, bytes) :: world.stored }.go (.noting
        { at_ with files := at_.files.set item name, stored := at_.stored + 1 } item render)
  | .noting at_ item render =>
    match partialOf input.status with
    | some reason => world.go (.confirming
        { at_ with incomplete := at_.incomplete.set render reason } item render)
    | none => world.go (.confirming at_ item render)
  | .confirming at_ _ render =>
    if input.applied then (world.confirmed render input.fileUrl).go (.collecting at_)
    else world.go (.collecting at_)
  | .recording at_ =>
    if 0 < at_.stored then
      (world.record at_.order fun record => { record with files := at_.files }).go (.flagging at_)
    else world.go (.flagging at_)
  | .flagging at_ =>
    if at_.failed.entries ≠ [] then
      (world.record at_.order fun record =>
        { record with failures := at_.failures }).go (.annotating at_)
    else world.go (.annotating at_)
  | .annotating at_ =>
    if at_.incomplete.entries ≠ [] then
      (world.record at_.order fun record =>
        { record with partials := byLine at_.renders at_.incomplete record.partials }).go
          (.between at_.orders)
    else world.go (.between at_.orders)

/-- What happens. -/
inductive CollectorAction where
  | drain (orders : List ℕ)
  | advance (input : StepInput)
  | crash
  | write (job attempts : ℕ) (now : ℤ) (outcome : Outcome)

def World.step (world : World) : CollectorAction → World
  | .drain orders =>
    match world.phase with
    | .idle => world.go (.between orders)
    | _ => world
  | .advance input => world.advance input
  | .crash => world.go .idle
  | .write job attempts now outcome =>
    { world with jobs := world.jobs.map fun row =>
        if row.id = job then row.written attempts now outcome else row }

/-! ## The statement -/

/-- The cloud has applied a collection of a render. -/
def RenderJob.released (job : RenderJob) : Prop := job.fileUrl ≠ none

/-- **A print file is released only when the order records it.** -/
def World.Holds (world : World) : Prop :=
  ∀ job ∈ world.jobs, job.released → ∀ order record, world.orders order = some record →
    ∀ item, record.renders.get? item = some job.id →
      ∃ name bytes, record.files.get? item = some name ∧ (name, bytes) ∈ world.stored

/-- At every step of a run. -/
def World.HoldsThroughout (world : World) (actions : List CollectorAction) : Prop :=
  ∀ before after, actions = before ++ after → (run World.step world before).Holds

/-- The render that the pass is about to confirm. -/
def CollectorPhase.confirms : CollectorPhase → Option ℕ
  | .confirming _ _ render => some render
  | _ => none

/-- **No confirmation reaches the cloud for a job it has.** -/
def Unconfirmed (world : World) : CollectorAction → Prop
  | .advance input => input.applied = true →
      ∀ render ∈ world.phase.confirms, ∀ job ∈ world.jobs, job.id ≠ render
  | _ => True

instance (world : World) : ∀ a : CollectorAction, Decidable (Unconfirmed world a)
  | .advance input => inferInstanceAs (Decidable (input.applied = true →
      ∀ render ∈ world.phase.confirms, ∀ job ∈ world.jobs, job.id ≠ render))
  | .drain _ | .crash | .write .. => inferInstanceAs (Decidable True)

/-- Before the first pass: nothing is collected. -/
structure Untouched (world : World) : Prop where
  idle : world.phase = .idle
  jobs : ∀ job ∈ world.jobs, ¬ job.released

/-! ## The steps of a pass -/

variable {world : World} {input : StepInput} {at_ : Progress} {order : ℕ} {orders : List ℕ}

theorem advance_idle (h : world.phase = .idle) : world.advance input = world := by
  unfold World.advance
  rw [h]

theorem advance_nil (h : world.phase = .between []) : world.advance input = world.go .idle := by
  unfold World.advance
  rw [h]

theorem advance_none (h : world.phase = .between (order :: orders))
    (hrecord : world.orders order = none) :
    world.advance input = world.go (.between orders) := by
  unfold World.advance
  rw [h]
  dsimp only
  rw [hrecord]

theorem advance_some {record : OrderMeta} (h : world.phase = .between (order :: orders))
    (hrecord : world.orders order = some record) :
    world.advance input = world.go (.collecting (.start orders order record)) := by
  unfold World.advance
  rw [h]
  dsimp only
  rw [hrecord]

theorem advance_done (h : world.phase = .collecting at_) (hlines : at_.lines = []) :
    world.advance input = world.go (.recording
      { at_ with failures := byLine at_.renders at_.failed at_.failures }) := by
  unfold World.advance
  rw [h]
  dsimp only
  rw [hlines]

/-- A line has a file, or it is known why it has none. -/
def Progress.Knows (at_ : Progress) (line : ℕ × ℕ) : Prop :=
  (at_.files.get? line.1).isSome = true ∨ (at_.failures.get? line.1).isSome = true

variable {lines : List (ℕ × ℕ)} {render item : ℕ}

theorem advance_known {line : ℕ × ℕ} (h : world.phase = .collecting at_)
    (hlines : at_.lines = line :: lines) (hknown : at_.Knows line) :
    world.advance input = world.go (.collecting { at_ with lines := lines }) := by
  unfold World.advance
  rw [h]
  dsimp only
  rw [hlines]
  exact if_pos hknown

/-- What the pass does with the answer about a line. -/
def Progress.fetch (at_ : Progress) (line : ℕ × ℕ) : Fetched → CollectorPhase
  | .retry => .idle
  | .later => .collecting at_
  | .absent => .asking at_ line.2
  | .file bytes => .writing at_ line.1 line.2 bytes

theorem advance_fetched {line : ℕ × ℕ} (h : world.phase = .collecting at_)
    (hlines : at_.lines = line :: lines) (hknown : ¬ at_.Knows line) : world.advance input =
      world.go (({ at_ with lines := lines } : Progress).fetch line (fetched input.file)) := by
  unfold World.advance
  rw [h]
  dsimp only
  rw [hlines]
  refine (if_neg hknown).trans ?_
  cases fetched input.file with
  | _ => rfl

theorem advance_asked (h : world.phase = .asking at_ render) (hasked : render ∈ at_.asked) :
    world.advance input = world.go (.collecting at_) := by
  unfold World.advance
  rw [h]
  exact if_pos hasked

theorem advance_failure {reason : String} (h : world.phase = .asking at_ render)
    (hasked : render ∉ at_.asked) (hfailure : failureOf input.status = some reason) :
    world.advance input = world.go (.collecting
      { at_ with asked := render :: at_.asked, failed := at_.failed.set render reason }) := by
  unfold World.advance
  rw [h]
  dsimp only
  rw [if_neg hasked, hfailure]

theorem advance_waiting (h : world.phase = .asking at_ render) (hasked : render ∉ at_.asked)
    (hfailure : failureOf input.status = none) :
    world.advance input = world.go (.collecting { at_ with asked := render :: at_.asked }) := by
  unfold World.advance
  rw [h]
  dsimp only
  rw [if_neg hasked, hfailure]

theorem advance_unwritten {bytes : Bytes} (h : world.phase = .writing at_ item render bytes)
    (hname : input.name = none) : world.advance input = world.go .idle := by
  unfold World.advance
  rw [h]
  dsimp only
  rw [hname]

theorem advance_writing {bytes : Bytes} {name : String}
    (h : world.phase = .writing at_ item render bytes) (hname : input.name = some name) :
    world.advance input = { world with stored := (name, bytes) :: world.stored }.go (.noting
      { at_ with files := at_.files.set item name, stored := at_.stored + 1 } item render) := by
  unfold World.advance
  rw [h]
  dsimp only
  rw [hname]

theorem advance_noting (input : StepInput) (h : world.phase = .noting at_ item render) :
    ∃ incomplete, world.advance input =
      world.go (.confirming { at_ with incomplete := incomplete } item render) := by
  unfold World.advance
  rw [h]
  dsimp only
  cases partialOf input.status with
  | none => exact ⟨at_.incomplete, rfl⟩
  | some reason => exact ⟨_, rfl⟩

theorem advance_confirming (h : world.phase = .confirming at_ item render) :
    world.advance input = if input.applied then
        (world.confirmed render input.fileUrl).go (.collecting at_)
      else world.go (.collecting at_) := by
  unfold World.advance
  rw [h]

theorem advance_recording (h : world.phase = .recording at_) :
    world.advance input = if 0 < at_.stored then
        (world.record at_.order fun record => { record with files := at_.files }).go (.flagging at_)
      else world.go (.flagging at_) := by
  unfold World.advance
  rw [h]

theorem advance_flagging (h : world.phase = .flagging at_) :
    world.advance input = if at_.failed.entries ≠ [] then
        (world.record at_.order fun record =>
          { record with failures := at_.failures }).go (.annotating at_)
      else world.go (.annotating at_) := by
  unfold World.advance
  rw [h]

theorem advance_annotating (h : world.phase = .annotating at_) :
    world.advance input = if at_.incomplete.entries ≠ [] then
        (world.record at_.order fun record =>
          { record with partials := byLine at_.renders at_.incomplete record.partials }).go
            (.between at_.orders)
      else world.go (.between at_.orders) := by
  unfold World.advance
  rw [h]

/-! ## What a pass holds -/

/-- A pass knows every file that its order records, and looks at lines of it. -/
structure Progress.Sound (at_ : Progress) (orders : ℕ → Option OrderMeta) : Prop where
  /-- The order is there, with the renders the pass goes through. -/
  order : ∃ record, orders at_.order = some record ∧ record.renders = at_.renders ∧
    ∀ item, (record.files.get? item).isSome = true → (at_.files.get? item).isSome = true
  /-- The lines it has yet to look at are the order's. -/
  lines : ∀ line ∈ at_.lines, line ∈ at_.renders.entries

/-- A line that the pass is collecting: its order carries the render, and does
not record a file. -/
def Progress.Open (at_ : Progress) (orders : ℕ → Option OrderMeta) (item render : ℕ) : Prop :=
  ∃ record, orders at_.order = some record ∧ record.renders.get? item = some render ∧
    record.files.get? item = none

/-- **What a pass holds.** -/
def CollectorPhase.Sound (orders : ℕ → Option OrderMeta) : CollectorPhase → Prop
  | .idle | .between _ => True
  | .collecting at_ | .asking at_ _ => at_.Sound orders
  | .writing at_ item render _ =>
    at_.Sound orders ∧ (at_.files.get? item).isSome = false ∧ at_.renders.get? item = some render
  | .noting at_ item render | .confirming at_ item render =>
    at_.Sound orders ∧ at_.Open orders item render
  | .recording _ | .flagging _ | .annotating _ => True

theorem Progress.Sound.of_progress {orders : ℕ → Option OrderMeta} {at' : Progress}
    (h : at_.Sound orders) (horder : at'.order = at_.order) (hrenders : at'.renders = at_.renders)
    (hfiles : ∀ item, (at_.files.get? item).isSome = true → (at'.files.get? item).isSome = true)
    (hlines : ∀ line ∈ at'.lines, line ∈ at_.lines) : at'.Sound orders where
  order := by
    obtain ⟨record, hrecord, hsame, hknown⟩ := h.order
    rw [horder, hrenders]
    exact ⟨record, hrecord, hsame, fun item hitem => hfiles item (hknown item hitem)⟩
  lines := by
    rw [hrenders]
    exact fun line hline => h.lines line (hlines line hline)

/-- **Every step keeps what a pass holds.** -/
theorem sound_advance (input : StepInput) (h : world.phase.Sound world.orders) :
    (world.advance input).phase.Sound (world.advance input).orders := by
  cases hphase : world.phase with
  | idle =>
    rw [advance_idle hphase]
    exact h
  | between orders =>
    cases orders with
    | nil =>
      rw [advance_nil hphase]
      trivial
    | cons order orders =>
      cases hrecord : world.orders order with
      | none =>
        rw [advance_none hphase hrecord]
        trivial
      | some record =>
        rw [advance_some hphase hrecord]
        exact ⟨⟨record, hrecord, rfl, fun _ hitem => hitem⟩, fun _ hline => hline⟩
  | collecting at_ =>
    rw [hphase] at h
    have hsound : at_.Sound world.orders := h
    cases hlines : at_.lines with
    | nil =>
      rw [advance_done hphase hlines]
      trivial
    | cons line lines =>
      have hrest : ∀ line ∈ lines, line ∈ at_.lines :=
        fun line hline => hlines ▸ List.mem_cons_of_mem _ hline
      have hskip : ({ at_ with lines := lines } : Progress).Sound world.orders :=
        hsound.of_progress rfl rfl (fun _ hitem => hitem) hrest
      by_cases hknown : at_.Knows line
      · rw [advance_known hphase hlines hknown]
        exact hskip
      · rw [advance_fetched hphase hlines hknown]
        cases fetched input.file with
        | retry => trivial
        | later => exact hskip
        | absent => exact hskip
        | file bytes =>
          have hline : line ∈ at_.renders.entries :=
            hsound.lines _ (hlines ▸ List.mem_cons_self)
          refine ⟨hskip, Bool.eq_false_iff.2 fun hitem => hknown (.inl hitem), ?_⟩
          exact OrderedMap.get?_eq_some.2 hline
  | asking at_ render =>
    rw [hphase] at h
    have hsound : at_.Sound world.orders := h
    by_cases hasked : render ∈ at_.asked
    · rw [advance_asked hphase hasked]
      exact hsound
    · cases hfailure : failureOf input.status with
      | none =>
        rw [advance_waiting hphase hasked hfailure]
        exact hsound.of_progress rfl rfl (fun _ hitem => hitem) fun _ hline => hline
      | some reason =>
        rw [advance_failure hphase hasked hfailure]
        exact hsound.of_progress rfl rfl (fun _ hitem => hitem) fun _ hline => hline
  | writing at_ item render bytes =>
    rw [hphase] at h
    obtain ⟨hsound, hnone, hrender⟩ := h
    cases hname : input.name with
    | none =>
      rw [advance_unwritten hphase hname]
      trivial
    | some name =>
      rw [advance_writing hphase hname]
      obtain ⟨record, hrecord, hsame, hknown⟩ := hsound.order
      refine ⟨hsound.of_progress rfl rfl (fun other hother => ?_) fun _ hline => hline,
        record, hrecord, hsame ▸ hrender, ?_⟩
      · by_cases hitem : other = item
        · subst hitem
          rw [OrderedMap.get?_set_self]
          rfl
        · rw [OrderedMap.get?_set_ne _ _ hitem]
          exact hother
      · -- The order records no file that the pass did not know.
        cases hfile : record.files.get? item with
        | none => rfl
        | some name' =>
          have hitem := hknown item (by rw [hfile]; rfl)
          exact absurd (hnone.symm.trans hitem) Bool.false_ne_true
  | noting at_ item render =>
    rw [hphase] at h
    obtain ⟨hsound, hopen⟩ := h
    obtain ⟨incomplete, hadvance⟩ := advance_noting input hphase
    rw [hadvance]
    exact ⟨hsound.of_progress rfl rfl (fun _ hitem => hitem) fun _ hline => hline, hopen⟩
  | confirming at_ item render =>
    rw [hphase] at h
    obtain ⟨hsound, -⟩ := h
    rw [advance_confirming hphase]
    split_ifs
    · exact hsound.of_progress rfl rfl (fun _ hitem => hitem) fun _ hline => hline
    · exact hsound
  | recording at_ =>
    rw [advance_recording hphase]
    split_ifs
    · trivial
    · trivial
  | flagging at_ =>
    rw [advance_flagging hphase]
    split_ifs
    · trivial
    · trivial
  | annotating at_ =>
    rw [advance_annotating hphase]
    split_ifs
    · trivial
    · trivial

theorem sound_step (a : CollectorAction) (h : world.phase.Sound world.orders) :
    (world.step a).phase.Sound (world.step a).orders := by
  cases a with
  | drain orders =>
    unfold World.step
    dsimp only
    split
    · trivial
    · exact h
  | advance input => exact sound_advance input h
  | crash => trivial
  -- The worker touches no order.
  | write job attempts now outcome => exact h

/-! ## Runs -/

/-- **A confirmation that the cloud takes comes before the record.** -/
theorem not_holds_of_confirmed {input : StepInput}
    (hphase : world.phase = .confirming at_ item render) (h : world.phase.Sound world.orders)
    (happlied : input.applied = true) {job : RenderJob} (hjob : job ∈ world.jobs)
    (hid : job.id = render) : ¬ (world.step (.advance input)).Holds := by
  intro hholds
  rw [hphase] at h
  obtain ⟨-, record, hrecord, hrender, hnone⟩ := h
  have hstep : world.step (.advance input) =
      (world.confirmed render input.fileUrl).go (.collecting at_) := by
    exact (advance_confirming hphase).trans (if_pos happlied)
  rw [hstep] at hholds
  have hmem : job.collected input.fileUrl ∈ (world.confirmed render input.fileUrl).jobs :=
    List.mem_map.2 ⟨job, hjob, if_pos hid⟩
  obtain ⟨name, bytes, hname, -⟩ := hholds (job.collected input.fileUrl) hmem
    (Option.some_ne_none _) at_.order record hrecord item (hrender.trans (congrArg some hid.symm))
  rw [hnone] at hname
  exact Option.some_ne_none name hname.symm

theorem jobs_advance (world : World) (input : StepInput) :
    (world.advance input).jobs = world.jobs ∨
      ∃ at_ item render, world.phase = .confirming at_ item render ∧ input.applied = true ∧
        (world.advance input).jobs = (world.confirmed render input.fileUrl).jobs := by
  cases hphase : world.phase with
  | idle =>
    rw [advance_idle hphase]
    exact .inl rfl
  | between orders =>
    cases orders with
    | nil =>
      rw [advance_nil hphase]
      exact .inl rfl
    | cons order orders =>
      cases hrecord : world.orders order with
      | none =>
        rw [advance_none hphase hrecord]
        exact .inl rfl
      | some record =>
        rw [advance_some hphase hrecord]
        exact .inl rfl
  | collecting at_ =>
    cases hlines : at_.lines with
    | nil =>
      rw [advance_done hphase hlines]
      exact .inl rfl
    | cons line lines =>
      by_cases hknown : at_.Knows line
      · rw [advance_known hphase hlines hknown]
        exact .inl rfl
      · rw [advance_fetched hphase hlines hknown]
        exact .inl rfl
  | asking at_ render =>
    by_cases hasked : render ∈ at_.asked
    · rw [advance_asked hphase hasked]
      exact .inl rfl
    · cases hfailure : failureOf input.status with
      | none =>
        rw [advance_waiting hphase hasked hfailure]
        exact .inl rfl
      | some reason =>
        rw [advance_failure hphase hasked hfailure]
        exact .inl rfl
  | writing at_ item render bytes =>
    cases hname : input.name with
    | none =>
      rw [advance_unwritten hphase hname]
      exact .inl rfl
    | some name =>
      rw [advance_writing hphase hname]
      exact .inl rfl
  | noting at_ item render =>
    obtain ⟨incomplete, hadvance⟩ := advance_noting input hphase
    rw [hadvance]
    exact .inl rfl
  | confirming at_ item render =>
    rw [advance_confirming hphase]
    split_ifs with happlied
    · exact .inr ⟨at_, item, render, rfl, happlied, rfl⟩
    · exact .inl rfl
  | recording at_ =>
    rw [advance_recording hphase]
    split_ifs
    · exact .inl rfl
    · exact .inl rfl
  | flagging at_ =>
    rw [advance_flagging hphase]
    split_ifs
    · exact .inl rfl
    · exact .inl rfl
  | annotating at_ =>
    rw [advance_annotating hphase]
    split_ifs
    · exact .inl rfl
    · exact .inl rfl

theorem jobs_step {a : CollectorAction} (hok : Unconfirmed world a)
    (h : ∀ job ∈ world.jobs, ¬ job.released) : ∀ job ∈ (world.step a).jobs, ¬ job.released := by
  cases a with
  | drain orders =>
    unfold World.step
    dsimp only
    split
    · exact h
    · exact h
  | advance input =>
    have hjobs : (world.step (.advance input)).jobs = (world.advance input).jobs := rfl
    rw [hjobs]
    obtain hsame | ⟨at_, item, render, hphase, happlied, hsame⟩ := jobs_advance world input
    · rw [hsame]
      exact h
    · have hnone : ∀ job ∈ world.jobs, job.id ≠ render :=
        hok happlied render (by rw [hphase]; rfl)
      rw [hsame]
      intro job hjob
      obtain ⟨old, hold, rfl⟩ := List.mem_map.1 hjob
      rw [if_neg (hnone old hold)]
      exact h old hold
  | crash => exact h
  | write job attempts now outcome =>
    intro row hrow
    obtain ⟨old, hold, rfl⟩ := List.mem_map.1 hrow
    split_ifs
    · unfold RenderJob.released
      rw [(written_kept old attempts now outcome).1]
      exact h old hold
    · exact h old hold

/-- **A print file is released only when the order records it, just when no
confirmation is taken at all.** -/
theorem holds_iff_unconfirmed (hstart : Untouched world) (actions : List CollectorAction) :
    world.HoldsThroughout actions ↔ Throughout World.step Unconfirmed world actions := by
  have hsound : ∀ before, (run World.step world before).phase.Sound
      (run World.step world before).orders :=
    fun before => invariant_of_forall
      (I := fun world : World => world.phase.Sound world.orders) (fun _ a h => sound_step a h)
      (by rw [hstart.idle]; trivial) before
  constructor
  · intro h
    refine throughout_of_prefix fun before a after hsplit => ?_
    cases a with
    | advance input =>
      intro happlied render hconfirms job hjob hid
      cases hphase : (run World.step world before).phase with
      | confirming at_ item render' =>
        rw [hphase] at hconfirms
        obtain rfl := Option.some.inj hconfirms
        refine not_holds_of_confirmed hphase (hsound before) happlied hjob hid ?_
        have hholds := h (before ++ [.advance input]) after
          (by rw [hsplit, List.append_assoc]; rfl)
        rwa [run_concat] at hholds
      | _ =>
        rw [hphase] at hconfirms
        exact absurd hconfirms.symm (Option.some_ne_none _)
    | _ => trivial
  · rintro h before after rfl job hjob hreleased
    have hjobs : ∀ job ∈ (run World.step world before).jobs, ¬ job.released :=
      invariant (I := fun world : World => ∀ job ∈ world.jobs, ¬ job.released)
        (fun _ _ hok hjobs => jobs_step hok hjobs) (h.of_prefix (List.prefix_append before after))
        hstart.jobs
    exact absurd hreleased (hjobs job hjob)

/-! ## An order with two designed lines -/

/-- Order 12 has two designed lines, and the cloud has rendered both. -/
def twoBanners : World where
  jobs := [(fresh 0 "store" "12:3" "{}" 2000 2000 0).written 1 7000 (.ok pngSignature ""),
    (fresh 1 "store" "12:4" "{}" 2000 2000 0).written 1 7000 (.ok pngSignature "")]
  orders := fun order =>
    if order = 12 then some ⟨((∅ : OrderedMap ℕ ℕ).set 3 0).set 4 1, ∅, ∅, ∅⟩ else none
  stored := []
  phase := .idle

theorem untouched_twoBanners : Untouched twoBanners := ⟨rfl, by
  intro job hjob
  obtain rfl | rfl : job = _ ∨ job = _ := by simpa [twoBanners] using hjob
  · exact fun hreleased => hreleased rfl
  · exact fun hreleased => hreleased rfl⟩

/-- What meets the steps of a pass: a file arrives whole, and can be written. -/
def arrives (applied : Bool) : StepInput where
  file := ⟨true, 200, pngSignature, some 8⟩
  status := ⟨true, "rendered", ""⟩
  name := some "a1.png"
  applied := applied
  fileUrl := "print-file"

def silent : StepInput := { arrives false with file := ⟨false, 0, [], none⟩ }

/-- The first line's file is stored and confirmed; the request for the second
is not answered, and the pass ends. -/
def halfCollected : List CollectorAction :=
  [.drain [12], .advance (arrives true), .advance (arrives true), .advance (arrives true),
    .advance (arrives true), .advance (arrives true), .advance silent]

/-- **Neither the cloud nor the order has the first line's file.** -/
theorem file_lost : ¬ ∀ world actions, Untouched world → world.HoldsThroughout actions := by
  intro h
  have hholds := h twoBanners halfCollected untouched_twoBanners halfCollected []
    (List.append_nil _).symm
  have hjob : ∃ job ∈ (run World.step twoBanners halfCollected).jobs,
      job.fileUrl = some "print-file" ∧ job.id = 0 := by
    decide +kernel
  obtain ⟨job, hmem, hurl, hid⟩ := hjob
  obtain ⟨name, bytes, hname, -⟩ := hholds job hmem (by rw [RenderJob.released, hurl]; simp) 12
    ⟨((∅ : OrderedMap ℕ ℕ).set 3 0).set 4 1, ∅, ∅, ∅⟩ rfl 3 (by rw [hid]; decide)
  exact Option.some_ne_none name hname.symm

/-- A pass whose confirmation is lost. -/
theorem holds_of_lostConfirmation : twoBanners.HoldsThroughout
    [.drain [12], .advance (arrives false), .advance (arrives false), .advance (arrives false),
      .advance (arrives false), .advance (arrives false), .advance silent] :=
  (holds_iff_unconfirmed untouched_twoBanners _).2 (by decide +kernel)

end Optionia.Render
