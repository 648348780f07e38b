import Mathlib.Logic.Relation
import Optionia.Render.Collector
/-!
# Passes over the orders

`pending_orders` takes the ten oldest of the orders that carry render ids,
whatever they have collected, and `drain` goes through those. Where the cloud
answers everything and has finished or given up every render, one pass settles
them all (`Pass.sweeps`); but they stay the ten oldest, and no later order is
ever looked at.
-/

namespace Optionia.Render.Passes

open Runs

/-! ## The orders of a pass -/

def batchSize : ℕ := 10

/-- The site, as far as a pass reads it. -/
structure Site where
  /-- The connection state is `DISCONNECTED`. -/
  disconnected : Bool
  byDate : List ℕ
  carries : ℕ → Bool
  nodup : byDate.Nodup
  pos : ∀ order ∈ byDate, 0 < order

def Site.carrying (site : Site) : List ℕ := site.byDate.filter site.carries

def Site.pendingOrders (site : Site) : List ℕ :=
  (site.carrying.take batchSize).filter (0 < ·)

/-- The orders that `drain` goes through. -/
def Site.drained (site : Site) : List ℕ := if site.disconnected then [] else site.pendingOrders

/-- The site has every order with a line that a render was asked for. -/
def Site.Lists (site : Site) (world : World) : Prop :=
  ∀ order record, world.orders order = some record → record.renders.entries ≠ [] →
    order ∈ site.carrying

/-! ## What the cloud answers -/

/-- What became of a render. -/
inductive Verdict where
  | finished
  | failed

/-- What the file route answers: the whole file, or none. -/
def Verdict.Serves : Verdict → FileAnswer → Prop
  | .finished, answer => answer.ok = true ∧ pngSignature.isPrefixOf answer.bytes = true ∧
      (answer.promised = none ∨ answer.promised = some answer.bytes.length)
  | .failed, answer => answer.ok = false ∧ answer.status = 404

def Verdict.Tells : Verdict → StatusAnswer → Prop
  | .finished, answer => answer.ok = true ∧ answer.status ≠ "failed"
  | .failed, answer => answer.ok = true ∧ answer.status = "failed"

/-- **Every request is answered**, and every file can be written. -/
def Answered (cloud : ℕ → Verdict) (world : World) (input : StepInput) : Prop :=
  match world.phase with
  | .collecting at_ => ∀ line ∈ at_.lines.head?, (cloud line.2).Serves input.file
  | .asking _ render | .noting _ _ render => (cloud render).Tells input.status
  | .writing .. => input.name ≠ none
  | .confirming .. => input.applied = true
  | _ => True

/-- **A pass that is not cut off**, from one state to the next. -/
structure Pass (site : Site) (cloud : ℕ → Verdict) (world world' : World) : Prop where
  steps : CanReach World.advance (Answered cloud) (world.step (.drain site.drained)) world'
  ended : world'.phase = .idle

/-! ## The statement -/

/-- No line of an order is outstanding: each has a file, or why there is none. -/
def Settled (record : OrderMeta) : Prop :=
  ∀ line ∈ record.renders.entries,
    (record.files.get? line.1).isSome = true ∨ (record.failures.get? line.1).isSome = true

/-- No order on the site has an outstanding line. -/
def AllSettled (world : World) : Prop :=
  ∀ order record, world.orders order = some record → Settled record

/-- A pass stored no file, and recorded no failure. -/
structure Quiet (world world' : World) : Prop where
  stored : world'.stored = world.stored
  failures : ∀ order, (world'.orders order).map OrderMeta.failures =
    (world.orders order).map OrderMeta.failures

/-- **Every finished print file is reached**: after passes of which the last
stored and recorded nothing, no line is outstanding. -/
def Reached (site : Site) (cloud : ℕ → Verdict) (world : World) : Prop :=
  ∀ before after, Relation.ReflTransGen (Pass site cloud) world before →
    Pass site cloud before after → Quiet before after → AllSettled after

/-! ## Steps that are answered -/

variable {world : World} {input : StepInput} {at_ : Progress} {orders : List ℕ} {order : ℕ}

variable {line : ℕ × ℕ} {lines : List (ℕ × ℕ)} {render : ℕ} {change : OrderMeta → OrderMeta}

theorem advance_finished (h : world.phase = .collecting at_) (hlines : at_.lines = line :: lines)
    (hknown : ¬ at_.Knows line) (hserves : Verdict.finished.Serves input.file) :
    world.advance input = world.go (.writing { at_ with lines := lines } line.1 line.2
      input.file.bytes) := by
  obtain ⟨hok, hpng, hwhole⟩ := hserves
  have hfetched : fetched input.file = .file input.file.bytes := by
    unfold fetched
    rw [if_pos hok, if_neg (fun h => hwhole.elim h.1 h.2), if_pos hpng]
  rw [advance_fetched h hlines hknown, hfetched]
  rfl

theorem advance_failed (h : world.phase = .collecting at_) (hlines : at_.lines = line :: lines)
    (hknown : ¬ at_.Knows line) (hserves : Verdict.failed.Serves input.file) :
    world.advance input = world.go (.asking { at_ with lines := lines } line.2) := by
  have hfetched : fetched input.file = .absent := by
    unfold fetched
    rw [if_neg (Bool.eq_false_iff.1 hserves.1), if_pos hserves.2]
  rw [advance_fetched h hlines hknown, hfetched]
  rfl

theorem advance_told (h : world.phase = .asking at_ render) (hasked : render ∉ at_.asked)
    (htells : Verdict.failed.Tells input.status) :
    ∃ reason, world.advance input = world.go (.collecting
      { at_ with asked := render :: at_.asked, failed := at_.failed.set render reason }) := by
  have htold : input.status.ok = true ∧ input.status.status = "failed" := htells
  have hfailure : failureOf input.status = some (if input.status.lastError ≠ "" then
      input.status.lastError else "The cloud could not render this design.") := if_pos htold
  exact ⟨_, advance_failure h hasked hfailure⟩

theorem advance_confirmed (input : StepInput) {item : ℕ}
    (h : world.phase = .confirming at_ item render) :
    ∃ jobs, world.advance input = { world with jobs := jobs }.go (.collecting at_) := by
  rw [advance_confirming h]
  split_ifs
  · exact ⟨_, rfl⟩
  · exact ⟨world.jobs, rfl⟩

/-! ## What a pass holds -/

/-- A line is dealt with: it has a file, or it is known why it has none. -/
def Dealt (at_ : Progress) (line : ℕ × ℕ) : Prop :=
  (at_.files.get? line.1).isSome = true ∨ (at_.failures.get? line.1).isSome = true ∨
    (at_.failed.get? line.2).isSome = true

/-- A pass knows what its order records, but for the files it has stored. -/
structure Tracks (at_ : Progress) (orders : ℕ → Option OrderMeta) : Prop where
  record : ∃ record, orders at_.order = some record ∧ record.renders = at_.renders ∧
    record.failures = at_.failures ∧ (at_.stored = 0 → at_.files = record.files)
  asked : ∀ render ∈ at_.asked, (at_.failed.get? render).isSome = true

/-- Every line of the order but some is ahead or dealt with. -/
def Covers (at_ : Progress) (but : ℕ × ℕ → Prop) : Prop :=
  ∀ line ∈ at_.renders.entries, but line ∨ line ∈ at_.lines ∨ Dealt at_ line

/-- **What a pass holds**, phase by phase. -/
def PhaseTracks (cloud : ℕ → Verdict) (orders : ℕ → Option OrderMeta) : CollectorPhase → Prop
  | .idle | .between _ => True
  | .collecting at_ | .noting at_ _ _ | .confirming at_ _ _ =>
    Tracks at_ orders ∧ Covers at_ fun _ => False
  | .asking at_ render =>
    Tracks at_ orders ∧ cloud render = .failed ∧ Covers at_ fun line => line.2 = render
  | .writing at_ item _ _ => Tracks at_ orders ∧ Covers at_ fun line => line.1 = item
  | .recording at_ => ∃ record, orders at_.order = some record ∧ record.renders = at_.renders ∧
      (at_.stored = 0 → at_.files = record.files) ∧
      (at_.failed.entries = [] → at_.failures = record.failures) ∧
      ∀ line ∈ at_.renders.entries,
        (at_.files.get? line.1).isSome = true ∨ (at_.failures.get? line.1).isSome = true
  | .flagging at_ => ∃ record, orders at_.order = some record ∧ record.renders = at_.renders ∧
      (at_.failed.entries = [] → at_.failures = record.failures) ∧
      ∀ line ∈ at_.renders.entries,
        (record.files.get? line.1).isSome = true ∨ (at_.failures.get? line.1).isSome = true
  | .annotating at_ => ∃ record, orders at_.order = some record ∧ Settled record

theorem Covers.tail {but : ℕ × ℕ → Prop} (h : Covers at_ fun _ => False)
    (hlines : at_.lines = line :: lines) (hbut : but line) :
    Covers { at_ with lines := lines } but := by
  intro other hother
  obtain hfalse | hahead | hdealt := h other hother
  · exact hfalse.elim
  · rw [hlines] at hahead
    obtain rfl | hahead := List.mem_cons.1 hahead
    · exact .inl hbut
    · exact .inr (.inl hahead)
  · exact .inr (.inr hdealt)

/-- A line with what is known of its render: one turn of `byLine`. -/
def reasoned (reasons known : OrderedMap ℕ String) (line : ℕ × ℕ) : OrderedMap ℕ String :=
  (reasons.get? line.2).elim known (known.set line.1)

theorem byLine_eq (renders : OrderedMap ℕ ℕ) (reasons known : OrderedMap ℕ String) :
    byLine renders reasons known = renders.entries.foldl (reasoned reasons) known := by
  unfold byLine
  congr 1
  funext known line
  unfold reasoned
  cases reasons.get? line.2 with
  | none => rfl
  | some reason => rfl

theorem byLine_of_nil (renders : OrderedMap ℕ ℕ) {reasons : OrderedMap ℕ String}
    (h : reasons.entries = []) (known : OrderedMap ℕ String) :
    byLine renders reasons known = known := by
  have hnone : ∀ line : ℕ × ℕ, reasoned reasons known line = known := by
    intro line
    have hget : reasons.get? line.2 = none := by
      show reasons.entries.lookup line.2 = none
      rw [h]
      rfl
    unfold reasoned
    rw [hget]
    rfl
  rw [byLine_eq]
  exact List.foldl_fixed' hnone _

/-- What is known of the lines goes on being known, and that of a line whose
render has a reason comes to be. -/
theorem isSome_foldl_reasoned (reasons : OrderedMap ℕ String) (item : ℕ) :
    ∀ (lines : List (ℕ × ℕ)) (known : OrderedMap ℕ String),
      (known.get? item).isSome = true ∨
        (∃ line ∈ lines, line.1 = item ∧ (reasons.get? line.2).isSome = true) →
      ((lines.foldl (reasoned reasons) known).get? item).isSome = true := by
  intro lines
  induction lines with
  | nil =>
    rintro known (hknown | ⟨line, hline, -⟩)
    · exact hknown
    · cases hline
  | cons line lines ih =>
    intro known h
    rw [List.foldl_cons]
    refine ih _ ?_
    unfold reasoned
    rcases h with hknown | ⟨other, hother, hitem, hreason⟩
    · refine .inl ?_
      cases reasons.get? line.2 with
      | none => exact hknown
      | some reason =>
        rw [Option.elim_some, OrderedMap.get?_set]
        split
        · rfl
        · exact hknown
    · obtain rfl | hother := List.mem_cons.1 hother
      · refine .inl ?_
        obtain ⟨reason, hreason⟩ := Option.isSome_iff_exists.1 hreason
        rw [hreason, ← hitem, Option.elim_some, OrderedMap.get?_set_self]
        rfl
      · exact .inr ⟨other, hother, hitem, hreason⟩

theorem isSome_byLine (at_ : Progress) (hline : line ∈ at_.renders.entries) (h : Dealt at_ line) :
    (at_.files.get? line.1).isSome = true ∨
      ((byLine at_.renders at_.failed at_.failures).get? line.1).isSome = true := by
  obtain hfile | hknown | hreason := h
  · exact .inl hfile
  · rw [byLine_eq]
    exact .inr (isSome_foldl_reasoned at_.failed line.1 _ _ (.inl hknown))
  · rw [byLine_eq]
    exact .inr (isSome_foldl_reasoned at_.failed line.1 _ _ (.inr ⟨line, hline, rfl, hreason⟩))

theorem orders_record {record : OrderMeta} (h : world.orders order = some record) :
    (world.record order change).orders order = some (change record) := by
  unfold World.record
  dsimp only
  rw [if_pos rfl, h]
  rfl

theorem orders_record_ne {other : ℕ} (h : other ≠ order) :
    (world.record order change).orders other = world.orders other := if_neg h

theorem Answered.serves {cloud : ℕ → Verdict} (h : Answered cloud world input)
    (hphase : world.phase = .collecting at_) (hlines : at_.lines = line :: lines) :
    (cloud line.2).Serves input.file := by
  unfold Answered at h
  rw [hphase] at h
  exact h line (by rw [hlines]; rfl)

theorem Answered.tells {cloud : ℕ → Verdict} (h : Answered cloud world input)
    (hphase : world.phase = .asking at_ render) : (cloud render).Tells input.status := by
  unfold Answered at h
  rwa [hphase] at h

theorem Answered.written {cloud : ℕ → Verdict} {item : ℕ} {bytes : Bytes}
    (h : Answered cloud world input) (hphase : world.phase = .writing at_ item render bytes) :
    ∃ name, input.name = some name := by
  unfold Answered at h
  rw [hphase] at h
  exact Option.ne_none_iff_exists'.1 h

theorem phaseTracks_done {cloud : ℕ → Verdict} {orders : ℕ → Option OrderMeta}
    (htracks : Tracks at_ orders) (hcovers : Covers at_ fun _ => False) (hlines : at_.lines = []) :
    PhaseTracks cloud orders (.recording
      { at_ with failures := byLine at_.renders at_.failed at_.failures }) := by
  obtain ⟨record, hrecord, hrenders, hfailures, hfiles⟩ := htracks.record
  refine ⟨record, hrecord, hrenders, hfiles, fun hnone => ?_, fun line hline => ?_⟩
  · exact (byLine_of_nil _ hnone _).trans hfailures.symm
  · obtain hfalse | hahead | hdealt := hcovers line hline
    · exact hfalse.elim
    · rw [hlines] at hahead
      cases hahead
    · exact isSome_byLine at_ hline hdealt

theorem Covers.known (h : Covers at_ fun _ => False) (hlines : at_.lines = line :: lines)
    (hknown : at_.Knows line) : Covers { at_ with lines := lines } fun _ => False := by
  have hrest : Covers { at_ with lines := lines } fun other => other = line := h.tail hlines rfl
  intro other hother
  obtain hsame | hrest := hrest other hother
  · rw [hsame]
    exact .inr (.inr (hknown.elim .inl fun hfailure => .inr (.inl hfailure)))
  · exact .inr hrest

theorem isSome_get?_set {m : OrderedMap ℕ String} {k k' : ℕ} (a : String)
    (h : k' = k ∨ (m.get? k').isSome = true) : ((m.set k a).get? k').isSome = true := by
  rw [OrderedMap.get?_set]
  split
  · rfl
  · next hne => exact h.resolve_left hne

theorem phaseTracks_failed {cloud : ℕ → Verdict} {orders : ℕ → Option OrderMeta}
    (htracks : Tracks at_ orders) (hcovers : Covers at_ fun line => line.2 = render)
    (reason : String) : PhaseTracks cloud orders (.collecting
      { at_ with asked := render :: at_.asked, failed := at_.failed.set render reason }) := by
  refine ⟨⟨htracks.record, fun other hother => ?_⟩, fun line hline => ?_⟩
  · exact isSome_get?_set reason ((List.mem_cons.1 hother).imp_right (htracks.asked other))
  · obtain hsame | hahead | hdealt := hcovers line hline
    · exact .inr (.inr (.inr (.inr (isSome_get?_set reason (.inl hsame)))))
    · exact .inr (.inl hahead)
    · refine .inr (.inr (hdealt.imp_right fun h => h.imp_right fun h => ?_))
      exact isSome_get?_set reason (.inr h)

theorem phaseTracks_written {cloud : ℕ → Verdict} {orders : ℕ → Option OrderMeta}
    {item : ℕ} (htracks : Tracks at_ orders) (hcovers : Covers at_ fun line => line.1 = item)
    (name : String) (render : ℕ) : PhaseTracks cloud orders (.noting
      { at_ with files := at_.files.set item name, stored := at_.stored + 1 } item render) := by
  obtain ⟨record, hrecord, hrenders, hfailures, -⟩ := htracks.record
  refine ⟨⟨⟨record, hrecord, hrenders, hfailures, fun hzero => ?_⟩, htracks.asked⟩,
    fun line hline => ?_⟩
  · cases hzero
  · obtain hsame | hahead | hdealt := hcovers line hline
    · exact .inr (.inr (.inl (isSome_get?_set name (.inl hsame))))
    · exact .inr (.inl hahead)
    · exact .inr (.inr (hdealt.imp_left fun h => isSome_get?_set name (.inr h)))

/-- **Every step keeps what a pass holds.** -/
theorem phaseTracks_advance {cloud : ℕ → Verdict} (hok : Answered cloud world input)
    (h : PhaseTracks cloud world.orders world.phase) :
    PhaseTracks cloud (world.advance input).orders (world.advance input).phase := by
  cases hphase : world.phase with
  | idle => rwa [advance_idle hphase]
  | between orders =>
    cases orders with
    | nil =>
      rw [advance_nil hphase]
      trivial
    | cons order orders =>
      cases hrecord : world.orders order with
      | none =>
        rw [advance_none hphase hrecord]
        trivial
      | some record =>
        rw [advance_some hphase hrecord]
        refine ⟨⟨⟨record, hrecord, rfl, rfl, fun _ => rfl⟩, fun render hasked => ?_⟩, ?_⟩
        · cases hasked
        · exact fun line hline => .inr (.inl hline)
  | collecting at_ =>
    rw [hphase] at h
    obtain ⟨htracks, hcovers⟩ := h
    cases hlines : at_.lines with
    | nil =>
      rw [advance_done hphase hlines]
      exact phaseTracks_done htracks hcovers hlines
    | cons line lines =>
      have htail : Tracks { at_ with lines := lines } world.orders :=
        ⟨htracks.record, htracks.asked⟩
      by_cases hknown : at_.Knows line
      · rw [advance_known hphase hlines hknown]
        exact ⟨htail, hcovers.known hlines hknown⟩
      · have hserves := hok.serves hphase hlines
        cases hverdict : cloud line.2 with
        | finished =>
          rw [hverdict] at hserves
          rw [advance_finished hphase hlines hknown hserves]
          exact ⟨htail, hcovers.tail hlines rfl⟩
        | failed =>
          rw [hverdict] at hserves
          rw [advance_failed hphase hlines hknown hserves]
          exact ⟨htail, hverdict, hcovers.tail hlines rfl⟩
  | asking at_ render =>
    rw [hphase] at h
    obtain ⟨htracks, hverdict, hcovers⟩ := h
    by_cases hasked : render ∈ at_.asked
    · rw [advance_asked hphase hasked]
      refine ⟨htracks, fun line hline => ?_⟩
      obtain hsame | hrest := hcovers line hline
      · exact .inr (.inr (.inr (.inr (hsame ▸ htracks.asked render hasked))))
      · exact .inr hrest
    · have htells := hok.tells hphase
      rw [hverdict] at htells
      obtain ⟨reason, hadvance⟩ := advance_told hphase hasked htells
      rw [hadvance]
      exact phaseTracks_failed htracks hcovers reason
  | writing at_ item render bytes =>
    rw [hphase] at h
    obtain ⟨name, hname⟩ := hok.written hphase
    rw [advance_writing hphase hname]
    exact phaseTracks_written h.1 h.2 name render
  | noting at_ item render =>
    rw [hphase] at h
    obtain ⟨htracks, hcovers⟩ := h
    obtain ⟨incomplete, hadvance⟩ := advance_noting input hphase
    rw [hadvance]
    exact ⟨⟨htracks.record, htracks.asked⟩, hcovers⟩
  | confirming at_ item render =>
    rw [hphase] at h
    obtain ⟨jobs, hadvance⟩ := advance_confirmed input hphase
    rw [hadvance]
    exact h
  | recording at_ =>
    rw [hphase] at h
    obtain ⟨record, hrecord, hrenders, hfiles, hfailures, hlines⟩ := h
    rw [advance_recording hphase]
    split_ifs with hstored
    · exact ⟨_, orders_record hrecord, hrenders, hfailures, hlines⟩
    · rw [hfiles (Nat.eq_zero_of_not_pos hstored)] at hlines
      exact ⟨record, hrecord, hrenders, hfailures, hlines⟩
  | flagging at_ =>
    rw [hphase] at h
    obtain ⟨record, hrecord, hrenders, hfailures, hlines⟩ := h
    rw [advance_flagging hphase]
    rw [← hrenders] at hlines
    split_ifs with hfailed
    · exact ⟨_, orders_record hrecord, hlines⟩
    · rw [hfailures (not_not.1 hfailed)] at hlines
      exact ⟨record, hrecord, hlines⟩
  | annotating at_ =>
    rw [advance_annotating hphase]
    split_ifs
    · trivial
    · trivial

/-! ## What a pass settles -/

/-- The orders a pass has yet to be done with. -/
def ahead : CollectorPhase → List ℕ
  | .idle => []
  | .between orders => orders
  | .collecting at_ | .asking at_ _ | .writing at_ _ _ _ | .noting at_ _ _ | .confirming at_ _ _
  | .recording at_ | .flagging at_ | .annotating at_ => at_.order :: at_.orders

/-- A step is done with no order, or with the one it is at, which it leaves
settled; only that order changes. -/
theorem ahead_advance {cloud : ℕ → Verdict} (hok : Answered cloud world input)
    (h : PhaseTracks cloud world.orders world.phase) :
    (ahead (world.advance input).phase = ahead world.phase ∨
      ∃ order, ahead world.phase = order :: ahead (world.advance input).phase ∧
        ∀ record, (world.advance input).orders order = some record → Settled record) ∧
    ∀ other, other ∉ ahead world.phase →
      (world.advance input).orders other = world.orders other := by
  cases hphase : world.phase with
  | idle =>
    rw [advance_idle hphase, hphase]
    exact ⟨.inl rfl, fun _ _ => rfl⟩
  | between orders =>
    cases orders with
    | nil =>
      rw [advance_nil hphase]
      exact ⟨.inl rfl, fun _ _ => rfl⟩
    | cons order orders =>
      cases hrecord : world.orders order with
      | none =>
        rw [advance_none hphase hrecord]
        refine ⟨.inr ⟨order, rfl, fun record hsome => ?_⟩, fun _ _ => rfl⟩
        exact absurd (hrecord.symm.trans hsome) (Option.some_ne_none record).symm
      | some record =>
        rw [advance_some hphase hrecord]
        exact ⟨.inl rfl, fun _ _ => rfl⟩
  | collecting at_ =>
    cases hlines : at_.lines with
    | nil =>
      rw [advance_done hphase hlines]
      exact ⟨.inl rfl, fun _ _ => rfl⟩
    | cons line lines =>
      by_cases hknown : at_.Knows line
      · rw [advance_known hphase hlines hknown]
        exact ⟨.inl rfl, fun _ _ => rfl⟩
      · have hserves := hok.serves hphase hlines
        cases hverdict : cloud line.2 with
        | finished =>
          rw [hverdict] at hserves
          rw [advance_finished hphase hlines hknown hserves]
          exact ⟨.inl rfl, fun _ _ => rfl⟩
        | failed =>
          rw [hverdict] at hserves
          rw [advance_failed hphase hlines hknown hserves]
          exact ⟨.inl rfl, fun _ _ => rfl⟩
  | asking at_ render =>
    rw [hphase] at h
    by_cases hasked : render ∈ at_.asked
    · rw [advance_asked hphase hasked]
      exact ⟨.inl rfl, fun _ _ => rfl⟩
    · have htells := hok.tells hphase
      rw [h.2.1] at htells
      obtain ⟨reason, hadvance⟩ := advance_told hphase hasked htells
      rw [hadvance]
      exact ⟨.inl rfl, fun _ _ => rfl⟩
  | writing at_ item render bytes =>
    obtain ⟨name, hname⟩ := hok.written hphase
    rw [advance_writing hphase hname]
    exact ⟨.inl rfl, fun _ _ => rfl⟩
  | noting at_ item render =>
    obtain ⟨incomplete, hadvance⟩ := advance_noting input hphase
    rw [hadvance]
    exact ⟨.inl rfl, fun _ _ => rfl⟩
  | confirming at_ item render =>
    obtain ⟨jobs, hadvance⟩ := advance_confirmed input hphase
    rw [hadvance]
    exact ⟨.inl rfl, fun _ _ => rfl⟩
  | recording at_ =>
    rw [advance_recording hphase]
    split_ifs
    · exact ⟨.inl rfl, fun other hother =>
        orders_record_ne fun hsame => hother (hsame ▸ List.mem_cons_self)⟩
    · exact ⟨.inl rfl, fun _ _ => rfl⟩
  | flagging at_ =>
    rw [advance_flagging hphase]
    split_ifs
    · exact ⟨.inl rfl, fun other hother =>
        orders_record_ne fun hsame => hother (hsame ▸ List.mem_cons_self)⟩
    · exact ⟨.inl rfl, fun _ _ => rfl⟩
  | annotating at_ =>
    rw [hphase] at h
    obtain ⟨record, hrecord, hsettled⟩ := h
    rw [advance_annotating hphase]
    split_ifs
    · refine ⟨.inr ⟨at_.order, rfl, fun record' hrecord' => ?_⟩, fun other hother =>
        orders_record_ne fun hsame => hother (hsame ▸ List.mem_cons_self)⟩
      obtain rfl := Option.some.inj ((orders_record hrecord).symm.trans hrecord')
      exact hsettled
    · refine ⟨.inr ⟨at_.order, rfl, fun record' hrecord' => ?_⟩, fun _ _ => rfl⟩
      obtain rfl := Option.some.inj (hrecord.symm.trans hrecord')
      exact hsettled

/-- **How far a pass over some orders is**: those it is done with are settled,
and it touches no other. -/
structure Sweeps (cloud : ℕ → Verdict) (orders : List ℕ) (start : ℕ → Option OrderMeta)
    (world : World) : Prop where
  tracks : PhaseTracks cloud world.orders world.phase
  ahead : ∀ order ∈ ahead world.phase, order ∈ orders
  settled : ∀ order ∈ orders, order ∉ Passes.ahead world.phase →
    ∀ record, world.orders order = some record → Settled record
  others : ∀ order, order ∉ orders → world.orders order = start order

theorem sweeps_advance {cloud : ℕ → Verdict} {start : ℕ → Option OrderMeta}
    (hok : Answered cloud world input) (h : Sweeps cloud orders start world) :
    Sweeps cloud orders start (world.advance input) := by
  obtain ⟨hahead, hothers⟩ := ahead_advance hok h.tracks
  have hfewer : ∀ order ∈ ahead (world.advance input).phase, order ∈ ahead world.phase := by
    intro order horder
    obtain hsame | ⟨first, hfirst, -⟩ := hahead
    · exact hsame ▸ horder
    · rw [hfirst]
      exact List.mem_cons_of_mem first horder
  refine ⟨phaseTracks_advance hok h.tracks, fun order horder => h.ahead order (hfewer order horder),
    fun order horder hbehind => ?_, fun order horder => ?_⟩
  · by_cases hnow : order ∈ ahead world.phase
    · -- The step is done with this order.
      obtain hsame | ⟨first, hfirst, hsettled⟩ := hahead
      · exact absurd (hsame ▸ hnow) hbehind
      · rw [hfirst] at hnow
        obtain rfl := (List.mem_cons.1 hnow).resolve_right hbehind
        exact hsettled
    · rw [hothers order hnow]
      exact h.settled order horder hnow
  · rw [hothers order fun hnow => horder (h.ahead order hnow)]
    exact h.others order horder

theorem step_drain (h : world.phase = .idle) (orders : List ℕ) :
    world.step (.drain orders) = world.go (.between orders) := by
  unfold World.step
  dsimp only
  rw [h]

variable {site : Site} {cloud : ℕ → Verdict} {world' : World}

/-- **A pass settles every order it goes through, and touches no other.** -/
theorem Pass.sweeps (h : Pass site cloud world world') (hidle : world.phase = .idle) :
    (∀ order ∈ site.drained, ∀ record, world'.orders order = some record → Settled record) ∧
      ∀ order, order ∉ site.drained → world'.orders order = world.orders order := by
  have hstart : Sweeps cloud site.drained world.orders (world.step (.drain site.drained)) := by
    rw [step_drain hidle]
    exact ⟨trivial, fun order horder => horder, fun order horder hbehind => absurd horder hbehind,
      fun order _ => rfl⟩
  have hend : Sweeps cloud site.drained world.orders world' :=
    h.steps.invariant (fun _ _ hok hsweeps => sweeps_advance hok hsweeps) hstart
  refine ⟨fun order horder => hend.settled order horder ?_, hend.others⟩
  rw [h.ended]
  exact List.not_mem_nil

theorem orders_of_passes (h : Relation.ReflTransGen (Pass site cloud) world world')
    (hidle : world.phase = .idle) :
    world'.phase = .idle ∧
      ∀ order, order ∉ site.drained → world'.orders order = world.orders order := by
  induction h with
  | refl => exact ⟨hidle, fun _ _ => rfl⟩
  | tail _ hpass ih =>
    refine ⟨hpass.ended, fun order horder => ?_⟩
    exact ((hpass.sweeps ih.1).2 order horder).trans (ih.2 order horder)

end Optionia.Render.Passes
