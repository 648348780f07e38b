import Optionia.Render.Passes
/-!
# Which orders the passes reach

Every pass over answered requests ends, and one over settled orders changes
nothing. With what a pass settles this says which orders are ever reached
(`reached_iff`): not the eleventh, while the first ten carry render ids.
-/

namespace Optionia.Render.Passes

open Runs

variable {world world' : World} {input : StepInput} {at_ : Progress} {orders : List ℕ} {order : ℕ}
  {site : Site} {cloud : ℕ → Verdict}

/-! ## Every pass ends -/

/-- A pass can end from here. -/
def Ends (cloud : ℕ → Verdict) (world : World) : Prop :=
  ∃ world', CanReach World.advance (Answered cloud) world world' ∧ world'.phase = .idle

theorem Ends.head (hok : Answered cloud world input) (h : Ends cloud (world.advance input)) :
    Ends cloud world := by
  obtain ⟨world', hreach, hidle⟩ := h
  exact ⟨world', hreach.head hok, hidle⟩

/-- The file route's answer about a render. -/
def served : Verdict → FileAnswer
  | .finished => ⟨true, 200, pngSignature, none⟩
  | .failed => ⟨false, 404, [], none⟩

def told : Verdict → StatusAnswer
  | .finished => ⟨true, "rendered", ""⟩
  | .failed => ⟨true, "failed", ""⟩

theorem serves_served (verdict : Verdict) : verdict.Serves (served verdict) := by
  cases verdict with
  | finished => exact ⟨rfl, by decide, .inl rfl⟩
  | failed => exact ⟨rfl, rfl⟩

theorem tells_told (verdict : Verdict) : verdict.Tells (told verdict) := by
  cases verdict with
  | finished => exact ⟨rfl, by decide⟩
  | failed => exact ⟨rfl, rfl⟩

/-- The render that a step of the pass asks the cloud about, where it asks. -/
def askedFor : CollectorPhase → ℕ
  | .collecting at_ => (at_.lines.head?.map Prod.snd).getD 0
  | .asking _ render | .noting _ _ render => render
  | _ => 0

/-- What meets a step where everything is answered. -/
def answerTo (cloud : ℕ → Verdict) (phase : CollectorPhase) : StepInput where
  file := served (cloud (askedFor phase))
  status := told (cloud (askedFor phase))
  name := some "a1.png"
  applied := true
  fileUrl := "print-file"

theorem answered_answerTo (cloud : ℕ → Verdict) (world : World) :
    Answered cloud world (answerTo cloud world.phase) := by
  unfold Answered
  cases world.phase with
  | collecting at_ =>
    intro line hline
    have hasked : askedFor (.collecting at_) = line.2 := by
      show (at_.lines.head?.map Prod.snd).getD 0 = line.2
      rw [Option.mem_def.1 hline]
      rfl
    show (cloud line.2).Serves (served (cloud (askedFor (.collecting at_))))
    rw [hasked]
    exact serves_served _
  | asking at_ render => exact tells_told _
  | noting at_ item render => exact tells_told _
  | writing at_ item render bytes => exact Option.some_ne_none _
  | confirming at_ item render => exact rfl
  | _ => trivial

theorem Ends.answered
    (h : Ends cloud (world.advance (answerTo cloud world.phase))) : Ends cloud world :=
  h.head (answered_answerTo cloud world)

/-! From an order a pass gets to those after it, whichever of the three writes
at its end are made. -/

section
variable (hnext : ∀ world : World, world.phase = .between orders → Ends cloud world)
include hnext

theorem ends_annotating (hphase : world.phase = .annotating at_) (horders : at_.orders = orders) :
    Ends cloud world := by
  refine Ends.answered ?_
  rw [advance_annotating hphase]
  split_ifs
  · exact hnext _ (congrArg CollectorPhase.between horders)
  · exact hnext _ (congrArg CollectorPhase.between horders)

theorem ends_flagging (hphase : world.phase = .flagging at_) (horders : at_.orders = orders) :
    Ends cloud world := by
  refine Ends.answered ?_
  rw [advance_flagging hphase]
  split_ifs
  · exact ends_annotating hnext rfl horders
  · exact ends_annotating hnext rfl horders

theorem ends_recording (hphase : world.phase = .recording at_) (horders : at_.orders = orders) :
    Ends cloud world := by
  refine Ends.answered ?_
  rw [advance_recording hphase]
  split_ifs
  · exact ends_flagging hnext rfl horders
  · exact ends_flagging hnext rfl horders

end

/-! And from a line to the lines after it, whatever is answered. -/

section
variable {lines : List (ℕ × ℕ)} (hnext : ∀ (world : World) (at_ : Progress),
  world.phase = .collecting at_ → at_.lines = lines → at_.orders = orders → Ends cloud world)
include hnext

theorem ends_confirming {item render : ℕ} (hphase : world.phase = .confirming at_ item render)
    (hlines : at_.lines = lines) (horders : at_.orders = orders) : Ends cloud world := by
  obtain ⟨jobs, hconfirmed⟩ := advance_confirmed (answerTo cloud world.phase) hphase
  refine Ends.answered ?_
  rw [hconfirmed]
  exact hnext _ _ rfl hlines horders

theorem ends_noting {item render : ℕ} (hphase : world.phase = .noting at_ item render)
    (hlines : at_.lines = lines) (horders : at_.orders = orders) : Ends cloud world := by
  obtain ⟨incomplete, hnoted⟩ := advance_noting (answerTo cloud world.phase) hphase
  refine Ends.answered ?_
  rw [hnoted]
  exact ends_confirming hnext rfl hlines horders

theorem ends_writing {item render : ℕ} {bytes : Bytes}
    (hphase : world.phase = .writing at_ item render bytes)
    (hlines : at_.lines = lines) (horders : at_.orders = orders) : Ends cloud world := by
  obtain ⟨name, hname⟩ := (answered_answerTo cloud world).written hphase
  refine Ends.answered ?_
  rw [advance_writing hphase hname]
  exact ends_noting hnext rfl hlines horders

theorem ends_asking {render : ℕ} (hphase : world.phase = .asking at_ render)
    (hverdict : cloud render = .failed)
    (hlines : at_.lines = lines) (horders : at_.orders = orders) : Ends cloud world := by
  have htells := (answered_answerTo cloud world).tells hphase
  rw [hverdict] at htells
  refine Ends.answered ?_
  by_cases hasked : render ∈ at_.asked
  · rw [advance_asked hphase hasked]
    exact hnext _ _ rfl hlines horders
  · obtain ⟨reason, htold⟩ := advance_told hphase hasked htells
    rw [htold]
    exact hnext _ _ rfl hlines horders

end

theorem ends_collecting (hnext : ∀ world : World, world.phase = .between orders → Ends cloud world)
    (lines : List (ℕ × ℕ)) : ∀ (world : World) (at_ : Progress), world.phase = .collecting at_ →
      at_.lines = lines → at_.orders = orders → Ends cloud world := by
  induction lines with
  | nil =>
    intro world at_ hphase hlines horders
    refine Ends.answered ?_
    rw [advance_done hphase hlines]
    exact ends_recording hnext rfl horders
  | cons line lines ih =>
    intro world at_ hphase hlines horders
    have hserves := (answered_answerTo cloud world).serves hphase hlines
    refine Ends.answered ?_
    by_cases hknown : at_.Knows line
    · rw [advance_known hphase hlines hknown]
      exact ih _ _ rfl rfl horders
    · cases hverdict : cloud line.2 with
      | finished =>
        rw [hverdict] at hserves
        rw [advance_finished hphase hlines hknown hserves]
        exact ends_writing ih rfl rfl horders
      | failed =>
        rw [hverdict] at hserves
        rw [advance_failed hphase hlines hknown hserves]
        exact ends_asking ih rfl hverdict rfl horders

/-- **Every pass ends.** -/
theorem ends_between (orders : List ℕ) :
    ∀ world : World, world.phase = .between orders → Ends cloud world := by
  induction orders with
  | nil =>
    intro world hphase
    refine Ends.answered ?_
    rw [advance_nil hphase]
    exact ⟨_, .refl _, rfl⟩
  | cons order orders ih =>
    intro world hphase
    refine Ends.answered ?_
    cases hrecord : world.orders order with
    | none =>
      rw [advance_none hphase hrecord]
      exact ih _ rfl
    | some record =>
      rw [advance_some hphase hrecord]
      exact ends_collecting ih _ _ _ rfl rfl rfl

theorem exists_pass (site : Site) (cloud : ℕ → Verdict) (hidle : world.phase = .idle) :
    ∃ world', Pass site cloud world world' := by
  have hends : Ends cloud (world.step (.drain site.drained)) := by
    rw [step_drain hidle]
    exact ends_between _ _ rfl
  obtain ⟨world', hreach, hended⟩ := hends
  exact ⟨world', hreach, hended⟩

/-! ## A pass with nothing to do -/

theorem skips_collecting {record : OrderMeta} {target : World} (hsettled : Settled record)
    (hnext : CanReach World.advance (Answered cloud) (world.go (.between orders)) target) :
    ∀ (lines : List (ℕ × ℕ)), (∀ line ∈ lines, line ∈ record.renders.entries) →
      CanReach World.advance (Answered cloud)
        (world.go (.collecting { Progress.start orders order record with lines := lines }))
        target := by
  intro lines
  induction lines with
  | nil =>
    intro _
    refine .head (answered_answerTo cloud _) ?_
    rw [advance_done rfl rfl]
    refine .head (answered_answerTo cloud _) ?_
    rw [advance_recording rfl, if_neg (by exact Nat.lt_irrefl 0)]
    refine .head (answered_answerTo cloud _) ?_
    rw [advance_flagging rfl, if_neg (by exact fun h => h rfl)]
    refine .head (answered_answerTo cloud _) ?_
    rw [advance_annotating rfl, if_neg (by exact fun h => h rfl)]
    exact hnext
  | cons line lines ih =>
    intro hlines
    refine .head (answered_answerTo cloud _) ?_
    rw [advance_known rfl rfl (by exact hsettled line (hlines line List.mem_cons_self))]
    exact ih fun other hother => hlines other (List.mem_cons_of_mem line hother)

theorem skips_between (orders : List ℕ) (h : ∀ order ∈ orders, ∀ record,
      world.orders order = some record → Settled record) :
    CanReach World.advance (Answered cloud) (world.go (.between orders)) (world.go .idle) := by
  induction orders with
  | nil =>
    refine .head (answered_answerTo cloud _) ?_
    rw [advance_nil rfl]
    exact .refl _
  | cons order orders ih =>
    have hrest := ih fun other hother => h other (List.mem_cons_of_mem order hother)
    refine .head (answered_answerTo cloud _) ?_
    cases hrecord : world.orders order with
    | none =>
      have hskip : ∀ input, (world.go (.between (order :: orders))).advance input =
          world.go (.between orders) := fun _ => advance_none rfl hrecord
      rw [hskip]
      exact hrest
    | some record =>
      have htake : ∀ input, (world.go (.between (order :: orders))).advance input =
          world.go (.collecting (.start orders order record)) := fun _ => advance_some rfl hrecord
      rw [htake]
      have hsettled : Settled record := h order List.mem_cons_self record hrecord
      exact skips_collecting hsettled hrest _ fun _ hline => hline

/-- **Over settled orders there is a pass that changes nothing.** -/
theorem pass_of_settled (hidle : world.phase = .idle) (h : ∀ order ∈ site.drained, ∀ record,
    world.orders order = some record → Settled record) : Pass site cloud world world where
  steps := by
    have hsame : world.go .idle = world := by
      unfold World.go
      rw [← hidle]
    have hskips : CanReach World.advance (Answered cloud) (world.go (.between site.drained))
        (world.go .idle) := skips_between site.drained h
    rw [hsame] at hskips
    rw [step_drain hidle]
    exact hskips
  ended := hidle

/-! ## Which orders are reached -/

theorem drained_eq (hconnected : site.disconnected = false) :
    site.drained = site.carrying.take batchSize := by
  unfold Site.drained
  rw [if_neg (Bool.eq_false_iff.1 hconnected)]
  refine List.filter_eq_self.2 fun order horder => decide_eq_true ?_
  exact site.pos order (List.mem_filter.1 (List.mem_of_mem_take horder)).1

theorem not_mem_drained_of_mem_drop (hconnected : site.disconnected = false)
    (h : order ∈ site.carrying.drop batchSize) : order ∉ site.drained := by
  have hnodup : (site.carrying.take batchSize ++ site.carrying.drop batchSize).Nodup := by
    rw [List.take_append_drop]
    exact site.nodup.filter _
  rw [drained_eq hconnected]
  exact fun htake => List.disjoint_of_nodup_append hnodup htake h

theorem mem_drained_or_drop (hconnected : site.disconnected = false)
    (h : order ∈ site.carrying) :
    order ∈ site.drained ∨ order ∈ site.carrying.drop batchSize := by
  rw [drained_eq hconnected, ← List.mem_append, List.take_append_drop]
  exact h

/-- **Every finished print file is reached exactly where no line is outstanding
past the tenth order that carries render ids.** The first ten are settled by
one pass, and no pass looks at another. -/
theorem reached_iff (site : Site) (cloud : ℕ → Verdict) (world : World)
    (hidle : world.phase = .idle) (hconnected : site.disconnected = false)
    (hlists : site.Lists world) :
    Reached site cloud world ↔ ∀ order ∈ site.carrying.drop batchSize, ∀ record,
      world.orders order = some record → Settled record := by
  constructor
  · intro h order horder record hrecord
    -- A pass, and one after it that has nothing to do.
    obtain ⟨after, hpass⟩ := exists_pass site cloud hidle
    obtain ⟨hsettled, hothers⟩ := hpass.sweeps hidle
    have hquiet : Pass site cloud after after := pass_of_settled hpass.ended hsettled
    have hall : AllSettled after := h after after (.single hpass) hquiet ⟨rfl, fun _ => rfl⟩
    refine hall order record ?_
    rw [hothers order (not_mem_drained_of_mem_drop hconnected horder)]
    exact hrecord
  · intro h before after hpasses hpass _ order record hrecord
    obtain ⟨hidle', hbefore⟩ := orders_of_passes hpasses hidle
    obtain ⟨hsettled, hothers⟩ := hpass.sweeps hidle'
    by_cases hdrained : order ∈ site.drained
    · exact hsettled order hdrained record hrecord
    · rw [hothers order hdrained, hbefore order hdrained] at hrecord
      intro line hline
      have hlisted : order ∈ site.carrying :=
        hlists order record hrecord (List.ne_nil_of_mem hline)
      have hlater := (mem_drained_or_drop hconnected hlisted).resolve_left hdrained
      exact h order hlater record hrecord line hline

/-- A site with one order, of two designed lines. -/
theorem reached_twoBanners :
    Reached ⟨false, [12], fun _ => true, by decide, by decide⟩ (fun _ => .finished) twoBanners :=
  (reached_iff ⟨false, [12], fun _ => true, by decide, by decide⟩ (fun _ => .finished) twoBanners
    rfl rfl fun order record hrecord _ => by
      by_cases horder : order = 12
      · subst horder
        decide
      · exact absurd ((if_neg horder).symm.trans hrecord) (Option.some_ne_none record).symm).2
    fun order horder => absurd horder List.not_mem_nil

def elevenOrders : Site := ⟨false, List.range' 1 11, fun _ => true, by decide, by decide⟩

/-- Each has one designed line, and only the last has no file yet. -/
def lastWaiting : World where
  jobs := []
  orders := fun order =>
    if order ∈ List.range' 1 11 then
      some ⟨(∅ : OrderedMap ℕ ℕ).set 3 order,
        if order = 11 then ∅ else (∅ : OrderedMap ℕ String).set 3 "a1.png", ∅, ∅⟩
    else none
  stored := [("a1.png", pngSignature)]
  phase := .idle

theorem settled_lastWaiting {record : OrderMeta} (hlast : order ≠ 11)
    (hrecord : lastWaiting.orders order = some record) : Settled record := by
  unfold lastWaiting at hrecord
  dsimp only at hrecord
  rw [if_neg hlast] at hrecord
  split at hrecord
  · obtain rfl := Option.some.inj hrecord
    intro line hline
    obtain rfl := List.mem_singleton.1 hline
    exact .inl rfl
  · cases hrecord

/-- **The eleventh order is never looked at**, behind ten that are done. -/
theorem laterOrder_unexamined : ¬ ∀ (site : Site) (cloud : ℕ → Verdict) (world : World),
    world.phase = .idle → site.disconnected = false → site.Lists world →
      Reached site cloud world := by
  intro h
  have hlists : elevenOrders.Lists lastWaiting := by
    intro order record hrecord _
    by_cases horder : order ∈ List.range' 1 11
    · exact List.mem_filter.2 ⟨horder, rfl⟩
    · exact absurd ((if_neg horder).symm.trans hrecord) (Option.some_ne_none record).symm
  have hnot : (11 : ℕ) ∉ elevenOrders.drained := by decide
  have hpass : Pass elevenOrders (fun _ => .finished) lastWaiting lastWaiting :=
    pass_of_settled rfl fun order horder record hrecord =>
      settled_lastWaiting (fun hlast => hnot (hlast ▸ horder)) hrecord
  have hall : AllSettled lastWaiting :=
    h elevenOrders _ lastWaiting rfl rfl hlists _ _ .refl hpass ⟨rfl, fun _ => rfl⟩
  have hline := hall 11 ⟨(∅ : OrderedMap ℕ ℕ).set 3 11, ∅, ∅, ∅⟩ rfl (3, 11) (by decide)
  exact hline.elim Bool.false_ne_true Bool.false_ne_true

end Optionia.Render.Passes
