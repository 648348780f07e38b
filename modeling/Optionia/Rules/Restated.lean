import Optionia.Rules.Settling
/-!
# Answers restated

Two maps of answers that rules read alike, one of them perhaps with fewer
keys: an evaluation that settles on the one settles on the other, and says
the same of every target (`evaluate_restated`). Rules that fire alike take
the same options out, so their cascades fire the same triggers; a cascade
over fewer items is complete no later.
-/

namespace Optionia.Rules

variable {R α : Type} {E : Evaluator R α} {rules : List R} {optionsUnder : Containment}

/-! ## What a settled evaluation says -/

theorem hide_of_hidden {s : TargetState} (h : s.hidden = true) : hide s = s := by
  obtain ⟨hidden, required, price, conflict⟩ := s
  change hidden = true at h
  rw [h]
  rfl

/-- What the rules that fire once some options are out do to their targets. -/
noncomputable def effectsOnce (E : Evaluator R α) (rules : List R) (answers : OrderedMap String α)
    (out : Set String) : States :=
  accumulate (rules.filterMap fun rule => E.fired rule (answers.without out))

/-- **What a settled evaluation says of a target**: what the rules that fire
on the answers left say, hidden where the cascade hides it. -/
theorem stateAt_settled {answers : OrderedMap String α} {n : ℕ} (hE : E.TellsApart answers)
    (hmax : E.maxPasses = n + 1)
    (h : (E.evaluate rules answers optionsUnder).refused = none) (t : String) :
    (t ∈ hiddenTargets E rules answers optionsUnder (n + 1) →
      stateAt (E.evaluate rules answers optionsUnder).states t =
        hide (stateAt (effectsOnce E rules answers (takenOut E rules answers optionsUnder n)) t)) ∧
    (t ∉ hiddenTargets E rules answers optionsUnder (n + 1) →
      stateAt (E.evaluate rules answers optionsUnder).states t =
        stateAt (effectsOnce E rules answers (takenOut E rules answers optionsUnder n)) t) := by
  have hhidden := hidden_iff hE hmax h t
  rw [Evaluator.evaluate] at h hhidden ⊢
  cases hrun : (E.loop rules answers optionsUnder).runFrom E.maxPasses 1 [] answers with
  | none =>
    rw [hrun] at h
    simp at h
  | some r =>
    obtain ⟨m, hm, hs, -, hr, -⟩ := (Settle.Loop.runFrom_eq_some_iff _ E.maxPasses 1 ([], answers)
      r.1 r.2).1 hrun
    have hcomplete := (settlesAt_iff hE m).1 hs
    obtain ⟨-, hcurrent⟩ := @after_eq R α E rules answers optionsUnder m
    -- No round after the settling one takes anything out.
    have hout : takenOut E rules answers optionsUnder m =
        takenOut E rules answers optionsUnder n := by
      rcases Nat.eq_or_lt_of_le (by omega : m ≤ n) with rfl | hlt
      · rfl
      · have hfired := Cascade.fired_of_complete hcomplete (by omega : m + 1 ≤ n)
        unfold takenOut Cascade.taken
        rw [hfired]
        exact hcomplete.symm
    have hstate : stateAt r.1 t =
        if t ∈ ((E.loop rules answers optionsUnder).after ([], answers) m).1 then
          hide (stateAt (effectsOnce E rules answers (takenOut E rules answers optionsUnder n)) t)
        else
          stateAt (effectsOnce E rules answers (takenOut E rules answers optionsUnder n)) t := by
      rw [hr]
      refine (stateAt_resolve E rules _ _ t).trans ?_
      rw [hcurrent, hout]
      rfl
    rw [hrun] at hhidden
    change (stateAt r.1 t).hidden = true ↔ _ at hhidden
    change (_ → stateAt r.1 t = _) ∧ (_ → stateAt r.1 t = _)
    by_cases ht : t ∈ ((E.loop rules answers optionsUnder).after ([], answers) m).1
    · rw [if_pos ht] at hstate
      refine ⟨fun _ => hstate, fun hnot => absurd (hhidden.1 ?_) hnot⟩
      rw [hstate]
      rfl
    · rw [if_neg ht] at hstate
      refine ⟨fun hmem => ?_, fun _ => hstate⟩
      rw [hstate]
      have htrue := hhidden.2 hmem
      rw [hstate] at htrue
      exact (hide_of_hidden htrue).symm

/-! ## The same rules fire -/

/-- Rules fire alike on two maps of answers, whatever is taken out. -/
def FiredAlike (E : Evaluator R α) (rules : List R) (answers restated : OrderedMap String α) :
    Prop :=
  ∀ rule ∈ rules, ∀ out : Set String,
    E.fired rule (answers.without out) = E.fired rule (restated.without out)

variable {answers restated : OrderedMap String α}

theorem hiddenOnce_restated (hfired : FiredAlike E rules answers restated) (out : Set String) :
    hiddenOnce E rules restated out = hiddenOnce E rules answers out := by
  refine Set.ext fun t => ⟨?_, ?_⟩
  · rintro ⟨rule, hrule, e, he, ht⟩
    exact ⟨rule, hrule, e, (hfired rule hrule out).trans he, ht⟩
  · rintro ⟨rule, hrule, e, he, ht⟩
    exact ⟨rule, hrule, e, (hfired rule hrule out).symm.trans he, ht⟩

theorem effectsOnce_restated (hfired : FiredAlike E rules answers restated) (out : Set String) :
    effectsOnce E rules restated out = effectsOnce E rules answers out := by
  unfold effectsOnce
  refine congrArg accumulate (List.filterMap_congr fun rule hrule => ?_)
  exact (hfired rule hrule out).symm

theorem without_takenBy (hkeys : restated.keys ⊆ answers.keys) (triggers : Set String) :
    restated.without (Cascade.takenBy {o | o ∈ restated.keys} (underSet optionsUnder) triggers) =
      restated.without
        (Cascade.takenBy {o | o ∈ answers.keys} (underSet optionsUnder) triggers) := by
  refine restated.without_eq_iff.2 fun o ho => ?_
  exact ⟨fun h => ⟨hkeys ho, h.2⟩, fun h => ⟨ho, h.2⟩⟩

/-- **Both cascades fire the same targets.** -/
theorem hiddenTargets_restated (hkeys : restated.keys ⊆ answers.keys)
    (hfired : FiredAlike E rules answers restated) (n : ℕ) :
    hiddenTargets E rules restated optionsUnder n =
      hiddenTargets E rules answers optionsUnder n := by
  induction n with
  | zero => rfl
  | succ n ih =>
    have honce : hiddenOnce E rules restated (Cascade.takenBy {o | o ∈ restated.keys}
          (underSet optionsUnder) (hiddenTargets E rules answers optionsUnder n)) =
        hiddenOnce E rules answers (Cascade.takenBy {o | o ∈ answers.keys}
          (underSet optionsUnder) (hiddenTargets E rules answers optionsUnder n)) := by
      rw [← hiddenOnce_restated hfired]
      unfold hiddenOnce
      rw [without_takenBy hkeys]
    unfold hiddenTargets at ih honce ⊢
    rw [Cascade.fired, Cascade.fired, ih, honce]

theorem without_takenOut_restated (hkeys : restated.keys ⊆ answers.keys)
    (hfired : FiredAlike E rules answers restated) (n : ℕ) :
    restated.without (takenOut E rules restated optionsUnder n) =
      restated.without (takenOut E rules answers optionsUnder n) := by
  have htargets := @hiddenTargets_restated R α E rules optionsUnder answers restated hkeys hfired n
  unfold hiddenTargets at htargets
  unfold takenOut Cascade.taken
  rw [htargets]
  exact without_takenBy hkeys _

/-- **Fewer items are all taken out no later.** -/
theorem completeAfter_restated (hkeys : restated.keys ⊆ answers.keys)
    (hfired : FiredAlike E rules answers restated) {n : ℕ}
    (h : CompleteAfter E rules answers optionsUnder n) :
    CompleteAfter E rules restated optionsUnder n := by
  have hmem : ∀ k o, o ∈ takenOut E rules restated optionsUnder k ↔
      o ∈ restated.keys ∧ o ∈ takenOut E rules answers optionsUnder k := by
    intro k o
    have htargets := @hiddenTargets_restated R α E rules optionsUnder answers restated hkeys hfired k
    unfold hiddenTargets at htargets
    unfold takenOut Cascade.taken
    rw [htargets]
    exact ⟨fun h => ⟨h.1, hkeys h.1, h.2⟩, fun h => ⟨h.1, h.2.2⟩⟩
  refine Set.ext fun o => ?_
  have hround : takenOut E rules answers optionsUnder (n + 1) =
      takenOut E rules answers optionsUnder n := h
  rw [hmem, hmem, hround]

/-! ## The same verdict -/

/-- **Answers restated are evaluated alike**: where the evaluation of the
answers settles, so does that of the restated ones, and every target's state
is the same. -/
theorem evaluate_restated {n : ℕ} (hE : E.TellsApart answers) (hE' : E.TellsApart restated)
    (hmax : E.maxPasses = n + 1) (hkeys : restated.keys ⊆ answers.keys)
    (hfired : FiredAlike E rules answers restated)
    (h : (E.evaluate rules answers optionsUnder).refused = none) :
    (E.evaluate rules restated optionsUnder).refused = none ∧
      ∀ t, stateAt (E.evaluate rules restated optionsUnder).states t =
        stateAt (E.evaluate rules answers optionsUnder).states t := by
  have hsettled : (E.evaluate rules restated optionsUnder).refused = none :=
    (refused_eq_none_iff hE' hmax).2
      (completeAfter_restated hkeys hfired ((refused_eq_none_iff hE hmax).1 h))
  refine ⟨hsettled, fun t => ?_⟩
  have heffects : effectsOnce E rules restated (takenOut E rules restated optionsUnder n) =
      effectsOnce E rules answers (takenOut E rules answers optionsUnder n) := by
    rw [← effectsOnce_restated hfired]
    unfold effectsOnce
    rw [without_takenOut_restated hkeys hfired]
  obtain ⟨hin, hout⟩ := stateAt_settled hE hmax h t
  obtain ⟨hin', hout'⟩ := stateAt_settled hE' hmax hsettled t
  rw [hiddenTargets_restated hkeys hfired, heffects] at hin' hout'
  by_cases ht : t ∈ hiddenTargets E rules answers optionsUnder (n + 1)
  · rw [hin ht, hin' ht]
  · rw [hout ht, hout' ht]

end Optionia.Rules
