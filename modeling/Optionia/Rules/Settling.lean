import Optionia.Lib.Cascade
import Optionia.Cloud.PublishCheck
/-!
# When an evaluation settles

An evaluation is a cascade: the triggers are the targets hide rules name,
the items are the answered options, and a target takes out the options under
it. So an evaluation settles exactly when its cascade is complete one round
before the pass limit (`refused_eq_none_iff`), and what it then leaves hidden
is what the cascade fired (`hidden_iff`).
-/

namespace Optionia.Rules

variable {R α : Type} (E : Evaluator R α) (rules : List R) (answers : OrderedMap String α)
variable (optionsUnder : Containment)

/-- The options under a target, as a set. -/
def underSet (target : String) : Set String := {o | o ∈ under optionsUnder target}

/-- The targets that hide rules name once some options are out. -/
def hiddenOnce (out : Set String) : Set String := {t | E.Hides rules (answers.without out) t}

/-- The targets hidden within the first `n` passes. -/
abbrev hiddenTargets (n : ℕ) : Set String :=
  Cascade.fired {o | o ∈ answers.keys} (underSet optionsUnder) (hiddenOnce E rules answers) n

/-- The answered options taken out within the first `n` passes. -/
abbrev takenOut (n : ℕ) : Set String :=
  Cascade.taken {o | o ∈ answers.keys} (underSet optionsUnder) (hiddenOnce E rules answers) n

/-- **The hides have run their course after `n` passes**: one pass more takes
no further answered option out. -/
def CompleteAfter (n : ℕ) : Prop :=
  Cascade.Complete {o | o ∈ answers.keys} (underSet optionsUnder) (hiddenOnce E rules answers) n

/-- The evaluator tells the maps an evaluation meets apart as maps. -/
def Evaluator.TellsApart : Prop :=
  ∀ ks ks', E.same (answers.eraseAll ks) (answers.eraseAll ks') = true ↔
    answers.eraseAll ks = answers.eraseAll ks'

variable {E rules answers optionsUnder}

theorem clearHidden_eq_without {hidden : List String} {targets : Set String}
    (h : ∀ t, t ∈ hidden ↔ t ∈ targets) :
    clearHidden answers optionsUnder hidden = answers.without
      (Cascade.takenBy {o | o ∈ answers.keys} (underSet optionsUnder) targets) := by
  refine answers.eraseAll_eq_without fun o ho => ?_
  rw [List.mem_flatMap]
  constructor
  · rintro ⟨t, ht, hot⟩
    exact ⟨ho, t, (h t).1 ht, hot⟩
  · rintro ⟨-, t, ht, hot⟩
    exact ⟨t, (h t).2 ht, hot⟩

/-- **The loop runs its cascade**: after `n` passes it carries the targets
fired, and is about to read the answers left. -/
theorem after_eq (n : ℕ) :
    (∀ t, t ∈ ((E.loop rules answers optionsUnder).after ([], answers) n).1 ↔
      t ∈ hiddenTargets E rules answers optionsUnder n) ∧
    ((E.loop rules answers optionsUnder).after ([], answers) n).2 =
      answers.without (takenOut E rules answers optionsUnder n) := by
  have hclear : ∀ hidden : List String,
      (∀ t, t ∈ hidden ↔ t ∈ hiddenTargets E rules answers optionsUnder n) →
      clearHidden answers optionsUnder hidden =
        answers.without (takenOut E rules answers optionsUnder n) :=
    fun hidden h => clearHidden_eq_without h
  induction n with
  | zero =>
    refine ⟨fun t => ⟨fun h => absurd h List.not_mem_nil, fun h => absurd h (Set.notMem_empty t)⟩,
      ?_⟩
    rw [← hclear [] fun t => ⟨fun h => absurd h List.not_mem_nil,
      fun h => absurd h (Set.notMem_empty t)⟩]
    rfl
  | succ n ih =>
    obtain ⟨hhidden, hcurrent⟩ := ih fun hidden h => clearHidden_eq_without h
    have hgrown : ∀ t, t ∈ ((E.loop rules answers optionsUnder).after ([], answers) (n + 1)).1 ↔
        t ∈ hiddenTargets E rules answers optionsUnder (n + 1) := by
      intro t
      rw [Settle.Loop.after_succ]
      change t ∈ collect _ (E.resolve rules _ _) ↔ _
      rw [mem_grow, hhidden t, hcurrent]
      rfl
    refine ⟨hgrown, ?_⟩
    rw [← hclear _ hgrown, Settle.Loop.after_succ]
    rfl

/-- A pass settles exactly when the cascade was complete before it. -/
theorem settlesAt_iff (hE : E.TellsApart answers) (n : ℕ) :
    (E.loop rules answers optionsUnder).SettlesAt ([], answers) n ↔
      CompleteAfter E rules answers optionsUnder n := by
  have herase : ∀ n, ∃ ks, ((E.loop rules answers optionsUnder).after ([], answers) n).2 =
      answers.eraseAll ks := by
    intro n
    cases n with
    | zero => exact ⟨[], rfl⟩
    | succ n =>
      rw [Settle.Loop.after_succ]
      exact ⟨_, rfl⟩
  obtain ⟨ks, hks⟩ := herase n
  obtain ⟨ks', hks'⟩ := herase (n + 1)
  have hmaps : (E.loop rules answers optionsUnder).SettlesAt ([], answers) n ↔
      answers.without (takenOut E rules answers optionsUnder (n + 1)) =
        answers.without (takenOut E rules answers optionsUnder n) := by
    rw [← (after_eq (n + 1)).2, ← (after_eq n).2, hks, hks', ← hE ks' ks, ← hks, ← hks']
    rfl
  rw [hmaps, OrderedMap.without_eq_iff, CompleteAfter, Cascade.Complete]
  constructor
  · intro h
    refine Set.Subset.antisymm (fun o ho => ?_) (fun o ho => ?_)
    · exact (h o ho.1).1 ho
    · exact (h o ho.1).2 ho
  · intro h o _
    rw [takenOut, takenOut, h]

/-- **An evaluation is answered exactly when its hides have run their course
one pass before the limit.** -/
theorem refused_eq_none_iff {n : ℕ} (hE : E.TellsApart answers) (hmax : E.maxPasses = n + 1) :
    (E.evaluate rules answers optionsUnder).refused = none ↔
      CompleteAfter E rules answers optionsUnder n := by
  have hnone := (E.loop rules answers optionsUnder).runFrom_eq_none_iff E.maxPasses 1 ([], answers)
  rw [Evaluator.evaluate]
  cases hrun : (E.loop rules answers optionsUnder).runFrom E.maxPasses 1 [] answers with
  | none =>
    refine ⟨fun h => absurd h (Option.some_ne_none _), fun h => ?_⟩
    exact absurd ((settlesAt_iff hE n).2 h) (hnone.1 hrun n (by omega))
  | some r =>
    refine ⟨fun _ => ?_, fun _ => rfl⟩
    obtain ⟨m, hm, hs, -⟩ := (Settle.Loop.runFrom_eq_some_iff _ E.maxPasses 1 ([], answers)
      r.1 r.2).1 hrun
    exact Cascade.Complete.mono ((settlesAt_iff hE m).1 hs) (by omega)

/-- **What a settled evaluation leaves hidden is what its cascade fired.** -/
theorem hidden_iff {n : ℕ} (hE : E.TellsApart answers) (hmax : E.maxPasses = n + 1)
    (h : (E.evaluate rules answers optionsUnder).refused = none) (t : String) :
    (stateAt (E.evaluate rules answers optionsUnder).states t).hidden = true ↔
      t ∈ hiddenTargets E rules answers optionsUnder (n + 1) := by
  rw [Evaluator.evaluate] at h ⊢
  cases hrun : (E.loop rules answers optionsUnder).runFrom E.maxPasses 1 [] answers with
  | none =>
    rw [hrun] at h
    simp at h
  | some r =>
    obtain ⟨m, hm, hs, -, hr, -⟩ := (Settle.Loop.runFrom_eq_some_iff _ E.maxPasses 1 ([], answers)
      r.1 r.2).1 hrun
    have hcomplete := (settlesAt_iff hE m).1 hs
    obtain ⟨hhidden, hcurrent⟩ := @after_eq R α E rules answers optionsUnder m
    have hfinal : hiddenTargets E rules answers optionsUnder (n + 1) =
        hiddenTargets E rules answers optionsUnder (m + 1) :=
      Cascade.fired_of_complete hcomplete (by omega)
    change (stateAt r.1 t).hidden = true ↔ _
    rw [hr]
    change (stateAt (E.resolve rules _ _) t).hidden = true ↔ _
    rw [hidden_resolve, hhidden t, hcurrent, hfinal]
    rfl

/-! ## Answers already cleared -/

/-- **On answers from which everything under some targets is gone, an
evaluation settles with those targets hidden exactly when the rules that
fire on the answers hide just them.** Such answers lose nothing more, so
every pass reads the same. -/
theorem settles_with_iff {n : ℕ} {hidden : Set String} (hE : E.TellsApart answers)
    (hmax : E.maxPasses = n + 1)
    (hclear : ∀ t ∈ hidden, ∀ o ∈ under optionsUnder t, o ∉ answers.keys) :
    ((E.evaluate rules answers optionsUnder).refused = none ∧
      ∀ t, (stateAt (E.evaluate rules answers optionsUnder).states t).hidden = true ↔
        t ∈ hidden) ↔
    ∀ t, E.Hides rules answers t ↔ t ∈ hidden := by
  have hnone : ∀ targets ⊆ hidden, Cascade.takenBy {o | o ∈ answers.keys}
      (underSet optionsUnder) targets = ∅ := by
    intro targets hsub
    refine Set.eq_empty_iff_forall_notMem.2 fun o ho => ?_
    obtain ⟨hkey, t, ht, hot⟩ := ho
    exact hclear t (hsub ht) o hot hkey
  have honce : ∀ t, t ∈ hiddenOnce E rules answers ∅ ↔ E.Hides rules answers t := by
    intro t
    change E.Hides rules (answers.without ∅) t ↔ _
    rw [OrderedMap.without_empty]
  constructor
  · rintro ⟨hsettled, hhidden⟩ t
    have hfinal : hiddenTargets E rules answers optionsUnder (n + 1) = hidden :=
      Set.ext fun t => (hidden_iff hE hmax hsettled t).symm.trans (hhidden t)
    have huntouched : ∀ k ≤ n, takenOut E rules answers optionsUnder k = ∅ := by
      intro k hk
      have hmono : hiddenTargets E rules answers optionsUnder k ⊆
          hiddenTargets E rules answers optionsUnder (n + 1) :=
        Cascade.fired_mono (by omega)
      exact hnone _ (hmono.trans hfinal.subset)
    rw [← hfinal, hiddenTargets, Cascade.fired_of_untouched huntouched]
    exact (honce t).symm
  · intro hfires
    have hsame : hiddenOnce E rules answers ∅ = hidden :=
      Set.ext fun t => (honce t).trans (hfires t)
    have hwithin : ∀ k, hiddenTargets E rules answers optionsUnder k ⊆ hidden := by
      intro k
      induction k with
      | zero => exact Set.empty_subset _
      | succ k ih =>
        have hk := hnone _ ih
        unfold hiddenTargets at hk ih ⊢
        rw [Cascade.fired, hk, hsame]
        exact Set.union_subset ih subset_rfl
    have huntouched : ∀ k, takenOut E rules answers optionsUnder k = ∅ :=
      fun k => hnone _ (hwithin k)
    have hsettled : (E.evaluate rules answers optionsUnder).refused = none := by
      rw [refused_eq_none_iff hE hmax]
      exact (huntouched (n + 1)).trans (huntouched n).symm
    refine ⟨hsettled, fun t => ?_⟩
    rw [hidden_iff hE hmax hsettled, hiddenTargets,
      Cascade.fired_of_untouched fun k _ => huntouched k, hsame]

/-! ## Answers that are read alike -/

theorem hidden_of_refused (h : (E.evaluate rules answers optionsUnder).refused ≠ none) (t : String) :
    (stateAt (E.evaluate rules answers optionsUnder).states t).hidden = false := by
  rw [Evaluator.evaluate] at h ⊢
  cases hrun : (E.loop rules answers optionsUnder).runFrom E.maxPasses 1 [] answers with
  | none => rfl
  | some r =>
    rw [hrun] at h
    exact absurd rfl h

/-- **Two answers maps that are read alike, and of which the same answers
matter, hide alike**, where they settle alike. -/
theorem hidden_eq_of_matters {answers' : OrderedMap String α} {core : Set String} {n : ℕ}
    (hE : E.TellsApart answers) (hE' : E.TellsApart answers') (hmax : E.maxPasses = n + 1)
    (halike : hiddenOnce E rules answers = hiddenOnce E rules answers')
    (hmatters : Cascade.Matters (hiddenOnce E rules answers) core)
    (hkeys : ∀ o ∈ core, o ∈ answers.keys ↔ o ∈ answers'.keys)
    (hsettle : (E.evaluate rules answers optionsUnder).refused = none ↔
      (E.evaluate rules answers' optionsUnder).refused = none) (t : String) :
    (stateAt (E.evaluate rules answers optionsUnder).states t).hidden =
      (stateAt (E.evaluate rules answers' optionsUnder).states t).hidden := by
  by_cases h : (E.evaluate rules answers optionsUnder).refused = none
  · have hitems : {o | o ∈ answers.keys} ∩ core = {o | o ∈ answers'.keys} ∩ core :=
      Set.ext fun o => ⟨fun ⟨hkey, hcore⟩ => ⟨(hkeys o hcore).1 hkey, hcore⟩,
        fun ⟨hkey, hcore⟩ => ⟨(hkeys o hcore).2 hkey, hcore⟩⟩
    have hfired : hiddenTargets E rules answers optionsUnder (n + 1) =
        hiddenTargets E rules answers' optionsUnder (n + 1) := by
      rw [hiddenTargets, hiddenTargets, ← halike]
      exact Cascade.fired_eq_of_matters hmatters hitems (n + 1)
    rw [Bool.eq_iff_iff, hidden_iff hE hmax h, hidden_iff hE' hmax (hsettle.1 h), hfired]
  · rw [hidden_of_refused h, hidden_of_refused (mt hsettle.2 h)]

/-! ## Chains of hides -/

/-- Whether a rule fires depends on the answers to the options it reads. -/
def Evaluator.ReadsOnly (E : Evaluator R α) (reads : R → List String) : Prop :=
  ∀ rule (a b : OrderedMap String α), (∀ o ∈ reads rule, a.get? o = b.get? o) →
    E.fired rule a = E.fired rule b

end Optionia.Rules

/-! ## The pass limit and the publish check

The publish check refuses a set whose hide rules form a cycle; an evaluation
gives up after ten passes. The check does not bound how long a chain of
hides may be, so the limit meets sets it accepts: exactly those answers are
refused on which the hides have not run their course after nine passes
(`settles_iff`), and `chain_refused` is such a set.
-/

namespace Optionia.Rules

open Wire Cloud

/-! ## The two evaluators read answers maps as maps -/

theorem tellsApart_plugin (answers : Engine.RuleEvaluator.Answers) :
    Engine.RuleEvaluator.evaluator.TellsApart answers :=
  fun _ _ => decide_eq_true_iff

theorem tellsApart_cloud {answers : Js.Answers}
    (h : ∀ p ∈ answers.entries, p.2.selfSame = true) : Cloud.evaluator.TellsApart answers :=
  fun _ _ => Js.sameAnswers_eraseAll_iff h

theorem selfSame_mapValues_parse (answers : OrderedMap String Json) :
    ∀ p ∈ (answers.mapValues Json.parse).entries, p.2.selfSame = true := by
  intro p hp
  obtain ⟨⟨k, v⟩, -, rfl⟩ := List.mem_map.1 hp
  exact Json.selfSame_parse v

/-! ## Rules read the options their conditions name -/

theorem readsOnly_plugin : Engine.RuleEvaluator.evaluator.ReadsOnly fun rule =>
    (Engine.RuleEvaluator.conditions rule).map Engine.RuleEvaluator.optionId := by
  intro rule a b h
  have hholds : ∀ condition ∈ Engine.RuleEvaluator.conditions rule,
      Engine.RuleEvaluator.conditionHolds condition a =
        Engine.RuleEvaluator.conditionHolds condition b := by
    intro condition hc
    rw [Engine.RuleEvaluator.conditionHolds, Engine.RuleEvaluator.conditionHolds,
      OrderedMap.getD, OrderedMap.getD, h _ (List.mem_map_of_mem hc)]
  have hfires : Engine.RuleEvaluator.ruleFires rule a = Engine.RuleEvaluator.ruleFires rule b := by
    obtain ⟨hany, hall⟩ := any_all_congr fun condition hc =>
      congrArg (condition.isArray && ·) (hholds condition hc)
    simp only [Engine.RuleEvaluator.ruleFires, hany, hall]
  change Engine.RuleEvaluator.fired rule a = Engine.RuleEvaluator.fired rule b
  rw [Engine.RuleEvaluator.fired, Engine.RuleEvaluator.fired, hfires]

/-! ## The limit -/

/-- The options of a chain, `o0` to `o10`. -/
def chainOptions : List String :=
  ["o0", "o1", "o2", "o3", "o4", "o5", "o6", "o7", "o8", "o9", "o10"]

/-- A set whose group holds the options of the chain. -/
def chainTree : OptionSetTree where
  id := "s"
  groups := [⟨"g", true, chainOptions.map fun o => ⟨o, true, []⟩⟩]
  rules := []

/-- A rule that hides `target` while `o` is unanswered. -/
def hideWhileEmpty (o target : String) : OptionRule where
  id := target
  targetType := "option"
  targetId := target
  action := "hide"
  matchType := "all"
  conditions := .arr [.obj [("optionId", .str o), ("operator", .str "is_empty")]]
  actionValue := none
  sortOrder := 0
  isEnabled := true

/-- Each option of the chain needs the one before. -/
def chainRules : List OptionRule := List.zipWith hideWhileEmpty chainOptions chainOptions.tail

/-- Every option of the chain answered but the first. -/
def chainAnswers : OrderedMap String Json :=
  chainOptions.tail.foldl (fun answers o => answers.set o (.str "x")) ∅

end Optionia.Rules
