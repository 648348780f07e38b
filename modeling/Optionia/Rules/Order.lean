import Mathlib.Data.List.Forall2
import Optionia.Engine.RuleEvaluator
import Optionia.Cloud.RuleEvaluator
/-!
# Evaluation does not depend on order

Neither the order of the rules nor the order of the conditions within a rule
reaches an outcome, in the plugin or in the cloud. Conditions are joined by
"any" or "all", so a rule fires alike whatever their order; and the effects
of the rules that fire commute on each target, on every pass.
-/

namespace Optionia.Rules

/-- Lists of the same rules, up to the order of the list and, for each rule,
what `same` lets differ. -/
def Reordered {R : Type} (same : R → R → Prop) (rules rules' : List R) : Prop :=
  ∃ mid, rules.Perm mid ∧ List.Forall₂ same mid rules'

/-- **Rules that fire alike may stand for one another, in any order.** -/
theorem agree_of_reordered {R α : Type} {E : Evaluator R α} {same : R → R → Prop}
    (hsame : ∀ a b, same a b → ∀ answers, E.fired a answers = E.fired b answers)
    {rules rules' : List R} (h : Reordered same rules rules') (answers : OrderedMap String α)
    (optionsUnder : Containment) :
    (E.evaluate rules answers optionsUnder).Agree (E.evaluate rules' answers optionsUnder) := by
  obtain ⟨mid, hperm, hmid⟩ := h
  refine agree_of_fired compares_eq rfl (fun ks t => ?_) (fun _ _ => rfl)
  have hstep : (mid.filterMap fun rule => E.fired rule (answers.eraseAll ks)) =
      rules'.filterMap fun rule => E.fired rule (answers.eraseAll ks) := by
    clear hperm
    induction hmid with
    | nil => rfl
    | cons hab _ ih =>
      rw [List.filterMap_cons, List.filterMap_cons, hsame _ _ hab, ih]
  rw [← hstep]
  exact stateAt_accumulate_perm (hperm.filterMap _) t

/-- Whether any, and whether all, of a list satisfy a test does not depend
on its order. -/
theorem any_all_perm {β : Type} {l l' : List β} (h : l.Perm l') (p : β → Bool) :
    l.any p = l'.any p ∧ l.all p = l'.all p := by
  refine ⟨Bool.eq_iff_iff.2 ?_, Bool.eq_iff_iff.2 ?_⟩
  · simp only [List.any_eq_true, h.mem_iff]
  · simp only [List.all_eq_true, h.mem_iff]

/-! ## The plugin -/

section Plugin

open Php Engine.RuleEvaluator

/-- One rule of the document with its conditions in another order. -/
structure SameConditions (rule rule' : Value) : Prop where
  isArray : rule.isArray = rule'.isArray
  field : ∀ k, k ≠ "conditions" → rule.field k = rule'.field k
  conditions : (conditions rule).Perm (conditions rule')

/-- **A rule fires alike whatever the order of its conditions.** -/
theorem SameConditions.ruleFires {rule rule' : Value} (h : SameConditions rule rule')
    (answers : Answers) : ruleFires rule answers = ruleFires rule' answers := by
  have hnil : Engine.RuleEvaluator.conditions rule = [] ↔
      Engine.RuleEvaluator.conditions rule' = [] :=
    ⟨fun hn => (hn ▸ h.conditions).nil_eq.symm, fun hn => (hn ▸ h.conditions).eq_nil⟩
  obtain ⟨hany, hall⟩ := any_all_perm h.conditions
    fun condition => condition.isArray && conditionHolds condition answers
  simp only [Engine.RuleEvaluator.ruleFires, hnil, h.field "match_type" (by decide), hany, hall]

theorem SameConditions.fired {rule rule' : Value} (h : SameConditions rule rule')
    (answers : Answers) :
    Engine.RuleEvaluator.fired rule answers = Engine.RuleEvaluator.fired rule' answers := by
  have heffect : effect rule = effect rule' := by
    simp only [effect, Value.string, h.field "target_id" (by decide), h.field "action" (by decide),
      h.field "action_value" (by decide)]
  rw [Engine.RuleEvaluator.fired, Engine.RuleEvaluator.fired, h.isArray, h.ruleFires, heffect]

end Plugin

/-! ## The cloud -/

section Cloud

open Cloud

/-- One rule of a draft with its conditions in another order. -/
def SameDraftConditions (rule rule' : EvaluableRule) : Prop :=
  ∃ conditions', rule.conditions.Perm conditions' ∧
    rule' = { rule with conditions := conditions' }

theorem fired_of_sameDraftConditions {rule rule' : EvaluableRule}
    (h : SameDraftConditions rule rule') (answers : Js.Answers) :
    fired rule answers = fired rule' answers := by
  obtain ⟨conditions', hperm, rfl⟩ := h
  have hempty : rule.conditions.isEmpty = conditions'.isEmpty := by
    rw [Bool.eq_iff_iff, List.isEmpty_iff, List.isEmpty_iff]
    exact ⟨fun hn => (hn ▸ hperm).nil_eq.symm, fun hn => (hn ▸ hperm).eq_nil⟩
  obtain ⟨hany, hall⟩ := any_all_perm hperm fun condition => conditionHolds condition answers
  have hfires : ruleFires rule answers =
      ruleFires { rule with conditions := conditions' } answers := by
    simp only [ruleFires, hempty, hany, hall]
  rw [fired, fired, hfires]
  rfl

end Cloud

/-- **Rule evaluation is independent of order**, in the plugin and in the
cloud: permuting the rules, and the conditions inside each, leaves the
verdict, the number of passes and every target's state unchanged. -/
theorem evaluate_reordered :
    (∀ {rules rules' : List Php.Value}, Reordered SameConditions rules rules' →
      ∀ (answers : Engine.RuleEvaluator.Answers) (optionsUnder : Containment),
        (Engine.RuleEvaluator.evaluate rules answers optionsUnder).Agree
          (Engine.RuleEvaluator.evaluate rules' answers optionsUnder)) ∧
    ∀ {rules rules' : List Cloud.EvaluableRule}, Reordered SameDraftConditions rules rules' →
      ∀ (answers : Js.Answers) (optionsUnder : Containment),
        (Cloud.evaluateRules rules answers optionsUnder).Agree
          (Cloud.evaluateRules rules' answers optionsUnder) :=
  ⟨fun h => agree_of_reordered (fun _ _ h => h.fired) h,
    fun h => agree_of_reordered (fun _ _ h => fired_of_sameDraftConditions h) h⟩

/-- A document's rule hiding `target` once every option of `reads` is
answered. -/
def hideOnceAnswered (target : String) (reads : List String) : Php.Value :=
  .arr [("target_id", .str target), ("action", .str "hide"),
    ("conditions", .ofList (reads.map fun o =>
      .arr [("option_id", .str o), ("operator", .str "is_not_empty")]))]

/-- A draft's rule doing the same. -/
def draftHideOnceAnswered (target : String) (reads : List String) : Cloud.EvaluableRule where
  targetId := target
  action := "hide"
  matchType := "all"
  conditions := reads.map fun o => ⟨o, "is_not_empty", .undefined⟩
  actionValue := .null

/-- Two rules swapped, the conditions of one swapped as well. -/
theorem evaluate_reordered_two :
    (Engine.RuleEvaluator.evaluate
        [hideOnceAnswered "x" ["a", "b"], hideOnceAnswered "y" ["c"]] ∅ ∅).Agree
      (Engine.RuleEvaluator.evaluate
        [hideOnceAnswered "y" ["c"], hideOnceAnswered "x" ["b", "a"]] ∅ ∅) ∧
    (Cloud.evaluateRules
        [draftHideOnceAnswered "x" ["a", "b"], draftHideOnceAnswered "y" ["c"]] ∅ ∅).Agree
      (Cloud.evaluateRules
        [draftHideOnceAnswered "y" ["c"], draftHideOnceAnswered "x" ["b", "a"]] ∅ ∅) := by
  have hx : SameConditions (hideOnceAnswered "x" ["a", "b"])
      (hideOnceAnswered "x" ["b", "a"]) := by
    refine ⟨rfl, fun k hk => ?_, .swap _ _ _⟩
    simp only [hideOnceAnswered, Php.Value.field, List.lookup_cons, beq_false_of_ne hk]
  have hy : SameConditions (hideOnceAnswered "y" ["c"]) (hideOnceAnswered "y" ["c"]) :=
    ⟨rfl, fun _ _ => rfl, .refl _⟩
  exact ⟨evaluate_reordered.1 ⟨_, .swap _ _ _, .cons hy (.cons hx .nil)⟩ ∅ ∅,
    evaluate_reordered.2 ⟨_, .swap _ _ _, .cons ⟨_, .refl _, rfl⟩
      (.cons ⟨_, .swap _ _ _, rfl⟩ .nil)⟩ ∅ ∅⟩

end Optionia.Rules
