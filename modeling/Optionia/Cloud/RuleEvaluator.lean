import Optionia.Js.Value
import Optionia.Rules.Evaluation
/-!
# The cloud's rule evaluator

`evaluateRules`, which the rule tester runs over a draft. A rule is typed
here; its operands and the payload of its action are not.
-/

namespace Optionia.Cloud

open Optionia.Js Optionia.Rules

def maxRulePasses : ℕ := 10

/-- A condition, as the evaluator takes it. -/
structure EvaluableCondition where
  optionId : String
  operator : String
  value : Value

/-- A rule, as the evaluator takes it. -/
structure EvaluableRule where
  targetId : String
  action : String
  matchType : String
  conditions : List EvaluableCondition
  actionValue : Value

/-! ## Conditions and rules -/

def conditionHolds (condition : EvaluableCondition) (answers : Answers) : Bool :=
  operatorHolds condition.operator (answers.getD condition.optionId .undefined) condition.value

/-- `ruleFires`: on no condition, a rule does not. -/
def ruleFires (rule : EvaluableRule) (answers : Answers) : Bool :=
  if rule.conditions.isEmpty then false
  else if rule.matchType = "any" then
    rule.conditions.any fun condition => conditionHolds condition answers
  else rule.conditions.all fun condition => conditionHolds condition answers

/-! ## Evaluation -/

/-- What a rule does, and to which target. -/
def effect (rule : EvaluableRule) : Effect where
  target := rule.targetId
  action := rule.action
  amount := (rule.actionValue.field "amountMinor").safeInteger?

/-- Whether an effect writes its target's state: one with an unknown action,
or without a price to set, does not. -/
def writes (e : Effect) : Bool :=
  e.action = "hide" || e.action = "require" || e.action = "unrequire"
    || (e.action = "set_price" && e.amount.isSome)

theorem act_of_not_writes {e : Effect} (h : ¬ writes e = true) (s : TargetState) :
    e.act s = s := by
  simp only [writes, Bool.or_eq_true, Bool.and_eq_true, decide_eq_true_eq, not_or, not_and,
    Option.isSome_iff_ne_none, not_not] at h
  obtain ⟨⟨⟨h1, h2⟩, h3⟩, h4⟩ := h
  rw [Effect.act, if_neg h1, if_neg h2, if_neg h3]
  by_cases hs : e.action = "set_price"
  · rw [if_pos hs, h4 hs]
  · rw [if_neg hs]

/-- The effect of a rule on the answers it fires on. -/
def fired (rule : EvaluableRule) (answers : Answers) : Option Effect :=
  if ruleFires rule answers && writes (effect rule) then some (effect rule) else none

def evaluator : Evaluator EvaluableRule Value where
  fired := fired
  same := sameAnswers
  maxPasses := maxRulePasses

def evaluateRules (rules : List EvaluableRule) (answers : Answers)
    (optionsUnder : Containment) : Outcome :=
  evaluator.evaluate rules answers optionsUnder

end Optionia.Cloud
