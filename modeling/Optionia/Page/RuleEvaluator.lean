import Optionia.Js.Value
import Optionia.Rules.Evaluation
/-!
# The page's rule evaluator

`rules.js`, which shows and hides the controls of a product page. A rule is
whatever the published document holds, as in the plugin; it settles what is
hidden and what is required, and leaves prices to the server.
-/

namespace Optionia.Page

open Optionia.Js Optionia.Rules

def maxPasses : ℕ := 10

/-! ## Conditions and rules -/

/-- Whether a value is an object or an array. -/
def isObject : Value → Bool
  | .arr _ | .obj _ => true
  | _ => false

/-- The operand of a condition, `null` where it has none. -/
def operand (condition : Value) : Value :=
  match condition.field "value" with
  | .undefined => .null
  | v => v

def conditionHolds (condition : Value) (answers : Answers) : Bool :=
  isObject condition &&
    operatorHolds (condition.string "operator")
      (answers.getD (condition.string "option_id") .null) (operand condition)

def conditions (rule : Value) : List Value := (rule.field "conditions").items

/-- `ruleFires`: on no condition, a rule does not. -/
def ruleFires (rule : Value) (answers : Answers) : Bool :=
  if (conditions rule).isEmpty then false
  else if (rule.field "match_type").strictEq (.str "any") then
    (conditions rule).any fun condition => conditionHolds condition answers
  else (conditions rule).all fun condition => conditionHolds condition answers

/-! ## Evaluation -/

/-- What a rule does, and to which target. A price is the server's matter,
so a rule here never carries one. -/
def effect (rule : Value) : Effect where
  target := rule.string "target_id"
  action := rule.string "action"
  amount := none

/-- The effect of a rule on the answers it fires on. -/
def fired (rule : Value) (answers : Answers) : Option Effect :=
  if ruleFires rule answers then some (effect rule) else none

def evaluator : Evaluator Value Value where
  fired := fired
  same := sameAnswers
  maxPasses := maxPasses

def evaluate (rules : List Value) (answers : Answers) (optionsUnder : Containment) : Outcome :=
  evaluator.evaluate rules answers optionsUnder

end Optionia.Page
