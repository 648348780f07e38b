import Optionia.Php.Value
import Optionia.Rules.Evaluation
/-!
# The plugin's rule evaluator

`RuleEvaluator`, which decides what a product's rules do to the options on
it. A rule is whatever stands in the document's list of rules: what it lacks
or has in another shape makes it fire on nothing.
-/

namespace Optionia.Engine.RuleEvaluator

open Optionia.Php Optionia.Rules

def maxPasses : ℕ := 10

abbrev Answers := OrderedMap String Value

/-! ## Comparing an answer -/

/-- A value as text, as conditions compare it. -/
def asString : Value → String
  | .bool b => if b then "true" else "false"
  | v => if v.isScalar then v.castString else ""

/-- Whether an answer is an operand: identity within one type, as text
across types. -/
def sameScalar (answer operand : Value) : Bool :=
  if answer.gettype = operand.gettype then decide (answer = operand)
  else decide (asString answer = asString operand)

/-- The number a value is, if it is one. -/
def numericValue : Value → Option Binary64
  | .int n => if (Binary64.ofInt n).isFinite then some (.ofInt n) else none
  | .float x => if x.isFinite then some x else none
  | .str s => (Decimal.literal? (trim s).toList).map .ofRat
  | _ => none

/-- A numeric comparison, which holds of no pair that is not two numbers. -/
def compareNumeric (answer operand : Value) (compare : Binary64 → Binary64 → Bool) : Bool :=
  match numericValue answer, numericValue operand with
  | some left, some right => compare left right
  | _, _ => false

/-- Whether an answer is in a list of operands. -/
def inList (answer operand : Value) : Bool := operand.items.any (sameScalar answer)

/-- Whether some member of an answer is in a list of operands. -/
def anyInList (members : List Value) (operand : Value) : Bool :=
  members.any fun member => inList member operand

/-- Whether `needle` occurs in `haystack`. -/
def strContains (haystack needle : String) : Bool :=
  decide (needle.toList <:+: haystack.toList)

/-! ## Conditions and rules -/

def supplied (answer : Value) : Bool :=
  decide (answer ≠ .null ∧ answer ≠ .str "" ∧ answer ≠ .arr [])

/-- The members of an answer: of a list its entries, of anything else
itself. -/
def members (answer : Value) : List Value :=
  if answer.isArray then answer.items else [answer]

/-- Whether an answer is exactly one operand. -/
def isExactly (answer operand : Value) : Bool :=
  match members answer with
  | [member] => sameScalar member operand
  | _ => false

/-- Whether an operator holds of an answer and an operand. -/
def operatorHolds (operator : String) (answer operand : Value) : Bool :=
  if operator = "is_empty" then !supplied answer
  else if operator = "is_not_empty" then supplied answer
  else if operator = "equals" then supplied answer && isExactly answer operand
  else if operator = "not_equals" then supplied answer && !isExactly answer operand
  else if operator = "contains" then
    match operand with
    | .str needle =>
      supplied answer && (members answer).any fun member => strContains (asString member) needle
    | _ => false
  else if operator = "greater_than" then compareNumeric answer operand fun a b => b.lt a
  else if operator = "less_than" then compareNumeric answer operand fun a b => a.lt b
  else if operator = "in" then supplied answer && anyInList (members answer) operand
  else if operator = "not_in" then supplied answer && !anyInList (members answer) operand
  else false

def optionId (condition : Value) : String := condition.string "option_id"

def conditionHolds (condition : Value) (answers : Answers) : Bool :=
  operatorHolds (condition.string "operator") (answers.getD (optionId condition) .null)
    (condition.field "value")

def conditions (rule : Value) : List Value := (rule.field "conditions").items

/-- `rule_fires`: on no condition, a rule does not. -/
def ruleFires (rule : Value) (answers : Answers) : Bool :=
  let holds condition := condition.isArray && conditionHolds condition answers
  if conditions rule = [] then false
  else if rule.field "match_type" = .str "any" then (conditions rule).any holds
  else (conditions rule).all holds

/-! ## Evaluation -/

/-- What a rule does, and to which target. -/
def effect (rule : Value) : Effect where
  target := rule.string "target_id"
  action := rule.string "action"
  amount := ((rule.field "action_value").field "amount_minor").int?

/-- The effect of a rule on the answers it fires on. -/
def fired (rule : Value) (answers : Answers) : Option Effect :=
  if rule.isArray && ruleFires rule answers then some (effect rule) else none

def evaluator : Evaluator Value Value where
  fired := fired
  same next current := decide (next = current)
  maxPasses := maxPasses

def evaluate (rules : List Value) (answers : Answers) (optionsUnder : Containment) : Outcome :=
  evaluator.evaluate rules answers optionsUnder

end Optionia.Engine.RuleEvaluator
