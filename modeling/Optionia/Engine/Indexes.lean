import Optionia.Engine.Answers
/-!
# What the resolver looks up

A product's option sets, walked once for each index: its options by id, its
rules, the options a target contains, the values of an option by key. A group
contains its options, an option itself, and a value none.
-/

namespace Optionia.Engine

open Php Rules

/-! ## The walk -/

/-- A row of a document that can be looked up: an array with a scalar id. -/
def hasId (row : Value) : Bool := row.isArray && (row.field "id").isScalar

/-- An option where it stands: its set, its group and itself. -/
structure Placed where
  set : Value
  group : Value
  option : Value

/-- The options of the sets, in their order. -/
def placedOptions (optionSets : List Value) : List Placed :=
  optionSets.flatMap fun set =>
    (set.field "groups").castItems.flatMap fun group =>
      ((group.field "options").castItems.filter hasId).map fun option => ⟨set, group, option⟩

/-- The values of an option that have an id. -/
def valuesWithId (option : Value) : List Value := (option.field "values").castItems.filter hasId

/-! ## Indexes -/

/-- `$v[k] = …`. -/
def withField (v : Value) (k : String) (w : Value) : Value :=
  match v with
  | .arr es => .arr (OrderedMap.setEntries es k w)
  | v => v

theorem field_withField {v : Value} {k k' : String} (w : Value) (h : k' ≠ k) :
    (withField v k w).field k' = v.field k' := by
  cases v with
  | arr es =>
    change ((OrderedMap.setEntries es k w).lookup k').getD .null = (es.lookup k').getD .null
    rw [OrderedMap.lookup_setEntries, if_neg h]
  | null => rfl
  | bool b => rfl
  | int n => rfl
  | float x => rfl
  | str s => rfl

def indexOptions (optionSets : List Value) : OrderedMap String Value :=
  (placedOptions optionSets).foldl (fun options p =>
    options.set (p.option.text "id") (withField p.option "__set_id" (.str (p.set.text "id")))) ∅

def indexRules (optionSets : List Value) : List Value :=
  optionSets.flatMap fun set => (set.field "rules").castItems.filter Value.isArray

/-- One turn of `index_containment`. -/
def contain (under : Containment) (p : Placed) : Containment :=
  let optionId := p.option.text "id"
  let groupId := p.group.text "id"
  let grouped := if groupId = "" then under else under.update [] groupId (· ++ [optionId])
  (valuesWithId p.option).foldl (fun under value => under.set (value.text "id") [])
    (grouped.update [] optionId (· ++ [optionId]))

def indexContainment (optionSets : List Value) : Containment :=
  (placedOptions optionSets).foldl contain ∅

def indexValues (option : Value) : OrderedMap String Value :=
  ((option.field "values").castItems.filter fun value =>
    value.isArray && (value.field "value_key").isScalar).foldl
      (fun values value => values.set (value.text "value_key") value) ∅

/-! ## Rules -/

/-- What a merchant configured for a hidden input. -/
def configured (P : Platform) (option : Value) : String :=
  cleanText P (option.field "default_value").castString false

/-- `rule_answers`: a hidden input answers with what is configured. -/
def ruleAnswers (P : Platform) (options selections : OrderedMap String Value) :
    RuleEvaluator.Answers :=
  options.entries.foldl (fun answers p =>
    if !isHidden p.2 then answers
    else if configured P p.2 = "" then answers.erase p.1
    else answers.set p.1 (.str (configured P p.2))) selections

def hiddenOptions (states : States) (containment : Containment) : List String :=
  (states.entries.filter fun p => p.2.hidden).flatMap fun p => under containment p.1

def hiddenValues (rules : List Value) (states : States) : List String :=
  (rules.filter fun rule =>
    rule.text "target_type" = "value" && (stateAt states (rule.text "target_id")).hidden).map
      (·.text "target_id")

/-- What a conflict of prices is reported as. -/
def unpricedRuleConflict : String := "rule_price_conflict"

/-- `set_price_for`: whether rules set the price of an option or a value, and
the types collected. -/
def setPriceFor (option : Value) (states : String → TargetState) (optionId valueId : String)
    (unpriced : List String) : Ruled × List String :=
  let ofOption := states optionId
  let ofValue := if valueId = "" then seed else states valueId
  if ofOption.priceConflict || ofValue.priceConflict then
    (.refused, collectType unpricedRuleConflict unpriced)
  else match ofValue.priceMinor.or ofOption.priceMinor with
    | none => (.silent, unpriced)
    | some amount =>
      let type := (option.field "pricing").text "type"
      if type ∈ optionPricedTypes then (.silent, collectType type unpriced)
      else (.price amount, unpriced)

/-! ## An option -/

def selectionBound (option : Value) (k : String) : Option ℤ :=
  ((validation option).field k).int?.filter fun n => 0 ≤ n

def takesMany (option : Value) : Bool :=
  option.text "cardinality" == "many" && option.text "type" == "checkbox"

def isFile (option : Value) : Bool := option.text "value_kind" == "file"

/-- A label, or where it is empty what stands for it. -/
def labelOr (row : Value) (fallback : String) : String :=
  if row.text "label" = "" then (row.field fallback).castString else row.text "label"

def optionLabel (option : Value) : String := labelOr option "id"

/-- What is shown of an option and its answer. -/
def label (option : Value) (answer : String) : Value :=
  .arr [("option", .str (optionLabel option)), ("value", .str answer)]

def labelsFor (option value : Value) : Value := label option (labelOr value "value_key")

def weightFor (value : Value) : ℤ := (value.field "weight_delta_grams").int?.getD 0

def skuSuffixFor (value : Value) : String :=
  match value.field "sku_suffix" with
  | .str s => trim s
  | _ => ""

end Optionia.Engine
