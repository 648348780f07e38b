import Optionia.Php.JsonDecode
import Optionia.Reporting.OrderLine
/-!
# The report of an order

`OrderPayload::build`: what the cloud is told of an order, a row for each
selection of its lines up to a number, and what the options of all its lines
earned. A line's selections are read back off its hidden rows, and each is
named by the row that shows its value.
-/

namespace Optionia.Reporting

open Php

/-! ## Bounds -/

def maxOrderId : ℕ := 64

def maxOptionKey : ℕ := 64

def maxOptionLabel : ℕ := 200

def maxValueKey : ℕ := 64

def maxValueLabel : ℕ := 500

def maxSetId : ℕ := 36

def maxProductRef : ℕ := 64

def maxSelections : ℕ := 200

def maxMinor : ℤ := 9007199254740991

/-- `clamp`: the first characters of a text. -/
def clamp (s : String) (length : ℕ) : String := String.ofList (s.toList.take length)

/-! ## Amounts -/

/-- The digits of a decimal before and after its point:
`[+-]?(?:\d+(?:\.\d*)?|\.\d+)`. -/
def decimalParts? (cs : List Char) : Option (List Char × List Char) :=
  let whole := cs.takeWhile Decimal.isDigit
  match cs.dropWhile Decimal.isDigit with
  | [] => if whole = [] then none else some (whole, [])
  | point :: fraction =>
    if point = '.' ∧ fraction.all Decimal.isDigit ∧ (whole ≠ [] ∨ fraction ≠ []) then
      some (whole, fraction)
    else none

/-- `Money::try_from_decimal`, of text: rounded half up, and nothing where the
digits exceed the machine's integers. -/
def tryFromDecimal (amount : String) (decimals : ℕ) : Option ℤ :=
  let (negative, body) := Decimal.splitSign (trim amount).toList
  (decimalParts? body).bind fun (whole, fraction) =>
    let kept := fraction.take decimals ++ List.replicate (decimals - fraction.length) '0'
    let minor : ℤ := Decimal.digitsValue (whole ++ kept)
    let roundUp := (fraction.drop decimals).head?.any fun next => decide ('5' ≤ next)
    if 2 ^ 63 ≤ minor then none
    else
      let minor := if roundUp then minor + 1 else minor
      some (if negative then -minor else minor)

example : tryFromDecimal "17.905" 2 = some 1791 ∧ tryFromDecimal "-.5" 2 = some (-50) ∧
    tryFromDecimal "1e3" 2 = none := by decide +kernel

def minor (value : Value) : ℤ :=
  if value.isScalar then
    match tryFromDecimal value.castString 2 with
    | none => 0
    | some minor => max 0 (min minor maxMinor)
  else 0

/-! ## A line -/

def productReference (item : OrderItem) : Option String :=
  ([item.variationId, item.productId].filterMap fun id =>
    (id.filter Value.isScalar).map Value.castString).find? (fun id => id ≠ "" ∧ id ≠ "0")
      |>.map (clamp · maxProductRef)

def quantity (item : OrderItem) : ℤ :=
  match item.quantity.filter isNumeric with
  | none => 1
  | some quantity => if 0 < quantity.toInt then quantity.toInt else 1

def decodeMap (item : OrderItem) (key : String) : Value :=
  match jsonDecode (item.getMeta key) with
  | .arr es => .arr es
  | _ => .arr []

/-- What is matched of a bracket: neither opens nor closes one. -/
def insideBracket (c : Char) : Bool := c != '(' && c != ')'

/-- `without_price`: a text without ` (+…)` or ` (-…)` at its end, or before a
closing line feed. -/
def withoutPrice (s : String) : String :=
  let cs := s.toList
  let body := if cs.getLast? = some '\n' then cs.dropLast else cs
  match body.reverse with
  | ')' :: suffix =>
    let inside := suffix.takeWhile insideBracket
    match suffix.dropWhile insideBracket with
    | '(' :: ' ' :: before =>
      if inside.getLast? = some '+' ∨ inside.getLast? = some '-' then
        String.ofList (before.reverse ++ cs.drop body.length)
      else s
    | _ => s
  | _ => s

example : withoutPrice "lux (+£20.00)" = "lux" ∧ withoutPrice "Engrave (+5) here" =
    "Engrave (+5) here" ∧ withoutPrice "lux (20)" = "lux (20)" := by decide +kernel

/-- `labels_for`, the option's: the last row that shows the value names it. -/
def optionLabelFor (shop : Shop) (item : OrderItem) (optionId valueKey : String) : String :=
  (shop.formattedMetaData item).foldl (fun optionLabel row =>
    if withoutPrice row.2 = valueKey then row.1 else optionLabel) optionId

/-- `labels_for`, the value's. -/
def valueLabelFor (valueKey : String) : Option String :=
  if valueKey ≠ "" then some (clamp valueKey maxValueLabel) else none

/-- A row of the report. -/
structure Selection where
  optionKey : String
  optionLabel : String
  valueKey : Option String
  valueLabel : Option String
  optionSetId : Option String
  productRef : Option String
  priceDeltaMinor : ℤ
  configVersion : ℤ
  deriving DecidableEq

/-- A stored answer as one text: several joined. -/
def answerText? : Value → Option String
  | .arr es => some (OptionLabel.joined (es.map Prod.snd))
  | v => if v.isScalar then some v.castString else none

/-- The version of the configuration a line was quoted from. -/
def configVersion (item : OrderItem) : ℤ :=
  let version := Value.str (item.getMeta metaConfigVersion)
  if isNumeric version then max 0 version.toInt else 0

/-- The set an option came from. -/
def optionSetId (item : OrderItem) (optionId : String) : Option String :=
  let setId := (decodeMap item metaOptionSets).field optionId
  if setId.isScalar then some (clamp setId.castString maxSetId) else none

/-- The row of one selection, before the line's amount is attributed. -/
def selectionOf (shop : Shop) (item : OrderItem) (optionId valueKey : String) : Selection where
  optionKey := clamp optionId maxOptionKey
  optionLabel := clamp (optionLabelFor shop item optionId valueKey) maxOptionLabel
  valueKey := if clamp valueKey maxValueKey = "" then none else some (clamp valueKey maxValueKey)
  valueLabel := valueLabelFor valueKey
  optionSetId := optionSetId item optionId
  productRef := productReference item
  priceDeltaMinor := 0
  configVersion := configVersion item

/-- What a line's options earned, where it is told. -/
def lineMinor? (item : OrderItem) : Option ℤ :=
  (tryFromDecimal (item.getMeta metaPriceDelta) 2).bind fun unit =>
    if maxMinor / quantity item < |unit| then none else some (unit * quantity item)

/-- `attribute_delta`: all of it to the first selection. -/
def attributeDelta (selections : List Selection) (item : OrderItem) : List Selection :=
  match selections, lineMinor? item with
  | first :: rest, some minor => { first with priceDeltaMinor := minor } :: rest
  | selections, _ => selections

def lineSelections (shop : Shop) (item : OrderItem) : List Selection :=
  match jsonDecode (item.getMeta metaSelections) with
  | .arr decoded =>
    attributeDelta (decoded.filterMap fun p =>
      (answerText? p.2).map (selectionOf shop item p.1)) item
  | _ => []

/-! ## An order -/

/-- An order; null stands for what it has no method for. -/
structure Order where
  id : Value
  total : Value
  currency : Value
  dateCreated : Option String
  /-- `get_items`, where it answers with an array. -/
  items : Option (List OrderItem)

/-- What `selections` has listed and counted so far. -/
structure Listed where
  selections : List Selection
  revenue : ℤ
  full : Bool

/-- A turn of `selections`: past the bound, a row is counted and not listed. -/
def Listed.add (listed : Listed) (selection : Selection) : Listed :=
  let revenue := listed.revenue + selection.priceDeltaMinor
  if listed.full then { listed with revenue := revenue }
  else if maxSelections ≤ listed.selections.length then
    { listed with revenue := revenue, full := true }
  else { listed with revenue := revenue, selections := listed.selections ++ [selection] }

def selections (shop : Shop) (items : List OrderItem) : Listed :=
  (items.flatMap (lineSelections shop)).foldl Listed.add ⟨[], 0, false⟩

def upper (currency : Value) : String :=
  match currency with
  | .str s => String.ofList ((trim s).toList.map Char.toUpper)
  | _ => ""

def currency (shop : Shop) (order : Order) : String :=
  let own := upper order.currency
  let chosen := if own.utf8ByteSize ≠ 3 then upper shop.currency else own
  if chosen.utf8ByteSize = 3 then chosen else "USD"

/-- The body of a report. -/
structure Report where
  externalOrderId : String
  orderTotalMinor : ℤ
  currency : String
  optionRevenueMinor : ℤ
  occurredAt : String
  selections : List Selection
  deriving DecidableEq

def build (shop : Shop) (order : Order) : Option Report :=
  let orderId := order.id.castString
  if orderId = "" ∨ orderId = "0" then none
  else
    let report := selections shop (order.items.getD [])
    some {
      externalOrderId := clamp orderId maxOrderId
      orderTotalMinor := minor order.total
      currency := currency shop order
      optionRevenueMinor := report.revenue
      occurredAt := order.dateCreated.getD shop.now
      selections := report.selections }

end Optionia.Reporting
