import Optionia.Cart.Payload
/-!
# What is written to an order line

`OrderLineItem::attach` writes a cart line to its order item: a row for each
option, under its name as it was shown, and the plugin's own rows, hidden and
in JSON. Every row is the only one of its name, so that a row of an option
that is named like one of the plugin's gives way to it.
-/

namespace Optionia.Reporting

open Php Cart

/-! ## Keys -/

def metaSelections : String := "_optionia_selections"

def metaConfigVersion : String := "_optionia_config_version"

def metaOptionSetId : String := "_optionia_option_set_id"

def metaOptionSets : String := "_optionia_option_sets"

def metaPriceDelta : String := "_optionia_price_delta"

def metaSkuSuffix : String := "_optionia_sku_suffix"

/-! ## An order item -/

/-- An order item. -/
structure OrderItem where
  /-- `get_variation_id`, where there is such a method. -/
  variationId : Option Value
  productId : Option Value
  quantity : Option Value
  metaData : OrderedMap String String

/-- `add_meta_data`, of a unique row: the last of them. -/
def OrderItem.addMetaData (item : OrderItem) (key value : String) : OrderItem :=
  { item with metaData := (item.metaData.erase key).set key value }

def OrderItem.getMeta (item : OrderItem) (key : String) : String := item.metaData.getD key ""

/-- What the plugin asks of the shop. -/
structure Shop where
  wpHash : String → String
  /-- `OptionView::money`, in the shop's symbol and separators. -/
  money : ℤ → String
  priceDecimals : ℕ
  /-- `get_formatted_meta_data`, hidden rows included: keys and values. -/
  formattedMetaData : OrderItem → List (String × String)
  currency : Value
  now : String

/-! ## Labels -/

namespace OptionLabel

def join : String := ", "

/-- `implode`, of what is scalar. -/
def joined (vs : List Value) : String :=
  join.intercalate ((vs.filter Value.isScalar).map Value.castString)

def text : Value → String
  | .arr es => trim (joined (es.map Prod.snd))
  | v => if v.isScalar then trim v.castString else ""

def pairs (label : Value) : List Value :=
  if label.isset "option" || label.isset "value" then [label] else label.items.filter Value.isArray

def name (label : Value) (fallback : String) : String :=
  (((pairs label).map fun pair => text (pair.field "option")).find? (· ≠ "")).getD fallback

def value (label fallback : Value) : String :=
  let keys := if fallback.isArray then fallback.items else [fallback]
  let parts := ((pairs label).mapIdx fun index pair =>
    if text (pair.field "value") = "" then text (keys.getD index .null)
    else text (pair.field "value")).filter (· ≠ "")
  if parts = [] then join.intercalate (((keys.filter Value.isScalar).map text).filter (· ≠ ""))
  else join.intercalate parts

end OptionLabel

/-! ## Writing -/

/-- `Money::to_decimal_string` -/
def decimalString (decimals : ℕ) (minor : ℤ) : String :=
  let sign := if minor < 0 then ['-'] else []
  let digits := (toString minor.natAbs).toList
  let padded := List.replicate (decimals + 1 - digits.length) '0' ++ digits
  if decimals = 0 then String.ofList (sign ++ digits)
  else String.ofList (sign ++ padded.take (padded.length - decimals) ++
    '.' :: padded.drop (padded.length - decimals))

example : decimalString 2 (-5) = "-0.05" ∧ decimalString 0 20 = "20" := by decide +kernel

def withPrice (shop : Shop) (value : String) (minor : Option ℤ) : String :=
  match minor with
  | none => value
  | some minor =>
    if minor = 0 then value
    else value ++ " (" ++ (if 0 < minor then "+" else "-") ++ shop.money |minor| ++ ")"

/-- The row of an option: its name, and what was chosen of it with its
price. -/
def visibleRow (shop : Shop) (labels : Value) (deltas : List (String × ℤ)) (p : String × Value) :
    String × String :=
  let label := labels.field p.1
  (OptionLabel.name label p.1, withPrice shop (OptionLabel.value label p.2) (deltas.lookup p.1))

def addVisibleMeta (shop : Shop) (item : OrderItem) (selections : List (String × Value))
    (optionia : Value) : OrderItem :=
  let deltas := (trustedDeltas shop.wpHash optionia selections).getD []
  (selections.map (visibleRow shop (optionia.field cartItemLabels) deltas)).foldl
    (fun item row => item.addMetaData row.1 row.2) item

/-- A row in JSON, of an array that is not empty. -/
def addJsonMeta (item : OrderItem) (key : String) : Value → OrderItem
  | .arr [] => item
  | .arr es => item.addMetaData key (wpJsonEncode (.arr es))
  | _ => item

/-- `Money::from_minor`, which takes an integer: `none` is a `TypeError`. -/
def fromMinor? (total : Value) : Option ℤ := total.int?

/-- The row of the version a line was quoted from, where it is one. -/
def addVersionMeta (item : OrderItem) : Value → OrderItem
  | .int version => item.addMetaData metaConfigVersion (toString version)
  | _ => item

def addQuoteMeta (shop : Shop) (item : OrderItem) (version : Value) (deltas : List (String × ℤ)) :
    Option OrderItem :=
  let total := deltas.foldl (fun total p => Value.add total p.2) (.int 0)
  (fromMinor? total).map fun total =>
    (addVersionMeta item version).addMetaData metaPriceDelta
      (decimalString shop.priceDecimals total)

def addHiddenMeta (shop : Shop) (item : OrderItem) (selections : List (String × Value))
    (optionia : Value) : Option OrderItem :=
  let item := item.addMetaData metaSelections (wpJsonEncode (.arr selections))
  let setIds := match optionia.field cartItemSetIds with
    | .arr es => .ofList (es.map Prod.snd)
    | v => v
  let item := addJsonMeta item metaOptionSetId setIds
  let item := addJsonMeta item metaOptionSets (optionia.field cartItemOptionSets)
  let item := addJsonMeta item metaSkuSuffix (optionia.field cartItemSkuSuffixes)
  match trustedDeltas shop.wpHash optionia selections with
  | none | some [] => some item
  | some deltas => addQuoteMeta shop item (optionia.field cartItemConfigVersion) deltas

/-- `OrderLineItem::attach`; `none` is an uncaught `TypeError`. -/
def attach (shop : Shop) (item : OrderItem) (data : CartItemData) : Option OrderItem :=
  match data.get? cartItemKey with
  | some (.value optionia) =>
    match optionia.field cartItemSelections with
    | .arr [] => some item
    | .arr selections =>
      addHiddenMeta shop (addVisibleMeta shop item selections optionia) selections optionia
    | _ => some item
  | _ => some item

end Optionia.Reporting
