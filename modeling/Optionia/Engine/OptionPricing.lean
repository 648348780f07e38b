import Optionia.Engine.Pricing
/-!
# What a choice and an option cost, in the plugin

`delta_for` prices a chosen value, `option_delta` an option by its answer.
What this build cannot charge contributes nothing, and its type is collected,
each one once.
-/

namespace Optionia.Engine

open Php

/-! ## Kinds of options -/

def isFreeText (option : Value) : Bool := option.text "value_kind" == "text"

/-- `is_hidden`: the value is the merchant's own. -/
def isHidden (option : Value) : Bool := option.text "type" == "hidden"

def isDate (option : Value) : Bool := option.text "value_kind" == "date"

def isNumber (option : Value) : Bool := option.text "value_kind" == "number"

/-! ## Reading a quantity -/

/-- `parse_number`: the pattern's `$` also matches before a closing line
feed. -/
def parseNumber (raw : String) : Option Binary64 :=
  let cs := raw.toList
  let body := if cs.getLast? = some '\n' then cs.dropLast else cs
  (Decimal.plain? body).map .ofRat

def absoluteMaxQuantity : ℤ := 1000000

/-! ## Collecting what is not charged -/

/-- A type collected, unless it is already. -/
def collectType (type : String) (unpriced : List String) : List String :=
  if type ∈ unpriced then unpriced else unpriced ++ [type]

/-- The same, where the type has a name. -/
def collectNamed (type : String) (unpriced : List String) : List String :=
  if type = "" then unpriced else collectType type unpriced

/-! ## A chosen value -/

def deltaFor (value : Value) (base : ℤ) (unpriced : List String) : ℤ × List String :=
  let price := value.field "price_config"
  let type := price.text "type"
  if !price.isArray then (0, unpriced)
  else if type = priceTypePercentage then
    match (price.field "basis_points").int? with
    | none => (0, collectType type unpriced)
    | some points =>
      match Pricing.percentageOf base points with
      | some delta => (delta, unpriced)
      | none => (0, collectType type unpriced)
  else if type ≠ priceTypeFixed then (0, collectNamed type unpriced)
  else ((price.field "amount_minor").int?.getD 0, unpriced)

/-! ## An option -/

def perUnitDelta (pricing : Value) (answer : String) (unpriced : List String) :
    ℤ × List String :=
  match (pricing.field "amount_minor").int?, parseNumber answer with
  | some amount, some quantity =>
    if (Binary64.ofInt absoluteMaxQuantity).lt quantity then
      (0, collectNamed (pricing.text "type") unpriced)
    else
      match Pricing.perUnitOf amount quantity with
      | some delta => (delta, unpriced)
      | none => (0, collectNamed (pricing.text "type") unpriced)
  | _, _ => (0, unpriced)

/-- One turn of `tier_amount`: the tier chosen so far, or this one. -/
def chooseTier (quantity : Binary64) (best : Option (ℤ × ℤ)) (tier : Value) : Option (ℤ × ℤ) :=
  match (tier.field "min_quantity").int?, (tier.field "amount_minor").int? with
  | some min, some amount =>
    if quantity.lt (.ofInt min) then best
    else match best with
      | none => some (min, amount)
      | some (bestMin, _) => if bestMin < min then some (min, amount) else best
  | _, _ => best

/-- `tier_amount`: the amount of the highest tier the quantity reaches. -/
def tierAmount (tiers : Value) (quantity : Binary64) : Option ℤ :=
  (tiers.items.foldl (chooseTier quantity) none).map Prod.snd

def tieredDelta (pricing : Value) (answer : String) (unpriced : List String) : ℤ × List String :=
  match parseNumber answer with
  | none => (0, unpriced)
  | some quantity =>
    match tierAmount (pricing.field "tiers") quantity with
    | none =>
      if (Binary64.ofInt 0).lt quantity then (0, collectNamed (pricing.text "type") unpriced)
      else (0, unpriced)
    | some amount =>
      let type := if pricing.isset "type" then pricing.field "type" else .str priceTypeTiered
      perUnitDelta (.arr [("type", type), ("amount_minor", .int amount)]) answer unpriced

def freeCharacters (pricing : Value) : ℤ :=
  match (pricing.field "free_characters").int? with
  | some n => if 0 < n then n else 0
  | none => 0

/-- `per_char_delta`, for a count of the answer's characters. -/
def perCharDelta (pricing : Value) (count : ℕ) : ℤ :=
  match (pricing.field "amount_minor").int? with
  | none => 0
  | some amount =>
    let charged := count - freeCharacters pricing
    if charged ≤ 0 then 0
    else if !Pricing.multiplicationInRange charged amount then 0
    else charged * amount

/-- What a `set_price` rule says of an option's price. -/
inductive Ruled where
  | silent
  /-- A rule set a price this build does not honour. -/
  | refused
  | price (amount : ℤ)
  deriving DecidableEq

/-- `option_delta`, for a count of the answer's characters. -/
def optionDelta (measure : String → ℕ) (option : Value) (answer : String)
    (unpriced : List String) (ruled : Ruled) : ℤ × List String :=
  match ruled with
  | .refused => (0, unpriced)
  | .price amount => (amount, unpriced)
  | .silent =>
    let pricing := option.field "pricing"
    let type := pricing.text "type"
    if !pricing.isArray then (0, unpriced)
    else if type = "" ∨ type = priceTypeFixed then (0, unpriced)
    else if type = priceTypePerChar then
      if !isFreeText option || isHidden option then (0, collectType type unpriced)
      else (perCharDelta pricing (measure answer), unpriced)
    else if type = priceTypePerUnit ∨ type = priceTypeTiered then
      if !isNumber option then (0, collectType type unpriced)
      else if type = priceTypeTiered then tieredDelta pricing answer unpriced
      else perUnitDelta pricing answer unpriced
    else (0, collectType type unpriced)

end Optionia.Engine
