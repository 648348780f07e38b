import Mathlib.Data.List.Sort
import Optionia.Js.Schema
/-!
# The option types of the cloud

`type-registry`: what each presentation takes, and the schemas of what is
stored beside it; `pricing.schema`: the schemas of prices. The validator asks
for them when an option or a value is created.
-/

namespace Optionia.Cloud

open Js Js.Schema

/-! ## Prices -/

def maxAmountMinor : ℤ := 1000000000

def amountMinor : Schema := int (-maxAmountMinor) (some maxAmountMinor)

def perUnitPricing : Schema :=
  strict [required "type" (oneOf ["per_unit"]), required "amountMinor" amountMinor]

def perCharPricing : Schema :=
  strict [required "type" (oneOf ["per_char"]), required "amountMinor" amountMinor,
    optional "freeCharacters" (int 0 (some 10000))]

/-- The ends of a tier: its least quantity, and its greatest where it has one. -/
def tierEnds (tier : Value) : Option (ℤ × Option ℤ) :=
  (tier.field "minQuantity").safeInteger?.map fun least =>
    (least, (tier.field "maxQuantity").safeInteger?)

/-- What is asked of a tier and the one after it: it does not end before it
starts, only the last is open, and the next starts where this one ends. -/
def meetsNext (tier : ℤ × Option ℤ) (next : Option (ℤ × Option ℤ)) : Bool :=
  match tier.2 with
  | none => next.isNone
  | some greatest =>
    !decide (greatest < tier.1) &&
      next.all fun next => !decide (next.1 ≤ greatest) && !decide (greatest + 1 < next.1)

/-- Each of some tiers and the one after it. -/
def tiersMeet : List (ℤ × Option ℤ) → Bool
  | [] => true
  | tier :: tiers => meetsNext tier tiers.head? && tiersMeet tiers

/-- The refinement of `tieredPricing`: of the tiers in order, the first starts
at one, the last is open, and they meet. -/
def tiersCover (price : Value) : Bool :=
  let sorted := ((price.field "tiers").items.filterMap tierEnds).insertionSort
    fun a b => a.1 ≤ b.1
  sorted.head?.all (fun first => decide (first.1 = 1)) &&
    sorted.getLast?.all (fun last => last.2.isNone) && tiersMeet sorted

/-- `tieredPricing`. Its own object is not a strict one. -/
def tieredPricing : Schema :=
  refine
    (object [required "type" (oneOf ["tiered"]),
      required "tiers" (array (strict [required "minQuantity" (int 1 none),
        required "maxQuantity" (nullable (int 1 none)),
        required "amountMinor" amountMinor]) 1 50)])
    tiersCover

def noTypeLevelPricing : Schema := Schema.null

def numberOptionPricing : Schema := nullable (union [perUnitPricing, tieredPricing])

def textOptionPricing : Schema := nullable (union [perCharPricing])

/-! ## Validation -/

/-- Two members, where both are numbers, in order. -/
def inOrder (v : Value) (least greatest : String) : Bool :=
  match v.field least, v.field greatest with
  | .num x, .num y => x.le y
  | _, _ => true

/-- A step is no wider than the range it steps through. -/
def stepFits (v : Value) : Bool :=
  match v.field "min", v.field "max", v.field "step" with
  | .num least, .num greatest, .num step => step.le (greatest.sub least)
  | _, _, _ => true

def choiceValidationSchema : Schema :=
  refine
    (strict [optional "minSelections" (int 0 (some 100)),
      optional "maxSelections" (int 1 (some 100))])
    fun v => inOrder v "minSelections" "maxSelections"

def textValidationSchema : Schema :=
  refine
    (strict [optional "minLength" (int 0 (some 5000)), optional "maxLength" (int 1 (some 5000)),
      optional "pattern" (string 0 200),
      optional "allowedCharset" (oneOf ["alpha", "alphanumeric", "numeric", "latin"]),
      optional "forbiddenWords" (array (string 1 100) 0 200)])
    fun v => inOrder v "minLength" "maxLength"

def numberValidationSchema : Schema :=
  refine
    (strict [optional "min" number, optional "max" number, optional "step" positive,
      optional "integerOnly" boolean])
    fun v => inOrder v "min" "max" && stepFits v

/-- `/^[a-z0-9]{1,10}$/` -/
def extension (cs : List Char) : Bool :=
  decide (1 ≤ cs.length) && decide (cs.length ≤ 10) &&
    cs.all fun c => decide ('a' ≤ c) && decide (c ≤ 'z') || c.isDigit

def fileValidationSchema : Schema :=
  strict [optional "acceptedTypes" (array (stringThat extension) 0 20),
    optional "maxSizeMb" (int 1 (some 500)), optional "maxFiles" (int 1 (some 1)),
    optional "maxMegapixels" (numberThat fun x => decide (0 < x) && decide (x ≤ 500))]

def rangeValidationSchema : Schema :=
  refine (strict [required "min" number, required "max" number, optional "step" positive])
    fun v =>
      (match v.field "min", v.field "max" with
        | .num least, .num greatest => least.lt greatest
        | _, _ => true) && stepFits v

/-- `/^\d{4}-\d{2}-\d{2}$/` -/
def isoDateShape (cs : List Char) : Bool :=
  match cs with
  | [y₁, y₂, y₃, y₄, '-', m₁, m₂, '-', d₁, d₂] =>
    [y₁, y₂, y₃, y₄, m₁, m₂, d₁, d₂].all Char.isDigit
  | _ => false

def isoDate : Schema := stringThat isoDateShape

/-- The refinement of `dateValidationSchema`; dates are compared as texts. -/
def datesFit (v : Value) : Bool :=
  (match v.field "minDate", v.field "maxDate" with
    | .str least, .str greatest => decide (least ≤ greatest)
    | _, _ => true) &&
  inOrder v "leadTimeDays" "maxAdvanceDays" &&
  match v.field "allowedWeekdays" with
  | .arr weekdays => !weekdays.isEmpty
  | _ => true

def dateValidationSchema : Schema :=
  refine
    (strict [optional "minDate" isoDate, optional "maxDate" isoDate,
      optional "blackoutDates" (array isoDate 0 365),
      optional "allowedWeekdays" (array (int 1 (some 7)) 0 7),
      optional "leadTimeDays" (int 0 (some 3650)),
      optional "maxAdvanceDays" (int 0 (some 3650))])
    datesFit

/-! ## Display -/

/-- A digit of a hexadecimal colour. -/
def hexDigit (c : Char) : Bool :=
  c.isDigit || decide ('a' ≤ c) && decide (c ≤ 'f') || decide ('A' ≤ c) && decide (c ≤ 'F')

/-- `/^#[0-9a-fA-F]{6}$/` -/
def hexColour (cs : List Char) : Bool :=
  match cs with
  | '#' :: cs => decide (cs.length = 6) && cs.all hexDigit
  | _ => false

def styleTokens : List (String × Schema) :=
  [optional "accentColor" (stringThat hexColour), optional "borderRadius" (int 0 (some 24)),
    optional "spacing" (int 0 (some 48)), optional "swatchPx" (int 16 (some 128))]

def priceDisplay : String × Schema := optional "priceDisplay" (oneOf ["delta", "total", "hidden"])

def choiceDisplaySchema : Schema :=
  strict ([optional "columns" (int 1 (some 6)), priceDisplay,
    optional "swatchSize" (oneOf ["small", "medium", "large"]),
    optional "collapsedByDefault" boolean, optional "tooltip" (string 0 300)] ++ styleTokens)

def textDisplaySchema : Schema :=
  strict ([optional "characterCounter" boolean, priceDisplay,
    optional "collapsedByDefault" boolean, optional "tooltip" (string 0 300)] ++ styleTokens)

/-- `z.object({}).strict()` -/
def emptyObject : Schema := strict []

/-! ## The registry -/

inductive DesignCarrier where
  | none
  | value
  | optionText
  deriving DecidableEq

structure OptionTypeDefinition where
  presentation : String
  valueKind : String
  /-- `cardinality`: the first, which is what an option has that names none. -/
  cardinality : String
  cardinalities : List String
  takesValues : Bool
  designCarrier : DesignCarrier
  validationSchema : Schema
  displaySchema : Schema
  pricingSchema : Schema

/-- A type that is chosen from. -/
def choiceType (presentation : String) (cardinalities : List String)
    (designCarrier : DesignCarrier) : OptionTypeDefinition where
  presentation := presentation
  valueKind := "choice"
  cardinality := "one"
  cardinalities := cardinalities
  takesValues := true
  designCarrier := designCarrier
  validationSchema := choiceValidationSchema
  displaySchema := choiceDisplaySchema
  pricingSchema := noTypeLevelPricing

/-- A type that is answered by the customer. -/
def suppliedType (presentation valueKind : String) (designCarrier : DesignCarrier)
    (validationSchema pricingSchema : Schema) : OptionTypeDefinition where
  presentation := presentation
  valueKind := valueKind
  cardinality := "none"
  cardinalities := []
  takesValues := false
  designCarrier := designCarrier
  validationSchema := validationSchema
  displaySchema := textDisplaySchema
  pricingSchema := pricingSchema

def definitions : List OptionTypeDefinition :=
  [choiceType "radio" [] .none,
    choiceType "checkbox" ["many"] .none,
    choiceType "color_swatch" [] .value,
    choiceType "image_swatch" [] .value,
    choiceType "dropdown" [] .none,
    suppliedType "text_field" "text" .optionText textValidationSchema textOptionPricing,
    suppliedType "textarea" "text" .optionText textValidationSchema textOptionPricing,
    suppliedType "number_field" "number" .none numberValidationSchema numberOptionPricing,
    suppliedType "range" "number" .none rangeValidationSchema numberOptionPricing,
    suppliedType "quantity" "number" .none numberValidationSchema numberOptionPricing,
    suppliedType "date_picker" "date" .none dateValidationSchema noTypeLevelPricing,
    suppliedType "time_picker" "date" .none dateValidationSchema noTypeLevelPricing,
    suppliedType "datetime_picker" "date" .none dateValidationSchema noTypeLevelPricing,
    { suppliedType "hidden" "text" .none emptyObject noTypeLevelPricing with
      displaySchema := emptyObject },
    suppliedType "file_input" "file" .none fileValidationSchema noTypeLevelPricing]

def findType (presentation : String) : Option OptionTypeDefinition :=
  definitions.find? fun definition => definition.presentation == presentation

variable {presentation : String} {definition : OptionTypeDefinition}

theorem presentation_of_findType (h : findType presentation = some definition) :
    definition.presentation = presentation := by
  have hfound := List.find?_some h
  rwa [beq_iff_eq] at hfound

theorem mem_of_findType (h : findType presentation = some definition) : definition ∈ definitions :=
  List.mem_of_find?_eq_some h

end Optionia.Cloud
