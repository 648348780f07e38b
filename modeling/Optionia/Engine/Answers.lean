import Optionia.Engine.OptionPricing
import Optionia.Engine.RuleEvaluator
import Optionia.Engine.Text
/-!
# What an option accepts

The checks on a typed text, a picked date and a written number. Each returns
what it found wrong, the code of an error and its parameters, or nothing.
-/

namespace Optionia.Engine

open Php

/-- What a check found wrong. -/
structure Violation where
  code : String
  params : List (String × Value)
  deriving DecidableEq

abbrev errorUnknownOption : String := "unknown_option"
abbrev errorUnknownValue : String := "unknown_value"
abbrev errorRequired : String := "required"
abbrev errorNotScalar : String := "not_scalar"
abbrev errorUnpriceable : String := "unpriceable"
abbrev errorTooMuchText : String := "too_much_text"
abbrev errorNotANumber : String := "not_a_number"
abbrev errorOutOfRange : String := "out_of_range"
abbrev errorBadStep : String := "bad_step"
abbrev errorNotADate : String := "not_a_date"
abbrev errorDateOutOfRange : String := "date_out_of_range"
abbrev errorDateUnavailable : String := "date_unavailable"
abbrev errorPattern : String := "pattern_mismatch"
abbrev errorCharset : String := "charset"
abbrev errorForbiddenWord : String := "forbidden_word"
abbrev errorTooShort : String := "too_short"
abbrev errorTooFew : String := "too_few_selections"
abbrev errorTooMany : String := "too_many_selections"
abbrev errorTooLong : String := "too_long"
abbrev errorHiddenByRule : String := "hidden_by_rule"
abbrev errorRulesUnsettled : String := "rules_unsettled"

def validation (option : Value) : Value := option.field "validation"

/-! ## Text -/

/-- The longest text accepted from any option. -/
def absoluteMaxLength : ℤ := 5000

/-- The longest pattern that is tried, in bytes. -/
def maxPatternLength : ℕ := 200

def isMultiline (option : Value) : Bool := option.text "type" == "textarea"

def minLength (option : Value) : ℤ :=
  match ((validation option).field "min_length").int? with
  | some n => if n < 1 then 0 else min n absoluteMaxLength
  | none => 0

def maxLength (option : Value) : ℤ :=
  match ((validation option).field "max_length").int? with
  | some n => if n < 1 then absoluteMaxLength else min n absoluteMaxLength
  | none => absoluteMaxLength

/-- The characters a named charset admits. -/
def charset? (name : String) : Option (Char → Bool) :=
  let letter c := decide ('A' ≤ c ∧ c ≤ 'Z') || decide ('a' ≤ c ∧ c ≤ 'z')
  if name = "alpha" then some letter
  else if name = "alphanumeric" then some fun c => letter c || Decimal.isDigit c
  else if name = "numeric" then some Decimal.isDigit
  else if name = "latin" then
    some fun c => letter c || Decimal.isDigit c || c == ' ' || c == '\'' || c == '-'
  else none

/-- `charset_violation`; the patterns' `$` also matches before a closing line
feed. -/
def charsetViolation (validation : Value) (text : String) : Option Violation :=
  let charset := validation.text "allowed_charset"
  let cs := text.toList
  let body := if cs.getLast? = some '\n' then cs.dropLast else cs
  match charset? charset with
  | none => none
  | some admits =>
    if body.all admits then none
    else some ⟨errorCharset, [("charset", .str charset)]⟩

def forbiddenWordViolation (P : Platform) (validation : Value) (text : String) :
    Option Violation :=
  let forbidden (word : Value) : Bool :=
    word.isScalar && trim word.castString ≠ "" &&
      RuleEvaluator.strContains (P.lower text) (P.lower (trim word.castString))
  if (validation.field "forbidden_words").items.any forbidden then some ⟨errorForbiddenWord, []⟩
  else none

/-- A merchant's pattern, compiled: delimited, its own delimiters escaped. -/
def compiledPattern (pattern : String) : String :=
  let escaped := pattern.toList.flatMap fun c => if c = '/' then ['\\', '/'] else [c]
  String.ofList ('/' :: escaped ++ ['/', 'D', 'u'])

/-- `pattern_violation`: one that does not compile refuses nothing. -/
def patternViolation (P : Platform) (validation : Value) (text : String) : Option Violation :=
  let pattern := validation.text "pattern"
  if pattern = "" ∨ maxPatternLength < pattern.utf8ByteSize then none
  else match P.pregMatch (compiledPattern pattern) text with
    | some false => some ⟨errorPattern, []⟩
    | _ => none

def textRuleViolation (P : Platform) (option : Value) (text : String) : Option Violation :=
  ((charsetViolation (validation option) text).or
    (forbiddenWordViolation P (validation option) text)).or
    (patternViolation P (validation option) text)

/-- The length and the rules of a text, in the order they are checked. -/
def textViolation (P : Platform) (option : Value) (text : String) : Option Violation :=
  let actual : ℤ := Text.measure P text
  if 0 < minLength option ∧ actual < minLength option then
    some ⟨errorTooShort, [("min", .int (minLength option)), ("actual", .int actual)]⟩
  else if maxLength option < actual then
    some ⟨errorTooLong, [("max", .int (maxLength option)), ("actual", .int actual)]⟩
  else textRuleViolation P option text

/-! ## Dates -/

def dayFormat : String := "Y-m-d"

def dateFormat (option : Value) : String :=
  if option.text "type" = "time_picker" then "H:i"
  else if option.text "type" = "datetime_picker" then "Y-m-d\\TH:i"
  else dayFormat

/-- `parse_date`: a date as its format writes it. -/
def parseDate (P : Platform) (raw : String) (option : Value) : Option String :=
  match P.createFromFormat (dateFormat option) raw with
  | none => none
  | some second => if P.format second (dateFormat option) = raw then some raw else none

def daySeconds : ℤ := 86400

/-- A count of days in a validation, where it is one. -/
def days? (validation : Value) (k : String) : Option ℤ :=
  (validation.field k).int?.filter fun n => 0 ≤ n

def relativeDateViolation (P : Platform) (validation : Value) (day : String)
    (today : Option String) : Option Violation :=
  match today.bind (P.createFromFormat dayFormat), P.createFromFormat dayFormat day with
  | some start, some picked =>
    if day.utf8ByteSize ≠ 10 then none
    else
      let earliest := (days? validation "lead_time_days").map fun n => start + n * daySeconds
      let latest := (days? validation "max_advance_days").map fun n => start + n * daySeconds
      match earliest.filter (picked < ·), latest.filter (· < picked) with
      | some second, _ =>
        some ⟨errorDateOutOfRange, [("earliest", .str (P.format second dayFormat))]⟩
      | none, some second =>
        some ⟨errorDateOutOfRange, [("latest", .str (P.format second dayFormat))]⟩
      | none, none => none
  | _, _ => none

/-- The days of the week a validation allows. -/
def allowedWeekdays (validation : Value) : List ℤ :=
  (validation.field "allowed_weekdays").items.filterMap fun
    | .int n => some n
    | .str s => if s ≠ "" ∧ s.toList.all Decimal.isDigit then some (stringToInt s) else none
    | _ => none

/-- Whether a day falls on a day of the week that is not allowed. -/
def offWeekday (P : Platform) (validation : Value) (day : String) : Bool :=
  if day.utf8ByteSize ≠ 10 then false
  else match P.createFromFormat dayFormat day with
    | none => false
    | some second =>
      allowedWeekdays validation ≠ [] ∧
        stringToInt (P.format second "N") ∉ allowedWeekdays validation

def dateViolation (P : Platform) (option : Value) (value : String) (today : Option String) :
    Option Violation :=
  let rules := validation option
  let day := String.ofList (value.toList.take 10)
  let min := rules.text "min_date"
  let max := rules.text "max_date"
  let closed (entry : Value) : Bool := entry.isScalar && day = entry.castString
  if min ≠ "" ∧ value < min then some ⟨errorDateOutOfRange, [("min", .str min)]⟩
  else if max ≠ "" ∧ max < value then some ⟨errorDateOutOfRange, [("max", .str max)]⟩
  else if (rules.field "blackout_dates").items.any closed then
    some ⟨errorDateUnavailable, [("reason", .str "blackout")]⟩
  else if offWeekday P rules day then some ⟨errorDateUnavailable, [("reason", .str "weekday")]⟩
  else relativeDateViolation P rules day today

/-! ## Numbers -/

/-- `rtrim( $s, $c )`. -/
def rtrim (c : Char) (cs : List Char) : List Char := cs.rdropWhile (· = c)

def decimalPlaces (number : Binary64) : ℕ :=
  let text := rtrim '0' (numberFormat number)
  match text.idxOf? '.' with
  | none => 0
  | some dot => text.length - dot - 1

def formatNumber (value : Binary64) : String :=
  if value.floor = value ∧ value.abs.lt (.ofInt (10 ^ 15)) then toString (Value.truncate value)
  else
    let formatted := rtrim '.' (rtrim '0' (numberFormat value))
    if formatted = [] then "0" else String.ofList formatted

/-- Whether a number lies off the steps from a base. -/
def offStep (value base step : Binary64) : Bool :=
  let places := max (decimalPlaces step) (decimalPlaces (value.sub base).abs)
  let factor : Binary64 := .ofInt (10 ^ places)
  let offset := Value.truncate (round ((value.sub base).mul factor))
  let scaled := Value.truncate (round (step.mul factor))
  scaled ≠ 0 ∧ offset.tmod scaled ≠ 0

def numberViolation (option : Value) (value : Binary64) : Option Violation :=
  let rules := validation option
  let min := rules.number? "min"
  let max := rules.number? "max"
  let base := min.getD (.ofInt 0)
  let step := (rules.number? "step").filter fun step => (Binary64.ofInt 0).lt step
  match min.filter (value.lt ·), max.filter (·.lt value) with
  | some bound, _ => some ⟨errorOutOfRange, [("min", .float bound), ("actual", .float value)]⟩
  | none, some bound => some ⟨errorOutOfRange, [("max", .float bound), ("actual", .float value)]⟩
  | none, none =>
    if (rules.field "integer_only").truthy ∧ value.floor ≠ value then
      some ⟨errorBadStep, [("step", .int 1)]⟩
    else match step.filter (offStep value base ·) with
      | some step => some ⟨errorBadStep, [("step", .float step), ("from", .float base)]⟩
      | none => none

end Optionia.Engine
