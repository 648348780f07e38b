import Optionia.Php.Value
/-!
# Numeric strings and numbers in PHP

What a string is worth where PHP wants a number: the longest numeral it
opens with, after leading white space. An integer beyond the machine's range
counts as a float, and `(int)` keeps such a one at the end of the range.
-/

namespace Optionia.Php

def numeralSpace (c : Char) : Bool :=
  c == ' ' || c == '\t' || c == '\n' || c == '\r' || c == '\x0B' || c == '\x0C'

/-- A numeral at the head of a string. -/
structure Numeral where
  value : ℚ
  integral : Bool
  rest : List Char

/-- An exponent and what follows it: a bare `e` is no exponent. -/
def takeExponent (cs : List Char) : ℤ × List Char :=
  match cs with
  | [] => (0, [])
  | c :: tail =>
    let (negative, digits) := Decimal.splitSign tail
    let run := digits.takeWhile Decimal.isDigit
    if (c = 'e' ∨ c = 'E') ∧ run ≠ [] then
      (if negative then -(Decimal.digitsValue run : ℤ) else Decimal.digitsValue run,
        digits.dropWhile Decimal.isDigit)
    else (0, cs)

/-- The numeral a string opens with. -/
def numeral? (s : String) : Option Numeral :=
  let (negative, body) := Decimal.splitSign (s.toList.dropWhile numeralSpace)
  match Decimal.mantissa? body with
  | none => none
  | some (whole, fraction, rest) =>
    let (exponent, after) := takeExponent rest
    some ⟨Decimal.signed negative (Decimal.scaled whole fraction exponent),
      decide (body = whole ++ after), after⟩

/-- An integer, kept within the machine's range. -/
def saturate (n : ℤ) : ℤ := max (-2 ^ 63) (min n (2 ^ 63 - 1))

/-- `(int) $s`. -/
def stringToInt (s : String) : ℤ :=
  match numeral? s with
  | none => 0
  | some numeral =>
    if numeral.integral then saturate numeral.value.num
    else match Binary64.ofRat numeral.value with
      | .finite v => saturate (if v.val < 0 then ⌈v.val⌉ else ⌊v.val⌋)
      | .inf negative => if negative then -2 ^ 63 else 2 ^ 63 - 1
      | .nan => 0

/-- `(int) $v`. -/
def Value.toInt : Value → ℤ
  | .null => 0
  | .bool b => if b then 1 else 0
  | .int n => n
  | .float x => Value.truncate x
  | .str s => stringToInt s
  | .arr es => if es.isEmpty then 0 else 1

example : stringToInt " 20abc" = 20 := by decide +kernel

example : stringToInt "1e3" = 1000 := by decide +kernel

/-! ## Reading and writing numbers in PHP

`is_numeric` and `(float)`, `round` half away from zero, and `number_format`
with six places, a point and no separator of thousands.
-/

def isNumeric : Value → Bool
  | .int _ | .float _ => true
  | .str s => match numeral? s with
    | some numeral => numeral.rest.all numeralSpace
    | none => false
  | _ => false

/-- `(float) $v` of a numeric value. -/
def toFloat : Value → Binary64
  | .int n => .ofInt n
  | .float x => x
  | .str s => match numeral? s with
    | some numeral => .ofRat numeral.value
    | none => .ofInt 0
  | _ => .ofInt 0

/-- `isset( $v[k] ) && is_numeric( $v[k] ) ? (float) $v[k] : null`. -/
def Value.number? (v : Value) (k : String) : Option Binary64 :=
  if isNumeric (v.field k) then some (toFloat (v.field k)) else none

/-! ## Rounding -/

/-- The nearest integer, half away from zero. -/
def roundHalfAway (q : ℚ) : ℤ :=
  if q < 0 then -⌊1 / 2 - q⌋ else ⌊q + 1 / 2⌋

def round : Binary64 → Binary64
  | .finite v => .ofInt (roundHalfAway v.val)
  | x => x

/-! ## Six places -/

/-- The millionths of a number, rounded. -/
def millionths (q : ℚ) : ℤ := roundHalfAway (q * 10 ^ 6)

def sixDigits (n : ℕ) : List Char :=
  let digits := (toString n).toList
  List.replicate (6 - digits.length) '0' ++ digits

/-- A number of millionths, with its six places. -/
def sixPlaces (n : ℤ) : List Char :=
  let body := (toString (n.natAbs / 10 ^ 6)).toList ++ '.' :: sixDigits (n.natAbs % 10 ^ 6)
  if n < 0 then '-' :: body else body

/-- `number_format( $x, 6, '.', '' )`. -/
def numberFormat : Binary64 → List Char
  | .finite v => sixPlaces (millionths v.val)
  | .inf _ => "inf".toList
  | .nan => "nan".toList

example : String.ofList (numberFormat (.ofRat (-5 / 2))) = "-2.500000" := by decide +kernel

example : String.ofList (numberFormat (.ofRat (1 / 10 ^ 7))) = "0.000000" := by decide +kernel

end Optionia.Php
