import Optionia.Lib.OrderedMap
import Optionia.Lib.Decimal
/-!
# PHP values

The values the plugin's engine reads: what `json_decode` hands it, and what
a request posts. An array lists its entries in order, under distinct keys;
the integer keys of a list are spelled in decimal, as `(string)` spells
them.

Besides the type, this file has the language's own readings of a value:
`$x[k] ?? null`, `empty`, `is_scalar`, the casts to string and to array, and
the truncation of a float to an integer.
-/

namespace Optionia.Php

/-- A PHP value. -/
inductive Value where
  | null
  | bool (b : Bool)
  | int (n : ℤ)
  | float (x : Binary64)
  | str (s : String)
  | arr (es : List (String × Value))
  deriving Inhabited

namespace Value

mutual

/-- Whether two values are the same, contents and order. -/
def decEq : (v w : Value) → Decidable (v = w)
  | null, null => isTrue rfl
  | bool a, bool b => decidable_of_iff (a = b) (by simp)
  | int a, int b => decidable_of_iff (a = b) (by simp)
  | float a, float b => decidable_of_iff (a = b) (by simp)
  | str a, str b => decidable_of_iff (a = b) (by simp)
  | arr a, arr b =>
    match decEqEntries a b with
    | isTrue h => isTrue (by rw [h])
    | isFalse h => isFalse (by simpa using h)
  | null, bool _ | null, int _ | null, float _ | null, str _ | null, arr _
  | bool _, null | bool _, int _ | bool _, float _ | bool _, str _ | bool _, arr _
  | int _, null | int _, bool _ | int _, float _ | int _, str _ | int _, arr _
  | float _, null | float _, bool _ | float _, int _ | float _, str _ | float _, arr _
  | str _, null | str _, bool _ | str _, int _ | str _, float _ | str _, arr _
  | arr _, null | arr _, bool _ | arr _, int _ | arr _, float _ | arr _, str _ =>
    isFalse (by simp)

/-- The same of two lists of entries. -/
def decEqEntries : (l m : List (String × Value)) → Decidable (l = m)
  | [], [] => isTrue rfl
  | [], _ :: _ | _ :: _, [] => isFalse (by simp)
  | (k, v) :: l, (k', w) :: m =>
    match decEq v w, decEqEntries l m with
    | isTrue h, isTrue h' => decidable_of_iff (k = k') (by simp [h, h'])
    | isFalse h, _ => isFalse (by simp [h])
    | _, isFalse h => isFalse (by simp [h])

end

/-- `===`, for values that are not the undefined float. -/
instance : DecidableEq Value := decEq

/-! ## Reading a value -/

/-- `$v[k] ?? null`: a missing key, `null` and a value that is no array read
alike. -/
def field : Value → String → Value
  | arr es, k => (es.lookup k).getD null
  | _, _ => null

/-- `isset( $v[k] )`. -/
def isset (v : Value) (k : String) : Bool := decide (v.field k ≠ null)

def isScalar : Value → Bool
  | bool _ | int _ | float _ | str _ => true
  | null | arr _ => false

def isArray : Value → Bool
  | arr _ => true
  | _ => false

/-- `! empty( … )`: whether the value counts as true. -/
def truthy : Value → Bool
  | null => false
  | bool b => b
  | int n => decide (n ≠ 0)
  | float x => decide (x.toRat? ≠ some 0)
  | str s => decide (s ≠ "" ∧ s ≠ "0")
  | arr es => !es.isEmpty

def gettype : Value → String
  | null => "NULL"
  | bool _ => "boolean"
  | int _ => "integer"
  | float _ => "double"
  | str _ => "string"
  | arr _ => "array"

/-- `array_values`, and the values a `foreach` runs over: none where the
value is no array. -/
def items : Value → List Value
  | arr es => es.map Prod.snd
  | _ => []

/-- `(array) $v`, as the values a `foreach` runs over. -/
def castItems : Value → List Value
  | null => []
  | arr es => es.map Prod.snd
  | v => [v]

/-- A list: its entries carry the keys `0`, `1`, …. -/
def ofList (vs : List Value) : Value := arr (vs.mapIdx fun i v => (toString i, v))

@[simp] theorem items_ofList (vs : List Value) : (ofList vs).items = vs := by
  rw [ofList, items, List.mapIdx_eq_zipIdx_map, List.map_map]
  exact List.zipIdx_map_fst 0 vs

/-! ## Floats -/

/-- The digits of a magnitude, with the point at `place`. -/
def pointAt (digits : List Char) (place : ℤ) : List Char :=
  if place ≤ 0 then '0' :: '.' :: (List.replicate place.natAbs '0' ++ digits)
  else
    let n := place.toNat
    let whole := digits.take n ++ List.replicate (n - digits.length) '0'
    if digits.length ≤ n then whole else whole ++ '.' :: digits.drop n

def withExponent (digits : List Char) (place : ℤ) : List Char :=
  let e := place - 1
  digits.take 1 ++ '.' :: (if digits.length ≤ 1 then ['0'] else digits.drop 1)
    ++ 'E' :: (if e < 0 then '-' else '+') :: (toString e.natAbs).toList

/-- `(string) $x`: fourteen significant digits, with an exponent where the
point stands far from them. -/
def floatString : Binary64 → String
  | .finite v =>
    if v.val = 0 then "0"
    else
      let (digits, place) := Decimal.significant 14 v.val
      let body := if place < -3 ∨ 14 < place then withExponent digits place
        else pointAt digits place
      String.ofList (if v.val < 0 then '-' :: body else body)
  | .inf s => if s then "-INF" else "INF"
  | .nan => "NAN"

/-- `(int) $x` on a 64-bit build: truncation, reduced into the range of the
machine's integers. -/
def truncate : Binary64 → ℤ
  | .finite v =>
    let n := if v.val < 0 then ⌈v.val⌉ else ⌊v.val⌋
    (n + 2 ^ 63) % 2 ^ 64 - 2 ^ 63
  | _ => 0

/-- An integer, where it fits the machine's integers; a float beyond. -/
def ofNumber (n : ℤ) : Value :=
  if -2 ^ 63 ≤ n ∧ n < 2 ^ 63 then int n else float (.ofInt n)

theorem ofNumber_cases (n : ℤ) : ofNumber n = int n ∨ ofNumber n = float (.ofInt n) := by
  rw [ofNumber]
  split
  · exact Or.inl rfl
  · exact Or.inr rfl

/-- `$a + $n` for a number and an integer: a float once it no longer fits. -/
def add : Value → ℤ → Value
  | int a, n => ofNumber (a + n)
  | float x, n => float (x.add (.ofInt n))
  | v, _ => v

/-! ## Strings -/

/-- `(string) $v`. -/
def castString : Value → String
  | null => ""
  | bool b => if b then "1" else ""
  | int n => toString n
  | float x => floatString x
  | str s => s
  | arr _ => "Array"

/-- `isset( $v[k] ) && is_scalar( $v[k] ) ? (string) $v[k] : ''`. -/
def text (v : Value) (k : String) : String :=
  if (v.field k).isScalar then (v.field k).castString else ""

/-- `isset( $v[k] ) && is_string( $v[k] ) ? $v[k] : ''`. -/
def string (v : Value) (k : String) : String :=
  match v.field k with
  | str s => s
  | _ => ""

/-- `$v[k]` where it is an integer. -/
def int? : Value → Option ℤ
  | int n => some n
  | _ => none

end Value

/-- The characters `trim` removes. -/
def trimmed (c : Char) : Bool :=
  c == ' ' || c == '\t' || c == '\n' || c == '\r' || c == '\x00' || c == '\x0B'

def trim (s : String) : String :=
  String.ofList ((s.toList.dropWhile trimmed).rdropWhile trimmed)

theorem trim_ofList {cs : List Char} (h : ∀ c ∈ cs.head?, trimmed c = false)
    (h' : ∀ c ∈ cs.getLast?, trimmed c = false) : trim (String.ofList cs) = String.ofList cs := by
  have hopen : cs.dropWhile trimmed = cs := by
    cases cs with
    | nil => rfl
    | cons c cs =>
      have hc := h c rfl
      rw [List.dropWhile_cons_of_neg (by rw [hc]; exact Bool.false_ne_true)]
  have hclose : cs.rdropWhile trimmed = cs := by
    refine List.rdropWhile_eq_self_iff.2 fun hne htrimmed => ?_
    rw [h' _ (List.getLast?_eq_some_getLast hne)] at htrimmed
    exact Bool.false_ne_true htrimmed
  unfold trim
  rw [String.toList_ofList, hopen, hclose]

theorem trim_trim (s : String) : trim (trim s) = trim s := by
  have hdropped : ∀ l : List Char, ∀ c ∈ (l.dropWhile trimmed).head?, trimmed c = false := by
    intro l
    induction l with
    | nil => exact fun c hc => absurd hc.symm (Option.some_ne_none c)
    | cons d l ih =>
      intro c hc
      by_cases hd : trimmed d = true
      · rw [List.dropWhile_cons_of_pos hd] at hc
        exact ih c hc
      · rw [List.dropWhile_cons_of_neg hd] at hc
        obtain rfl : d = c := Option.some.inj hc
        exact Bool.not_eq_true _ ▸ hd
  refine trim_ofList (fun c hc => hdropped s.toList c ?_) fun c hc => ?_
  · obtain ⟨rest, hrest⟩ := List.rdropWhile_prefix trimmed (s.toList.dropWhile trimmed)
    rw [← hrest, List.head?_append, Option.mem_def.1 hc]
    rfl
  · have hne : (s.toList.dropWhile trimmed).rdropWhile trimmed ≠ [] := by
      rintro hnil
      rw [hnil] at hc
      simp at hc
    have hlast := List.rdropWhile_last_not trimmed (s.toList.dropWhile trimmed) hne
    rw [List.getLast?_eq_some_getLast hne] at hc
    obtain rfl := Option.some.inj hc
    exact Bool.not_eq_true _ ▸ hlast

example : Value.floatString (.ofRat (1 / 10)) = "0.1" := by decide +kernel

example : Value.floatString (.ofRat (10 ^ 25)) = "1.0E+25" := by decide +kernel

end Optionia.Php
