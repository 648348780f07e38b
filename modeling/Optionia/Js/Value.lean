import Mathlib.Data.List.Perm.Subperm
import Optionia.Lib.OrderedMap
import Optionia.Lib.Decimal
/-!
# JavaScript values

The values the cloud's and the page's evaluators read. Two objects or arrays
are never `===` here: the ones compared always come from different places,
an answer and an operand.
-/

namespace Optionia.Js

/-- A JavaScript value. -/
inductive Value where
  | undefined
  | null
  | bool (b : Bool)
  | num (x : Binary64)
  | str (s : String)
  | arr (vs : List Value)
  | obj (es : List (String × Value))
  deriving Inhabited

/-- The digits of a shortest decimal that rounds to a magnitude: the first
precision at which rounding the value and reading it back gives it again. -/
def shortest (q : ℚ) : ℕ → ℕ → List Char × ℤ
  | 0, precision => Decimal.significant precision q
  | fuel + 1, precision =>
    let (digits, place) := Decimal.significant precision q
    let back : ℚ := Decimal.digitsValue digits * 10 ^ (place - digits.length)
    if Binary64.nearest back = |q| then (digits, place) else shortest q fuel (precision + 1)

/-- `Number::toString` on a magnitude: digits alone up to `10^21`, an
exponent beyond and for very small ones. -/
def magnitudeString (q : ℚ) : List Char :=
  if q.den = 1 ∧ |q| ≤ 2 ^ 53 then (toString q.num.natAbs).toList
  else
    let (digits, place) := shortest q 17 1
    if 0 < place ∧ place ≤ 21 then
      let n := place.toNat
      if digits.length ≤ n then digits ++ List.replicate (n - digits.length) '0'
      else digits.take n ++ '.' :: digits.drop n
    else if -6 < place ∧ place ≤ 0 then
      '0' :: '.' :: (List.replicate place.natAbs '0' ++ digits)
    else
      let e := place - 1
      digits.take 1 ++ (if digits.length ≤ 1 then [] else '.' :: digits.drop 1)
        ++ 'e' :: (if e < 0 then '-' else '+') :: (toString e.natAbs).toList

/-- `String(x)` for a number. -/
def numberString : Binary64 → String
  | .finite v =>
    String.ofList (if v.val < 0 then '-' :: magnitudeString v.val else magnitudeString v.val)
  | .inf s => if s then "-Infinity" else "Infinity"
  | .nan => "NaN"

/-- What `String.prototype.trim` removes: white space and line
terminators. -/
def trimmed (c : Char) : Bool :=
  c.toNat ∈ [0x09, 0x0A, 0x0B, 0x0C, 0x0D, 0x20, 0xA0, 0x1680, 0x2028, 0x2029, 0x202F, 0x205F,
    0x3000, 0xFEFF] || (decide (0x2000 ≤ c.toNat) && decide (c.toNat ≤ 0x200A))

def trim (s : String) : String :=
  String.ofList ((s.toList.dropWhile trimmed).rdropWhile trimmed)

/-- `Number.isSafeInteger`, of a number. -/
def isSafeInteger : Binary64 → Bool
  | .finite v => decide (v.val.den = 1 ∧ |v.val| ≤ 2 ^ 53 - 1)
  | _ => false

namespace Value

def typeof : Value → String
  | undefined => "undefined"
  | null => "object"
  | bool _ => "boolean"
  | num _ => "number"
  | str _ => "string"
  | arr _ => "object"
  | obj _ => "object"

/-- `===`. -/
def strictEq : Value → Value → Bool
  | undefined, undefined => true
  | null, null => true
  | bool a, bool b => a == b
  | num x, num y => x.same y
  | str s, str t => s == t
  | _, _ => false

/-- `v === v`, which only the undefined number fails. -/
def selfSame : Value → Bool
  | num x => x.same x
  | _ => true

/-- `v.k`, where `v` may be nothing: a missing property reads as
`undefined`. -/
def field : Value → String → Value
  | obj es, k => (es.lookup k).getD undefined
  | _, _ => undefined

/-- `Array.isArray( v ) ? v : []`. -/
def items : Value → List Value
  | arr vs => vs
  | _ => []

/-- `typeof v.k === 'string' ? v.k : ''`. -/
def string (v : Value) (k : String) : String :=
  match v.field k with
  | str s => s
  | _ => ""

/-- The integer a number is, where it is one of at most 53 bits:
`Number.isSafeInteger`. -/
def safeInteger? : Value → Option ℤ
  | num (.finite v) => if isSafeInteger (.finite v) then some v.val.num else none
  | _ => none

end Value

/-! ## Safe integers -/

theorem exists_num_of_safeInteger? {w : Value} {n : ℤ} (h : w.safeInteger? = some n) :
    ∃ x : Binary64.Finite, w = .num (.finite x) ∧ x.val = n := by
  unfold Value.safeInteger? at h
  split at h
  · rename_i x
    split at h
    · rename_i hsafe
      unfold isSafeInteger at hsafe
      have hden := (of_decide_eq_true hsafe).1
      obtain rfl := Option.some.inj h
      exact ⟨x, rfl, (Rat.coe_int_num_of_den_eq_one hden).symm⟩
    · simp at h
  · simp at h

/-- **A safe integer is one of at most 53 bits**: a larger one rounds to
`2^53` or further. -/
theorem isSafeInteger_ofInt (n : ℤ) :
    isSafeInteger (.ofInt n) = decide (|n| ≤ 2 ^ 53 - 1) := by
  rw [Bool.eq_iff_iff, decide_eq_true_eq, ← Binary64.ofInt_within]
  constructor
  · intro h
    cases hx : Binary64.ofInt n with
    | finite v =>
      rw [hx] at h
      unfold isSafeInteger at h
      rw [decide_eq_true_eq] at h
      exact ⟨v.val, rfl, by exact_mod_cast h.2⟩
    | inf s => rw [hx] at h; exact absurd h Bool.false_ne_true
    | nan => rw [hx] at h; exact absurd h Bool.false_ne_true
  · intro h
    have hn := Binary64.ofInt_within.1 h
    obtain ⟨v, hv, hval⟩ := Binary64.exists_ofInt_eq (by omega : |n| ≤ 2 ^ 53)
    rw [hv]
    unfold isSafeInteger
    rw [decide_eq_true_eq, hval]
    exact ⟨Rat.den_intCast n, by exact_mod_cast hn⟩

theorem abs_integerPart_le (q : ℚ) : |(Binary64.integerPart q : ℚ)| ≤ |q| := by
  unfold Binary64.integerPart
  split
  · next h =>
    have hceil : ⌈q⌉ ≤ 0 := Int.ceil_le.2 (by exact_mod_cast h.le)
    rw [abs_of_neg h, abs_of_nonpos (by exact_mod_cast hceil)]
    exact neg_le_neg (Int.le_ceil q)
  · next h =>
    have hfloor : 0 ≤ ⌊q⌋ := Int.floor_nonneg.2 (not_lt.1 h)
    rw [abs_of_nonneg (not_lt.1 h), abs_of_nonneg (by exact_mod_cast hfloor)]
    exact Int.floor_le q

/-- **The integer part of a double is safe exactly when the double is within
the safe range**: beyond `2^52` there are no fractions to drop. -/
theorem isSafeInteger_trunc (x : Binary64) :
    isSafeInteger x.trunc = x.abs.le (.ofInt (2 ^ 53 - 1)) := by
  rw [Bool.eq_iff_iff, Binary64.abs_le_ofInt (by norm_num) (by norm_num)]
  cases x with
  | finite v =>
    change isSafeInteger (.ofInt (Binary64.integerPart v.val)) = true ↔ _
    rw [isSafeInteger_ofInt, decide_eq_true_eq]
    simp only [Binary64.toRat?, Option.some.injEq, exists_eq_left']
    constructor
    · intro h
      by_contra hbig
      have hlarge : (2 : ℚ) ^ 52 ≤ |v.val| := by
        push_cast at hbig
        norm_num at hbig ⊢
        linarith
      obtain ⟨n, hn⟩ := Binary64.exists_int_of_le v.nearest_val hlarge
      have hpart : Binary64.integerPart v.val = n := by
        unfold Binary64.integerPart
        rw [hn]
        split <;> simp
      rw [hpart] at h
      rw [hn] at hbig
      exact hbig (by exact_mod_cast h)
    · intro h
      have := (abs_integerPart_le v.val).trans h
      exact_mod_cast this
  | inf s => simp [Binary64.trunc, isSafeInteger, Binary64.toRat?]
  | nan => simp [Binary64.trunc, isSafeInteger, Binary64.toRat?]

example : numberString (.ofRat (1 / 10)) = "0.1" := by decide +kernel

example : numberString (.ofInt (10 ^ 19 + 1)) = "10000000000000000000" := by decide +kernel

end Optionia.Js

/-! ## Comparing answers in JavaScript

The cloud's evaluator and the page's spell out the same comparisons, word
for word: when an answer is supplied, what its members are, and which
operators hold of it. They part in how a rule is read, which is theirs.
-/

namespace Optionia.Js

abbrev Answers := OrderedMap String Value

/-! ## Comparing an answer -/

def asString : Value → String
  | .bool b => if b then "true" else "false"
  | .num x => numberString x
  | .str s => s
  | .undefined | .null | .arr _ | .obj _ => ""

/-- Whether an answer is an operand. -/
def sameScalar (answer operand : Value) : Bool :=
  if answer.typeof = operand.typeof then answer.strictEq operand
  else decide (asString answer = asString operand)

/-- The finite number a double is. -/
def finite? (x : Binary64) : Option Binary64 := if x.isFinite then some x else none

/-- The number a value is, if it is a finite one. -/
def numericValue : Value → Option Binary64
  | .num x => finite? x
  | .str s => (Decimal.literal? (trim s).toList).bind fun q => finite? (.ofRat q)
  | _ => none

def compareNumeric (answer operand : Value) (compare : Binary64 → Binary64 → Bool) : Bool :=
  match numericValue answer, numericValue operand with
  | some left, some right => compare left right
  | _, _ => false

def includes (haystack needle : String) : Bool :=
  decide (needle.toList <:+: haystack.toList)

/-! ## Operators -/

def supplied : Value → Bool
  | .undefined | .null => false
  | .str s => decide (s ≠ "")
  | .arr vs => !vs.isEmpty
  | _ => true

def members : Value → List Value
  | .arr vs => vs
  | v => [v]

/-- Whether an answer is exactly one operand. -/
def isExactly (answer operand : Value) : Bool :=
  match members answer with
  | [member] => sameScalar member operand
  | _ => false

/-- Whether some member of an answer is in a list of operands. -/
def anyInList (answer operand : Value) : Bool :=
  (members answer).any fun member => operand.items.any (sameScalar member)

/-- Whether an operator holds of an answer and an operand. -/
def operatorHolds (operator : String) (answer operand : Value) : Bool :=
  if operator = "is_empty" then !supplied answer
  else if operator = "is_not_empty" then supplied answer
  else if operator = "equals" then supplied answer && isExactly answer operand
  else if operator = "not_equals" then supplied answer && !isExactly answer operand
  else if operator = "contains" then
    match operand with
    | .str needle =>
      supplied answer && (members answer).any fun member => includes (asString member) needle
    | _ => false
  else if operator = "greater_than" then compareNumeric answer operand fun a b => b.lt a
  else if operator = "less_than" then compareNumeric answer operand fun a b => a.lt b
  else if operator = "in" then supplied answer && anyInList answer operand
  else if operator = "not_in" then supplied answer && !anyInList answer operand
  else false

/-- **An operator decides from whether the answer was supplied, from its
members where it was, and from the number it is.** -/
theorem operatorHolds_congr {a b : Value} (hsupplied : supplied a = supplied b)
    (hmembers : supplied a = true → members a = members b)
    (hnumber : numericValue a = numericValue b) (operator : String) (operand : Value) :
    operatorHolds operator a operand = operatorHolds operator b operand := by
  have hcompare (compare : Binary64 → Binary64 → Bool) :
      compareNumeric a operand compare = compareNumeric b operand compare := by
    rw [compareNumeric, compareNumeric, hnumber]
  unfold operatorHolds
  rw [← hsupplied, hcompare, hcompare]
  cases h : supplied a with
  | false => simp only [Bool.false_and]
  | true =>
    have hm := hmembers h
    rw [isExactly, isExactly, anyInList, anyInList, hm]

/-! ## Having settled -/

/-- `sameAnswers`: as many keys, and each with the other's value. Both maps
are copies of one map, so what stands under a shared key is the same value,
identical to itself unless it is the undefined number. -/
def sameAnswers (a b : Answers) : Bool :=
  decide (a.keys.length = b.keys.length) &&
    a.entries.all fun p => (b.get? p.1).isSome && p.2.selfSame

/-- A map whose values are all identical to themselves is the same as
itself. -/
theorem sameAnswers_self {m : Answers} (hself : ∀ p ∈ m.entries, p.2.selfSame = true) :
    sameAnswers m m = true := by
  rw [sameAnswers, Bool.and_eq_true, decide_eq_true_eq, List.all_eq_true]
  refine ⟨rfl, fun p hp => ?_⟩
  rw [Bool.and_eq_true, OrderedMap.isSome_get?]
  exact ⟨List.mem_map_of_mem hp, hself p hp⟩

/-- **Two erasures of one map pass as the same exactly when they leave the
same keys.** As many keys, each found in the other, are the same keys. -/
theorem sameAnswers_eraseAll_iff {m : Answers} (hself : ∀ p ∈ m.entries, p.2.selfSame = true)
    {ks ks' : List String} :
    sameAnswers (m.eraseAll ks) (m.eraseAll ks') = true ↔
      m.eraseAll ks = m.eraseAll ks' := by
  constructor
  · intro h
    rw [sameAnswers, Bool.and_eq_true, decide_eq_true_eq, List.all_eq_true] at h
    obtain ⟨hlen, hfound⟩ := h
    have hsub : (m.eraseAll ks).keys ⊆ (m.eraseAll ks').keys := by
      intro k hk
      obtain ⟨p, hp, rfl⟩ := List.mem_map.1 hk
      exact OrderedMap.isSome_get?.1 (Bool.and_eq_true_iff.1 (hfound p hp)).1
    have hperm : (m.eraseAll ks).keys.Perm (m.eraseAll ks').keys :=
      ((OrderedMap.keys_nodup _).subperm hsub).perm_of_length_le hlen.ge
    refine (m.eraseAll_eq_iff ks ks').2 fun k hk => ?_
    have hiff := hperm.mem_iff (a := k)
    rw [OrderedMap.mem_keys_eraseAll, OrderedMap.mem_keys_eraseAll] at hiff
    have hnot : k ∉ ks ↔ k ∉ ks' :=
      ⟨fun h => (hiff.1 ⟨hk, h⟩).2, fun h => (hiff.2 ⟨hk, h⟩).2⟩
    exact not_iff_not.1 hnot
  · intro h
    rw [h]
    refine sameAnswers_self fun p hp => hself p ?_
    rw [OrderedMap.entries_eraseAll] at hp
    exact List.mem_of_mem_filter hp

end Optionia.Js
