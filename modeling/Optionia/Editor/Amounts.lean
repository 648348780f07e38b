import Optionia.Support.MoneyText
import Optionia.Wire.Reading
/-!
# Amounts and percentages as they are typed

`money.ts` and `percent.ts`: what a merchant types is parsed from its digits
into minor units or basis points, and what is stored is written from its digits
for an input that is edited. What is written is read back. The plugin's
`try_from_decimal` parses an amount the same way, but trims other characters
first: where the two agree on a text is `typed_iff`.
-/

namespace Optionia.Editor.Amounts

open Decimal (Digits digitsValue scaled signed splitSign)
open Support (Money Body Written)

/-! ## Amounts -/

def maxAmountMinor : ℤ := 1000000000

def minorPerMajorDigits : ℕ := 2

/-- Why nothing is parsed. -/
inductive Reason where
  | malformed
  | tooLarge
  deriving DecidableEq

def padEnd (digits : List Char) (length : ℕ) : List Char :=
  digits ++ List.replicate (length - digits.length) '0'

def padStart (digits : List Char) (length : ℕ) : List Char :=
  List.replicate (length - digits.length) '0' ++ digits

/-- `digits.slice( 0, -n )` -/
def butLast (digits : List Char) (n : ℕ) : List Char := digits.take (digits.length - n)

/-- `digits.slice( -n )` -/
def last (digits : List Char) (n : ℕ) : List Char := digits.drop (digits.length - n)

/-- `Number( digits )` -/
def number (digits : List Char) : Binary64 := .ofInt (digitsValue digits)

/-- The amount of a magnitude under a sign, where it is a safe integer and the
API takes it. -/
def amountOf (negative : Bool) : Option ℤ → Except Reason ℤ
  | none => .error .tooLarge
  | some magnitude =>
    let minor := if negative then -magnitude else magnitude
    if maxAmountMinor < |minor| then .error .tooLarge else .ok minor

/-- `parseAmount`. `DECIMAL_PATTERN` is the plugin's expression. -/
def parseAmount (input : String) : Except Reason ℤ :=
  let candidate := (Js.trim input).toList
  let (negative, unsigned) := splitSign candidate
  match Reporting.decimalParts? unsigned with
  | none => .error .malformed
  | some (wholePart, fractionPart) =>
    let whole := if wholePart = [] then ['0'] else wholePart
    -- The first digit that is cut off decides the rounding.
    let roundUp := decide (minorPerMajorDigits < fractionPart.length) &&
      decide (5 ≤ digitsValue ((fractionPart.drop minorPerMajorDigits).take 1))
    let fraction := if minorPerMajorDigits < fractionPart.length then
      fractionPart.take minorPerMajorDigits else fractionPart
    let fraction := padEnd fraction minorPerMajorDigits
    let digits := (whole ++ fraction).dropWhile (· = '0')
    let digits := if digits = [] then ['0'] else digits
    let magnitude := (number digits).add (.ofInt (if roundUp then 1 else 0))
    amountOf negative (Js.Value.num magnitude).safeInteger?

def formatAmount (minor : ℤ) : String :=
  let digits := padStart (Nat.toDigits 10 minor.natAbs) (minorPerMajorDigits + 1)
  let whole := butLast digits minorPerMajorDigits
  let fraction := last digits minorPerMajorDigits
  String.ofList ((if minor < 0 then ['-'] else []) ++ whole ++ '.' :: fraction)

/-! ## Percentages -/

def maxBasisPoints : ℤ := 100000

def percentDecimals : ℕ := 2

/-- What `PERCENT_PATTERN` matches after a sign: a decimal of at most two
places. -/
def percentParts? (cs : List Char) : Option (List Char × List Char) :=
  (Reporting.decimalParts? cs).filter fun parts => parts.2.length ≤ percentDecimals

/-- The basis points of a magnitude under a sign, where it is a safe integer
and the API takes it. -/
def basisPointsOf (negative : Bool) : Option ℤ → Except Reason ℤ
  | none => .error .tooLarge
  | some points =>
    if maxBasisPoints < points then .error .tooLarge
    else .ok (if negative then -points else points)

def parsePercent (input : String) : Except Reason ℤ :=
  let candidate := (Js.trim input).toList
  let (negative, unsigned) := splitSign candidate
  match percentParts? unsigned with
  | none => .error .malformed
  | some (whole, fraction) =>
    let points := number (whole ++ padEnd fraction percentDecimals)
    basisPointsOf negative (Js.Value.num points).safeInteger?

def formatBasisPoints (basisPoints : ℤ) : String :=
  let digits := padStart (Nat.toDigits 10 basisPoints.natAbs) (percentDecimals + 1)
  let whole := butLast digits percentDecimals
  let fraction := (last digits percentDecimals).rdropWhile (· = '0')
  String.ofList ((if basisPoints < 0 then ['-'] else []) ++ whole ++
    if fraction = [] then [] else '.' :: fraction)

/-! ## Numbers of digits -/

/-- A double that is no more than the integer it was read from, and `2^53` or
more, is no safe integer. -/
theorem not_isSafeInteger_add {n : ℕ} (h : 2 ^ 53 < n) (carry : ℤ) (h0 : 0 ≤ carry)
    (h1 : carry ≤ 1) :
    Js.isSafeInteger ((Binary64.ofInt n).add (.ofInt carry)) = false := by
  have hcarry : |carry| ≤ 2 ^ 53 := by
    rw [abs_of_nonneg h0]
    omega
  obtain ⟨w, hw, hwc⟩ := Binary64.exists_ofInt_eq hcarry
  have hlarge : ∀ {q : ℚ}, 2 ^ 53 ≤ q → 2 ^ 53 ≤ Binary64.nearest q := by
    intro q hq
    have hpos : (0 : ℚ) ≤ q := le_trans (by positivity) hq
    have habs := Binary64.zpow_le_abs_nearest (q := q) (k := 53) (by norm_num)
      (by rw [abs_of_nonneg hpos]; exact_mod_cast hq)
    rw [abs_of_nonneg (Binary64.nearest_nonneg hpos)] at habs
    exact_mod_cast habs
  have hbeyond : ∀ {x : Binary64} {q : ℚ}, x = .ofRat q → 2 ^ 53 ≤ q →
      Js.isSafeInteger x = false := by
    rintro x q rfl hq
    cases hx : Binary64.ofRat q with
    | finite v =>
      have hv := Binary64.toRat?_ofRat_eq_some (q := q) (r := v.val) (by rw [hx]; rfl)
      refine decide_eq_false fun hsafe => ?_
      have hge := hlarge hq
      have hle := (le_abs_self v.val).trans hsafe.2
      rw [hv] at hle
      linarith
    | inf s => rfl
    | nan => rfl
  cases hn : Binary64.ofInt n with
  | finite v =>
    have hv : v.val = Binary64.nearest n :=
      Binary64.toRat?_ofRat_eq_some (q := n) (by
        have h := congrArg Binary64.toRat? hn
        rw [Binary64.ofInt] at h
        exact_mod_cast h)
    refine hbeyond (q := v.val + w.val) (by rw [hw]; rfl) ?_
    have hge : (2 : ℚ) ^ 53 ≤ Binary64.nearest n := hlarge (by exact_mod_cast h.le)
    have hw0 : (0 : ℚ) ≤ w.val := by rw [hwc]; exact_mod_cast h0
    rw [hv]
    linarith
  | inf s =>
    rw [hw]
    rfl
  | nan =>
    rw [hw]
    rfl

theorem safeInteger?_of_le {digits : List Char} (h : (digitsValue digits : ℤ) ≤ 2 ^ 53 - 1) :
    (Js.Value.num (number digits)).safeInteger? = some (digitsValue digits : ℤ) := by
  have habs : |(digitsValue digits : ℤ)| = digitsValue digits := abs_of_nonneg (by omega)
  have hsafe := Js.isSafeInteger_ofInt (digitsValue digits : ℤ)
  obtain ⟨v, hv, hval⟩ := Binary64.exists_ofInt_eq
    (show |(digitsValue digits : ℤ)| ≤ 2 ^ 53 by rw [habs]; omega)
  rw [habs, decide_eq_true h, hv] at hsafe
  rw [number, hv, Js.Value.safeInteger?, if_pos hsafe, hval, Rat.num_intCast]

/-- **The number of digits, and a carry, is a safe integer where it does not
exceed them.** -/
theorem safeInteger?_number (digits : List Char) (carry : Bool) :
    (Js.Value.num ((number digits).add (.ofInt (if carry then 1 else 0)))).safeInteger? =
      if (digitsValue digits : ℤ) + (if carry then 1 else 0) ≤ 2 ^ 53 - 1 then
        some ((digitsValue digits : ℤ) + if carry then 1 else 0) else none := by
  have hcarry : (0 : ℤ) ≤ (if carry then 1 else 0) ∧ (if carry then (1 : ℤ) else 0) ≤ 1 := by
    split <;> omega
  generalize (if carry then (1 : ℤ) else 0) = c at hcarry ⊢
  unfold number
  by_cases hsmall : digitsValue digits ≤ 2 ^ 53
  · have hn : |(digitsValue digits : ℤ)| ≤ 2 ^ 53 := by
      rw [abs_of_nonneg (Int.natCast_nonneg _)]
      exact_mod_cast hsmall
    have hc : |c| ≤ 2 ^ 53 := by
      rw [abs_of_nonneg hcarry.1]
      omega
    have hsafe := Js.isSafeInteger_ofInt ((digitsValue digits : ℤ) + c)
    rw [abs_of_nonneg (by omega)] at hsafe
    rw [Binary64.add_ofInt hn hc]
    by_cases hle : (digitsValue digits : ℤ) + c ≤ 2 ^ 53 - 1
    · obtain ⟨v, hv, hval⟩ := Binary64.exists_ofInt_eq
        (show |(digitsValue digits : ℤ) + c| ≤ 2 ^ 53 by rw [abs_of_nonneg (by omega)]; omega)
      rw [if_pos hle]
      rw [hv, decide_eq_true hle] at hsafe
      rw [hv, Js.Value.safeInteger?, if_pos hsafe, hval, Rat.num_intCast]
    · rw [if_neg hle]
      rw [decide_eq_false hle] at hsafe
      cases hx : Binary64.ofInt ((digitsValue digits : ℤ) + c) with
      | finite v =>
        rw [hx] at hsafe
        rw [Js.Value.safeInteger?, if_neg (by rw [hsafe]; exact Bool.false_ne_true)]
      | inf s => rfl
      | nan => rfl
  · have hbeyond := not_isSafeInteger_add (not_le.1 hsmall) c hcarry.1 hcarry.2
    rw [if_neg (by omega)]
    cases hx : (Binary64.ofInt (digitsValue digits)).add (.ofInt c) with
    | finite v =>
      rw [hx] at hbeyond
      rw [Js.Value.safeInteger?, if_neg (by rw [hbeyond]; exact Bool.false_ne_true)]
    | inf s => rfl
    | nan => rfl

/-! ## What is parsed -/

variable {s : String} {q : ℚ} {whole fraction : List Char}

theorem scaled_zero_whole (fraction : List Char) :
    scaled (if whole = [] then ['0'] else whole) fraction 0 = scaled whole fraction 0 := by
  split
  · next h =>
    rw [h]
    unfold scaled
    congr 2
  · rfl

theorem amountOf_magnitude (negative : Bool) {n : ℤ} (h : 0 ≤ n) :
    amountOf negative (if n ≤ 2 ^ 53 - 1 then some n else none) =
      if n ≤ maxAmountMinor then .ok (if negative then -n else n) else .error .tooLarge := by
  have hmax : maxAmountMinor = 1000000000 := rfl
  have habs : |if negative then -n else n| = n := by
    split
    · rw [abs_neg, abs_of_nonneg h]
    · exact abs_of_nonneg h
  by_cases hsafe : n ≤ 2 ^ 53 - 1
  · rw [if_pos hsafe, amountOf, habs]
    by_cases hle : n ≤ maxAmountMinor
    · rw [if_neg (not_lt.2 hle), if_pos hle]
    · rw [if_pos (not_le.1 hle), if_neg hle]
  · rw [if_neg hsafe, if_neg (by omega)]
    rfl

/-- **An amount is what is written, rounded half away from zero to minor
units**, where the API takes it. -/
theorem parseAmount_of_written (h : Written (Js.trim s).toList q) :
    parseAmount s = if |Php.roundHalfAway (q * 10 ^ 2)| ≤ maxAmountMinor then
      .ok (Php.roundHalfAway (q * 10 ^ 2)) else .error .tooLarge := by
  obtain ⟨whole, fraction, hbody, rfl⟩ := Support.written_iff.1 h
  generalize hsplit : splitSign (Js.trim s).toList = parts at hbody ⊢
  obtain ⟨negative, unsigned⟩ := parts
  have hwhole : Digits (if whole = [] then ['0'] else whole) := by
    split
    · exact fun c hc => List.mem_singleton.1 hc ▸ rfl
    · exact hbody.1
  obtain ⟨-, hcarry⟩ := @Support.kept_digits (if whole = [] then ['0'] else whole) fraction 2
    hbody.2.1
  rw [scaled_zero_whole] at hcarry
  obtain ⟨-, -, hvalue⟩ := Support.trimmed_zeros
    (hwhole.append (@Support.digits_kept fraction 2 hbody.2.1))
  have hx : 0 ≤ scaled whole fraction 0 * 10 ^ 2 :=
    mul_nonneg (mul_nonneg (Nat.cast_nonneg _) (zpow_nonneg (by norm_num) _)) (by positivity)
  have hround : Php.roundHalfAway (signed negative (scaled whole fraction 0) * 10 ^ 2) =
      if negative then -⌊scaled whole fraction 0 * 10 ^ 2 + 1 / 2⌋
      else ⌊scaled whole fraction 0 * 10 ^ 2 + 1 / 2⌋ := by
    rw [← Support.roundHalfAway_signed hx]
    unfold signed
    split
    · rw [neg_mul]
    · rfl
  have hcode : parseAmount s =
      (let digits := ((if whole = [] then ['0'] else whole) ++ Support.kept fraction 2).dropWhile
        (· = '0')
      let digits := if digits = [] then ['0'] else digits
      amountOf negative (Js.Value.num ((number digits).add
        (.ofInt (if Support.roundUp fraction 2 then 1 else 0)))).safeInteger?) := by
    unfold parseAmount
    dsimp only
    rw [hsplit]
    dsimp only
    rw [Support.decimalParts_eq_some_iff.2 hbody]
    rfl
  have hnonneg : 0 ≤ ⌊scaled whole fraction 0 * 10 ^ 2 + 1 / 2⌋ :=
    Int.floor_nonneg.2 (by linarith)
  have habs : |Php.roundHalfAway (signed negative (scaled whole fraction 0) * 10 ^ 2)| =
      ⌊scaled whole fraction 0 * 10 ^ 2 + 1 / 2⌋ := by
    rw [hround]
    split
    · rw [abs_neg, abs_of_nonneg hnonneg]
    · exact abs_of_nonneg hnonneg
  rw [hcode]
  dsimp only
  rw [safeInteger?_number, hvalue, ← hcarry, amountOf_magnitude negative hnonneg, habs, hround]

theorem parseAmount_of_not_written (h : ∀ q, ¬ Written (Js.trim s).toList q) :
    parseAmount s = .error .malformed := by
  have hnone : Reporting.decimalParts? (splitSign (Js.trim s).toList).2 = none := by
    cases hparts : Reporting.decimalParts? (splitSign (Js.trim s).toList).2 with
    | none => rfl
    | some parts =>
      obtain ⟨whole, fraction⟩ := parts
      exact absurd (Support.written_iff.2
        ⟨whole, fraction, Support.decimalParts_eq_some_iff.1 hparts, rfl⟩) (h _)
  unfold parseAmount
  dsimp only
  rw [hnone]

/-- **A percentage is its digits**, where the API takes it. -/
theorem parsePercent_of_body {negative : Bool} {body : List Char}
    (hsplit : splitSign (Js.trim s).toList = (negative, body)) (hbody : Body body whole fraction)
    (hplaces : fraction.length ≤ 2)
    (hle : (digitsValue (whole ++ padEnd fraction 2) : ℤ) ≤ maxBasisPoints) :
    parsePercent s = .ok (if negative then -(digitsValue (whole ++ padEnd fraction 2) : ℤ)
      else digitsValue (whole ++ padEnd fraction 2)) := by
  have hmax : maxBasisPoints = 100000 := rfl
  have hparts : percentParts? body = some (whole, fraction) := by
    rw [percentParts?, Support.decimalParts_eq_some_iff.2 hbody]
    exact if_pos (decide_eq_true hplaces)
  have hcode : parsePercent s = basisPointsOf negative
      (Js.Value.num (number (whole ++ padEnd fraction 2))).safeInteger? := by
    unfold parsePercent
    dsimp only
    rw [hsplit]
    dsimp only
    rw [hparts]
    rfl
  rw [hcode, safeInteger?_of_le (by omega), basisPointsOf, if_neg (not_lt.2 hle)]

/-! ## What is written -/

theorem literalChar_of_body {body : List Char} (h : Body body whole fraction) :
    ∀ c ∈ body, Wire.literalChar c = true := by
  obtain ⟨hwhole, hfraction, ⟨rfl, -, -⟩ | ⟨rfl, -⟩⟩ := h
  · exact fun c hc => Wire.literalChar_of_isDigit (hwhole c hc)
  · intro c hc
    rcases List.mem_append.1 hc with hc | hc
    · exact Wire.literalChar_of_isDigit (hwhole c hc)
    · rcases List.mem_cons.1 hc with rfl | hc
      · decide
      · exact Wire.literalChar_of_isDigit (hfraction c hc)

theorem literalChar_of_written {cs : List Char} (h : Written cs q) :
    ∀ c ∈ cs, Wire.literalChar c = true := by
  obtain ⟨whole, fraction, hbody, -⟩ := Support.written_iff.1 h
  exact Wire.literalChar_of_splitSign (literalChar_of_body hbody)

theorem trim_of_literal {cs : List Char} (h : ∀ c ∈ cs, Wire.literalChar c = true) :
    Js.trim (String.ofList cs) = String.ofList cs := by
  have huntrimmed : ∀ c ∈ cs, Js.trimmed c = false := by
    intro c hc
    by_contra htrimmed
    rw [Bool.not_eq_false] at htrimmed
    exact Bool.false_ne_true ((Wire.literalChar_of_jsTrimmed htrimmed).symm.trans (h c hc))
  have hopen : cs.dropWhile Js.trimmed = cs := by
    cases cs with
    | nil => rfl
    | cons c cs =>
      have hc := huntrimmed c List.mem_cons_self
      rw [List.dropWhile_cons_of_neg (by rw [hc]; exact Bool.false_ne_true)]
  rw [Js.trim, String.toList_ofList, hopen, Decimal.rdropWhile_eq_self huntrimmed]

/-- A decimal under a sign, as it is written. -/
def signText (negative : Bool) (body : List Char) : List Char :=
  (if negative then ['-'] else []) ++ body

theorem splitSign_trim_signText {negative : Bool} {body : List Char}
    (h : Body body whole fraction) :
    splitSign (Js.trim (String.ofList (signText negative body))).toList = (negative, body) := by
  have hliteral : ∀ c ∈ signText negative body, Wire.literalChar c = true := by
    intro c hc
    rcases List.mem_append.1 hc with hc | hc
    · cases negative with
      | false => simp at hc
      | true =>
        obtain rfl := List.mem_singleton.1 hc
        decide
    · exact literalChar_of_body h c hc
  rw [trim_of_literal hliteral, String.toList_ofList, signText]
  cases negative with
  | false => exact h.splitSign_eq
  | true => rfl

/-- **An amount is read back as it was written.** -/
theorem parseAmount_formatAmount {m : ℤ} (h : |m| ≤ maxAmountMinor) :
    parseAmount (formatAmount m) = .ok m := by
  obtain ⟨whole, fraction, hbody, hscaled⟩ := @Support.body_placed 2 (Nat.toDigits 10 m.natAbs)
    (fun c hc => Decimal.isDigit_of_mem_toDigits hc) Nat.toDigits_ne_nil
  rw [Decimal.digitsValue_toDigits] at hscaled
  have htext : formatAmount m = String.ofList
      (signText (decide (m < 0)) (Support.placed (Nat.toDigits 10 m.natAbs) 2)) := by
    unfold formatAmount signText
    simp only [decide_eq_true_eq, List.append_assoc]
    rfl
  have hsplit := @splitSign_trim_signText whole fraction (decide (m < 0)) _ hbody
  have hvalue : signed (decide (m < 0)) (scaled whole fraction 0) * 10 ^ 2 = m := by
    unfold signed
    by_cases hneg : m < 0
    · rw [if_pos (decide_eq_true hneg), neg_mul, hscaled, Nat.cast_natAbs, abs_of_neg hneg]
      push_cast
      ring
    · rw [if_neg (by simpa using hneg), hscaled, Nat.cast_natAbs, abs_of_nonneg (not_lt.1 hneg)]
  have hwritten : Written (Js.trim (formatAmount m)).toList
      (signed (decide (m < 0)) (scaled whole fraction 0)) := by
    refine Support.written_iff.2 ⟨whole, fraction, ?_, ?_⟩
    · rw [htext, hsplit]
      exact hbody
    · rw [htext, hsplit]
  rw [parseAmount_of_written hwritten, hvalue, Php.roundHalfAway_intCast, if_pos h]

/-- **A percentage is read back as it was written**: the zeros that are dropped
are filled up again. -/
theorem parsePercent_formatBasisPoints {b : ℤ} (h : |b| ≤ maxBasisPoints) :
    parsePercent (formatBasisPoints b) = .ok b := by
  let digits := padStart (Nat.toDigits 10 b.natAbs) (percentDecimals + 1)
  let whole := butLast digits 2
  let fraction := (last digits 2).rdropWhile (· = '0')
  have hdigits : Digits digits := (Decimal.digits_replicate _).append
    fun c hc => Decimal.isDigit_of_mem_toDigits hc
  have hlength : 3 ≤ digits.length := by
    change 3 ≤ (List.replicate _ '0' ++ Nat.toDigits 10 b.natAbs).length
    rw [List.length_append, List.length_replicate]
    change 3 ≤ 3 - (Nat.toDigits 10 b.natAbs).length + _
    omega
  have hlast : (last digits 2).length = 2 := by
    rw [last, List.length_drop]
    omega
  have hwhole : whole ≠ [] := by
    intro hnil
    have hnone := congrArg List.length hnil
    rw [show whole = digits.take (digits.length - 2) from rfl, List.length_take,
      List.length_nil] at hnone
    omega
  obtain ⟨k, hk⟩ := Decimal.exists_append_replicate '0' (last digits 2)
  have hplaces : fraction.length + k = 2 := by
    rw [← hlast, hk, List.length_append, List.length_replicate]
  have hfilled : whole ++ padEnd fraction 2 = digits := by
    have hzeros : 2 - fraction.length = k := by omega
    rw [padEnd, hzeros, show fraction ++ List.replicate k '0' = last digits 2 from hk.symm]
    exact List.take_append_drop _ _
  have hvalue : digitsValue (whole ++ padEnd fraction 2) = b.natAbs := by
    rw [hfilled]
    change digitsValue (List.replicate _ '0' ++ Nat.toDigits 10 b.natAbs) = _
    rw [Decimal.digitsValue_append, Decimal.digitsValue_replicate_zero, Nat.mul_zero, Nat.zero_add,
      Decimal.digitsValue_toDigits]
  have hfraction : Digits fraction := fun c hc =>
    hdigits c (List.mem_of_mem_drop ((List.rdropWhile_prefix _ _).subset hc))
  obtain ⟨body, hform⟩ : ∃ body, body = whole ++ if fraction = [] then [] else '.' :: fraction :=
    ⟨_, rfl⟩
  have hbody : Body body whole fraction := by
    refine ⟨fun c hc => hdigits c (List.mem_of_mem_take hc), hfraction, ?_⟩
    by_cases hnil : fraction = []
    · rw [if_pos hnil, List.append_nil] at hform
      exact Or.inl ⟨hform, hnil, hwhole⟩
    · rw [if_neg hnil] at hform
      exact Or.inr ⟨hform, Or.inl hwhole⟩
  have htext : formatBasisPoints b = String.ofList (signText (decide (b < 0)) body) := by
    unfold formatBasisPoints signText
    rw [hform]
    simp only [decide_eq_true_eq, List.append_assoc]
    rfl
  have hmagnitude : (b.natAbs : ℤ) ≤ maxBasisPoints := by
    rw [Int.natCast_natAbs]
    exact h
  rw [htext, parsePercent_of_body (splitSign_trim_signText hbody) hbody (by omega)
    (by rw [hvalue]; exact hmagnitude), hvalue, Int.natCast_natAbs]
  by_cases hneg : b < 0
  · rw [if_pos (decide_eq_true hneg), abs_of_neg hneg, neg_neg]
  · rw [if_neg (by simpa using hneg), abs_of_nonneg (not_lt.1 hneg)]

/-! ## The page and the plugin -/

/-- **What one text is to the page and to the plugin**: the plugin has the
amount the page takes, and nothing where the page takes the text for
malformed. -/
structure Agree (s : String) : Prop where
  accepted : ∀ minor, parseAmount s = .ok minor →
    ∃ money, Money.tryFromDecimal (.str s) 2 = .ok (some money) ∧ money.minor = minor
  /-- It has nothing where the page takes the text for malformed. -/
  refused : parseAmount s = .error .malformed → Money.tryFromDecimal (.str s) 2 = .ok none

/-- The two trim a text alike where one of them is left with an amount it
takes. -/
structure TrimmedAlike (s : String) : Prop where
  page : ∀ q, Written (Js.trim s).toList q → |Php.roundHalfAway (q * 10 ^ 2)| ≤ maxAmountMinor →
    Php.trim s = Js.trim s
  plugin : ∀ q, Written (Php.trim s).toList q → |q * 10 ^ 2| < 2 ^ 63 → Js.trim s = Php.trim s

theorem trim_eq_trim {r : ℚ} (hjs : Written (Js.trim s).toList q)
    (hphp : Written (Php.trim s).toList r) : Php.trim s = Js.trim s := by
  refine String.toList_injective ?_
  rw [Php.trim, Js.trim, String.toList_ofList, String.toList_ofList] at *
  rw [Wire.trim_eq_core (fun c => Wire.literalChar_of_phpTrimmed) rfl (literalChar_of_written hphp),
    Wire.trim_eq_core (fun c => Wire.literalChar_of_jsTrimmed) rfl (literalChar_of_written hjs)]

theorem tryFromDecimal_eq_none_iff (h : Written (Php.trim s).toList q) :
    Money.tryFromDecimal (.str s) 2 = .ok none ↔ 2 ^ 63 ≤ |q * 10 ^ 2| := by
  obtain ⟨whole, fraction, hbody, rfl⟩ := Support.written_iff.1 h
  have hx : 0 ≤ scaled whole fraction 0 * 10 ^ 2 :=
    mul_nonneg (mul_nonneg (Nat.cast_nonneg _) (zpow_nonneg (by norm_num) _)) (by positivity)
  have habs : |signed (splitSign (Php.trim s).toList).1 (scaled whole fraction 0) * 10 ^ 2| =
      scaled whole fraction 0 * 10 ^ 2 := by
    unfold signed
    split
    · rw [neg_mul, abs_neg, abs_of_nonneg hx]
    · exact abs_of_nonneg hx
  have hfloor : ⌊scaled whole fraction 0 * 10 ^ 2⌋ ≤ Support.phpIntMax ↔
      scaled whole fraction 0 * 10 ^ 2 < 2 ^ 63 := by
    rw [Support.phpIntMax, Int.le_sub_one_iff, Int.floor_lt]
    push_cast
    rfl
  have hpath : Money.tryFromDecimal (.str s) 2 = Money.tryFromText s 2 := by
    rw [Money.tryFromDecimal]
  rw [hpath, Support.tryFromText_eq Prod.mk.eta.symm hbody, habs, ← not_lt, ← hfloor]
  unfold Support.ofParts
  split
  · next hle =>
    refine ⟨fun hnone => ?_, fun hnot => absurd hle hnot⟩
    cases hmade : Money.construct (if (splitSign (Php.trim s).toList).1 then
        Money.negated (.ofNumber ⌊scaled whole fraction 0 * 10 ^ 2 + 1 / 2⌋)
      else .ofNumber ⌊scaled whole fraction 0 * 10 ^ 2 + 1 / 2⌋) 2 with
    | error raised =>
      rw [hmade] at hnone
      cases hnone
    | ok money =>
      rw [hmade] at hnone
      cases hnone
  · next hlarge => exact ⟨fun _ => hlarge, fun _ => rfl⟩

/-- An amount the page takes is far from the last of the platform's
integers. -/
theorem not_astray {x : ℚ} (h : |Php.roundHalfAway x| ≤ maxAmountMinor) : ¬ Support.Astray x := by
  have hbound : |(Php.roundHalfAway x : ℚ)| ≤ 1000000000 := by exact_mod_cast h
  obtain ⟨hlow, hhigh⟩ := abs_le.1 hbound
  obtain ⟨hnearLow, hnearHigh⟩ := abs_le.1 (Php.abs_sub_roundHalfAway_le x)
  unfold Support.Astray
  rintro (⟨hfar, -⟩ | ⟨-, hfar⟩) <;> linarith

/-- **The page and the plugin agree on a text exactly when they trim it alike**,
where one of them is left with an amount it takes. -/
theorem agree_iff (s : String) : Agree s ↔ TrimmedAlike s := by
  have hmax : maxAmountMinor = 1000000000 := rfl
  constructor
  · intro h
    refine ⟨fun q hq hle => ?_, fun q hq hfits => ?_⟩
    · have haccepted := parseAmount_of_written hq
      rw [if_pos hle] at haccepted
      obtain ⟨money, hmoney, -⟩ := h.accepted _ haccepted
      by_contra hne
      have hnone : Money.tryFromDecimal (.str s) 2 = .ok none :=
        Support.tryFromDecimal_str_of_not_written fun r hr => hne (trim_eq_trim hq hr)
      rw [hmoney] at hnone
      cases hnone
    · by_contra hne
      have hmalformed := parseAmount_of_not_written fun r hr => hne (trim_eq_trim hr hq).symm
      exact absurd ((tryFromDecimal_eq_none_iff hq).1 (h.refused hmalformed)) (not_le.2 hfits)
  · intro h
    refine ⟨fun minor hminor => ?_, fun hmalformed => ?_⟩
    · by_cases hwritten : ∃ q, Written (Js.trim s).toList q
      · obtain ⟨q, hq⟩ := hwritten
        rw [parseAmount_of_written hq] at hminor
        split at hminor
        · next hle =>
          obtain rfl := Except.ok.inj hminor
          have hphp : Written (Php.trim s).toList q := by
            rw [h.page q hq hle]
            exact hq
          have hfits : Support.Fits (Php.roundHalfAway (q * 10 ^ 2)) := by
            obtain ⟨hleast, hmost⟩ := abs_le.1 hle
            unfold Support.Fits
            omega
          have hmoney := (Support.tryFromDecimal_str_of_written hphp).2 (not_astray hle)
          rw [Support.rounded, dif_pos hfits] at hmoney
          exact ⟨_, hmoney, rfl⟩
        · cases hminor
      · rw [parseAmount_of_not_written (not_exists.1 hwritten)] at hminor
        cases hminor
    · by_cases hwritten : ∃ q, Written (Php.trim s).toList q
      · obtain ⟨q, hq⟩ := hwritten
        rw [tryFromDecimal_eq_none_iff hq]
        by_contra hfits
        have htrim := h.plugin q hq (not_le.1 hfits)
        rw [← htrim] at hq
        rw [parseAmount_of_written hq] at hmalformed
        split at hmalformed <;> cases hmalformed
      · exact Support.tryFromDecimal_str_of_not_written (not_exists.1 hwritten)

/-- **What is typed is what is stored and shown back**: an amount and a
percentage are read back as they were written, and the plugin parses an amount
as the page does exactly where the two trim it alike. -/
theorem typed_iff (s : String) :
    (∀ m : ℤ, |m| ≤ maxAmountMinor → parseAmount (formatAmount m) = .ok m) ∧
    (∀ b : ℤ, |b| ≤ maxBasisPoints → parsePercent (formatBasisPoints b) = .ok b) ∧
    (Agree s ↔ TrimmedAlike s) :=
  ⟨fun _ => parseAmount_formatAmount, fun _ => parsePercent_formatBasisPoints, agree_iff s⟩

/-- A discount, and a percentage of one decimal. -/
theorem typed_discount : parseAmount (formatAmount (-1999)) = .ok (-1999) ∧
    parsePercent (formatBasisPoints 250) = .ok 250 :=
  ⟨(typed_iff "10.50").1 (-1999) (by decide), (typed_iff "10.50").2.1 250 (by decide)⟩

/-- **An amount with a no-break space after it** is one to the page and none to
the plugin. -/
theorem noBreakSpace_disagrees :
    ¬ ((∀ m : ℤ, |m| ≤ maxAmountMinor → parseAmount (formatAmount m) = .ok m) ∧
      (∀ b : ℤ, |b| ≤ maxBasisPoints → parsePercent (formatBasisPoints b) = .ok b) ∧
      ∀ s : String, Agree s) := by
  rintro ⟨-, -, h⟩
  have hpage : parseAmount "10.50\u00a0" = .ok 1050 := by decide +kernel
  have hplugin : Money.tryFromDecimal (.str "10.50\u00a0") 2 = .ok none := by decide +kernel
  obtain ⟨money, hmoney, -⟩ := (h "10.50\u00a0").accepted 1050 hpage
  rw [hplugin] at hmoney
  cases hmoney

end Optionia.Editor.Amounts
