import Optionia.Lib.Truncation
import Optionia.Support.Money
/-!
# Money read from a decimal

`try_from_decimal` of text works on the digits: it cuts the fraction off
after the currency's places, refuses more digits than the platform's integers
have, and only then carries the rounding. What it returns is the scaled amount
rounded half away from zero, but at the last integers: a carry past the
largest one is a float, and the smallest one has a magnitude that is refused.
The path of an integer has no guard at all.
-/

namespace Optionia.Support

open Php (Value)
open Decimal (Digits digitsValue scaled signed splitSign)

/-! ## The grammar -/

/-- Digits with at most one point, about which they stand. -/
def Body (body whole fraction : List Char) : Prop :=
  Digits whole ∧ Digits fraction ∧
    ((body = whole ∧ fraction = [] ∧ whole ≠ []) ∨
      (body = whole ++ '.' :: fraction ∧ (whole ≠ [] ∨ fraction ≠ [])))

/-- **A text that writes a decimal**: an optional sign, and digits with at most
one point. -/
inductive Written : List Char → ℚ → Prop
  | plain {body whole fraction : List Char} : Body body whole fraction →
      Written body (scaled whole fraction 0)
  | plus {body whole fraction : List Char} : Body body whole fraction →
      Written ('+' :: body) (scaled whole fraction 0)
  | minus {body whole fraction : List Char} : Body body whole fraction →
      Written ('-' :: body) (-scaled whole fraction 0)

/-- What an amount denotes. -/
inductive Denotes : Value → ℚ → Prop
  | int (n : ℤ) : Denotes (.int n) n
  /-- A string writes a decimal, white space about it apart. -/
  | text {s : String} {q : ℚ} : Written (Php.trim s).toList q → Denotes (.str s) q

/-- The amount at a number of places, where it fits. -/
def rounded (q : ℚ) (decimals : ℕ) : Option Money :=
  if h : Fits (Php.roundHalfAway (q * 10 ^ decimals)) then
    some ⟨Php.roundHalfAway (q * 10 ^ decimals), decimals, h⟩
  else none

/-- **An amount is parsed exactly**: what it denotes is rounded to the
currency's places, and there is nothing where it denotes nothing or does not
fit. -/
def ParsesExactly (amount : Value) (decimals : ℕ) : Prop :=
  (∀ q, Denotes amount q → Money.tryFromDecimal amount decimals = .ok (rounded q decimals)) ∧
  ((∀ q, ¬ Denotes amount q) → Money.tryFromDecimal amount decimals = .ok none)

variable {cs body whole fraction : List Char} {decimals : ℕ}

/-! ## The grammar is what the expression matches -/

theorem decimalParts_eq_some_iff :
    Reporting.decimalParts? body = some (whole, fraction) ↔ Body body whole fraction := by
  unfold Reporting.decimalParts?
  constructor
  · intro h
    have htaken : Digits (body.takeWhile Decimal.isDigit) := fun c hc => List.mem_takeWhile_imp hc
    have hsplit := List.takeWhile_append_dropWhile (p := Decimal.isDigit) (l := body)
    cases hrest : body.dropWhile Decimal.isDigit with
    | nil =>
      rw [hrest] at h hsplit
      dsimp only at h
      rw [List.append_nil] at hsplit
      split at h
      · cases h
      · next hne =>
        obtain ⟨rfl, rfl⟩ := Prod.mk.inj (Option.some.inj h)
        exact ⟨htaken, fun c hc => absurd hc List.not_mem_nil, Or.inl ⟨hsplit.symm, rfl, hne⟩⟩
    | cons point rest =>
      rw [hrest] at h hsplit
      dsimp only at h
      split at h
      · next hpoint =>
        obtain ⟨rfl, rfl⟩ := Prod.mk.inj (Option.some.inj h)
        obtain ⟨rfl, hrest', hne⟩ := hpoint
        exact ⟨htaken, List.all_eq_true.1 hrest', Or.inr ⟨hsplit.symm, hne⟩⟩
      · cases h
  · rintro ⟨hwhole, hfraction, ⟨rfl, rfl, hne⟩ | ⟨rfl, hne⟩⟩
    · have htake := @Decimal.takeWhile_digits body [] hwhole
        (fun c hc => absurd hc.symm (Option.some_ne_none c))
      rw [List.append_nil] at htake
      rw [htake.1, htake.2]
      exact if_neg hne
    · have htake := @Decimal.takeWhile_digits whole ('.' :: fraction) hwhole
        (fun c hc => Option.some.inj hc ▸ rfl)
      rw [htake.1, htake.2]
      exact if_pos ⟨rfl, List.all_eq_true.2 hfraction, hne⟩

theorem Body.splitSign_eq (h : Body body whole fraction) : splitSign body = (false, body) := by
  have hhead : ∀ c ∈ body.head?, c ≠ '-' ∧ c ≠ '+' := by
    intro c hc
    have hchar : Decimal.isDigit c = true ∨ c = '.' := by
      obtain ⟨hwhole, -, ⟨rfl, -, -⟩ | ⟨rfl, -⟩⟩ := h
      · exact Or.inl (hwhole c (List.mem_of_mem_head? hc))
      · cases whole with
        | nil => exact Or.inr (Option.some.inj hc).symm
        | cons d ds => exact Or.inl (hwhole c (Option.some.inj hc ▸ List.mem_cons_self))
    constructor
    · rintro rfl
      rcases hchar with h | h <;> exact absurd h (by decide)
    · rintro rfl
      rcases hchar with h | h <;> exact absurd h (by decide)
  cases body with
  | nil => rfl
  | cons c cs =>
    obtain ⟨hminus, hplus⟩ := hhead c rfl
    unfold splitSign
    split
    · next heq => exact absurd (List.cons.inj heq).1 hminus
    · next heq => exact absurd (List.cons.inj heq).1 hplus
    · rfl

/-- **The code's two steps read the grammar**: the sign, and the digits. -/
theorem written_iff {q : ℚ} : Written cs q ↔ ∃ whole fraction,
    Body (splitSign cs).2 whole fraction ∧
      q = signed (splitSign cs).1 (scaled whole fraction 0) := by
  constructor
  · intro h
    cases h with
    | plain hbody =>
      rw [hbody.splitSign_eq]
      exact ⟨_, _, hbody, rfl⟩
    | plus hbody => exact ⟨_, _, hbody, rfl⟩
    | minus hbody => exact ⟨_, _, hbody, rfl⟩
  · rintro ⟨whole, fraction, hbody, rfl⟩
    revert hbody
    unfold splitSign
    split
    · exact Written.minus
    · exact Written.plus
    · exact Written.plain

/-! ## Rounding and fitting -/

theorem digits_phpIntMax : (toString phpIntMax).toList = "9223372036854775807".toList := by decide

/-- **Digits that open with no zero fit as their value does.** -/
theorem fitsInInt_eq {digits : List Char} (h : Digits digits)
    (hopen : digits = ['0'] ∨ ∃ c cs, digits = c :: cs ∧ c ≠ '0') :
    Money.fitsInInt digits = decide ((digitsValue digits : ℤ) ≤ phpIntMax) := by
  have hmaxDigits : Digits "9223372036854775807".toList := by
    intro c hc
    exact List.all_eq_true.1 (by decide : "9223372036854775807".toList.all Decimal.isDigit) c hc
  have hmaxValue : (digitsValue "9223372036854775807".toList : ℤ) = phpIntMax := by decide +kernel
  have hmaxLength : "9223372036854775807".toList.length = 19 := by decide
  unfold Money.fitsInInt
  rw [digits_phpIntMax]
  dsimp only
  rw [hmaxLength]
  by_cases hlength : digits.length = 19
  · rw [if_neg (not_not.2 hlength)]
    unfold Money.notAfter
    rw [Decimal.lex_eq_digitsValue_lt hmaxDigits h (by rw [hlength, hmaxLength]), ← hmaxValue,
      ← decide_not]
    refine decide_eq_decide.2 ?_
    rw [not_lt]
    norm_cast
  · rw [if_pos hlength]
    refine decide_eq_decide.2 ?_
    have hmax : phpIntMax = 9223372036854775807 := by decide
    have hvalue := Decimal.digitsValue_lt h
    constructor
    · intro hshort
      have hpow : 10 ^ digits.length ≤ 10 ^ 18 := Nat.pow_le_pow_right (by norm_num) (by omega)
      omega
    · intro hle
      by_contra hlong
      rcases hopen with rfl | ⟨c, cs, rfl, hc⟩
      · exact hlong (by decide)
      · have hlow := @Decimal.le_digitsValue c cs (h c List.mem_cons_self) hc
        have hpow : 10 ^ 19 ≤ 10 ^ cs.length :=
          Nat.pow_le_pow_right (by norm_num) (by rw [List.length_cons] at hlong hlength; omega)
        omega

theorem roundHalfAway_signed {x : ℚ} (hx : 0 ≤ x) (negative : Bool) :
    Php.roundHalfAway (signed negative x) =
      if negative then -⌊x + 1 / 2⌋ else ⌊x + 1 / 2⌋ := by
  unfold signed Php.roundHalfAway
  cases negative with
  | false => rw [if_neg Bool.false_ne_true, if_neg Bool.false_ne_true, if_neg (not_lt.2 hx)]
  | true =>
    rw [if_pos rfl, if_pos rfl]
    rcases hx.lt_or_eq with hpos | rfl
    · rw [if_pos (neg_neg_of_pos hpos), sub_neg_eq_add, add_comm]
    · norm_num

/-! ## The path of text -/

/-- The fraction as it is kept: cut off after the places, or filled up. -/
def kept (fraction : List Char) (decimals : ℕ) : List Char :=
  let fraction := if decimals < fraction.length then fraction.take decimals else fraction
  fraction ++ List.replicate (decimals - fraction.length) '0'

/-- Whether what is cut off rounds up. -/
def roundUp (fraction : List Char) (decimals : ℕ) : Bool :=
  decide (decimals < fraction.length) &&
    decide (5 ≤ digitsValue ((fraction.drop decimals).take 1))

/-- **The digits that are kept are the integer part of the scaled amount, and
the carry is what rounding adds.** -/
theorem kept_digits (hfraction : Digits fraction) :
    (digitsValue (whole ++ kept fraction decimals) : ℤ) = ⌊scaled whole fraction 0 * 10 ^ decimals⌋ ∧
      ⌊scaled whole fraction 0 * 10 ^ decimals + 1 / 2⌋ =
        digitsValue (whole ++ kept fraction decimals) + if roundUp fraction decimals then 1 else 0 := by
  unfold kept roundUp
  by_cases hlong : decimals < fraction.length
  · have hscaled := @Decimal.scaled_mul_of_lt whole fraction decimals hlong
    obtain ⟨c, cs, hcut⟩ : ∃ c cs, fraction.drop decimals = c :: cs := by
      cases hdrop : fraction.drop decimals with
      | nil =>
        rw [List.drop_eq_nil_iff] at hdrop
        omega
      | cons c cs => exact ⟨c, cs, rfl⟩
    have hdigits : Digits (c :: cs) := fun d hd => hfraction d (List.mem_of_mem_drop (hcut ▸ hd))
    obtain ⟨hone, hhalf⟩ := Decimal.cut_off hdigits
    have hnonneg : (0 : ℚ) ≤ digitsValue (c :: cs) / 10 ^ (c :: cs).length := by positivity
    have hfirst : digitsValue ((c :: cs).take 1) = Decimal.digitValue c := by
      rw [List.take_one, List.head?_cons, Option.toList_some, Decimal.digitsValue_cons]
      exact Nat.mul_one _
    rw [hscaled, hcut, hfirst, if_pos hlong, decide_eq_true hlong, Bool.true_and]
    dsimp only
    rw [List.length_take, Nat.min_eq_left hlong.le, Nat.sub_self, List.replicate_zero,
      List.append_nil]
    refine ⟨(Int.floor_eq_iff.2 ⟨?_, ?_⟩).symm, Int.floor_eq_iff.2 ?_⟩
    · push_cast
      linarith
    · push_cast
      linarith
    · by_cases hup : 5 ≤ Decimal.digitValue c
      · rw [decide_eq_true hup, if_pos rfl]
        have hge := hhalf.2 hup
        push_cast
        constructor <;> linarith
      · rw [decide_eq_false hup, if_neg Bool.false_ne_true]
        have hlt := not_le.1 (mt hhalf.1 hup)
        push_cast
        constructor <;> linarith
  · have hscaled := @Decimal.scaled_mul_of_le whole fraction decimals (not_lt.1 hlong)
    rw [hscaled, if_neg hlong, decide_eq_false hlong, Bool.false_and, if_neg Bool.false_ne_true,
      add_zero, Int.floor_natCast]
    refine ⟨rfl, Int.floor_eq_iff.2 ?_⟩
    push_cast
    constructor <;> linarith

theorem digits_kept (hfraction : Digits fraction) : Digits (kept fraction decimals) := by
  unfold kept
  refine Digits.append ?_ (Decimal.digits_replicate _)
  split
  · exact fun c hc => hfraction c (List.mem_of_mem_take hc)
  · exact hfraction

theorem trimmed_zeros {digits : List Char} (h : Digits digits) :
    let trimmed := digits.dropWhile (· = '0')
    let trimmed := if trimmed = [] then ['0'] else trimmed
    Digits trimmed ∧ (trimmed = ['0'] ∨ ∃ c cs, trimmed = c :: cs ∧ c ≠ '0') ∧
      digitsValue trimmed = digitsValue digits := by
  have hvalue := Decimal.digitsValue_dropWhile digits
  dsimp only
  cases hdrop : digits.dropWhile (· = '0') with
  | nil =>
    rw [hdrop] at hvalue
    rw [if_pos rfl, ← hvalue]
    exact ⟨fun c hc => List.mem_singleton.1 hc ▸ rfl, Or.inl rfl, rfl⟩
  | cons c cs =>
    rw [if_neg (List.cons_ne_nil c cs), ← hvalue, hdrop]
    refine ⟨fun d hd => h d ((List.dropWhile_suffix _).subset (hdrop ▸ hd)),
      Or.inr ⟨c, cs, rfl, ?_⟩, rfl⟩
    rintro rfl
    have hhead := List.head?_dropWhile_not (· = '0') digits
    rw [hdrop] at hhead
    have hkept : decide ('0' = '0') = false := hhead
    exact absurd hkept (by decide)

/-- The amount of an integer part, a carry and a sign, where nothing leaves
the platform's integers. -/
def ofParts (negative : Bool) (whole carried : ℤ) (decimals : ℕ) : Except Raised (Option Money) :=
  if whole ≤ phpIntMax then
    (Money.construct (if negative then Money.negated (.ofNumber carried) else .ofNumber carried)
      decimals).map some
  else .ok none

/-- **The path of text, by the number it reads.** -/
theorem tryFromText_eq {amount : String} {negative : Bool}
    (hsign : splitSign (Php.trim amount).toList = (negative, body))
    (hbody : Body body whole fraction) :
    Money.tryFromText amount decimals =
      ofParts negative ⌊scaled whole fraction 0 * 10 ^ decimals⌋
        ⌊scaled whole fraction 0 * 10 ^ decimals + 1 / 2⌋ decimals := by
  have hwhole : Digits (if whole = [] then ['0'] else whole) := by
    split
    · exact fun c hc => List.mem_singleton.1 hc ▸ rfl
    · exact hbody.1
  have hsame : scaled (if whole = [] then ['0'] else whole) fraction 0 = scaled whole fraction 0 := by
    split
    · next h =>
      rw [h]
      unfold scaled
      congr 2
    · rfl
  obtain ⟨hfloor, hcarry⟩ := @kept_digits (if whole = [] then ['0'] else whole) fraction decimals
    hbody.2.1
  rw [hsame] at hfloor hcarry
  obtain ⟨hdigits, hopen, hvalue⟩ := trimmed_zeros
    (hwhole.append (@digits_kept fraction decimals hbody.2.1))
  have hcode : Money.tryFromText amount decimals =
      (let trimmed := ((if whole = [] then ['0'] else whole) ++ kept fraction decimals).dropWhile
        (· = '0')
      let trimmed := if trimmed = [] then ['0'] else trimmed
      let minor := if roundUp fraction decimals then (Value.int (digitsValue trimmed)).add 1
        else .int (digitsValue trimmed)
      if !Money.fitsInInt trimmed then .ok none
      else (Money.construct (if negative then Money.negated minor else minor) decimals).map some) := by
    unfold Money.tryFromText
    dsimp only
    rw [hsign]
    dsimp only
    rw [decimalParts_eq_some_iff.2 hbody]
    rfl
  rw [hcode]
  dsimp only at hdigits hopen hvalue ⊢
  rw [fitsInInt_eq hdigits hopen, hvalue, hfloor]
  unfold ofParts
  by_cases hle : ⌊scaled whole fraction 0 * 10 ^ decimals⌋ ≤ phpIntMax
  · have hminor : (if roundUp fraction decimals then
          (Value.int ⌊scaled whole fraction 0 * 10 ^ decimals⌋).add 1
        else .int ⌊scaled whole fraction 0 * 10 ^ decimals⌋) =
        .ofNumber ⌊scaled whole fraction 0 * 10 ^ decimals + 1 / 2⌋ := by
      rw [hcarry, hfloor]
      by_cases hup : roundUp fraction decimals = true
      · rw [if_pos hup, if_pos hup]
        rfl
      · have hfits : Fits ⌊scaled whole fraction 0 * 10 ^ decimals⌋ := by
          unfold Fits
          unfold phpIntMax at hle
          omega
        rw [if_neg hup, if_neg hup, add_zero, ofNumber_of_fits hfits]
    rw [decide_eq_true hle, Bool.not_true, if_neg Bool.false_ne_true, if_pos hle, hminor]
  · rw [decide_eq_false hle, Bool.not_false, if_pos rfl, if_neg hle]

/-- **Where the path of text goes astray**: the scaled amount is carried to
`2^63`, or rounds to the smallest integer. -/
def Astray (scaled : ℚ) : Prop :=
  (2 ^ 63 - 1 / 2 ≤ scaled ∧ scaled < 2 ^ 63) ∨
    (-2 ^ 63 - 1 / 2 < scaled ∧ scaled ≤ -2 ^ 63 + 1 / 2)

/-- Astray is a magnitude about `2^63`. -/
theorem astray_signed {x : ℚ} (hx : 0 ≤ x) (negative : Bool) :
    Astray (signed negative x) ↔
      2 ^ 63 - 1 / 2 ≤ x ∧ x < if negative then 2 ^ 63 + 1 / 2 else 2 ^ 63 := by
  unfold Astray signed
  cases negative with
  | false =>
    rw [if_neg Bool.false_ne_true, if_neg Bool.false_ne_true, or_iff_left]
    rintro ⟨-, h⟩
    linarith
  | true =>
    rw [if_pos rfl, if_pos rfl, or_iff_right (fun h => by linarith [h.1])]
    constructor
    · rintro ⟨hlow, hhigh⟩
      constructor <;> linarith
    · rintro ⟨hlow, hhigh⟩
      constructor <;> linarith

theorem construct_signed {n : ℤ} (hn : 0 ≤ n) (negative : Bool) :
    Money.construct (if negative then Money.negated (.ofNumber n) else .ofNumber n) decimals =
      if n ≤ phpIntMax then Money.construct (.ofNumber (if negative then -n else n)) decimals
      else .error .type := by
  by_cases hle : n ≤ phpIntMax
  · have hfits : Fits n := by
      unfold Fits
      unfold phpIntMax at hle
      omega
    rw [if_pos hle, ofNumber_of_fits hfits]
    cases negative with
    | false => rw [if_neg Bool.false_ne_true, if_neg Bool.false_ne_true, ofNumber_of_fits hfits]
    | true =>
      rw [if_pos rfl, if_pos rfl]
      rfl
  · have hfits : ¬ Fits n := by
      unfold Fits
      unfold phpIntMax at hle
      omega
    rw [if_neg hle, ofNumber_of_not_fits hfits]
    cases negative <;> rfl

/-- **The path of text is exact but where it goes astray.** -/
theorem ofParts_eq_rounded_iff {x q : ℚ} {negative : Bool} (hx : 0 ≤ x)
    (hq : q * 10 ^ decimals = signed negative x) :
    ofParts negative ⌊x⌋ ⌊x + 1 / 2⌋ decimals = .ok (rounded q decimals) ↔
      ¬ Astray (q * 10 ^ decimals) := by
  have hmax : phpIntMax = 2 ^ 63 - 1 := rfl
  have hfloor : 0 ≤ ⌊x⌋ := Int.floor_nonneg.2 hx
  have hup : ⌊x⌋ ≤ ⌊x + 1 / 2⌋ := Int.floor_le_floor (by linarith)
  have hmagnitude : 0 ≤ ⌊x + 1 / 2⌋ := hfloor.trans hup
  have hcarried : ⌊x + 1 / 2⌋ ≤ phpIntMax ↔ x < 2 ^ 63 - 1 / 2 := by
    rw [hmax, Int.le_sub_one_iff, Int.floor_lt]
    push_cast
    constructor <;> intro h <;> linarith
  have hwhole : ⌊x⌋ ≤ phpIntMax ↔ x < 2 ^ 63 := by
    rw [hmax, Int.le_sub_one_iff, Int.floor_lt]
    push_cast
    rfl
  unfold ofParts rounded
  rw [hq, astray_signed hx, roundHalfAway_signed hx, construct_signed hmagnitude]
  by_cases hcut : x < 2 ^ 63
  · have hlimit : x < if negative then (2 : ℚ) ^ 63 + 1 / 2 else 2 ^ 63 := by
      split <;> linarith
    rw [if_pos (hwhole.2 hcut)]
    by_cases hround : x < 2 ^ 63 - 1 / 2
    · have hle := hcarried.2 hround
      have hfits : Fits (if negative then -⌊x + 1 / 2⌋ else ⌊x + 1 / 2⌋) := by
        unfold Fits
        split <;> omega
      rw [if_pos hle, Money.construct_ofNumber, dif_pos hfits, dif_pos hfits]
      exact iff_of_true rfl fun h => not_le.2 hround h.1
    · -- The carry has made the magnitude a float.
      rw [if_neg (mt hcarried.1 hround)]
      refine iff_of_false (fun h => ?_) (not_not.2 ⟨not_lt.1 hround, hlimit⟩)
      cases h
  · have hfar : (2 : ℚ) ^ 63 - 1 / 2 ≤ x := by linarith [not_lt.1 hcut]
    rw [if_neg (mt hwhole.1 hcut)]
    cases negative with
    | false =>
      have hfits : ¬ Fits ⌊x + 1 / 2⌋ := by
        have hlarge := mt hwhole.1 hcut
        unfold Fits
        omega
      rw [if_neg Bool.false_ne_true, if_neg Bool.false_ne_true, dif_neg hfits]
      exact iff_of_true rfl fun h => hcut h.2
    | true =>
      have hsmallest : Fits (-⌊x + 1 / 2⌋) ↔ x < 2 ^ 63 + 1 / 2 := by
        have hle : ⌊x + 1 / 2⌋ ≤ 2 ^ 63 ↔ x < 2 ^ 63 + 1 / 2 := by
          rw [← Int.lt_add_one_iff, Int.floor_lt]
          push_cast
          constructor <;> intro h <;> linarith
        rw [← hle]
        unfold Fits
        omega
      rw [if_pos rfl, if_pos rfl]
      by_cases hround : x < 2 ^ 63 + 1 / 2
      · rw [dif_pos (hsmallest.2 hround)]
        refine iff_of_false (fun h => ?_) (not_not.2 ⟨hfar, hround⟩)
        cases h
      · rw [dif_neg (mt hsmallest.1 hround)]
        exact iff_of_true rfl fun h => hround h.2

/-! ## An amount written and read -/

theorem trim_written {q : ℚ} (h : Written cs q) : Php.trim (String.ofList cs) = String.ofList cs := by
  have hbody : ∀ {body whole fraction : List Char}, Body body whole fraction →
      ∀ c ∈ body, Php.trimmed c = false := by
    rintro body whole fraction ⟨hwhole, hfraction, hform⟩ c hc
    have hdigit : ∀ c, Decimal.isDigit c = true → Php.trimmed c = false := by
      intro c hc
      unfold Decimal.isDigit at hc
      rw [Bool.and_eq_true, decide_eq_true_eq, decide_eq_true_eq] at hc
      by_contra htrimmed
      rw [Bool.not_eq_false] at htrimmed
      unfold Php.trimmed at htrimmed
      simp only [Bool.or_eq_true, beq_iff_eq] at htrimmed
      rcases htrimmed with ((((rfl | rfl) | rfl) | rfl) | rfl) | rfl <;>
        exact absurd hc.1 (by decide)
    rcases hform with ⟨rfl, -, -⟩ | ⟨rfl, -⟩
    · exact hdigit c (hwhole c hc)
    · rcases List.mem_append.1 hc with hc | hc
      · exact hdigit c (hwhole c hc)
      · rcases List.mem_cons.1 hc with rfl | hc
        · decide
        · exact hdigit c (hfraction c hc)
  have hall : ∀ c ∈ cs, Php.trimmed c = false := by
    cases h with
    | plain h => exact hbody h
    | plus h =>
      intro c hc
      rcases List.mem_cons.1 hc with rfl | hc
      · decide
      · exact hbody h c hc
    | minus h =>
      intro c hc
      rcases List.mem_cons.1 hc with rfl | hc
      · decide
      · exact hbody h c hc
  exact Php.trim_ofList (fun c hc => hall c (List.mem_of_mem_head? hc))
    fun c hc => hall c (List.mem_of_mem_getLast? hc)

theorem magnitude_eq {m : Money} (h : m.minor ≠ -2 ^ 63) :
    (Money.absolute (.int m.minor)).castString = String.ofList (Nat.toDigits 10 m.minor.natAbs) := by
  have hfits : Fits |m.minor| := by
    have hm := m.fits
    unfold Fits at hm ⊢
    rcases abs_cases m.minor with ⟨habs, -⟩ | ⟨habs, -⟩ <;> omega
  rw [Money.absolute, ofNumber_of_fits hfits, Int.abs_eq_natAbs]
  exact Nat.toString_eq_repr.trans Nat.repr_eq_ofList_toDigits

/-- Digits about the point of a currency, with the zeros that reach it. -/
def placed (digits : List Char) (decimals : ℕ) : List Char :=
  if decimals = 0 then digits
  else
    let padded := List.replicate (decimals + 1 - digits.length) '0' ++ digits
    let point := padded.length - decimals
    padded.take point ++ '.' :: padded.drop point

theorem body_placed {digits : List Char} (h : Digits digits) (hne : digits ≠ []) :
    ∃ whole fraction, Body (placed digits decimals) whole fraction ∧
      scaled whole fraction 0 * 10 ^ decimals = digitsValue digits := by
  unfold placed
  let padded := List.replicate (decimals + 1 - digits.length) '0' ++ digits
  let point := padded.length - decimals
  have hpadded : Digits padded := (Decimal.digits_replicate _).append h
  have hlength : decimals < padded.length := by
    change decimals < (List.replicate (decimals + 1 - digits.length) '0' ++ digits).length
    rw [List.length_append, List.length_replicate]
    omega
  by_cases h0 : decimals = 0
  · refine ⟨digits, [], ?_, ?_⟩
    · rw [if_pos h0]
      exact ⟨h, fun c hc => absurd hc List.not_mem_nil, Or.inl ⟨rfl, rfl, hne⟩⟩
    · rw [Decimal.scaled_mul_of_le (Nat.zero_le _), h0]
      exact congrArg (fun ds => (digitsValue ds : ℚ)) (List.append_nil digits)
  · have hfraction : (padded.drop point).length = decimals := by
      rw [List.length_drop]
      omega
    refine ⟨padded.take point, padded.drop point, ?_, ?_⟩
    · rw [if_neg h0]
      refine ⟨fun c hc => hpadded c (List.mem_of_mem_take hc),
        fun c hc => hpadded c (List.mem_of_mem_drop hc), Or.inr ⟨rfl, Or.inr fun hnil => ?_⟩⟩
      rw [hnil, List.length_nil] at hfraction
      exact h0 hfraction.symm
    · have hvalue : digitsValue padded = digitsValue digits := by
        rw [Decimal.digitsValue_append, Decimal.digitsValue_replicate_zero, Nat.mul_zero,
          Nat.zero_add]
      rw [Decimal.scaled_mul_of_le hfraction.le, hfraction, Nat.sub_self, List.replicate_zero,
        List.append_nil, List.take_append_drop, hvalue]

/-- **An amount but the smallest is written as what it is worth.** -/
theorem written_toDecimalString {m : Money} (h : m.minor ≠ -2 ^ 63) :
    ∃ q, Written m.toDecimalString.toList q ∧ q * 10 ^ m.decimals = m.minor := by
  obtain ⟨whole, fraction, hbody, hscaled⟩ := @body_placed m.decimals (Nat.toDigits 10 m.minor.natAbs)
    (fun c hc => Decimal.isDigit_of_mem_toDigits hc) Nat.toDigits_ne_nil
  rw [Decimal.digitsValue_toDigits] at hscaled
  have htext : m.toDecimalString.toList = (if m.minor < 0 then ['-'] else []) ++
      placed (Nat.toDigits 10 m.minor.natAbs) m.decimals := by
    unfold Money.toDecimalString placed
    rw [magnitude_eq h, String.toList_ofList]
    dsimp only
    by_cases h0 : m.decimals = 0
    · rw [if_pos h0, if_pos h0, String.toList_ofList]
    · rw [if_neg h0, if_neg h0, String.toList_ofList, List.append_assoc]
  rw [htext]
  by_cases hneg : m.minor < 0
  · rw [if_pos hneg]
    refine ⟨_, Written.minus hbody, ?_⟩
    rw [neg_mul, hscaled, Nat.cast_natAbs, abs_of_neg hneg, Int.cast_neg, neg_neg]
  · rw [if_neg hneg, List.nil_append]
    refine ⟨_, Written.plain hbody, ?_⟩
    rw [hscaled, Nat.cast_natAbs, abs_of_nonneg (not_lt.1 hneg)]

/-! ## Exact parsing -/

theorem tryFromDecimal_str_of_written {s : String} {q : ℚ}
    (h : Written (Php.trim s).toList q) :
    Money.tryFromDecimal (.str s) decimals = .ok (rounded q decimals) ↔
      ¬ Astray (q * 10 ^ decimals) := by
  obtain ⟨whole, fraction, hbody, rfl⟩ := written_iff.1 h
  have hx : 0 ≤ scaled whole fraction 0 * 10 ^ decimals :=
    mul_nonneg (mul_nonneg (Nat.cast_nonneg _) (zpow_nonneg (by norm_num) _)) (by positivity)
  have hq : signed (splitSign (Php.trim s).toList).1 (scaled whole fraction 0) * 10 ^ decimals =
      signed (splitSign (Php.trim s).toList).1 (scaled whole fraction 0 * 10 ^ decimals) := by
    unfold signed
    split
    · rw [neg_mul]
    · rfl
  have hpath : Money.tryFromDecimal (.str s) decimals = Money.tryFromText s decimals := by
    rw [Money.tryFromDecimal]
  rw [hpath, tryFromText_eq Prod.mk.eta.symm hbody]
  exact ofParts_eq_rounded_iff hx hq

theorem tryFromDecimal_str_of_not_written {s : String} (h : ∀ q, ¬ Written (Php.trim s).toList q) :
    Money.tryFromDecimal (.str s) decimals = .ok none := by
  have hnone : Reporting.decimalParts? (splitSign (Php.trim s).toList).2 = none := by
    cases hparts : Reporting.decimalParts? (splitSign (Php.trim s).toList).2 with
    | none => rfl
    | some parts =>
      obtain ⟨whole, fraction⟩ := parts
      exact absurd (written_iff.2 ⟨whole, fraction, decimalParts_eq_some_iff.1 hparts, rfl⟩) (h _)
  unfold Money.tryFromDecimal Money.tryFromText
  dsimp only
  rw [hnone]

/-- The power of ten at a scale is an integer of the platform up to eighteen
places. -/
theorem fits_pow_iff : Fits (10 ^ decimals) ↔ decimals ≤ 18 := by
  constructor
  · intro h
    by_contra hlarge
    have hpow : (10 : ℤ) ^ 19 ≤ 10 ^ decimals := pow_le_pow_right₀ (by norm_num) (by omega)
    unfold Fits at h
    norm_num at hpow
    omega
  · intro h
    have hpow : (10 : ℤ) ^ decimals ≤ 10 ^ 18 := pow_le_pow_right₀ (by norm_num) h
    have hpos : (0 : ℤ) < 10 ^ decimals := by positivity
    unfold Fits
    norm_num at hpow
    omega

theorem tryFromDecimal_int (n : ℤ) :
    Money.tryFromDecimal (.int n) decimals = .ok (rounded n decimals) ↔
      decimals ≤ 18 ∧ Fits (n * 10 ^ decimals) := by
  have hround : Php.roundHalfAway ((n : ℚ) * 10 ^ decimals) = n * 10 ^ decimals := by
    have h := Php.roundHalfAway_intCast (n * 10 ^ decimals)
    push_cast at h
    exact h
  unfold Money.tryFromDecimal rounded
  dsimp only
  rw [hround]
  by_cases hscale : decimals ≤ 18
  · rw [if_pos (fits_pow_iff.2 hscale), Money.construct_ofNumber]
    by_cases hfits : Fits (n * 10 ^ decimals)
    · rw [dif_pos hfits, dif_pos hfits]
      exact iff_of_true rfl ⟨hscale, hfits⟩
    · rw [dif_neg hfits]
      refine iff_of_false (fun h => ?_) fun h => hfits h.2
      cases h
  · rw [if_neg (mt fits_pow_iff.1 hscale)]
    refine iff_of_false (fun h => ?_) fun h => hscale h.1
    cases h

/-- **A decimal amount is parsed exactly where it does not reach the last of
the platform's integers**: an integer, where its scale and the product fit; a
text, where what it writes is neither carried to `2^63` nor rounded to
`-2^63`. What an amount but the smallest is written as is always read back. -/
theorem parsesExactly_iff (decimals : ℕ) :
    (∀ n : ℤ, ParsesExactly (.int n) decimals ↔ decimals ≤ 18 ∧ Fits (n * 10 ^ decimals)) ∧
    (∀ s : String, ParsesExactly (.str s) decimals ↔
      ∀ q, Written (Php.trim s).toList q → ¬ Astray (q * 10 ^ decimals)) ∧
    (∀ m : Money, m.decimals = decimals → |m.minor| ≤ 2 ^ 63 - 1 →
      Money.tryFromDecimal (.str m.toDecimalString) decimals = .ok (some m)) := by
  refine ⟨fun n => ?_, fun s => ?_, ?_⟩
  · constructor
    · intro h
      exact (tryFromDecimal_int n).1 (h.1 n (.int n))
    · intro h
      refine ⟨fun q hq => ?_, fun hnone => absurd (Denotes.int n) (hnone n)⟩
      cases hq
      exact (tryFromDecimal_int n).2 h
  · constructor
    · intro h q hq
      exact (tryFromDecimal_str_of_written hq).1 (h.1 q (.text hq))
    · intro h
      refine ⟨fun q hq => ?_, fun hnone => ?_⟩
      · cases hq with
        | text hq => exact (tryFromDecimal_str_of_written hq).2 (h q hq)
      · exact tryFromDecimal_str_of_not_written fun q hq => hnone q (.text hq)
  · rintro m rfl hm
    obtain ⟨hlow, hhigh⟩ := abs_le.1 hm
    obtain ⟨q, hwritten, hq⟩ := written_toDecimalString (m := m) (by omega)
    have htrim : Php.trim m.toDecimalString = m.toDecimalString := by
      have h := trim_written hwritten
      rwa [String.ofList_toList] at h
    have hastray : ¬ Astray (q * 10 ^ m.decimals) := by
      have hlow' : -((2 : ℚ) ^ 63 - 1) ≤ m.minor := by exact_mod_cast hlow
      have hhigh' : (m.minor : ℚ) ≤ 2 ^ 63 - 1 := by exact_mod_cast hhigh
      rw [hq]
      unfold Astray
      rintro (h | h) <;> linarith
    rw [(tryFromDecimal_str_of_written (by rw [htrim]; exact hwritten)).2 hastray]
    unfold rounded
    rw [hq, Php.roundHalfAway_intCast, dif_pos m.fits]

/-- A negative price is written and read back, and a whole one is scaled. -/
theorem parsesExactly_price :
    Money.tryFromDecimal (.str (Money.toDecimalString ⟨-1999, 2, by decide⟩)) 2 =
      .ok (some ⟨-1999, 2, by decide⟩) ∧ ParsesExactly (.int 20) 2 :=
  ⟨(parsesExactly_iff 2).2.2 ⟨-1999, 2, by decide⟩ rfl (by decide),
    ((parsesExactly_iff 2).1 20).2 (by decide)⟩

/-- **A price of just under `2^63` minor units is carried into a float, and a
`TypeError`.** -/
theorem not_forall_parsesExactly :
    ¬ ((∀ (n : ℤ) (decimals : ℕ), Fits n → ParsesExactly (.int n) decimals) ∧
      ∀ (s : String) (decimals : ℕ), ParsesExactly (.str s) decimals) := by
  rintro ⟨-, h⟩
  have hbody : Body "9223372036854775807.5".toList "9223372036854775807".toList ['5'] :=
    decimalParts_eq_some_iff.1 (by decide +kernel)
  have htrim : (Php.trim "9223372036854775807.5").toList = "9223372036854775807.5".toList := by
    decide +kernel
  have hexact := (h "9223372036854775807.5" 0).1 _ (.text (htrim ▸ Written.plain hbody))
  have hraised : Money.tryFromDecimal (.str "9223372036854775807.5") 0 = .error .type := by
    decide +kernel
  rw [hraised] at hexact
  cases hexact

end Optionia.Support
