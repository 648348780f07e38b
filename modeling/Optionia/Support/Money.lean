import Optionia.Php.Places
import Optionia.Reporting.OrderPayload
/-!
# The plugin's money, and its arithmetic

`Money`: an amount in minor units at a number of decimal places. The amount
is an integer of the platform, a field carries that, and every operation hands
what it computed to a constructor that takes integers only: PHP turns an
integer result that does not fit into a float, and under strict types that is
a `TypeError`. What guards an operation compares in floats.
-/

namespace Optionia.Support

open Php (Value)

def Fits (n : ℤ) : Prop := -2 ^ 63 ≤ n ∧ n < 2 ^ 63

instance (n : ℤ) : Decidable (Fits n) := inferInstanceAs (Decidable (_ ∧ _))

def phpIntMax : ℤ := 2 ^ 63 - 1

/-- What the class raises. -/
inductive Raised where
  /-- `\InvalidArgumentException`: the scales differ. -/
  | invalidArgument
  /-- `\RangeException`: the guard refused. -/
  | range
  /-- `\TypeError`: a float stands where an integer is wanted. -/
  | type
  deriving DecidableEq

structure Money where
  minor : ℤ
  decimals : ℕ
  fits : Fits minor
  deriving DecidableEq

namespace Money

/-- `new self` under strict types. -/
def construct (minor : Value) (decimals : ℕ) : Except Raised Money :=
  match minor with
  | .int n => if h : Fits n then .ok ⟨n, decimals, h⟩ else .error .type
  | _ => .error .type

theorem construct_ofNumber (n : ℤ) (decimals : ℕ) :
    construct (.ofNumber n) decimals =
      if h : Fits n then .ok ⟨n, decimals, h⟩ else .error .type := by
  unfold Value.ofNumber
  by_cases h : Fits n
  · rw [if_pos (show -2 ^ 63 ≤ n ∧ n < 2 ^ 63 from h), construct]
  · rw [if_neg (show ¬ (-2 ^ 63 ≤ n ∧ n < 2 ^ 63) from h), dif_neg h]
    rfl

/-! ## Guards -/

def assertInRange (exact : Binary64) : Except Raised Unit :=
  if exact.abs.le (.ofInt phpIntMax) then .ok () else .error .range

def assertSameScale (m other : Money) : Except Raised Unit :=
  if m.decimals = other.decimals then .ok () else .error .invalidArgument

/-! ## Arithmetic -/

def plus (m other : Money) : Except Raised Money := do
  assertSameScale m other
  assertInRange ((Binary64.ofInt m.minor).add (.ofInt other.minor))
  construct (.ofNumber (m.minor + other.minor)) m.decimals

def minus (m other : Money) : Except Raised Money := do
  assertSameScale m other
  assertInRange ((Binary64.ofInt m.minor).sub (.ofInt other.minor))
  construct (.ofNumber (m.minor - other.minor)) m.decimals

def times (m : Money) (factor : ℤ) : Except Raised Money := do
  assertInRange ((Binary64.ofInt m.minor).mul (.ofInt factor))
  construct (.ofNumber (m.minor * factor)) m.decimals

/-- `abs`: the smallest integer has a float for its magnitude. -/
def absolute : Value → Value
  | .int n => .ofNumber |n|
  | .float x => .float x.abs
  | v => v

/-- An argument that has to be an integer. -/
def integer : Value → Except Raised ℤ
  | .int n => .ok n
  | _ => .error .type

def percentage (m : Money) (basisPoints : ℤ) : Except Raised Money := do
  assertInRange ((Binary64.ofInt m.minor).mul (.ofInt basisPoints))
  let numerator := Value.ofNumber (m.minor * basisPoints)
  let divisor := 10000
  -- `intdiv` takes integers only.
  let magnitude ← integer (absolute numerator)
  let quotient := magnitude / divisor
  let remainder := magnitude % divisor
  let quotient := if divisor ≤ remainder * 2 then quotient + 1 else quotient
  let sign := if m.minor * basisPoints < 0 then -1 else 1
  construct (.ofNumber (sign * quotient)) m.decimals

/-! ## Decimals -/

/-- `strcmp( $a, $b ) <= 0` -/
def notAfter (a b : List Char) : Bool := !b.lex a fun c d => decide (c < d)

/-- `fits_in_int`, of digits that do not open with a zero. -/
def fitsInInt (digits : List Char) : Bool :=
  let max := (toString phpIntMax).toList
  if digits.length ≠ max.length then decide (digits.length < max.length)
  else notAfter digits max

/-- A float at a number of places: `number_format( $x, $places, '.', '' )`. -/
def numberFormat (x : Binary64) (places : ℕ) : String :=
  match x.toRat? with
  | none => ""
  | some q => Reporting.decimalString places (Php.roundHalfAway (q * 10 ^ places))

/-- `-$n` -/
def negated : Value → Value
  | .int n => .ofNumber (-n)
  | .float x => .float x.neg
  | v => v

/-- The string path of `try_from_decimal`. -/
def tryFromText (amount : String) (decimals : ℕ) : Except Raised (Option Money) :=
  let candidate := (Php.trim amount).toList
  let (negative, body) := Decimal.splitSign candidate
  match Reporting.decimalParts? body with
  | none => .ok none
  | some (whole, fraction) =>
    let whole := if whole = [] then ['0'] else whole
    -- The first digit that is cut off decides the rounding.
    let roundUp := decide (decimals < fraction.length) &&
      decide (5 ≤ Decimal.digitsValue ((fraction.drop decimals).take 1))
    let fraction := if decimals < fraction.length then fraction.take decimals else fraction
    let fraction := fraction ++ List.replicate (decimals - fraction.length) '0'
    let digits := (whole ++ fraction).dropWhile (· = '0')
    let digits := if digits = [] then ['0'] else digits
    if !fitsInInt digits then .ok none
    else
      let minor := Value.int (Decimal.digitsValue digits)
      let minor := if roundUp then minor.add 1 else minor
      (construct (if negative then negated minor else minor) decimals).map some

def tryFromDecimal (amount : Value) (decimals : ℕ) : Except Raised (Option Money) :=
  match amount with
  -- `10 ** $decimals` is a float where it does not fit, and so is the product.
  | .int n =>
    (if Fits (10 ^ decimals) then construct (.ofNumber (n * 10 ^ decimals)) decimals
      else .error .type).map some
  | .float x => if x.isFinite then tryFromText (numberFormat x (decimals + 1)) decimals else .ok none
  | .str s => tryFromText s decimals
  | _ => .ok none

def toDecimalString (m : Money) : String :=
  let sign := if m.minor < 0 then ['-'] else []
  let magnitude := (absolute (.int m.minor)).castString.toList
  if m.decimals = 0 then String.ofList (sign ++ magnitude)
  else
    let padded := List.replicate (m.decimals + 1 - magnitude.length) '0' ++ magnitude
    let point := padded.length - m.decimals
    String.ofList (sign ++ padded.take point ++ '.' :: padded.drop point)

end Money

/-! ## What the guard of a money operation lets through

The guard compares a float with `(float) PHP_INT_MAX`, which is `2^63`. The
float is a rounding of what the rounded operands give, so it stays at `2^63`
up to half a unit beyond: the guard accepts up to `2^63 + 2^10`. It never
refuses a result that fits, since the operands' own roundings move a sum by
`2^10` at most and a product, of which one factor is below `2^53`, by as much.
What it accepts without a fit reaches the constructor as a float.
-/

open Binary64 (nearest)

variable {a b n : ℤ} {m other : Money}

/-- **An operation's result is exact, or refused by its guard.** -/
def exactly (n : ℤ) (decimals : ℕ) : Except Raised Money :=
  if h : Fits n then .ok ⟨n, decimals, h⟩ else .error .range

/-- Where the guard gives way: half a unit beyond `2^63`. -/
def guardLimit : ℚ := 2 ^ 63 + 2 ^ 10

theorem Fits.within {n : ℤ} (h : Fits n) : |n| ≤ 2 ^ 63 := by
  unfold Fits at h
  rw [abs_le]
  omega

/-! ## The guard -/

theorem ofInt_phpIntMax : Binary64.ofInt phpIntMax = .ofInt (2 ^ 63) := by decide +kernel

theorem Fits.exists_double (h : Fits n) :
    ∃ v : Binary64.Finite, Binary64.ofInt n = .finite v ∧ v.val = nearest n := by
  obtain ⟨v, hv⟩ := Binary64.exists_finite_ofInt h.within
  exact ⟨v, hv, Binary64.toRat?_ofRat_eq_some (by rw [← Binary64.ofInt, hv]; rfl)⟩

theorem abs_le_finite (v w : Binary64.Finite) :
    (Binary64.finite v).abs.le (.finite w) = decide (|v.val| ≤ w.val) := by
  obtain ⟨zero, hzero, hzero'⟩ := Binary64.exists_ofInt_eq (n := 0) (by norm_num)
  rw [Int.cast_zero] at hzero'
  unfold Binary64.abs
  rw [hzero, Binary64.lt, hzero']
  by_cases hneg : v.val < 0
  · rw [if_pos (decide_eq_true hneg), abs_of_neg hneg]
    rfl
  · rw [if_neg (by rw [decide_eq_false hneg]; exact Bool.false_ne_true),
      abs_of_nonneg (not_lt.1 hneg)]
    rfl

/-- **A rounded magnitude passes the guard up to half a unit beyond `2^63`.** -/
theorem assertInRange_ofRat {q : ℚ} (hq : |q| ≤ 2 ^ 130) :
    Money.assertInRange (.ofRat q) = if |q| ≤ guardLimit then .ok () else .error .range := by
  have hfinite : |nearest q| < Binary64.overflow := by
    calc |nearest q| ≤ 2 * |q| := Binary64.abs_nearest_le q
      _ ≤ 2 ^ 131 := by linarith
      _ < 2 ^ 1024 := pow_lt_pow_right₀ one_lt_two (by decide)
  have hpower : nearest ((2 ^ 63 : ℤ) : ℚ) = 2 ^ 63 := by
    have h := Binary64.nearest_zpow (k := 63) (by norm_num)
    norm_num at h ⊢
    exact h
  obtain ⟨max, hmax, hmax'⟩ : ∃ w : Binary64.Finite,
      Binary64.ofInt phpIntMax = .finite w ∧ w.val = 2 ^ 63 := by
    obtain ⟨w, hw⟩ := Binary64.exists_finite_ofInt (n := 2 ^ 63) (by norm_num)
    refine ⟨w, ofInt_phpIntMax.trans hw, ?_⟩
    rw [← hpower]
    exact Binary64.toRat?_ofRat_eq_some (by rw [← Binary64.ofInt, hw]; rfl)
  have hlimit : |nearest q| ≤ 2 ^ 63 ↔ |q| ≤ guardLimit := by
    have h := Binary64.abs_nearest_le_zpow_iff (q := q) (k := 63) (by norm_num)
    norm_num [guardLimit] at h ⊢
    exact h
  unfold Money.assertInRange
  rw [Binary64.ofRat_of_lt hfinite, hmax, abs_le_finite, hmax']
  by_cases h : |nearest q| ≤ 2 ^ 63
  · rw [decide_eq_true h, if_pos rfl, if_pos (hlimit.1 h)]
  · rw [decide_eq_false h, if_neg Bool.false_ne_true, if_neg (mt hlimit.2 h)]

/-! ## What fits is let through -/

/-- An integer of the platform moves by half of `2^10` at most. -/
theorem Fits.abs_nearest_sub (h : Fits n) : |nearest n - n| ≤ 2 ^ 9 := by
  by_cases hlow : n = -2 ^ 63
  · have hpower := Binary64.nearest_neg (Binary64.nearest_zpow (k := 63) (by norm_num))
    rw [hlow]
    norm_num at hpower ⊢
    rw [hpower]
    norm_num
  · by_cases h0 : n = 0
    · rw [h0]
      norm_num
    · have hlt : |n| < 2 ^ 63 := by
        unfold Fits at h
        rw [abs_lt]
        omega
      have hq : |(n : ℚ)| < 2 ^ ((10 : ℤ) + 53) := by
        have hcast : |(n : ℚ)| < 2 ^ 63 := by exact_mod_cast hlt
        norm_num at hcast ⊢
        exact hcast
      have hunit := Binary64.ulpExp_le (Int.cast_ne_zero.2 h0) (by norm_num) hq
      calc |nearest n - n| ≤ 2 ^ (Binary64.ulpExp n - 1) := Binary64.abs_nearest_sub_le n
        _ ≤ 2 ^ (9 : ℤ) := zpow_le_zpow_right₀ one_le_two (by omega)
        _ = 2 ^ 9 := by norm_num

theorem add_within (ha : Fits a) (hb : Fits b) (h : Fits (a + b)) :
    |nearest a + nearest b| ≤ guardLimit := by
  have hsum : |((a : ℚ) + b)| ≤ 2 ^ 63 := by exact_mod_cast h.within
  have hsplit : nearest a + nearest b = (nearest a - a) + (nearest b - b) + (a + b) := by ring
  rw [hsplit]
  have h₁ := abs_add_le (nearest a - a + (nearest b - b)) ((a : ℚ) + b)
  have h₂ := abs_add_le (nearest a - a) (nearest b - b)
  have ha' := ha.abs_nearest_sub
  have hb' := hb.abs_nearest_sub
  unfold guardLimit
  linarith

theorem sub_within (ha : Fits a) (hb : Fits b) (h : Fits (a - b)) :
    |nearest a - nearest b| ≤ guardLimit := by
  have hsum : |((a : ℚ) - b)| ≤ 2 ^ 63 := by exact_mod_cast h.within
  have hsplit : nearest a - nearest b = (nearest a - a) - (nearest b - b) + (a - b) := by ring
  rw [hsplit]
  have h₁ := abs_add_le (nearest a - a - (nearest b - b)) ((a : ℚ) - b)
  have h₂ := abs_sub (nearest a - a) (nearest b - b)
  have ha' := ha.abs_nearest_sub
  have hb' := hb.abs_nearest_sub
  unfold guardLimit
  linarith

theorem mul_within_of_small (hb : |b| ≤ 2 ^ 53) (h : Fits (a * b)) :
    |nearest a * nearest b| ≤ guardLimit := by
  have hproduct : |(a : ℚ)| * |(b : ℚ)| ≤ 2 ^ 63 := by
    rw [← abs_mul]
    exact_mod_cast h.within
  rw [Binary64.nearest_intCast hb, abs_mul]
  by_cases ha0 : a = 0
  · rw [ha0, Int.cast_zero, Binary64.nearest_zero, abs_zero, zero_mul]
    unfold guardLimit
    norm_num
  · have hone : (1 : ℚ) ≤ |(a : ℚ)| := by exact_mod_cast Int.one_le_abs ha0
    have hmoved := Binary64.abs_nearest_sub_le_rel hone
    have htriangle := abs_sub_abs_le_abs_sub (nearest a) (a : ℚ)
    have hle : |nearest a| ≤ |(a : ℚ)| * (1 + 1 / 2 ^ 53) := by linarith
    calc |nearest a| * |(b : ℚ)|
        ≤ |(a : ℚ)| * (1 + 1 / 2 ^ 53) * |(b : ℚ)| := mul_le_mul_of_nonneg_right hle (abs_nonneg _)
      _ = |(a : ℚ)| * |(b : ℚ)| * (1 + 1 / 2 ^ 53) := by ring
      _ ≤ 2 ^ 63 * (1 + 1 / 2 ^ 53) := mul_le_mul_of_nonneg_right hproduct (by norm_num)
      _ = guardLimit := by
        unfold guardLimit
        norm_num

/-- **A product that fits passes**: two factors beyond `2^53` do not fit. -/
theorem mul_within (h : Fits (a * b)) : |nearest a * nearest b| ≤ guardLimit := by
  rcases le_or_gt |b| (2 ^ 53) with hb | hb
  · exact mul_within_of_small hb h
  rcases le_or_gt |a| (2 ^ 53) with ha | ha
  · rw [mul_comm] at h ⊢
    exact mul_within_of_small ha h
  · have hlarge : (2 : ℤ) ^ 53 * 2 ^ 53 < |a| * |b| := mul_lt_mul'' ha hb (by norm_num) (by norm_num)
    rw [← abs_mul] at hlarge
    have hfits := h.within
    norm_num at hlarge hfits
    omega

/-! ## The operations -/

/-- What is guarded and then built is exact where it fits, and refused where
the guard does not give way. -/
theorem guarded_eq_exactly_iff {q : ℚ} {d : ℕ} (hq : |q| ≤ 2 ^ 130)
    (hpass : Fits n → |q| ≤ guardLimit) :
    (do Money.assertInRange (.ofRat q); Money.construct (.ofNumber n) d) = exactly n d ↔
      Fits n ∨ guardLimit < |q| := by
  rw [assertInRange_ofRat hq, Money.construct_ofNumber]
  unfold exactly
  by_cases hfits : Fits n
  · rw [if_pos (hpass hfits), dif_pos hfits, dif_pos hfits]
    exact iff_of_true rfl (Or.inl hfits)
  · rw [dif_neg hfits, dif_neg hfits]
    by_cases hguard : |q| ≤ guardLimit
    · rw [if_pos hguard]
      refine iff_of_false (fun h => ?_) (not_or.2 ⟨hfits, not_lt.2 hguard⟩)
      exact Raised.noConfusion (Except.error.inj h)
    · rw [if_neg hguard]
      exact iff_of_true rfl (Or.inr (not_le.1 hguard))

theorem Fits.abs_nearest_le (h : Fits n) : |nearest n| ≤ 2 ^ 64 := by
  have hn : |(n : ℚ)| ≤ 2 ^ 63 := by exact_mod_cast h.within
  linarith [Binary64.abs_nearest_le (n : ℚ)]

theorem add_double (ha : Fits a) (hb : Fits b) :
    (Binary64.ofInt a).add (.ofInt b) = .ofRat (nearest a + nearest b) ∧
      |nearest a + nearest b| ≤ 2 ^ 130 := by
  obtain ⟨v, hv, hv'⟩ := ha.exists_double
  obtain ⟨w, hw, hw'⟩ := hb.exists_double
  refine ⟨by rw [hv, hw, Binary64.add, hv', hw'], ?_⟩
  have hsize := abs_add_le (nearest a) (nearest b)
  linarith [ha.abs_nearest_le, hb.abs_nearest_le]

theorem sub_double (ha : Fits a) (hb : Fits b) :
    (Binary64.ofInt a).sub (.ofInt b) = .ofRat (nearest a - nearest b) ∧
      |nearest a - nearest b| ≤ 2 ^ 130 := by
  obtain ⟨v, hv, hv'⟩ := ha.exists_double
  obtain ⟨w, hw, hw'⟩ := hb.exists_double
  constructor
  · rw [hv, hw, ← hv', ← hw', sub_eq_add_neg]
    rfl
  · have hsize := abs_sub (nearest a) (nearest b)
    linarith [ha.abs_nearest_le, hb.abs_nearest_le]

theorem mul_double (ha : Fits a) (hb : Fits b) :
    (Binary64.ofInt a).mul (.ofInt b) = .ofRat (nearest a * nearest b) ∧
      |nearest a * nearest b| ≤ 2 ^ 130 := by
  obtain ⟨v, hv, hv'⟩ := ha.exists_double
  obtain ⟨w, hw, hw'⟩ := hb.exists_double
  refine ⟨by rw [hv, hw, Binary64.mul, hv', hw'], ?_⟩
  rw [abs_mul]
  calc |nearest a| * |nearest b| ≤ 2 ^ 64 * 2 ^ 64 :=
        mul_le_mul ha.abs_nearest_le hb.abs_nearest_le (abs_nonneg _) (by norm_num)
    _ ≤ 2 ^ 130 := by norm_num

theorem plus_eq_exactly_iff (hscale : m.decimals = other.decimals) :
    m.plus other = exactly (m.minor + other.minor) m.decimals ↔
      Fits (m.minor + other.minor) ∨ guardLimit < |nearest m.minor + nearest other.minor| := by
  obtain ⟨hsum, hsize⟩ := add_double m.fits other.fits
  rw [← guarded_eq_exactly_iff hsize (add_within m.fits other.fits), ← hsum]
  unfold Money.plus Money.assertSameScale
  rw [if_pos hscale]
  rfl

theorem minus_eq_exactly_iff (hscale : m.decimals = other.decimals) :
    m.minus other = exactly (m.minor - other.minor) m.decimals ↔
      Fits (m.minor - other.minor) ∨ guardLimit < |nearest m.minor - nearest other.minor| := by
  obtain ⟨hdifference, hsize⟩ := sub_double m.fits other.fits
  rw [← guarded_eq_exactly_iff hsize (sub_within m.fits other.fits), ← hdifference]
  unfold Money.minus Money.assertSameScale
  rw [if_pos hscale]
  rfl

theorem times_eq_exactly_iff (hn : Fits n) :
    m.times n = exactly (m.minor * n) m.decimals ↔
      Fits (m.minor * n) ∨ guardLimit < |nearest m.minor * nearest n| := by
  obtain ⟨hproduct, hsize⟩ := mul_double m.fits hn
  rw [← guarded_eq_exactly_iff hsize mul_within, ← hproduct]
  rfl

/-! ## Percentages -/

/-- The exact percentage, where the product and the result fit. -/
def exactlyPercent (product : ℤ) (decimals : ℕ) : Except Raised Money :=
  if h : Fits product ∧ Fits (Php.roundHalfAway (product / 10000)) then
    .ok ⟨Php.roundHalfAway (product / 10000), decimals, h.2⟩
  else .error .range

theorem tenThousandth_eq (n : ℤ) :
    Engine.Pricing.tenThousandth n = Php.roundHalfAway ((n : ℚ) / 10000) := by
  have hfloor : ∀ k : ℤ, ⌊((k : ℚ) + 5000) / 10000⌋ = (k + 5000) / 10000 := by
    intro k
    have h := Rat.floor_intCast_div_natCast (k + 5000) 10000
    push_cast at h
    exact h
  have hrounded : ∀ k : ℤ, (if 10000 ≤ k % 10000 * 2 then k / 10000 + 1 else k / 10000) =
      (k + 5000) / 10000 := by
    intro k
    split <;> omega
  unfold Engine.Pricing.tenThousandth Php.roundHalfAway
  dsimp only
  rw [hrounded |n|, ← hfloor]
  by_cases hn : n < 0
  · have hq : (n : ℚ) / 10000 < 0 := div_neg_of_neg_of_pos (by exact_mod_cast hn) (by norm_num)
    rw [if_pos hn, if_pos hq, abs_of_neg hn, neg_one_mul]
    congr 2
    push_cast
    ring
  · have hq : ¬ (n : ℚ) / 10000 < 0 :=
      not_lt.2 (div_nonneg (by exact_mod_cast not_lt.1 hn) (by norm_num))
    rw [if_neg hn, if_neg hq, abs_of_nonneg (not_lt.1 hn), one_mul]
    congr 1
    ring

theorem fits_percent (h : Fits n) : Fits (Php.roundHalfAway ((n : ℚ) / 10000)) := by
  rw [← tenThousandth_eq]
  unfold Fits at h ⊢
  unfold Engine.Pricing.tenThousandth
  rcases abs_cases n with ⟨habs, -⟩ | ⟨habs, -⟩ <;> rw [habs] <;> dsimp only <;> split <;>
    split <;> omega

theorem ofNumber_of_fits (h : Fits n) : Value.ofNumber n = .int n :=
  if_pos h

theorem ofNumber_of_not_fits (h : ¬ Fits n) : Value.ofNumber n = .float (.ofInt n) :=
  if_neg h

/-- What `intdiv` is given of a product: nothing it takes, where the product
or its magnitude does not fit. -/
theorem integer_absolute (n : ℤ) :
    Money.integer (Money.absolute (.ofNumber n)) =
      if Fits n ∧ n ≠ -2 ^ 63 then .ok |n| else .error .type := by
  by_cases hfits : Fits n
  · rw [ofNumber_of_fits hfits, Money.absolute]
    by_cases hmin : n = -2 ^ 63
    · rw [if_neg fun h => h.2 hmin, ofNumber_of_not_fits (by rw [hmin]; decide)]
      rfl
    · have habs : Fits |n| := by
        have hwithin := hfits.within
        unfold Fits at hfits ⊢
        rcases abs_cases n with ⟨habs, -⟩ | ⟨habs, -⟩ <;> omega
      rw [if_pos ⟨hfits, hmin⟩, ofNumber_of_fits habs]
      rfl
  · rw [if_neg fun h => hfits h.1, ofNumber_of_not_fits hfits]
    rfl

theorem construct_of_eq {k : ℤ} {d : ℕ} (hk : k = n) (h : Fits n) :
    Money.construct (.ofNumber k) d = .ok ⟨n, d, h⟩ := by
  subst hk
  rw [Money.construct_ofNumber, dif_pos h]

/-- **A percentage is exact, or refused, but for a product that passes the
guard without a fit, and for the smallest integer.** -/
theorem percentage_eq_exactly_iff (hn : Fits n) :
    m.percentage n = exactlyPercent (m.minor * n) m.decimals ↔
      (Fits (m.minor * n) ∧ m.minor * n ≠ -2 ^ 63) ∨
        guardLimit < |nearest m.minor * nearest n| := by
  obtain ⟨hproduct, hsize⟩ := mul_double m.fits hn
  unfold Money.percentage exactlyPercent
  rw [hproduct, assertInRange_ofRat hsize]
  by_cases hguard : |nearest m.minor * nearest n| ≤ guardLimit
  · rw [if_pos hguard]
    by_cases hfits : Fits (m.minor * n) ∧ m.minor * n ≠ -2 ^ 63
    · refine iff_of_true ?_ (Or.inl hfits)
      rw [dif_pos ⟨hfits.1, fits_percent hfits.1⟩]
      change (Money.integer (Money.absolute (.ofNumber (m.minor * n)))).bind _ = _
      rw [integer_absolute, if_pos hfits]
      exact construct_of_eq (tenThousandth_eq (m.minor * n)) (fits_percent hfits.1)
    · refine iff_of_false ?_ (not_or.2 ⟨hfits, not_lt.2 hguard⟩)
      change ¬ (Money.integer (Money.absolute (.ofNumber (m.minor * n)))).bind _ = _
      rw [integer_absolute, if_neg hfits]
      change ¬ Except.error Raised.type = _
      -- A `TypeError` is neither a result nor the guard's refusal.
      by_cases hp : Fits (m.minor * n)
      · rw [dif_pos ⟨hp, fits_percent hp⟩]
        intro h
        cases h
      · rw [dif_neg fun h => hp h.1]
        exact fun h => Raised.noConfusion (Except.error.inj h)
  · rw [if_neg hguard, dif_neg fun h => hguard (mul_within h.1)]
    exact iff_of_true rfl (Or.inr (not_le.1 hguard))

/-! ## Exact or refused -/

/-- **Every operation on two amounts is exact or refused.** -/
def ExactOrRefused (m other : Money) (factor basisPoints : ℤ) : Prop :=
  m.plus other = exactly (m.minor + other.minor) m.decimals ∧
  m.minus other = exactly (m.minor - other.minor) m.decimals ∧
  m.times factor = exactly (m.minor * factor) m.decimals ∧
  m.percentage basisPoints = exactlyPercent (m.minor * basisPoints) m.decimals

/-- **The operations on two amounts of one scale are exact or refused exactly
where every sum, difference and product fits or lies beyond what the guard
lets through, and no product for a percentage is the smallest integer.** -/
theorem exactOrRefused_iff (m other : Money) (factor basisPoints : ℤ)
    (hscale : m.decimals = other.decimals) (hfactor : Fits factor) (hbasis : Fits basisPoints) :
    ExactOrRefused m other factor basisPoints ↔
      (Fits (m.minor + other.minor) ∨
        2 ^ 63 + 2 ^ 10 < |nearest m.minor + nearest other.minor|) ∧
      (Fits (m.minor - other.minor) ∨
        2 ^ 63 + 2 ^ 10 < |nearest m.minor - nearest other.minor|) ∧
      (Fits (m.minor * factor) ∨ 2 ^ 63 + 2 ^ 10 < |nearest m.minor * nearest factor|) ∧
      ((Fits (m.minor * basisPoints) ∧ m.minor * basisPoints ≠ -2 ^ 63) ∨
        2 ^ 63 + 2 ^ 10 < |nearest m.minor * nearest basisPoints|) := by
  unfold ExactOrRefused
  rw [plus_eq_exactly_iff hscale, minus_eq_exactly_iff hscale, times_eq_exactly_iff hfactor,
    percentage_eq_exactly_iff hbasis]
  rfl

/-- Two prices of everyday size, five of the first, and ten percent of it. -/
theorem exactOrRefused_prices :
    ExactOrRefused ⟨1999, 2, by decide⟩ ⟨-500, 2, by decide⟩ 5 1000 :=
  (exactOrRefused_iff ⟨1999, 2, by decide⟩ ⟨-500, 2, by decide⟩ 5 1000 rfl (by decide)
    (by decide)).2 ⟨Or.inl (by decide), Or.inl (by decide), Or.inl (by decide),
      Or.inl (by decide)⟩

/-- **One minor unit more than the largest amount passes the guard and raises
a `TypeError`.** -/
theorem not_forall_exactOrRefused :
    ¬ ∀ (m other : Money) (factor basisPoints : ℤ), m.decimals = other.decimals →
      Fits factor → Fits basisPoints → ExactOrRefused m other factor basisPoints := by
  intro h
  have hmax := (h ⟨2 ^ 63 - 1, 2, by decide⟩ ⟨1, 2, by decide⟩ 1 1 rfl (by decide) (by decide)).1
  rw [exactly, dif_neg (by decide)] at hmax
  exact absurd hmax (by decide +kernel)

end Optionia.Support
