import Mathlib.Data.Int.Log
import Mathlib.Data.Rat.Floor
import Mathlib.Tactic.Linarith
import Mathlib.Tactic.Positivity
import Mathlib.Tactic.NormNum
import Mathlib.Tactic.Ring
import Mathlib.Data.Nat.Prime.Basic
/-!
# Binary64 arithmetic over exact rationals

A double is kept as the rational it denotes, with the fact that it is its
own rounding as a field, so a rational no double denotes cannot be built.
Infinity and the undefined result stand beside the finite ones; the two
zeros are one value.

`nearest` rounds to the nearest multiple of the unit in the last place, ties
to even. What later proofs need of it is `nearest_scaled` (a significand of
at most 53 bits is its own rounding), `zpow_le_abs_nearest` (rounding does
not fall below a power of two) and `isInt_of_le` (from `2^52` on, a double
is an integer).
-/

namespace Binary64

/-- The exponent of the unit in the last place at the magnitude of `q`. -/
def ulpExp (q : ℚ) : ℤ := max (Int.log 2 |q| - 52) (-1074)

/-- The nearest integer, ties to even. -/
def roundHalfEven (q : ℚ) : ℤ :=
  if 2 * (q - ⌊q⌋) < 1 then ⌊q⌋
  else if 1 < 2 * (q - ⌊q⌋) then ⌊q⌋ + 1
  else if Even ⌊q⌋ then ⌊q⌋ else ⌊q⌋ + 1

/-- The nearest multiple of the unit in the last place. -/
def nearest (q : ℚ) : ℚ := roundHalfEven (q / 2 ^ ulpExp q) * 2 ^ ulpExp q

/-! ## The nearest integer -/

@[simp] theorem roundHalfEven_intCast (n : ℤ) : roundHalfEven n = n := by
  simp [roundHalfEven]

theorem abs_sub_roundHalfEven_le (q : ℚ) : |q - roundHalfEven q| ≤ 1 / 2 := by
  have hlo := Int.floor_le q
  have hhi := Int.lt_floor_add_one q
  rw [roundHalfEven, abs_le]
  split
  · constructor <;> linarith
  · split
    · push_cast
      constructor <;> linarith
    · split
      · constructor <;> linarith
      · push_cast
        constructor <;> linarith

theorem le_roundHalfEven {n : ℤ} {q : ℚ} (h : (n : ℚ) ≤ q) : n ≤ roundHalfEven q := by
  have hd := (abs_le.1 (abs_sub_roundHalfEven_le q)).2
  have hlt : (n : ℚ) < (roundHalfEven q : ℚ) + 1 := by linarith
  exact Int.lt_add_one_iff.1 (by exact_mod_cast hlt)

theorem roundHalfEven_le {n : ℤ} {q : ℚ} (h : q ≤ n) : roundHalfEven q ≤ n := by
  have hd := (abs_le.1 (abs_sub_roundHalfEven_le q)).1
  have hlt : (roundHalfEven q : ℚ) < (n : ℚ) + 1 := by linarith
  exact Int.lt_add_one_iff.1 (by exact_mod_cast hlt)

/-! ## The unit in the last place -/

theorem two_zpow_pos (e : ℤ) : (0 : ℚ) < 2 ^ e := zpow_pos two_pos e

theorem neg_le_ulpExp (q : ℚ) : -1074 ≤ ulpExp q := le_max_right _ _

/-- A number lies below `2^53` of its units. -/
theorem abs_lt_ulpExp (q : ℚ) : |q| < 2 ^ (ulpExp q + 53) := by
  have hlog : |q| < (2 : ℚ) ^ (Int.log 2 |q| + 1) := Int.lt_zpow_succ_log_self one_lt_two |q|
  have hle : Int.log 2 |q| + 1 ≤ ulpExp q + 53 := by
    have := le_max_left (Int.log 2 |q| - 52) (-1074)
    rw [ulpExp]
    omega
  exact hlog.trans_le (zpow_le_zpow_right₀ one_le_two hle)

/-- A magnitude below `2^(e + 53)` has a unit of at most `2^e`. -/
theorem ulpExp_le {q : ℚ} {e : ℤ} (h0 : q ≠ 0) (he : -1074 ≤ e) (hq : |q| < 2 ^ (e + 53)) :
    ulpExp q ≤ e := by
  refine max_le ?_ he
  have hlog : Int.log 2 |q| < e + 53 :=
    (Int.lt_zpow_iff_log_lt one_lt_two (abs_pos.2 h0)).1 (by exact_mod_cast hq)
  omega

theorem abs_significand_le (q : ℚ) : |roundHalfEven (q / 2 ^ ulpExp q)| ≤ 2 ^ 53 := by
  have hpos := two_zpow_pos (ulpExp q)
  have hq : |q / 2 ^ ulpExp q| ≤ 2 ^ (53 : ℕ) := by
    rw [abs_div, abs_of_pos hpos, div_le_iff₀ hpos, ← zpow_natCast, ← zpow_add₀ two_ne_zero,
      add_comm]
    exact (abs_lt_ulpExp q).le
  obtain ⟨hlo, hhi⟩ := abs_le.1 hq
  refine abs_le.2 ⟨le_roundHalfEven ?_, roundHalfEven_le ?_⟩
  · exact_mod_cast hlo
  · exact_mod_cast hhi

/-! ## Rounding -/

@[simp] theorem nearest_zero : nearest 0 = 0 := by
  have h : roundHalfEven (0 : ℚ) = 0 := by exact_mod_cast roundHalfEven_intCast 0
  rw [nearest, zero_div, h, Int.cast_zero, zero_mul]

theorem nearest_of_ulpExp_le {m e : ℤ} (h : ulpExp (m * 2 ^ e) ≤ e) :
    nearest (m * 2 ^ e) = m * 2 ^ e := by
  obtain ⟨k, hk⟩ := Int.eq_ofNat_of_zero_le (sub_nonneg.2 h)
  have hsplit : (2 : ℚ) ^ e = 2 ^ k * 2 ^ ulpExp (m * 2 ^ e) := by
    rw [← zpow_natCast, ← hk, ← zpow_add₀ two_ne_zero, sub_add_cancel]
  have hdiv : (m * 2 ^ e : ℚ) / 2 ^ ulpExp (m * 2 ^ e) = ((m * 2 ^ k : ℤ) : ℚ) := by
    rw [div_eq_iff (two_zpow_pos _).ne']
    push_cast
    rw [mul_assoc, ← hsplit]
  rw [nearest, hdiv, roundHalfEven_intCast]
  push_cast
  rw [mul_assoc, ← hsplit]

/-- **A significand of at most 53 bits is its own rounding.** -/
theorem nearest_scaled {m e : ℤ} (he : -1074 ≤ e) (hm : |m| ≤ 2 ^ 53) :
    nearest (m * 2 ^ e) = m * 2 ^ e := by
  by_cases h0 : m = 0
  · subst h0
    simp
  have hval : ∀ {m e : ℤ}, m ≠ 0 → ((m : ℚ) * 2 ^ e) ≠ 0 := fun hm =>
    mul_ne_zero (by exact_mod_cast hm) (two_zpow_pos _).ne'
  have hbelow : ∀ {m e : ℤ}, m ≠ 0 → -1074 ≤ e → |m| < 2 ^ 53 →
      nearest (m * 2 ^ e) = m * 2 ^ e := by
    intro m e h0 he hm
    refine nearest_of_ulpExp_le (ulpExp_le (hval h0) he ?_)
    rw [abs_mul, abs_of_pos (two_zpow_pos e), add_comm, zpow_add₀ two_ne_zero]
    refine mul_lt_mul_of_pos_right ?_ (two_zpow_pos e)
    exact_mod_cast hm
  rcases lt_or_eq_of_le hm with hlt | heq
  · exact hbelow h0 he hlt
  -- The one significand of 54 bits is even, and halves into the next exponent.
  · obtain ⟨m', rfl⟩ : ∃ m', m = m' * 2 := by
      rcases abs_eq (by norm_num : (0 : ℤ) ≤ 2 ^ 53) |>.1 heq with h | h
      · exact ⟨2 ^ 52, by rw [h]; norm_num⟩
      · exact ⟨-2 ^ 52, by rw [h]; norm_num⟩
    have hmul : (((m' * 2 : ℤ) : ℚ) * 2 ^ e) = m' * 2 ^ (e + 1) := by
      rw [zpow_add₀ two_ne_zero, zpow_one]
      push_cast
      ring
    rw [hmul]
    refine hbelow (fun h => h0 (by rw [h, zero_mul])) (by omega) ?_
    rw [abs_mul, abs_two] at heq
    omega

/-- **Rounding twice is rounding once.** -/
theorem nearest_nearest (q : ℚ) : nearest (nearest q) = nearest q :=
  nearest_scaled (neg_le_ulpExp q) (abs_significand_le q)

theorem nearest_intCast {n : ℤ} (h : |n| ≤ 2 ^ 53) : nearest n = n := by
  simpa using nearest_scaled (e := 0) (by norm_num) h

/-- **Rounding does not fall below a power of two.** -/
theorem zpow_le_abs_nearest {q : ℚ} {k : ℤ} (hk : -1074 ≤ k) (h : (2 : ℚ) ^ k ≤ |q|) :
    (2 : ℚ) ^ k ≤ |nearest q| := by
  have hq : 0 < |q| := (two_zpow_pos k).trans_le h
  have hkl : k ≤ Int.log 2 |q| :=
    (Int.zpow_le_iff_le_log one_lt_two hq).1 (by exact_mod_cast h)
  have hl : (2 : ℚ) ^ Int.log 2 |q| ≤ |q| := by
    exact_mod_cast Int.zpow_log_le_self (R := ℚ) one_lt_two hq
  have hu : ulpExp q ≤ Int.log 2 |q| := max_le (by omega) (by omega)
  obtain ⟨d, hd⟩ := Int.eq_ofNat_of_zero_le (sub_nonneg.2 hu)
  have hsplit : (2 : ℚ) ^ Int.log 2 |q| = (2 ^ d : ℤ) * 2 ^ ulpExp q := by
    push_cast
    rw [← zpow_natCast, ← hd, ← zpow_add₀ two_ne_zero, sub_add_cancel]
  have hpos := two_zpow_pos (ulpExp q)
  have hscaled : ((2 ^ d : ℤ) : ℚ) ≤ |q / 2 ^ ulpExp q| := by
    rw [abs_div, abs_of_pos hpos, le_div_iff₀ hpos, ← hsplit]
    exact hl
  have hround : (2 ^ d : ℤ) ≤ |roundHalfEven (q / 2 ^ ulpExp q)| := by
    rcases le_abs.1 hscaled with hp | hn
    · exact (le_roundHalfEven hp).trans (le_abs_self _)
    · have hle : roundHalfEven (q / 2 ^ ulpExp q) ≤ -(2 ^ d : ℤ) :=
        roundHalfEven_le (by push_cast at hn ⊢; linarith)
      exact le_abs.2 (Or.inr (by omega))
  calc (2 : ℚ) ^ k ≤ 2 ^ Int.log 2 |q| := zpow_le_zpow_right₀ one_le_two hkl
    _ = (2 ^ d : ℤ) * 2 ^ ulpExp q := hsplit
    _ ≤ |(roundHalfEven (q / 2 ^ ulpExp q) : ℚ)| * 2 ^ ulpExp q :=
        mul_le_mul_of_nonneg_right (by exact_mod_cast hround) hpos.le
    _ = |nearest q| := by rw [nearest, abs_mul, abs_of_pos hpos]

/-- **From `2^52` on, what is its own rounding is an integer.** -/
theorem exists_int_of_le {q : ℚ} (hq : nearest q = q) (h : (2 : ℚ) ^ 52 ≤ |q|) :
    ∃ n : ℤ, q = n := by
  have hpos : 0 < |q| := lt_of_lt_of_le (by norm_num) h
  have hlog : 52 ≤ Int.log 2 |q| :=
    (Int.zpow_le_iff_le_log one_lt_two hpos).1 (by exact_mod_cast h)
  have hu : 0 ≤ ulpExp q := le_trans (by omega) (le_max_left _ _)
  obtain ⟨d, hd⟩ := Int.eq_ofNat_of_zero_le hu
  refine ⟨roundHalfEven (q / 2 ^ ulpExp q) * 2 ^ d, ?_⟩
  nth_rewrite 1 [← hq]
  rw [nearest]
  nth_rewrite 2 [hd]
  push_cast
  rw [zpow_natCast]

theorem nearest_neg {q : ℚ} (hq : nearest q = q) : nearest (-q) = -q := by
  have hm : |-roundHalfEven (q / 2 ^ ulpExp q)| ≤ 2 ^ 53 := by
    rw [abs_neg]
    exact abs_significand_le q
  have h := nearest_scaled (neg_le_ulpExp q) hm
  rw [Int.cast_neg, neg_mul] at h
  rwa [show ((roundHalfEven (q / 2 ^ ulpExp q) : ℚ) * 2 ^ ulpExp q) = q from hq] at h

def overflow : ℚ := 2 ^ 1024

theorem two_pow_lt_overflow : (2 : ℚ) ^ 53 < overflow :=
  pow_lt_pow_right₀ one_lt_two (by decide)

/-- A finite double: its value, which rounding leaves alone. -/
structure Finite where
  val : ℚ
  nearest_val : nearest val = val
  bounded : |val| < overflow
  deriving DecidableEq

end Binary64

/-- A double. -/
inductive Binary64 where
  | finite (v : Binary64.Finite)
  | inf (negative : Bool)
  | nan
  deriving DecidableEq

namespace Binary64

/-! ## Operations -/

/-- The double a rational rounds to, an infinity where it overflows. -/
def ofRat (q : ℚ) : Binary64 :=
  if h : |nearest q| < overflow then finite ⟨nearest q, nearest_nearest q, h⟩
  else inf (decide (q < 0))

/-- The double an integer rounds to. -/
def ofInt (n : ℤ) : Binary64 := ofRat n

/-- The value of a finite double. -/
def toRat? : Binary64 → Option ℚ
  | finite v => some v.val
  | _ => none

def isFinite (x : Binary64) : Bool := x.toRat?.isSome

/-- `x < y`; nothing compares with the undefined result. -/
def lt : Binary64 → Binary64 → Bool
  | finite a, finite b => decide (a.val < b.val)
  | finite _, inf t => !t
  | inf s, finite _ => s
  | inf s, inf t => s && !t
  | _, _ => false

/-- `x ≤ y`; nothing compares with the undefined result. -/
def le : Binary64 → Binary64 → Bool
  | finite a, finite b => decide (a.val ≤ b.val)
  | finite _, inf t => !t
  | inf s, finite _ => s
  | inf s, inf t => s || !t
  | _, _ => false

/-- Equality of values, which the undefined result has with nothing. -/
def same (x y : Binary64) : Bool := decide (x = y ∧ x ≠ nan)

theorem same_ofRat (q : ℚ) : (ofRat q).same (ofRat q) = true := by
  rw [same, decide_eq_true_eq]
  refine ⟨rfl, ?_⟩
  rw [ofRat]
  split <;> simp

def neg : Binary64 → Binary64
  | finite v => finite ⟨-v.val, nearest_neg v.nearest_val, by rw [abs_neg]; exact v.bounded⟩
  | inf s => inf (!s)
  | nan => nan

def abs (x : Binary64) : Binary64 := if x.lt (ofInt 0) then x.neg else x

def add : Binary64 → Binary64 → Binary64
  | finite a, finite b => ofRat (a.val + b.val)
  | finite _, inf t => inf t
  | inf s, finite _ => inf s
  | inf s, inf t => if s = t then inf s else nan
  | _, _ => nan

def sub (x y : Binary64) : Binary64 := x.add y.neg

/-- An infinity times a finite value: undefined at zero. -/
def infMul (s : Bool) (v : ℚ) : Binary64 :=
  if v = 0 then nan else inf (s ^^ decide (v < 0))

def mul : Binary64 → Binary64 → Binary64
  | finite a, finite b => ofRat (a.val * b.val)
  | finite a, inf t => infMul t a.val
  | inf s, finite b => infMul s b.val
  | inf s, inf t => inf (s ^^ t)
  | _, _ => nan

def floor : Binary64 → Binary64
  | finite v => ofInt ⌊v.val⌋
  | x => x

/-- The quotient of finite values, rounded; a zero divisor gives an infinity,
or nothing where the dividend is zero too. -/
def div : Binary64 → Binary64 → Binary64
  | finite a, finite b =>
    if b.val = 0 then if a.val = 0 then nan else inf (decide (a.val < 0))
    else ofRat (a.val / b.val)
  | inf s, finite b => inf (s ^^ decide (b.val < 0))
  | finite _, inf _ => ofInt 0
  | _, _ => nan

/-- The integer part: the value without its fraction. -/
def integerPart (q : ℚ) : ℤ := if q < 0 then ⌈q⌉ else ⌊q⌋

def trunc : Binary64 → Binary64
  | finite v => ofInt (integerPart v.val)
  | x => x

/-- The remainder of a division that rounds toward zero. -/
def rem : Binary64 → Binary64 → Binary64
  | finite a, finite b =>
    if b.val = 0 then nan else ofRat (a.val - b.val * integerPart (a.val / b.val))
  | finite a, inf _ => finite a
  | _, _ => nan

/-! ## Exact integers -/

variable {n a : ℤ} {q : ℚ} {x : Binary64}

theorem lt_overflow_of_abs_le (h : |n| ≤ 2 ^ 53) : |(n : ℚ)| < overflow := by
  have hq : |(n : ℚ)| ≤ 2 ^ 53 := by exact_mod_cast h
  exact hq.trans_lt two_pow_lt_overflow

theorem ofRat_of_lt (h : |nearest q| < overflow) :
    ofRat q = finite ⟨nearest q, nearest_nearest q, h⟩ := dif_pos h

theorem toRat?_ofRat (hq : nearest q = q) (h : |q| < overflow) : (ofRat q).toRat? = some q := by
  have hlt : |nearest q| < overflow := by rwa [hq]
  rw [ofRat_of_lt hlt]
  exact congrArg some hq

theorem toRat?_ofRat_eq_some {r : ℚ} (h : (ofRat q).toRat? = some r) : r = nearest q := by
  by_cases hlt : |nearest q| < overflow
  · rw [ofRat_of_lt hlt] at h
    exact (Option.some.inj h).symm
  · rw [ofRat, dif_neg hlt] at h
    exact absurd h.symm (Option.some_ne_none r)

/-- **An integer of at most 53 bits is a double exactly.** -/
theorem toRat?_ofInt (h : |n| ≤ 2 ^ 53) : (ofInt n).toRat? = some (n : ℚ) :=
  toRat?_ofRat (nearest_intCast h) (lt_overflow_of_abs_le h)

theorem isFinite_iff : x.isFinite = true ↔ ∃ v, x = finite v := by
  cases x <;> simp [isFinite, toRat?]

theorem exists_finite_of_toRat? (h : x.toRat? = some q) :
    ∃ v : Finite, x = finite v ∧ v.val = q := by
  cases x with
  | finite v => exact ⟨v, rfl, Option.some.inj h⟩
  | inf s => exact absurd h.symm (Option.some_ne_none q)
  | nan => exact absurd h.symm (Option.some_ne_none q)

theorem exists_ofInt_eq (h : |n| ≤ 2 ^ 53) : ∃ v : Finite, ofInt n = finite v ∧ v.val = n :=
  exists_finite_of_toRat? (toRat?_ofInt h)

/-! ## A bound on the magnitude -/

/-- **Comparing a magnitude with a small integer compares the values.** The
infinities and the undefined result are within no bound. -/
theorem abs_le_ofInt {m : ℤ} (h0 : 0 ≤ m) (hm : m ≤ 2 ^ 53) :
    x.abs.le (ofInt m) = true ↔ ∃ q, x.toRat? = some q ∧ |q| ≤ m := by
  obtain ⟨b, hb, hbv⟩ := exists_ofInt_eq (by rw [abs_of_nonneg h0]; exact hm : |m| ≤ 2 ^ 53)
  obtain ⟨z, hz, hzv⟩ := exists_ofInt_eq (n := 0) (by norm_num)
  rw [abs, hz, hb]
  cases x with
  | finite v =>
    simp only [lt, decide_eq_true_eq, toRat?, Option.some.injEq, exists_eq_left', hzv,
      Int.cast_zero]
    by_cases hv : v.val < 0
    · rw [if_pos hv, neg, le, decide_eq_true_eq, hbv, abs_of_neg hv]
    · rw [if_neg hv, le, decide_eq_true_eq, hbv, abs_of_nonneg (not_lt.1 hv)]
  | inf s => cases s <;> simp [lt, le, neg, toRat?]
  | nan => simp [lt, le, toRat?]

/-- **An integer passes the bound `2^53 − 1` exactly when its rounding
does**: one beyond it rounds to `2^53` or further. -/
theorem ofInt_within :
    (∃ q, (ofInt n).toRat? = some q ∧ |q| ≤ ((2 ^ 53 - 1 : ℤ) : ℚ)) ↔ |n| ≤ 2 ^ 53 - 1 := by
  constructor
  · rintro ⟨q, hq, hle⟩
    by_contra hn
    have hbig : (2 : ℚ) ^ (53 : ℤ) ≤ |(n : ℚ)| := by
      have : (2 : ℤ) ^ 53 ≤ |n| := by omega
      exact_mod_cast this
    have hround := zpow_le_abs_nearest (by norm_num) hbig
    rw [← toRat?_ofRat_eq_some hq] at hround
    have := hround.trans hle
    norm_num at this
  · intro hn
    exact ⟨n, toRat?_ofInt (by omega), by exact_mod_cast hn⟩

theorem nearest_nonneg (h : 0 ≤ q) : 0 ≤ nearest q := by
  have hpos := two_zpow_pos (ulpExp q)
  have hdiv : ((0 : ℤ) : ℚ) ≤ q / 2 ^ ulpExp q := by
    rw [Int.cast_zero]
    positivity
  have hround : (0 : ℚ) ≤ roundHalfEven (q / 2 ^ ulpExp q) := by
    exact_mod_cast le_roundHalfEven hdiv
  exact mul_nonneg hround hpos.le

/-- **An integer of at most 64 bits has a finite double.** -/
theorem exists_finite_ofInt (h : |n| ≤ 2 ^ 63) : ∃ v : Finite, ofInt n = finite v := by
  by_cases h0 : n = 0
  · obtain ⟨v, hv, -⟩ := exists_ofInt_eq (n := n) (by rw [h0]; norm_num)
    exact ⟨v, hv⟩
  · have hq0 : (n : ℚ) ≠ 0 := Int.cast_ne_zero.2 h0
    have hq : |(n : ℚ)| < 2 ^ ((11 : ℤ) + 53) := by
      have hcast : |(n : ℚ)| ≤ 2 ^ 63 := by exact_mod_cast h
      exact hcast.trans_lt (by norm_num)
    have hunit : (2 : ℚ) ^ ulpExp n ≤ 2 ^ (11 : ℤ) :=
      zpow_le_zpow_right₀ one_le_two (ulpExp_le hq0 (by norm_num) hq)
    have hsignificand : |(roundHalfEven ((n : ℚ) / 2 ^ ulpExp n) : ℚ)| ≤ 2 ^ 53 := by
      exact_mod_cast abs_significand_le n
    have hnearest : |nearest n| < overflow := by
      unfold nearest overflow
      rw [abs_mul, abs_of_pos (two_zpow_pos _)]
      calc |(roundHalfEven ((n : ℚ) / 2 ^ ulpExp n) : ℚ)| * 2 ^ ulpExp (n : ℚ)
          ≤ 2 ^ 53 * 2 ^ (11 : ℤ) :=
            mul_le_mul hsignificand hunit (two_zpow_pos _).le (by norm_num)
        _ = 2 ^ 64 := by norm_num
        _ < 2 ^ 1024 := pow_lt_pow_right₀ one_lt_two (by decide)
    exact ⟨_, ofRat_of_lt hnearest⟩

/-- **A value of at most 53 bits is below every integer beyond them.** -/
theorem lt_ofInt_of_lt {v : Finite} (hv : v.val ≤ 2 ^ 53 - 1) (hn : 2 ^ 53 - 1 < n) :
    (finite v).lt (ofInt n) = true := by
  have hpos : (0 : ℚ) ≤ n := by exact_mod_cast (by omega : 0 ≤ n)
  cases hx : ofInt n with
  | finite w =>
    have hw : w.val = nearest n := toRat?_ofRat_eq_some (congrArg toRat? hx)
    have hbeyond : ¬ |w.val| ≤ ((2 ^ 53 - 1 : ℤ) : ℚ) := fun hle =>
      absurd (ofInt_within.1 ⟨w.val, congrArg toRat? hx, hle⟩) (by rw [abs_of_pos (by omega)]; omega)
    rw [hw, abs_of_nonneg (nearest_nonneg hpos), ← hw] at hbeyond
    push_cast at hbeyond
    rw [lt, decide_eq_true_eq]
    linarith
  | inf s =>
    have hsign : s = false := by
      unfold ofInt ofRat at hx
      split at hx
      · simp at hx
      · obtain rfl := inf.inj hx
        exact decide_eq_false (not_lt.2 hpos)
    rw [hsign]
    rfl
  | nan =>
    unfold ofInt ofRat at hx
    split at hx <;> cases hx

/-! ## Arithmetic on exact integers

Below `2^53` the operations act on integers as the integers' own. -/

theorem exists_ofInt_pair {b : ℤ} (ha : |a| ≤ 2 ^ 53) (hb : |b| ≤ 2 ^ 53) :
    ∃ v w : Finite, ofInt a = finite v ∧ v.val = a ∧ ofInt b = finite w ∧ w.val = b := by
  obtain ⟨v, hv, hva⟩ := exists_ofInt_eq ha
  obtain ⟨w, hw, hwb⟩ := exists_ofInt_eq hb
  exact ⟨v, w, hv, hva, hw, hwb⟩

theorem mul_ofInt {b : ℤ} (ha : |a| ≤ 2 ^ 53) (hb : |b| ≤ 2 ^ 53) :
    (ofInt a).mul (ofInt b) = ofInt (a * b) := by
  obtain ⟨v, w, hv, hva, hw, hwb⟩ := exists_ofInt_pair ha hb
  rw [hv, hw, mul, hva, hwb, ofInt, Int.cast_mul]

theorem add_ofInt {b : ℤ} (ha : |a| ≤ 2 ^ 53) (hb : |b| ≤ 2 ^ 53) :
    (ofInt a).add (ofInt b) = ofInt (a + b) := by
  obtain ⟨v, w, hv, hva, hw, hwb⟩ := exists_ofInt_pair ha hb
  rw [hv, hw, add, hva, hwb, ofInt, Int.cast_add]

theorem lt_ofInt {b : ℤ} (ha : |a| ≤ 2 ^ 53) (hb : |b| ≤ 2 ^ 53) :
    (ofInt a).lt (ofInt b) = decide (a < b) := by
  obtain ⟨v, w, hv, hva, hw, hwb⟩ := exists_ofInt_pair ha hb
  rw [hv, hw, lt, hva, hwb]
  exact decide_eq_decide.2 Int.cast_lt

theorem le_ofInt {b : ℤ} (ha : |a| ≤ 2 ^ 53) (hb : |b| ≤ 2 ^ 53) :
    (ofInt a).le (ofInt b) = decide (a ≤ b) := by
  obtain ⟨v, w, hv, hva, hw, hwb⟩ := exists_ofInt_pair ha hb
  rw [hv, hw, le, hva, hwb]
  exact decide_eq_decide.2 Int.cast_le

theorem neg_ofInt (ha : |a| ≤ 2 ^ 53) : (ofInt a).neg = ofInt (-a) := by
  obtain ⟨v, w, hv, hva, hw, hwb⟩ := exists_ofInt_pair ha (by rwa [abs_neg] : |-a| ≤ 2 ^ 53)
  rw [hv, hw, neg, finite.injEq, Finite.mk.injEq]
  rw [hva, hwb, Int.cast_neg]

theorem abs_ofInt (ha : |a| ≤ 2 ^ 53) : (ofInt a).abs = ofInt |a| := by
  rw [abs, lt_ofInt ha (by norm_num)]
  by_cases h : a < 0
  · rw [if_pos (decide_eq_true h), neg_ofInt ha, abs_of_neg h]
  · rw [if_neg (by simpa using h), abs_of_nonneg (not_lt.1 h)]

theorem abs_nearest_sub_le (q : ℚ) : |nearest q - q| ≤ 2 ^ (ulpExp q - 1) := by
  have hpos := two_zpow_pos (ulpExp q)
  have hhalf := abs_sub_roundHalfEven_le (q / 2 ^ ulpExp q)
  have hfactor : nearest q - q =
      -(q / 2 ^ ulpExp q - roundHalfEven (q / 2 ^ ulpExp q)) * 2 ^ ulpExp q := by
    rw [nearest]
    field_simp
    ring
  rw [hfactor, abs_mul, abs_neg, abs_of_pos hpos, zpow_sub_one₀ two_ne_zero]
  nlinarith

/-- A value below `2^40` moves by less than `1 / d` for a small `d`. -/
theorem abs_nearest_sub_lt (hq : |q| < 2 ^ (40 : ℤ)) : |nearest q - q| ≤ 2 ^ (-14 : ℤ) := by
  by_cases h0 : q = 0
  · rw [h0, nearest_zero, sub_zero, abs_zero]
    exact (two_zpow_pos _).le
  · have hulp : ulpExp q ≤ -13 := ulpExp_le h0 (by norm_num) (by norm_num at hq ⊢; exact hq)
    exact (abs_nearest_sub_le q).trans (zpow_le_zpow_right₀ one_le_two (by omega))

/-- **A quotient by a small divisor does not round across an integer**: its
integer part is the integers' own quotient. -/
theorem floor_div_ofInt {m d : ℤ} (hm0 : 0 ≤ m) (hm : m ≤ 2 ^ 53) (hd0 : 0 < d)
    (hd : d < 2 ^ 14) (hsmall : m < d * 2 ^ 40) :
    ((ofInt m).div (ofInt d)).floor = ofInt (m / d) := by
  have hdabs : |d| ≤ 2 ^ 53 := by rw [abs_of_pos hd0]; omega
  obtain ⟨v, w, hv, hvm, hw, hwd⟩ := exists_ofInt_pair (by rwa [abs_of_nonneg hm0] : |m| ≤ 2 ^ 53)
    hdabs
  have hdq : (0 : ℚ) < d := Int.cast_pos.2 hd0
  have hdiv : (ofInt m).div (ofInt d) = ofRat ((m : ℚ) / d) := by
    rw [hv, hw, div, hwd, if_neg hdq.ne', hvm]
  have hq0 : (0 : ℚ) ≤ (m : ℚ) / d := div_nonneg (Int.cast_nonneg hm0) hdq.le
  have hqlt : |(m : ℚ) / d| < 2 ^ (40 : ℤ) := by
    rw [abs_of_nonneg hq0, div_lt_iff₀ hdq]
    have : (m : ℚ) < d * 2 ^ 40 := by exact_mod_cast hsmall
    norm_num at this ⊢
    linarith
  have hmove := abs_le.1 (abs_nearest_sub_lt hqlt)
  have hfloor : ⌊nearest ((m : ℚ) / d)⌋ = m / d := by
    have hsplit : (m : ℚ) / d = ((m / d : ℤ) : ℚ) + ((m % d : ℤ) : ℚ) / d := by
      have h : (m : ℚ) = d * ((m / d : ℤ) : ℚ) + ((m % d : ℤ) : ℚ) := by
        exact_mod_cast (Int.mul_ediv_add_emod m d).symm
      rw [h]
      field_simp
    have hr0 := Int.emod_nonneg m hd0.ne'
    have hrd := Int.emod_lt_of_pos m hd0
    by_cases hr : m % d = 0
    · have hle : |m / d| ≤ 2 ^ 53 := by
        rw [abs_of_nonneg (Int.ediv_nonneg hm0 hd0.le)]
        exact (Int.ediv_le_self d hm0).trans hm
      rw [hsplit, hr, Int.cast_zero, zero_div, add_zero, nearest_intCast hle, Int.floor_intCast]
    · -- The remainder keeps the quotient `1 / d` away from the integers.
      have hgap : (2 : ℚ) ^ (-14 : ℤ) < 1 / d := by
        rw [lt_div_iff₀ hdq]
        have : (d : ℚ) < 2 ^ 14 := by exact_mod_cast hd
        norm_num at this ⊢
        linarith
      have hlow : (1 : ℚ) / d ≤ ((m % d : ℤ) : ℚ) / d := by
        gcongr
        exact_mod_cast (by omega : 1 ≤ m % d)
      have hhigh : ((m % d : ℤ) : ℚ) / d ≤ 1 - 1 / d := by
        rw [le_sub_iff_add_le, ← add_div, div_le_one hdq]
        exact_mod_cast hrd
      rw [Int.floor_eq_iff]
      constructor <;> linarith [hmove.1, hmove.2, hsplit]
  have hlt : |nearest ((m : ℚ) / d)| < overflow := by
    have hone : (2 : ℚ) ^ (-14 : ℤ) ≤ 1 := by norm_num
    have hbound : |nearest ((m : ℚ) / d)| ≤ 2 ^ 53 := by
      rw [abs_of_nonneg hq0] at hqlt
      rw [abs_le]
      constructor <;> norm_num at hqlt hmove ⊢ <;> linarith [hmove.1, hmove.2]
    exact hbound.trans_lt two_pow_lt_overflow
  rw [hdiv, ofRat_of_lt hlt, floor, hfloor]

theorem rem_ofInt {m d : ℤ} (hm0 : 0 ≤ m) (hm : m ≤ 2 ^ 53) (hd0 : 0 < d) (hd : d ≤ 2 ^ 53) :
    (ofInt m).rem (ofInt d) = ofInt (m % d) := by
  obtain ⟨v, w, hv, hvm, hw, hwd⟩ := exists_ofInt_pair (by rwa [abs_of_nonneg hm0] : |m| ≤ 2 ^ 53)
    (by rwa [abs_of_pos hd0] : |d| ≤ 2 ^ 53)
  have hdq : (0 : ℚ) < d := Int.cast_pos.2 hd0
  have hpart : integerPart ((m : ℚ) / d) = m / d := by
    rw [integerPart, if_neg (not_lt.2 (div_nonneg (Int.cast_nonneg hm0) hdq.le))]
    have hnat : (d.toNat : ℤ) = d := Int.toNat_of_nonneg hd0.le
    have hcast : ((d.toNat : ℕ) : ℚ) = d := by exact_mod_cast hnat
    rw [← hcast, Rat.floor_intCast_div_natCast, hnat]
  rw [hv, hw, rem, hwd, if_neg hdq.ne', hvm, hpart, ofInt, Int.emod_def]
  push_cast
  rfl

/-! ## The nearest double

No double lies nearer to a rational than its rounding does
(`abs_nearest_sub_le_of_double`). A double below the binade of the rational
is no multiple of its unit; the power of two that opens the binade is, and
lies between.

Every double is a fraction over `2^1074`, so no two differ by a fraction
whose denominator has an odd factor (`sub_ne_of_odd`).
-/

theorem abs_sub_roundHalfEven_le_sub (q : ℚ) (n : ℤ) : |q - roundHalfEven q| ≤ |q - n| := by
  by_cases hn : n = roundHalfEven q
  · rw [hn]
  · have hhalf := abs_sub_roundHalfEven_le q
    have hapart : (1 : ℚ) ≤ |(n : ℚ) - roundHalfEven q| := by
      have hint : 1 ≤ |n - roundHalfEven q| := Int.one_le_abs (sub_ne_zero.2 hn)
      exact_mod_cast hint
    have htriangle : |(n : ℚ) - roundHalfEven q| ≤ |q - n| + |q - roundHalfEven q| := by
      have h := abs_sub_le (n : ℚ) q (roundHalfEven q)
      rwa [abs_sub_comm (n : ℚ) q] at h
    linarith

theorem abs_nearest_sub_le_of_multiple (q : ℚ) (n : ℤ) :
    |nearest q - q| ≤ |n * 2 ^ ulpExp q - q| := by
  have hpos := two_zpow_pos (ulpExp q)
  have hscale : ∀ k : ℤ, |k * 2 ^ ulpExp q - q| = |q / 2 ^ ulpExp q - k| * 2 ^ ulpExp q := by
    intro k
    have hfactor : k * 2 ^ ulpExp q - q = -(q / 2 ^ ulpExp q - k) * 2 ^ ulpExp q := by
      field_simp
      ring
    rw [hfactor, abs_mul, abs_neg, abs_of_pos hpos]
  rw [nearest, hscale, hscale]
  exact mul_le_mul_of_nonneg_right (abs_sub_roundHalfEven_le_sub _ _) hpos.le

theorem exists_multiple {d : ℚ} (hd : nearest d = d) (h : ulpExp q ≤ ulpExp d) :
    ∃ n : ℤ, d = n * 2 ^ ulpExp q := by
  obtain ⟨k, hk⟩ := Int.eq_ofNat_of_zero_le (sub_nonneg.2 h)
  refine ⟨roundHalfEven (d / 2 ^ ulpExp d) * 2 ^ k, ?_⟩
  have hsplit : (2 : ℚ) ^ ulpExp d = 2 ^ k * 2 ^ ulpExp q := by
    rw [← zpow_natCast, ← hk, ← zpow_add₀ two_ne_zero, sub_add_cancel]
  calc d = roundHalfEven (d / 2 ^ ulpExp d) * 2 ^ ulpExp d := hd.symm
    _ = roundHalfEven (d / 2 ^ ulpExp d) * (2 ^ k * 2 ^ ulpExp q) := by rw [← hsplit]
    _ = ((roundHalfEven (d / 2 ^ ulpExp d) * 2 ^ k : ℤ) : ℚ) * 2 ^ ulpExp q := by
        push_cast
        ring

/-- A double whose unit is smaller lies short of a power of two that the
rational reaches. -/
theorem lt_of_ulpExp_lt {d : ℚ} (hq : q ≠ 0) (h : ulpExp d < ulpExp q) :
    |d| < 2 ^ (ulpExp q + 52) ∧ 2 ^ (ulpExp q + 52) ≤ |q| := by
  constructor
  · exact (abs_lt_ulpExp d).trans_le (zpow_le_zpow_right₀ one_le_two (by omega))
  · have hnormal : ulpExp q = Int.log 2 |q| - 52 := by
      have hlow := neg_le_ulpExp d
      unfold ulpExp at h hlow ⊢
      omega
    rw [hnormal, sub_add_cancel]
    exact_mod_cast Int.zpow_log_le_self (R := ℚ) one_lt_two (abs_pos.2 hq)

/-- **No double is nearer to a rational than its rounding.** -/
theorem abs_nearest_sub_le_of_double {d : ℚ} (hd : nearest d = d) : |nearest q - q| ≤ |d - q| := by
  by_cases hq : q = 0
  · rw [hq, nearest_zero, sub_zero, abs_zero]
    exact abs_nonneg _
  rcases le_or_gt (ulpExp q) (ulpExp d) with hle | hlt
  · obtain ⟨n, hn⟩ := exists_multiple hd hle
    rw [hn]
    exact abs_nearest_sub_le_of_multiple q n
  · obtain ⟨hshort, hreach⟩ := lt_of_ulpExp_lt hq hlt
    have hpower : (2 : ℚ) ^ (ulpExp q + 52) = ((2 ^ 52 : ℤ) : ℚ) * 2 ^ ulpExp q := by
      rw [add_comm, zpow_add₀ two_ne_zero]
      norm_cast
    obtain ⟨hlow, hhigh⟩ := abs_lt.1 hshort
    -- The power of two, on the rational's side, is a multiple between the two.
    rcases le_abs.1 hreach with hpos | hneg
    · refine (abs_nearest_sub_le_of_multiple q (2 ^ 52)).trans ?_
      rw [← hpower, abs_of_nonpos (by linarith), abs_of_nonpos (by linarith)]
      linarith
    · refine (abs_nearest_sub_le_of_multiple q (-(2 ^ 52))).trans ?_
      rw [Int.cast_neg, neg_mul, ← hpower, abs_of_nonneg (by linarith), abs_of_nonneg (by linarith)]
      linarith

/-! ## Fractions over a power of two -/

/-- Every double is a fraction over `2^1074`, and over any higher power. -/
theorem exists_int_mul {d : ℚ} (hd : nearest d = d) {k : ℕ} (hk : 1074 ≤ k) :
    ∃ n : ℤ, d * 2 ^ k = n := by
  obtain ⟨j, hj⟩ := Int.eq_ofNat_of_zero_le
    (by have := neg_le_ulpExp d; omega : 0 ≤ ulpExp d + k)
  refine ⟨roundHalfEven (d / 2 ^ ulpExp d) * 2 ^ j, ?_⟩
  have hsplit : (2 : ℚ) ^ ulpExp d * 2 ^ k = 2 ^ j := by
    have hexp : ulpExp d + k = (j : ℤ) := hj
    rw [← zpow_natCast, ← zpow_natCast, ← hexp, zpow_add₀ two_ne_zero]
  calc d * 2 ^ k = roundHalfEven (d / 2 ^ ulpExp d) * 2 ^ ulpExp d * 2 ^ k := by
        rw [show (roundHalfEven (d / 2 ^ ulpExp d) : ℚ) * 2 ^ ulpExp d = d from hd]
    _ = ((roundHalfEven (d / 2 ^ ulpExp d) * 2 ^ j : ℤ) : ℚ) := by
        rw [mul_assoc, hsplit]
        push_cast
        rfl

/-- **No two doubles differ by one part of a number with an odd factor.** -/
theorem sub_ne_one_div {d d' : ℚ} {m p : ℕ} (hd : nearest d = d) (hd' : nearest d' = d')
    (hm : 0 < m) (hp : Odd p) (hp1 : p ≠ 1) (hdvd : p ∣ m) : d - d' ≠ 1 / m := by
  intro hsub
  obtain ⟨k, hk⟩ : ∃ k : ℕ, 1074 ≤ k := ⟨1074, le_rfl⟩
  obtain ⟨n, hn⟩ := exists_int_mul hd hk
  obtain ⟨n', hn'⟩ := exists_int_mul hd' hk
  have hm0 : (m : ℚ) ≠ 0 := by exact_mod_cast hm.ne'
  have hmul : ((n - n') * m : ℚ) = 2 ^ k := by
    rw [← hn, ← hn', ← sub_mul, hsub]
    field_simp
  have hint : (n - n') * (m : ℤ) = 2 ^ k := by exact_mod_cast hmul
  have hpower : p ∣ 2 ^ k := by
    have hz : (p : ℤ) ∣ 2 ^ k := (Int.natCast_dvd_natCast.2 hdvd).trans (Dvd.intro_left _ hint)
    exact_mod_cast hz
  have hcoprime : Nat.Coprime p (2 ^ k) := (Nat.Coprime.pow_right k) hp.coprime_two_right
  exact hp1 (Nat.Coprime.eq_one_of_dvd hcoprime hpower)

/-! ## Rounding at a power of two -/

/-- No half more than an even integer rounds past it. -/
theorem abs_roundHalfEven_le (hn : Even n) (h : |q| ≤ n + 1 / 2) : |roundHalfEven q| ≤ n := by
  obtain ⟨hlow, hhigh⟩ := abs_le.1 h
  have hodd : ¬ Even (-n - 1) := by
    rw [Int.not_even_iff_odd]
    exact hn.neg.sub_odd odd_one
  refine abs_le.2 ⟨?_, ?_⟩
  · by_cases hq : ((-n : ℤ) : ℚ) ≤ q
    · exact le_roundHalfEven hq
    · push_cast at hq
      have hfloor : ⌊q⌋ = -n - 1 := by
        rw [Int.floor_eq_iff]
        push_cast
        constructor <;> linarith
      rw [roundHalfEven, hfloor, if_neg (by push_cast; linarith), if_neg hodd, ite_self]
      omega
  · by_cases hq : q ≤ n
    · exact roundHalfEven_le hq
    · have hfloor : ⌊q⌋ = n := by
        rw [Int.floor_eq_iff]
        constructor <;> linarith
      have hhalf : ¬ 1 < 2 * (q - n) := by linarith
      rw [roundHalfEven, hfloor, if_pos hn, if_neg hhalf, ite_self]

theorem ulpExp_eq {k : ℤ} (hk : -1022 ≤ k) (hlow : (2 : ℚ) ^ k ≤ |q|) (hhigh : |q| < 2 ^ (k + 1)) :
    ulpExp q = k - 52 := by
  have hpos : 0 < |q| := (two_zpow_pos k).trans_le hlow
  have hbelow : k ≤ Int.log 2 |q| :=
    (Int.zpow_le_iff_le_log one_lt_two hpos).1 (by exact_mod_cast hlow)
  have habove : Int.log 2 |q| < k + 1 :=
    (Int.lt_zpow_iff_log_lt one_lt_two hpos).1 (by exact_mod_cast hhigh)
  unfold ulpExp
  omega

theorem nearest_zpow {k : ℤ} (hk : -1074 ≤ k) : nearest (2 ^ k) = 2 ^ k := by
  have h := nearest_scaled (m := 1) hk (by norm_num)
  rwa [Int.cast_one, one_mul] at h

/-- **A rounding stays within a power of two up to half a unit beyond it.** -/
theorem abs_nearest_le_zpow_iff {k : ℤ} (hk : -1022 ≤ k) :
    |nearest q| ≤ 2 ^ k ↔ |q| ≤ 2 ^ k + 2 ^ (k - 53) := by
  have hpos := two_zpow_pos (k - 53)
  have hdouble : (2 : ℚ) ^ (k + 1) = 2 * 2 ^ k := by
    rw [zpow_add_one₀ two_ne_zero, mul_comm]
  have hunit : (2 : ℚ) ^ (k - 52) = 2 * 2 ^ (k - 53) := by
    rw [← zpow_one_add₀ two_ne_zero]
    congr 1
    ring
  have hpower : (2 : ℚ) ^ k = 2 ^ 52 * 2 ^ (k - 52) := by
    rw [← zpow_natCast, ← zpow_add₀ two_ne_zero]
    congr 1
    push_cast
    ring
  rcases lt_or_ge |q| (2 ^ k) with hbelow | hreach
  · -- The power is a double, on either side: the nearest is no farther than it.
    refine iff_of_true ?_ (by linarith)
    have hdist : |nearest q - q| ≤ 2 ^ k - |q| := by
      rcases le_total 0 q with hq | hq
      · have h := abs_nearest_sub_le_of_double (q := q) (nearest_zpow (k := k) (by omega))
        rw [abs_of_nonneg hq] at hbelow ⊢
        rwa [abs_of_nonneg (by linarith : 0 ≤ 2 ^ k - q)] at h
      · have h := abs_nearest_sub_le_of_double (q := q)
          (nearest_neg (nearest_zpow (k := k) (by omega)))
        rw [abs_of_nonpos hq] at hbelow ⊢
        rw [abs_of_nonpos (by linarith : -2 ^ k - q ≤ 0)] at h
        linarith
    have htriangle := abs_sub_abs_le_abs_sub (nearest q) q
    linarith
  · rcases lt_or_ge |q| (2 ^ (k + 1)) with hshort | hfar
    · have hexp := ulpExp_eq hk hreach hshort
      constructor
      · intro h
        have hhalf := abs_nearest_sub_le q
        have htriangle := abs_sub_abs_le_abs_sub q (nearest q)
        rw [hexp, show k - 52 - 1 = k - 53 by ring] at hhalf
        rw [abs_sub_comm] at htriangle
        linarith
      · intro h
        have hscaled : |q / 2 ^ (k - 52)| ≤ ((2 ^ 52 : ℤ) : ℚ) + 1 / 2 := by
          rw [abs_div, abs_of_pos (two_zpow_pos _), div_le_iff₀ (two_zpow_pos _)]
          push_cast
          linarith
        have hround : (|(roundHalfEven (q / 2 ^ (k - 52)) : ℚ)|) ≤ 2 ^ 52 := by
          exact_mod_cast abs_roundHalfEven_le (by decide) hscaled
        rw [nearest, hexp, abs_mul, abs_of_pos (two_zpow_pos _), hpower]
        exact mul_le_mul_of_nonneg_right hround (two_zpow_pos _).le
    · have hfar' := zpow_le_abs_nearest (k := k + 1) (by omega) hfar
      have hk0 := two_zpow_pos k
      have hhalf : (2 : ℚ) ^ (k - 53) < 2 ^ k := zpow_lt_zpow_right₀ one_lt_two (by omega)
      exact iff_of_false (by linarith) (by linarith)

/-- Rounding moves a value of at least one by a `2^53`rd part at most. -/
theorem abs_nearest_sub_le_rel (h : 1 ≤ |q|) : |nearest q - q| ≤ |q| / 2 ^ 53 := by
  have hlow : (2 : ℚ) ^ Int.log 2 |q| ≤ |q| := by
    exact_mod_cast Int.zpow_log_le_self (R := ℚ) one_lt_two (one_pos.trans_le h)
  have hhigh : |q| < 2 ^ (Int.log 2 |q| + 1) := Int.lt_zpow_succ_log_self one_lt_two |q|
  have hlog : 0 ≤ Int.log 2 |q| := Int.log_of_one_le_right 2 h ▸ Int.natCast_nonneg _
  have hexp := ulpExp_eq (by omega) hlow hhigh
  have hunit : (2 : ℚ) ^ (ulpExp q - 1) = 2 ^ Int.log 2 |q| / 2 ^ 53 := by
    rw [hexp, show Int.log 2 |q| - 52 - 1 = Int.log 2 |q| - (53 : ℕ) by push_cast; ring,
      zpow_sub₀ two_ne_zero, zpow_natCast]
  calc |nearest q - q| ≤ 2 ^ (ulpExp q - 1) := abs_nearest_sub_le q
    _ = 2 ^ Int.log 2 |q| / 2 ^ 53 := hunit
    _ ≤ |q| / 2 ^ 53 := by gcongr

/-! ## Finite roundings -/

theorem abs_nearest_le (q : ℚ) : |nearest q| ≤ 2 * |q| := by
  have hzero := abs_nearest_sub_le_of_double (q := q) nearest_zero
  rw [zero_sub, abs_neg] at hzero
  have htriangle := abs_sub_abs_le_abs_sub (nearest q) q
  linarith

theorem ofRat_of_le (h : |q| ≤ 2 ^ 53) : ∃ v : Finite, ofRat q = finite v ∧
    v.val = nearest q := by
  have hlt : |nearest q| < overflow := by
    calc |nearest q| ≤ 2 * |q| := abs_nearest_le q
      _ ≤ 2 ^ 54 := by linarith
      _ < 2 ^ 1024 := pow_lt_pow_right₀ one_lt_two (by decide)
  exact ⟨_, ofRat_of_lt hlt, rfl⟩

/-! ## Shares -/

/-- **A quotient rounds to at most one just where the dividend is at most the
divisor**: doubles that differ do so by a unit of the smaller. -/
theorem nearest_div_le_one_iff {a b : ℚ} (ha : nearest a = a) (hb : nearest b = b) (ha0 : 0 ≤ a)
    (hb0 : 0 < b) : nearest (a / b) ≤ 1 ↔ a ≤ b := by
  have hquotient : 0 ≤ a / b := div_nonneg ha0 hb0.le
  have hround := abs_nearest_le_zpow_iff (q := a / b) (k := 0) (by norm_num)
  rw [zpow_zero, abs_of_nonneg (nearest_nonneg hquotient), abs_of_nonneg hquotient] at hround
  rw [hround]
  constructor
  · intro hle
    by_contra hlt
    rw [not_le] at hlt
    have hunit : ulpExp b ≤ ulpExp a := by
      by_contra hu
      obtain ⟨hshort, hreach⟩ := lt_of_ulpExp_lt (d := a) hb0.ne' (not_le.1 hu)
      rw [abs_of_nonneg ha0] at hshort
      rw [abs_of_pos hb0] at hreach
      linarith
    obtain ⟨m, hm⟩ := exists_multiple ha hunit
    obtain ⟨n, hn⟩ := exists_multiple hb le_rfl
    have hpos := two_zpow_pos (ulpExp b)
    have hmn : ((n : ℚ) + 1) ≤ m := by
      have h : (n : ℚ) * 2 ^ ulpExp b < m * 2 ^ ulpExp b := by rwa [← hm, ← hn]
      exact_mod_cast Int.cast_lt.1 (lt_of_mul_lt_mul_right h hpos.le)
    have hgap : b + 2 ^ ulpExp b ≤ a := by
      calc b + 2 ^ ulpExp b = (n + 1) * 2 ^ ulpExp b := by rw [add_one_mul, ← hn]
        _ ≤ m * 2 ^ ulpExp b := mul_le_mul_of_nonneg_right hmn hpos.le
        _ = a := hm.symm
    have hshort : b * 2 ^ ((0 : ℤ) - 53) < 2 ^ ulpExp b := by
      have h := abs_lt_ulpExp b
      rw [abs_of_pos hb0, zpow_add₀ two_ne_zero] at h
      rw [zero_sub, zpow_neg, ← div_eq_mul_inv, div_lt_iff₀ (by positivity)]
      exact h
    have hle' := (div_le_iff₀ hb0).1 hle
    linarith
  · intro hle
    have hone : a / b ≤ 1 := (div_le_one hb0).2 hle
    have hpos := two_zpow_pos ((0 : ℤ) - 53)
    linarith

/-- A whole number that is not negative has a double that is not, or the
infinity. -/
theorem ofInt_natCast (n : ℕ) :
    (∃ v : Finite, ofInt n = finite v ∧ v.val = nearest n) ∨ ofInt n = inf false := by
  unfold ofInt ofRat
  split
  · exact .inl ⟨_, rfl, by simp⟩
  · exact .inr (by simp)

/-- **A quotient of whole numbers is between zero and one** just where, as
doubles, the one divided is at most the other. -/
theorem div_ofInt_le_one_iff (n : ℕ) {d : ℕ} (hd : d ≠ 0) :
    (∃ v : Finite, (ofInt n).div (ofInt d) = finite v ∧ 0 ≤ v.val ∧ v.val ≤ 1) ↔
      (ofInt n).isFinite = true ∧ (ofInt n).le (ofInt d) = true := by
  have hpositive : 0 < nearest d := by
    have hone : (2 : ℚ) ^ (0 : ℤ) ≤ |(d : ℚ)| := by
      rw [zpow_zero, Nat.abs_cast]
      exact_mod_cast Nat.one_le_iff_ne_zero.2 hd
    have h := zpow_le_abs_nearest (by norm_num) hone
    rw [zpow_zero, abs_of_nonneg (nearest_nonneg (Nat.cast_nonneg d))] at h
    linarith
  obtain ⟨a, ha, hval⟩ | ha := ofInt_natCast n
  · have hnonneg : 0 ≤ a.val := hval ▸ nearest_nonneg (Nat.cast_nonneg n)
    rw [ha]
    obtain ⟨b, hb, hval'⟩ | hb := ofInt_natCast d
    · rw [← hval'] at hpositive
      have hquotient := nearest_nonneg (div_nonneg hnonneg hpositive.le)
      have hiff := nearest_div_le_one_iff a.nearest_val b.nearest_val hnonneg hpositive
      rw [hb, div, if_neg hpositive.ne', le, decide_eq_true_eq]
      constructor
      · rintro ⟨v, hv, -, hle⟩
        rw [toRat?_ofRat_eq_some (congrArg toRat? hv)] at hle
        exact ⟨rfl, hiff.1 hle⟩
      · rintro ⟨-, hle⟩
        have hle := hiff.2 hle
        have hsmall : |nearest (a.val / b.val)| < overflow := by
          rw [abs_of_nonneg hquotient]
          exact hle.trans_lt (by linarith [two_pow_lt_overflow])
        exact ⟨_, ofRat_of_lt hsmall, hquotient, hle⟩
    · rw [hb]
      obtain ⟨v, hv, hzero⟩ := exists_ofInt_eq (n := 0) (by norm_num)
      exact iff_of_true ⟨v, hv, by simp [hzero], by simp [hzero]⟩ ⟨rfl, rfl⟩
  · rw [ha]
    refine iff_of_false ?_ (by simp [isFinite, toRat?])
    rintro ⟨v, hv, -⟩
    obtain ⟨b, hb, -⟩ | hb := ofInt_natCast d
    · rw [hb] at hv
      exact Binary64.noConfusion hv
    · rw [hb] at hv
      exact Binary64.noConfusion hv

end Binary64
