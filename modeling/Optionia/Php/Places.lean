import Optionia.Php.Numbers
/-!
# Six places, and back

A double rounded to six places, read back as a double and rounded again gives
the same millionths (`millionths_nearest`): the double read back is no farther
from the printed number than the one that was printed, and where both lie half
a millionth away they are one, for no two doubles are a millionth apart.

`printed` is the text of a number of millionths without what pads it, and
`plain?_printed` reads it back.
-/

namespace Optionia.Php

open Decimal

/-! ## Rounding half away from zero -/

theorem abs_sub_roundHalfAway_le (q : ℚ) : |q - roundHalfAway q| ≤ 1 / 2 := by
  unfold roundHalfAway
  split
  · have hlo := Int.floor_le (1 / 2 - q)
    have hhi := Int.lt_floor_add_one (1 / 2 - q)
    push_cast
    exact abs_le.2 ⟨by linarith, by linarith⟩
  · have hlo := Int.floor_le (q + 1 / 2)
    have hhi := Int.lt_floor_add_one (q + 1 / 2)
    exact abs_le.2 ⟨by linarith, by linarith⟩

theorem roundHalfAway_eq {q : ℚ} {n : ℤ} (h : |q - n| < 1 / 2) : roundHalfAway q = n := by
  have hround := abs_le.1 (abs_sub_roundHalfAway_le q)
  have hnear := abs_lt.1 h
  have hlt : (roundHalfAway q : ℚ) < n + 1 := by linarith
  have hgt : (n : ℚ) < roundHalfAway q + 1 := by linarith
  have hlt' : roundHalfAway q < n + 1 := by exact_mod_cast hlt
  have hgt' : n < roundHalfAway q + 1 := by exact_mod_cast hgt
  omega

@[simp] theorem roundHalfAway_intCast (n : ℤ) : roundHalfAway n = n :=
  roundHalfAway_eq (by rw [sub_self, abs_zero]; norm_num)

/-! ## Millionths -/

/-- A number of millionths, as a number. -/
def ofMillionths (n : ℤ) : ℚ := n / 10 ^ 6

theorem millionths_intCast (m : ℤ) : millionths m = m * 10 ^ 6 := by
  have hcast : (m : ℚ) * 10 ^ 6 = ((m * 10 ^ 6 : ℤ) : ℚ) := by push_cast; rfl
  rw [millionths, hcast, roundHalfAway_intCast]

theorem ofMillionths_mul (m : ℤ) : ofMillionths (m * 10 ^ 6) = m := by
  have hcast : ((m * 10 ^ 6 : ℤ) : ℚ) = m * 10 ^ 6 := by push_cast; rfl
  rw [ofMillionths, hcast, mul_div_cancel_right₀ _ (by norm_num)]

theorem abs_sub_ofMillionths_le (q : ℚ) : |q - ofMillionths (millionths q)| ≤ 1 / (2 * 10 ^ 6) := by
  have hround := abs_sub_roundHalfAway_le (q * 10 ^ 6)
  have hfactor : q - ofMillionths (millionths q) =
      (q * 10 ^ 6 - roundHalfAway (q * 10 ^ 6)) / 10 ^ 6 := by
    unfold ofMillionths millionths
    ring
  rw [hfactor, abs_div, div_le_iff₀ (by norm_num)]
  norm_num at hround ⊢
  exact hround

theorem millionths_eq {q : ℚ} {n : ℤ} (h : |q - ofMillionths n| < 1 / (2 * 10 ^ 6)) :
    millionths q = n := by
  refine roundHalfAway_eq ?_
  have hfactor : q * 10 ^ 6 - n = (q - ofMillionths n) * 10 ^ 6 := by
    unfold ofMillionths
    ring
  rw [hfactor, abs_mul, abs_of_pos (by norm_num : (0 : ℚ) < 10 ^ 6)]
  norm_num at h ⊢
  linarith

/-- **Rounding to six places and to a double again keeps the millionths.** -/
theorem millionths_nearest {v : ℚ} (hv : Binary64.nearest v = v) :
    millionths (Binary64.nearest (ofMillionths (millionths v))) = millionths v := by
  have hprinted := abs_sub_ofMillionths_le v
  have hnearest : |Binary64.nearest (ofMillionths (millionths v)) - ofMillionths (millionths v)| ≤
      |v - ofMillionths (millionths v)| := Binary64.abs_nearest_sub_le_of_double hv
  have hdouble := Binary64.nearest_nearest (ofMillionths (millionths v))
  rcases (hnearest.trans hprinted).lt_or_eq with hlt | heq
  · exact millionths_eq hlt
  -- Both lie half a millionth away: on one side they are one, on two a millionth apart.
  have hsame : |v - ofMillionths (millionths v)| = 1 / (2 * 10 ^ 6) :=
    le_antisymm hprinted (heq.symm.le.trans hnearest)
  have hapart : ∀ {d d' : ℚ}, Binary64.nearest d = d → Binary64.nearest d' = d' →
      d - d' ≠ 1 / 10 ^ 6 := by
    intro d d' hd hd'
    have hne := Binary64.sub_ne_one_div (m := 10 ^ 6) (p := 5) hd hd' (by norm_num) (by decide)
      (by norm_num) (by norm_num)
    rwa [Nat.cast_pow, Nat.cast_ofNat] at hne
  generalize Binary64.nearest (ofMillionths (millionths v)) = w at heq hdouble ⊢
  rcases (abs_eq (by norm_num)).1 heq with hw | hw <;>
    rcases (abs_eq (by norm_num)).1 hsame with h | h
  · exact congrArg millionths (by linarith)
  · exact absurd (by norm_num at hw h ⊢; linarith) (hapart hdouble hv)
  · exact absurd (by norm_num at hw h ⊢; linarith) (hapart hv hdouble)
  · exact congrArg millionths (by linarith)

/-- **A finite double printed with six places is read back as one**, of the
same millionths. -/
theorem exists_ofRat_ofMillionths (v : Binary64.Finite) :
    ∃ w : Binary64.Finite, Binary64.ofRat (ofMillionths (millionths v.val)) = .finite w ∧
      millionths w.val = millionths v.val := by
  rcases le_or_gt (2 ^ 52 : ℚ) |v.val| with hbig | hsmall
  · -- So large a double is an integer, and is printed in full.
    obtain ⟨m, hm⟩ := Binary64.exists_int_of_le v.nearest_val hbig
    have hback : ofMillionths (millionths v.val) = v.val := by
      rw [hm, millionths_intCast, ofMillionths_mul]
    rw [hback]
    have hlt : |Binary64.nearest v.val| < Binary64.overflow := by
      rw [v.nearest_val]
      exact v.bounded
    refine ⟨_, Binary64.ofRat_of_lt hlt, ?_⟩
    exact congrArg millionths v.nearest_val
  · have hprinted := abs_le.1 (abs_sub_ofMillionths_le v.val)
    have hv := abs_lt.1 hsmall
    have hle : |ofMillionths (millionths v.val)| ≤ 2 ^ 53 := by
      norm_num at hprinted hv ⊢
      exact abs_le.2 ⟨by linarith, by linarith⟩
    obtain ⟨w, hw, hval⟩ := Binary64.ofRat_of_le hle
    exact ⟨w, hw, by rw [hval, millionths_nearest v.nearest_val]⟩

/-! ## The text -/

/-- A number of millionths as it is printed, without padding. -/
def printed (n : ℤ) : List Char :=
  signText (decide (n < 0)) (Nat.toDigits 10 (n.natAbs / 10 ^ 6) ++
    pointed ((sixDigits (n.natAbs % 10 ^ 6)).rdropWhile (· = '0')))

theorem sixDigits_eq (n : ℕ) : sixDigits n =
    List.replicate (6 - (Nat.toDigits 10 n).length) '0' ++ Nat.toDigits 10 n := by
  unfold sixDigits
  rw [Nat.toString_eq_repr, Nat.toList_repr]

theorem isDigit_of_mem_sixDigits {n : ℕ} {c : Char} (h : c ∈ sixDigits n) : isDigit c = true := by
  rw [sixDigits_eq, List.mem_append] at h
  rcases h with h | h
  · rw [List.eq_of_mem_replicate h]
    rfl
  · exact isDigit_of_mem_toDigits h

theorem sixDigits_spec {n : ℕ} (h : n < 10 ^ 6) :
    (sixDigits n).length = 6 ∧ digitsValue (sixDigits n) = n := by
  have hlength : (Nat.toDigits 10 n).length ≤ 6 :=
    (Nat.length_toDigits_le_iff (by decide) (by decide)).2 h
  rw [sixDigits_eq]
  constructor
  · rw [List.length_append, List.length_replicate]
    omega
  · rw [digitsValue_append, digitsValue_replicate_zero, digitsValue_toDigits, mul_zero, zero_add]

theorem of_mem_printed {n : ℤ} {c : Char} (h : c ∈ printed n) :
    c = '-' ∨ c = '.' ∨ isDigit c = true := by
  have hbody : ∀ c ∈ Nat.toDigits 10 (n.natAbs / 10 ^ 6) ++
      pointed ((sixDigits (n.natAbs % 10 ^ 6)).rdropWhile (· = '0')),
      c = '.' ∨ isDigit c = true := by
    intro c hc
    rcases List.mem_append.1 hc with hc | hc
    · exact Or.inr (isDigit_of_mem_toDigits hc)
    · unfold pointed at hc
      split at hc
      · simp at hc
      · rcases List.mem_cons.1 hc with hc | hc
        · exact Or.inl hc
        · exact Or.inr (isDigit_of_mem_sixDigits ((List.rdropWhile_prefix _ _).subset hc))
  unfold printed signText at h
  split at h
  · rcases List.mem_cons.1 h with h | h
    · exact Or.inl h
    · exact Or.inr (hbody c h)
  · exact Or.inr (hbody c h)

theorem printed_ne_nil (n : ℤ) : printed n ≠ [] := by
  unfold printed signText
  split
  · exact List.cons_ne_nil _ _
  · exact List.append_ne_nil_of_left_ne_nil Nat.toDigits_ne_nil _

/-- **What is printed of a number is the text of its six places, without the
zeros and the point on its right.** -/
theorem rdropWhile_sixPlaces (n : ℤ) :
    ((sixPlaces n).rdropWhile (· = '0')).rdropWhile (· = '.') = printed n := by
  have hsix : sixPlaces n = signText (decide (n < 0)) (Nat.toDigits 10 (n.natAbs / 10 ^ 6)) ++
      '.' :: sixDigits (n.natAbs % 10 ^ 6) := by
    unfold sixPlaces signText
    rw [Nat.toString_eq_repr, Nat.toList_repr]
    by_cases hn : n < 0
    · rw [if_pos hn, if_pos (decide_eq_true hn)]
      rfl
    · rw [if_neg hn, if_neg (by rw [decide_eq_true_eq]; exact hn)]
  have hwhole : ∀ c ∈ signText (decide (n < 0)) (Nat.toDigits 10 (n.natAbs / 10 ^ 6)),
      decide (c = '.') = false := by
    intro c hc
    refine decide_eq_false ?_
    rintro rfl
    unfold signText at hc
    split at hc
    · rcases List.mem_cons.1 hc with hc | hc
      · exact absurd hc (by decide)
      · exact absurd (isDigit_of_mem_toDigits hc) (by decide)
    · exact absurd (isDigit_of_mem_toDigits hc) (by decide)
  rw [hsix, rdropWhile_append_cons (by decide)]
  have hprinted : printed n =
      signText (decide (n < 0)) (Nat.toDigits 10 (n.natAbs / 10 ^ 6)) ++
        pointed ((sixDigits (n.natAbs % 10 ^ 6)).rdropWhile (· = '0')) := by
    unfold printed signText
    split
    · rfl
    · rfl
  have hdigits : ∀ c ∈ (sixDigits (n.natAbs % 10 ^ 6)).rdropWhile (· = '0'),
      isDigit c = true :=
    fun c hc => isDigit_of_mem_sixDigits ((List.rdropWhile_prefix _ _).subset hc)
  rw [hprinted]
  generalize (sixDigits (n.natAbs % 10 ^ 6)).rdropWhile (· = '0') = fraction at hdigits ⊢
  generalize signText (decide (n < 0)) (Nat.toDigits 10 (n.natAbs / 10 ^ 6)) = whole at hwhole ⊢
  unfold pointed
  by_cases hf : fraction = []
  · rw [if_pos hf, hf, List.append_nil]
    rw [List.rdropWhile_concat_pos _ _ _ (by decide)]
    exact rdropWhile_eq_self hwhole
  · rw [if_neg hf]
    refine List.rdropWhile_eq_self_iff.2 fun hne hpoint => ?_
    have hlast : (whole ++ '.' :: fraction).getLast hne = fraction.getLast hf := by
      rw [List.getLast_append_of_ne_nil hne (List.cons_ne_nil _ _), List.getLast_cons hf]
    rw [hlast, decide_eq_true_eq] at hpoint
    have hdigit := hdigits _ (List.getLast_mem hf)
    rw [hpoint] at hdigit
    exact absurd hdigit (by decide)

/-- **What is printed is read back as the number printed.** -/
theorem plain?_printed (n : ℤ) : plain? (printed n) = some (ofMillionths n) := by
  have hmod : n.natAbs % 10 ^ 6 < 10 ^ 6 := Nat.mod_lt _ (by norm_num)
  obtain ⟨hlength, hvalue⟩ := sixDigits_spec hmod
  have hread : plain? (printed n) = some (signed (decide (n < 0))
      (scaled (Nat.toDigits 10 (n.natAbs / 10 ^ 6))
        ((sixDigits (n.natAbs % 10 ^ 6)).rdropWhile (· = '0')) 0)) := by
    refine plain?_eq Nat.toDigits_ne_nil (fun c hc => isDigit_of_mem_toDigits hc) fun c hc => ?_
    exact isDigit_of_mem_sixDigits ((List.rdropWhile_prefix _ _).subset hc)
  obtain ⟨k, hk⟩ := exists_append_replicate '0' (sixDigits (n.natAbs % 10 ^ 6))
  have hscaled : scaled (Nat.toDigits 10 (n.natAbs / 10 ^ 6))
      ((sixDigits (n.natAbs % 10 ^ 6)).rdropWhile (· = '0')) 0 = (n.natAbs : ℚ) / 10 ^ 6 := by
    rw [← scaled_append_zeros _ _ k, ← hk]
    unfold scaled
    rw [digitsValue_append, hlength, digitsValue_toDigits, hvalue, Nat.div_add_mod]
    norm_num
    ring
  rw [hscaled] at hread
  refine hread.trans (congrArg some ?_)
  unfold signed ofMillionths
  by_cases hn : n < 0
  · rw [if_pos (decide_eq_true hn), Nat.cast_natAbs, abs_of_neg hn]
    push_cast
    ring
  · rw [if_neg (by rw [decide_eq_true_eq]; exact hn), Nat.cast_natAbs, abs_of_nonneg (not_lt.1 hn)]

end Optionia.Php
