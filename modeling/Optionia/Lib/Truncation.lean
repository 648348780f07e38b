import Optionia.Lib.Decimal
import Mathlib.Algebra.Order.Round
import Mathlib.Data.List.Lex
/-!
# Digits compared and cut off

Digits of one length compare as their values do; a number that opens with no
zero is larger the more digits it has. A fraction cut off after some places
leaves the integer part of the scaled number, and the first digit cut off says
whether what went is a half or more.
-/

namespace Decimal

variable {ds es : List Char}

def Digits (ds : List Char) : Prop := ∀ c ∈ ds, isDigit c = true

theorem Digits.tail {c : Char} (h : Digits (c :: ds)) : Digits ds :=
  fun d hd => h d (List.mem_cons_of_mem c hd)

theorem Digits.append (hds : Digits ds) (hes : Digits es) : Digits (ds ++ es) :=
  fun c hc => (List.mem_append.1 hc).elim (hds c) (hes c)

theorem digits_replicate (k : ℕ) : Digits (List.replicate k '0') :=
  fun _ hc => (List.eq_of_mem_replicate hc) ▸ rfl

def digitValue (c : Char) : ℕ := c.toNat - 48

theorem digitValue_le {c : Char} (h : isDigit c = true) : digitValue c ≤ 9 := by
  unfold isDigit at h
  rw [Bool.and_eq_true, decide_eq_true_eq, decide_eq_true_eq] at h
  have hhigh : c.toNat ≤ '9'.toNat := h.2
  have hnine : '9'.toNat = 57 := rfl
  unfold digitValue
  omega

theorem digitValue_lt_iff {c d : Char} (hc : isDigit c = true) (hd : isDigit d = true) :
    c < d ↔ digitValue c < digitValue d := by
  unfold isDigit at hc hd
  rw [Bool.and_eq_true, decide_eq_true_eq, decide_eq_true_eq] at hc hd
  have hc0 : '0'.toNat ≤ c.toNat := hc.1
  have hd0 : '0'.toNat ≤ d.toNat := hd.1
  have hzero : '0'.toNat = 48 := rfl
  have hlt : c < d ↔ c.toNat < d.toNat := Iff.rfl
  rw [hlt]
  unfold digitValue
  omega

theorem digitValue_pos {c : Char} (h : isDigit c = true) (h0 : c ≠ '0') : 1 ≤ digitValue c := by
  unfold isDigit at h
  rw [Bool.and_eq_true, decide_eq_true_eq, decide_eq_true_eq] at h
  have hlow : '0'.toNat ≤ c.toNat := h.1
  have hzero : '0'.toNat = 48 := rfl
  have hne : c.toNat ≠ 48 := fun heq => h0 (Char.toNat_inj.1 (heq.trans hzero.symm))
  unfold digitValue
  omega

theorem digitsValue_cons (c : Char) (cs : List Char) :
    digitsValue (c :: cs) = digitValue c * 10 ^ cs.length + digitsValue cs := by
  have h := digitsValue_append [c] cs
  have hone : digitsValue [c] = digitValue c := by
    unfold digitsValue digitValue
    rw [List.foldl_cons, List.foldl_nil, Nat.mul_zero, Nat.zero_add]
  rw [hone, List.singleton_append] at h
  rw [h, Nat.mul_comm]

theorem digitsValue_lt (h : Digits ds) : digitsValue ds < 10 ^ ds.length := by
  induction ds with
  | nil => decide
  | cons c cs ih =>
    have hcs := ih h.tail
    have hc := digitValue_le (h c List.mem_cons_self)
    rw [digitsValue_cons, List.length_cons, pow_succ]
    nlinarith

theorem le_digitsValue {c : Char} {cs : List Char} (hc : isDigit c = true) (h0 : c ≠ '0') :
    10 ^ cs.length ≤ digitsValue (c :: cs) := by
  have hpos := Nat.mul_le_mul_right (10 ^ cs.length) (digitValue_pos hc h0)
  rw [digitsValue_cons]
  omega

theorem digitsValue_dropWhile (ds : List Char) :
    digitsValue (ds.dropWhile (· = '0')) = digitsValue ds := by
  induction ds with
  | nil => rfl
  | cons c cs ih =>
    by_cases hc : c = '0'
    · have hdrop : (c :: cs).dropWhile (· = '0') = cs.dropWhile (· = '0') :=
        List.dropWhile_cons_of_pos (decide_eq_true hc)
      rw [hdrop, ih, digitsValue_cons, hc]
      have hzero : digitValue '0' = 0 := rfl
      rw [hzero, Nat.zero_mul, Nat.zero_add]
    · have hdrop : (c :: cs).dropWhile (· = '0') = c :: cs :=
        List.dropWhile_cons_of_neg (by rw [decide_eq_false hc]; exact Bool.false_ne_true)
      rw [hdrop]

/-- **Digits of one length compare as their values.** -/
theorem lex_eq_digitsValue_lt (hds : Digits ds) (hes : Digits es) (hlen : ds.length = es.length) :
    ds.lex es (fun c d => decide (c < d)) = decide (digitsValue ds < digitsValue es) := by
  induction ds generalizing es with
  | nil =>
    obtain rfl := List.length_eq_zero_iff.1 hlen.symm
    rfl
  | cons c cs ih =>
    obtain ⟨d, ds, rfl⟩ : ∃ d ds, es = d :: ds := by
      cases es with
      | nil => exact absurd hlen (Nat.succ_ne_zero _)
      | cons d ds => exact ⟨d, ds, rfl⟩
    rw [List.length_cons, List.length_cons, Nat.add_right_cancel_iff] at hlen
    have hc := hds c List.mem_cons_self
    have hd := hes d List.mem_cons_self
    have htail := ih hds.tail hes.tail hlen
    have hcs := digitsValue_lt hds.tail
    have hds' := digitsValue_lt hes.tail
    rw [List.lex, htail, Bool.eq_iff_iff, Bool.or_eq_true, Bool.and_eq_true, decide_eq_true_eq,
      decide_eq_true_eq, decide_eq_true_eq, beq_iff_eq, digitsValue_cons, digitsValue_cons, hlen]
    rw [hlen] at hcs
    rcases lt_trichotomy c.toNat d.toNat with hlt | heq | hgt
    · have hvalue := (digitValue_lt_iff hc hd).1 hlt
      refine iff_of_true (Or.inl hlt) ?_
      nlinarith
    · obtain rfl := Char.toNat_inj.1 heq
      constructor
      · rintro (h | ⟨-, h⟩)
        · exact absurd h (Nat.lt_irrefl c.toNat)
        · omega
      · intro h
        exact Or.inr ⟨rfl, by omega⟩
    · have hvalue := (digitValue_lt_iff hd hc).1 hgt
      refine iff_of_false ?_ ?_
      · rintro (h | ⟨h, -⟩)
        · exact absurd h (Nat.lt_asymm hgt)
        · exact absurd (congrArg Char.toNat h) hgt.ne'
      · nlinarith

/-! ## Cutting a fraction off -/

variable {whole fraction : List Char} {k : ℕ}

theorem scaled_mul_of_le (h : fraction.length ≤ k) :
    scaled whole fraction 0 * 10 ^ k =
      digitsValue (whole ++ (fraction ++ List.replicate (k - fraction.length) '0')) := by
  obtain ⟨j, rfl⟩ := Nat.exists_eq_add_of_le h
  have hvalue : digitsValue (whole ++ (fraction ++ List.replicate j '0')) =
      10 ^ j * digitsValue (whole ++ fraction) := by
    rw [← List.append_assoc, digitsValue_append, digitsValue_replicate_zero, List.length_replicate,
      Nat.add_zero]
  rw [Nat.add_sub_cancel_left, hvalue, scaled, zero_sub, zpow_neg, zpow_natCast, pow_add]
  push_cast
  have hpos : (10 : ℚ) ^ fraction.length ≠ 0 := by positivity
  field_simp

/-- A longer fraction, scaled: what is kept, and the part that is cut off. -/
theorem scaled_mul_of_lt (h : k < fraction.length) :
    scaled whole fraction 0 * 10 ^ k =
      digitsValue (whole ++ fraction.take k) +
        digitsValue (fraction.drop k) / 10 ^ (fraction.drop k).length := by
  have hsplit : digitsValue (whole ++ fraction) =
      10 ^ (fraction.drop k).length * digitsValue (whole ++ fraction.take k) +
        digitsValue (fraction.drop k) := by
    rw [← digitsValue_append, List.append_assoc, List.take_append_drop]
  have hlength : fraction.length = k + (fraction.drop k).length := by
    rw [List.length_drop]
    omega
  rw [scaled, hsplit, zero_sub, zpow_neg, zpow_natCast, hlength, pow_add]
  push_cast
  have hpos : (10 : ℚ) ^ (fraction.drop k).length ≠ 0 := by positivity
  have hpos' : (10 : ℚ) ^ k ≠ 0 := by positivity
  field_simp

/-- A part that is cut off is less than one, and a half or more where its
first digit says so. -/
theorem cut_off {c : Char} {cs : List Char} (h : Digits (c :: cs)) :
    (digitsValue (c :: cs) : ℚ) / 10 ^ (c :: cs).length < 1 ∧
      ((1 : ℚ) / 2 ≤ digitsValue (c :: cs) / 10 ^ (c :: cs).length ↔ 5 ≤ digitValue c) := by
  have hlt := digitsValue_lt h
  have hcs := digitsValue_lt h.tail
  have hpos : (0 : ℚ) < 10 ^ (c :: cs).length := by positivity
  refine ⟨?_, ?_⟩
  · rw [div_lt_one hpos]
    exact_mod_cast hlt
  · rw [div_le_div_iff₀ two_pos hpos, one_mul]
    have hnat : 10 ^ (c :: cs).length ≤ digitsValue (c :: cs) * 2 ↔ 5 ≤ digitValue c := by
      rw [digitsValue_cons, List.length_cons, pow_succ]
      constructor
      · intro hle
        by_contra hsmall
        have hc : digitValue c ≤ 4 := by omega
        have hmul := Nat.mul_le_mul_right (10 ^ cs.length) hc
        omega
      · intro hc
        have hmul := Nat.mul_le_mul_right (10 ^ cs.length) hc
        omega
    rw [← hnat]
    norm_cast

end Decimal
