import Mathlib.Data.List.Induction
import Mathlib.Tactic.NormNum
/-!
# Hexadecimal

The value of a run of hexadecimal digits of either case, and the digits of a
number, which are read back as the number (`hexValue_toDigits`).
-/

namespace Hex

/-- A hexadecimal digit of either case. -/
def isHex (c : Char) : Bool :=
  (decide ('0' ≤ c) && decide (c ≤ '9')) || (decide ('a' ≤ c) && decide (c ≤ 'f')) ||
    (decide ('A' ≤ c) && decide (c ≤ 'F'))

/-- The value of a hexadecimal digit. -/
def hexDigit (c : Char) : ℕ :=
  if c ≤ '9' then c.toNat - 48 else if c ≤ 'F' then c.toNat - 55 else c.toNat - 87

/-- The number a run of hexadecimal digits writes. -/
def hexValue (cs : List Char) : ℕ := cs.foldl (fun n c => 16 * n + hexDigit c) 0

theorem hexValue_concat (cs : List Char) (c : Char) :
    hexValue (cs ++ [c]) = 16 * hexValue cs + hexDigit c := by
  rw [hexValue, List.foldl_append]
  rfl

theorem hexDigit_le_hexValue (c : Char) (cs : List Char) : hexDigit c ≤ hexValue (c :: cs) := by
  have hgrow : ∀ (cs : List Char) (n : ℕ),
      n ≤ cs.foldl (fun n c => 16 * n + hexDigit c) n := by
    intro cs
    induction cs with
    | nil => exact fun n => le_rfl
    | cons c cs ih =>
      intro n
      have hnext := ih (16 * n + hexDigit c)
      rw [List.foldl_cons]
      omega
  have hfirst := hgrow cs (16 * 0 + hexDigit c)
  rw [hexValue, List.foldl_cons]
  omega

/-- A digit counts less than sixteen. -/
theorem hexDigit_lt {c : Char} (h : isHex c = true) : hexDigit c < 16 := by
  simp only [isHex, Bool.or_eq_true, Bool.and_eq_true, decide_eq_true_eq, Char.le_def,
    UInt32.le_iff_toNat_le] at h
  unfold hexDigit
  split
  · next hle =>
    have hle' : c.toNat ≤ 57 := hle
    omega
  · next hnot =>
    have hnot' : ¬c.toNat ≤ 57 := hnot
    split
    · next hle =>
      have hle' : c.toNat ≤ 70 := hle
      omega
    · next hnot =>
      have hnot'' : ¬c.toNat ≤ 70 := hnot
      have hrange : c.toNat ≤ 102 := by
        rcases h with (⟨-, h⟩ | ⟨-, h⟩) | ⟨-, h⟩
        · exact le_trans h (by decide)
        · exact h
        · exact le_trans h (by decide)
      omega

theorem toLower_eq_digitChar {c : Char} (h : isHex c = true) :
    c.toLower = (hexDigit c).digitChar := by
  have hall : ∀ n < 103, isHex (Char.ofNat n) = true →
      (Char.ofNat n).toLower = (hexDigit (Char.ofNat n)).digitChar := by decide
  have hle : c.toNat < 103 := by
    simp only [isHex, Bool.or_eq_true, Bool.and_eq_true, decide_eq_true_eq, Char.le_def,
      UInt32.le_iff_toNat_le] at h
    rcases h with (⟨-, h⟩ | ⟨-, h⟩) | ⟨-, h⟩
    · exact Nat.lt_succ_of_le (le_trans h (by decide))
    · exact Nat.lt_succ_of_le h
    · exact Nat.lt_succ_of_le (le_trans h (by decide))
  have hchar := hall c.toNat hle
  rw [Char.ofNat_toNat] at hchar
  exact hchar h

theorem eq_of_toLower_eq {c d : Char} (hd : d.toNat < 65) (h : c.toLower = d) : c = d := by
  unfold Char.toLower at h
  split at h
  · next hupper =>
    have hlow : 65 ≤ c.val.toNat := hupper.1
    have hhigh : c.val.toNat ≤ 90 := hupper.2
    have hshift : (c.val + ('a'.val - 'A'.val)).toNat = c.val.toNat + 32 := by
      rw [show 'a'.val - 'A'.val = 32 by decide, UInt32.toNat_add,
        show (32 : UInt32).toNat = 32 from rfl]
      omega
    have hsmall : (c.val + ('a'.val - 'A'.val)).toNat < 65 := by
      rw [← h] at hd
      exact hd
    omega
  · exact h

/-- **So many digits write a number below that power of sixteen.** -/
theorem hexValue_lt {cs : List Char} (h : ∀ c ∈ cs, isHex c = true) :
    hexValue cs < 16 ^ cs.length := by
  induction cs using List.reverseRecOn with
  | nil => decide
  | append_singleton cs c ih =>
    have hc := hexDigit_lt (h c (by simp))
    have hcs := ih fun d hd => h d (List.mem_append_left _ hd)
    rw [hexValue_concat, List.length_append, List.length_singleton, pow_succ]
    omega

/-! ## The digits of a number -/

theorem isHex_digitChar {n : ℕ} (h : n < 16) : isHex n.digitChar = true := by
  have hall : ∀ n : Fin 16, isHex (n : ℕ).digitChar = true := by decide
  exact hall ⟨n, h⟩

theorem hexDigit_digitChar {n : ℕ} (h : n < 16) : hexDigit n.digitChar = n := by
  have hall : ∀ n : Fin 16, hexDigit (n : ℕ).digitChar = n := by decide
  exact hall ⟨n, h⟩

theorem toDigits_step {n : ℕ} (h : ¬n < 16) :
    Nat.toDigits 16 n = Nat.toDigits 16 (n / 16) ++ [(n % 16).digitChar] :=
  Nat.toDigits_of_base_le (by decide) (by omega)

theorem isHex_of_mem_toDigits {n : ℕ} {c : Char} (h : c ∈ Nat.toDigits 16 n) :
    isHex c = true := by
  induction n using Nat.strong_induction_on with
  | _ n ih =>
    by_cases hn : n < 16
    · rw [Nat.toDigits_of_lt_base hn, List.mem_singleton] at h
      rw [h]
      exact isHex_digitChar hn
    · rw [toDigits_step hn, List.mem_append, List.mem_singleton] at h
      rcases h with hmem | rfl
      · exact ih (n / 16) (by omega) hmem
      · exact isHex_digitChar (Nat.mod_lt n (by decide))

/-- **The digits of a number are read as the number.** -/
@[simp] theorem hexValue_toDigits (n : ℕ) : hexValue (Nat.toDigits 16 n) = n := by
  induction n using Nat.strong_induction_on with
  | _ n ih =>
    by_cases hn : n < 16
    · rw [Nat.toDigits_of_lt_base hn]
      have hdigit := hexDigit_digitChar hn
      simpa [hexValue] using hdigit
    · have hdigit := hexDigit_digitChar (Nat.mod_lt n (show 0 < 16 by decide))
      rw [toDigits_step hn, hexValue_concat, ih (n / 16) (by omega), hdigit]
      omega

end Hex
