import Optionia.Js.Value
import Optionia.Lib.Hex
/-!
# Numbers of texts, and texts of numbers

`Number( text )` reads a whole text, `Number.parseInt( text, 16 )` its
beginning. The bitwise operators work on thirty-two bits, and such a number is
written in base sixteen with a sign. What is written in either base is read as
itself (`number_toDigits`, `parseHex_hexString`).
-/

namespace Optionia.Js

open Decimal Hex

/-! ## `Number` -/

/-- A number of digits alone, in some base, where all of them are its digits. -/
def integerOf (isDigit : Char → Bool) (value : List Char → ℕ) (ds : List Char) : Binary64 :=
  if ds ≠ [] ∧ ds.all isDigit = true then .ofInt (value ds) else .nan

/-- An integer with the mark of its base, `0x`, `0o` or `0b`. -/
def markedInteger? : List Char → Option Binary64
  | z :: c :: ds =>
    if z ≠ '0' then none
    else if c = 'x' ∨ c = 'X' then some (integerOf isHex hexValue ds)
    else if c = 'o' ∨ c = 'O' then
      some (integerOf (fun d => decide (d ∈ "01234567".toList)) (Nat.ofDigitChars 8 · 0) ds)
    else if c = 'b' ∨ c = 'B' then
      some (integerOf (fun d => decide (d ∈ "01".toList)) (Nat.ofDigitChars 2 · 0) ds)
    else none
  | _ => none

/-- `Number( text )`, once white space is taken off both its ends. -/
def numberOf (body : List Char) : Binary64 :=
  if body = [] then .ofInt 0
  else match markedInteger? body with
    | some x => x
    | none =>
      if (splitSign body).2 = "Infinity".toList then .inf (splitSign body).1
      else match literal? body with
        | some q => .ofRat q
        | none => .nan

/-- `Number( text )`. -/
def number (cs : List Char) : Binary64 := numberOf ((cs.dropWhile trimmed).rdropWhile trimmed)

example : number "0x1F".toList = .ofInt 31 := by decide +kernel

example : number "1%eth0".toList = .nan := by decide +kernel

/-- `Number.isInteger`, of a number. -/
def isInteger : Binary64 → Bool
  | .finite v => decide (v.val.den = 1)
  | _ => false

/-! ## `Number.parseInt` in base sixteen -/

/-- The digits after the mark `0x`, where it is there. -/
def unmarked (cs : List Char) : List Char :=
  match cs with
  | z :: c :: ds => if z = '0' ∧ (c = 'x' ∨ c = 'X') then ds else cs
  | _ => cs

/-- The magnitude at the beginning of a text, after its sign. -/
def magnitude? (body : List Char) : Option ℕ :=
  let ds := (unmarked body).takeWhile isHex
  if ds = [] then none else some (hexValue ds)

/-- `Number.parseInt( text, 16 )`, `none` for what is not a number. The integer
is exact: rounding it to a double moves no integer across a bound that is
compared with it. -/
def parseHex (cs : List Char) : Option ℤ :=
  let (negative, body) := splitSign (cs.dropWhile trimmed)
  (magnitude? body).map fun n : ℕ => if negative then -(n : ℤ) else n

/-! ## Thirty-two bits -/

/-- What a bitwise operator makes of a number, `undefined` among them. -/
def int32 : Option Binary64 → BitVec 32
  | some (.finite v) => BitVec.ofInt 32 (Binary64.integerPart v.val)
  | _ => 0

/-- `value.toString( 16 )`, of what a bitwise operator yields. -/
def hexString (bits : BitVec 32) : List Char :=
  signText (decide (bits.toInt < 0)) (Nat.toDigits 16 bits.toInt.natAbs)

/-! ## What is written is read -/

theorem not_trimmed_of_isDigit {c : Char} (h : isDigit c = true) : trimmed c = false := by
  have hle : 48 ≤ c.toNat ∧ c.toNat ≤ 57 := by
    simp only [isDigit, Bool.and_eq_true, decide_eq_true_eq] at h
    exact h
  simp only [trimmed, Bool.or_eq_false_iff, Bool.and_eq_false_iff, decide_eq_false_iff_not,
    List.mem_cons, List.not_mem_nil, or_false]
  omega

theorem not_trimmed_of_isHex {c : Char} (h : isHex c = true) : trimmed c = false := by
  have hle : 48 ≤ c.toNat ∧ c.toNat ≤ 102 := by
    simp only [isHex, Bool.or_eq_true, Bool.and_eq_true, decide_eq_true_eq, Char.le_def,
      UInt32.le_iff_toNat_le] at h
    have hfirst : 48 ≤ c.toNat := by
      rcases h with (⟨h, -⟩ | ⟨h, -⟩) | ⟨h, -⟩
      · exact h
      · exact le_trans (by decide) h
      · exact le_trans (by decide) h
    have hlast : c.toNat ≤ 102 := by
      rcases h with (⟨-, h⟩ | ⟨-, h⟩) | ⟨-, h⟩
      · exact le_trans h (by decide)
      · exact h
      · exact le_trans h (by decide)
    exact ⟨hfirst, hlast⟩
  simp only [trimmed, Bool.or_eq_false_iff, Bool.and_eq_false_iff, decide_eq_false_iff_not,
    List.mem_cons, List.not_mem_nil, or_false]
  omega

theorem same_ofInt {a b : ℤ} (ha : |a| ≤ 2 ^ 53) (hb : |b| ≤ 2 ^ 53) :
    (Binary64.ofInt a).same (.ofInt b) = decide (a = b) := by
  obtain ⟨v, w, hv, hva, hw, hwb⟩ := Binary64.exists_ofInt_pair ha hb
  rw [Binary64.same]
  refine decide_eq_decide.2 ⟨?_, ?_⟩
  · rintro ⟨heq, -⟩
    have hvw : v = w := Binary64.finite.inj (hv.symm.trans (heq.trans hw))
    rw [hvw, hwb] at hva
    exact_mod_cast hva.symm
  · rintro rfl
    exact ⟨rfl, by rw [hv]; exact Binary64.noConfusion⟩

theorem isInteger_ofInt {a : ℤ} (ha : |a| ≤ 2 ^ 53) : isInteger (.ofInt a) = true := by
  obtain ⟨v, hv, hval⟩ := Binary64.exists_ofInt_eq ha
  rw [hv, isInteger, hval, decide_eq_true_eq]
  exact Rat.den_intCast a

theorem markedInteger?_digits {ds : List Char} (h : ∀ c ∈ ds, isDigit c = true) :
    markedInteger? ds = none := by
  cases ds with
  | nil => rfl
  | cons z ds =>
    cases ds with
    | nil => rfl
    | cons c ds =>
      have hc := h c (List.mem_cons_of_mem _ List.mem_cons_self)
      have hne : ∀ d, isDigit d = false → c ≠ d := by
        rintro d hd rfl
        rw [hd] at hc
        cases hc
      rw [markedInteger?]
      simp [hne 'x' rfl, hne 'X' rfl, hne 'o' rfl, hne 'O' rfl, hne 'b' rfl, hne 'B' rfl]

theorem literal?_digits {ds : List Char} (hne : ds ≠ []) (h : ∀ c ∈ ds, isDigit c = true) :
    literal? ds = some (digitsValue ds : ℚ) := by
  have hsign : splitSign ds = (false, ds) := by
    have hsigned : splitSign (signText false ds) = (false, ds) := by
      refine splitSign_signText fun c hc => ?_
      exact h c (List.mem_of_mem_head? hc)
    exact hsigned
  obtain ⟨htake, hdrop⟩ := @takeWhile_digits ds [] h (fun c hc => by cases hc)
  rw [List.append_nil] at htake hdrop
  have hempty : ds.isEmpty = false := List.isEmpty_eq_false_iff.2 hne
  rw [literal?, hsign]
  simp [mantissa?, htake, hdrop, hempty, exponent?, signed, scaled]

/-- **A number in decimal is read as itself.** -/
theorem number_toDigits (n : ℕ) : number (Nat.toDigits 10 n) = .ofInt n := by
  have hdigit : ∀ c ∈ Nat.toDigits 10 n, isDigit c = true := fun c hc =>
    isDigit_of_mem_toDigits hc
  have hne : Nat.toDigits 10 n ≠ [] := Nat.toDigits_ne_nil
  have hleft : (Nat.toDigits 10 n).dropWhile trimmed = Nat.toDigits 10 n := by
    obtain ⟨c, cs, hcs⟩ := List.exists_cons_of_ne_nil hne
    have hc := not_trimmed_of_isDigit (hdigit c (hcs ▸ List.mem_cons_self))
    rw [hcs, List.dropWhile_cons_of_neg (by rw [hc]; exact Bool.false_ne_true)]
  have hright : (Nat.toDigits 10 n).rdropWhile trimmed = Nat.toDigits 10 n :=
    rdropWhile_eq_self fun c hc => not_trimmed_of_isDigit (hdigit c hc)
  have hsign : (splitSign (Nat.toDigits 10 n)).2 ≠ "Infinity".toList := by
    have hsigned : splitSign (signText false (Nat.toDigits 10 n)) = (false, Nat.toDigits 10 n) :=
      splitSign_signText fun c hc => hdigit c (List.mem_of_mem_head? hc)
    change splitSign (Nat.toDigits 10 n) = _ at hsigned
    rw [hsigned]
    intro heq
    change Nat.toDigits 10 n = _ at heq
    have hletter := hdigit 'I' (by rw [heq]; decide)
    exact absurd hletter (by decide)
  rw [number, hleft, hright, numberOf, if_neg hne, markedInteger?_digits hdigit]
  dsimp only
  rw [if_neg hsign, literal?_digits hne hdigit, digitsValue_toDigits]
  rfl

/-- The beginning of a text that is a run of digits, where no mark follows a
zero. -/
theorem magnitude?_append {ds rest : List Char} (hne : ds ≠ []) (hds : ∀ c ∈ ds, isHex c = true)
    (hrest : ∀ c ∈ rest.head?, isHex c = false ∧ c ≠ 'x' ∧ c ≠ 'X') :
    magnitude? (ds ++ rest) = some (hexValue ds) := by
  obtain ⟨d, ds', rfl⟩ := List.exists_cons_of_ne_nil hne
  have hmark : ∀ c ∈ (ds' ++ rest).head?, c ≠ 'x' ∧ c ≠ 'X' := by
    intro c hc
    cases ds' with
    | nil => exact (hrest c hc).2
    | cons c' ds' =>
      obtain rfl : c' = c := Option.some.inj hc
      have hhex := hds c' (by simp)
      refine ⟨?_, ?_⟩
      · rintro rfl
        exact absurd hhex (by decide)
      · rintro rfl
        exact absurd hhex (by decide)
  have hunmarked : unmarked ((d :: ds') ++ rest) = (d :: ds') ++ rest := by
    rw [List.cons_append]
    cases htail : ds' ++ rest with
    | nil => rfl
    | cons c cs =>
      rw [htail] at hmark
      obtain ⟨hx, hX⟩ := hmark c rfl
      exact if_neg fun h => h.2.elim hx hX
  have htake : ((d :: ds') ++ rest).takeWhile isHex = d :: ds' := by
    rw [List.takeWhile_append_of_pos hds]
    have hstop : rest.takeWhile isHex = [] := by
      cases rest with
      | nil => rfl
      | cons c rest =>
        refine List.takeWhile_cons_of_neg ?_
        rw [(hrest c rfl).1]
        exact Bool.false_ne_true
    rw [hstop, List.append_nil]
  rw [magnitude?, hunmarked, htake]
  exact if_neg (List.cons_ne_nil d ds')

/-- A text that opens with a digit has no sign, and nothing before it. -/
theorem parseHex_append {ds rest : List Char} (hne : ds ≠ []) (hds : ∀ c ∈ ds, isHex c = true)
    (hrest : ∀ c ∈ rest.head?, isHex c = false ∧ c ≠ 'x' ∧ c ≠ 'X') :
    parseHex (ds ++ rest) = some (hexValue ds : ℤ) := by
  have hmagnitude := magnitude?_append hne hds hrest
  obtain ⟨d, ds', rfl⟩ := List.exists_cons_of_ne_nil hne
  have hd := hds d List.mem_cons_self
  rw [List.cons_append] at hmagnitude ⊢
  have htrim : (d :: (ds' ++ rest)).dropWhile trimmed = d :: (ds' ++ rest) := by
    refine List.dropWhile_cons_of_neg ?_
    rw [not_trimmed_of_isHex hd]
    exact Bool.false_ne_true
  have hsign : splitSign (d :: (ds' ++ rest)) = (false, d :: (ds' ++ rest)) := by
    have hminus : d ≠ '-' := by
      rintro rfl
      exact absurd hd (by decide)
    have hplus : d ≠ '+' := by
      rintro rfl
      exact absurd hd (by decide)
    unfold splitSign
    split
    · next heq => exact absurd (List.cons.inj heq).1 hminus
    · next heq => exact absurd (List.cons.inj heq).1 hplus
    · rfl
  rw [parseHex, htrim, hsign]
  dsimp only
  rw [hmagnitude]
  rfl

/-- **A number in base sixteen is read as itself.** -/
theorem parseHex_hexString (bits : BitVec 32) : parseHex (hexString bits) = some bits.toInt := by
  have hne : Nat.toDigits 16 bits.toInt.natAbs ≠ [] := Nat.toDigits_ne_nil
  have hhex : ∀ c ∈ Nat.toDigits 16 bits.toInt.natAbs, isHex c = true := fun c hc =>
    isHex_of_mem_toDigits hc
  have hnone : ∀ c ∈ ([] : List Char).head?, isHex c = false ∧ c ≠ 'x' ∧ c ≠ 'X' :=
    fun c hc => by cases hc
  unfold hexString
  by_cases hnegative : bits.toInt < 0
  · have hread := magnitude?_append hne hhex hnone
    rw [List.append_nil, hexValue_toDigits] at hread
    have hdash : ('-' :: Nat.toDigits 16 bits.toInt.natAbs).dropWhile trimmed =
        '-' :: Nat.toDigits 16 bits.toInt.natAbs := List.dropWhile_cons_of_neg (by decide)
    have hsign : splitSign ('-' :: Nat.toDigits 16 bits.toInt.natAbs) =
        (true, Nat.toDigits 16 bits.toInt.natAbs) := rfl
    rw [decide_eq_true hnegative, signText, if_pos rfl, parseHex, hdash, hsign]
    dsimp only
    rw [hread, Option.map_some]
    congr 1
    change -((bits.toInt.natAbs : ℕ) : ℤ) = bits.toInt
    omega
  · have hread := parseHex_append hne hhex hnone
    rw [List.append_nil, hexValue_toDigits] at hread
    rw [decide_eq_false hnegative, signText, if_neg Bool.false_ne_true, hread]
    congr 1
    omega

end Optionia.Js
