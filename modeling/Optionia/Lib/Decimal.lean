import Mathlib.Data.List.DropRight
import Optionia.Lib.Binary64
/-!
# Decimal literals

Reading a decimal literal as the rational it denotes, and writing a rational
back to a number of significant digits. The two grammars read here are the
one with an optional exponent, `[+-]?(\d+\.?\d*|\.\d+)([eE][+-]?\d+)?`, and
the plain one, `[+-]?\d+(\.\d+)?`; both decide at each character, so the
longest run of digits is the only one to try.
-/

namespace Decimal

def isDigit (c : Char) : Bool := decide ('0' ≤ c) && decide (c ≤ '9')

/-- The number a run of digits writes. -/
def digitsValue (ds : List Char) : ℕ := ds.foldl (fun n c => 10 * n + (c.toNat - 48)) 0

/-- The sign a literal opens with, and what follows it. -/
def splitSign : List Char → Bool × List Char
  | '-' :: cs => (true, cs)
  | '+' :: cs => (false, cs)
  | cs => (false, cs)

def signed (negative : Bool) (q : ℚ) : ℚ := if negative then -q else q

/-- The value of the digits before and after the point, times a power of
ten. -/
def scaled (whole fraction : List Char) (exponent : ℤ) : ℚ :=
  digitsValue (whole ++ fraction) * 10 ^ (exponent - fraction.length)

/-- A non-empty run of digits and nothing else. -/
def allDigits (ds : List Char) : Bool := !ds.isEmpty && ds.all isDigit

/-- The exponent part, which may be absent. -/
def exponent? : List Char → Option ℤ
  | [] => some 0
  | c :: cs =>
    if c = 'e' ∨ c = 'E' then
      let (negative, ds) := splitSign cs
      if allDigits ds then
        some (if negative then -(digitsValue ds : ℤ) else digitsValue ds)
      else none
    else none

/-- The digits of a mantissa before and after its point, and what follows. A
point needs digits on one side of it. -/
def mantissa? (cs : List Char) : Option (List Char × List Char × List Char) :=
  let whole := cs.takeWhile isDigit
  match cs.dropWhile isDigit with
  | '.' :: rest =>
    let fraction := rest.takeWhile isDigit
    if whole.isEmpty && fraction.isEmpty then none
    else some (whole, fraction, rest.dropWhile isDigit)
  | rest => if whole.isEmpty then none else some (whole, [], rest)

/-- The value of a literal that may carry an exponent. -/
def literal? (cs : List Char) : Option ℚ :=
  let (negative, body) := splitSign cs
  match mantissa? body with
  | none => none
  | some (whole, fraction, rest) =>
    (exponent? rest).map fun e => signed negative (scaled whole fraction e)

/-- The value of a literal without an exponent, whose point stands between
digits. -/
def plain? (cs : List Char) : Option ℚ :=
  let (negative, body) := splitSign cs
  let whole := body.takeWhile isDigit
  if whole.isEmpty then none
  else match body.dropWhile isDigit with
    | [] => some (signed negative (scaled whole [] 0))
    | '.' :: fraction =>
      if allDigits fraction then some (signed negative (scaled whole fraction 0)) else none
    | _ => none

/-! ## Writing -/

/-- The first `precision` significant digits of a magnitude, rounded, and the
place of its point: `0.d₁d₂… × 10^place`. -/
def significant (precision : ℕ) (q : ℚ) : List Char × ℤ :=
  let place := Int.log 10 |q| + 1
  let n := Binary64.roundHalfEven (|q| / 10 ^ (place - precision))
  if n = 10 ^ precision then (['1'], place + 1)
  else ((toString n).toList.rdropWhile (· = '0'), place)

example : literal? "-1.50e2".toList = some (-150) := by decide +kernel

example : literal? "1e".toList = none := by decide +kernel

/-! ## Digits written and read

The digits of a number are read back as the number, zeros that pad a fraction
on its right change nothing, and a plain literal is read as the digits on
the two sides of its point.
-/

/-! ## The digits of a number -/

theorem digitsValue_eq (ds : List Char) : digitsValue ds = Nat.ofDigitChars 10 ds 0 := rfl

@[simp] theorem digitsValue_toDigits (n : ℕ) : digitsValue (Nat.toDigits 10 n) = n :=
  Nat.ofDigitChars_ten_toDigits

theorem digitsValue_append (ds es : List Char) :
    digitsValue (ds ++ es) = 10 ^ es.length * digitsValue ds + digitsValue es := by
  rw [digitsValue_eq, Nat.ofDigitChars_append, Nat.ofDigitChars_eq_ofDigitChars_zero]
  rfl

theorem digitsValue_replicate_zero (k : ℕ) : digitsValue (List.replicate k '0') = 0 := by
  rw [digitsValue_eq, Nat.ofDigitChars_replicate_zero, Nat.mul_zero]

theorem isDigit_iff {c : Char} : isDigit c = true ↔ c.isDigit = true := by
  unfold isDigit Char.isDigit
  rw [Bool.and_eq_true, Bool.and_eq_true, decide_eq_true_eq, decide_eq_true_eq,
    decide_eq_true_eq, decide_eq_true_eq]
  rfl

theorem isDigit_of_mem_toDigits {n : ℕ} {c : Char} (h : c ∈ Nat.toDigits 10 n) :
    isDigit c = true :=
  isDigit_iff.2 (Nat.isDigit_of_mem_toDigits (by decide) (by decide) h)

/-! ## Trailing characters -/

theorem exists_append_replicate (c : Char) (cs : List Char) :
    ∃ k, cs = cs.rdropWhile (· = c) ++ List.replicate k c := by
  have hsplit : cs.rdropWhile (· = c) ++ cs.rtakeWhile (· = c) = cs :=
    List.rdropWhile_append_rtakeWhile
  have hall : cs.rtakeWhile (· = c) = List.replicate (cs.rtakeWhile (· = c)).length c := by
    refine List.eq_replicate_of_mem fun d hd => ?_
    have htest := List.mem_rtakeWhile_imp hd
    exact of_decide_eq_true htest
  exact ⟨(cs.rtakeWhile (· = c)).length, by rw [← hall, hsplit]⟩

theorem rdropWhile_append_cons {p : Char → Bool} {c : Char} (hc : p c = false)
    (cs ds : List Char) :
    (cs ++ c :: ds).rdropWhile p = cs ++ c :: ds.rdropWhile p := by
  induction ds using List.reverseRecOn with
  | nil =>
    rw [List.rdropWhile_nil]
    exact List.rdropWhile_concat_neg p cs c (by rw [hc]; exact Bool.false_ne_true)
  | append_singleton ds d ih =>
    have hassoc : cs ++ c :: (ds ++ [d]) = (cs ++ c :: ds) ++ [d] := by
      rw [List.append_assoc, List.cons_append]
    rw [hassoc]
    by_cases hd : p d = true
    · rw [List.rdropWhile_concat_pos _ _ _ hd, List.rdropWhile_concat_pos _ _ _ hd, ih]
    · rw [List.rdropWhile_concat_neg _ _ _ hd, List.rdropWhile_concat_neg _ _ _ hd, hassoc]

theorem rdropWhile_eq_self {p : Char → Bool} {cs : List Char} (h : ∀ c ∈ cs, p c = false) :
    cs.rdropWhile p = cs := by
  refine List.rdropWhile_eq_self_iff.2 fun hne => ?_
  rw [h _ (List.getLast_mem hne)]
  exact Bool.false_ne_true

/-! ## Plain literals -/

/-- **Zeros on the right of a fraction change nothing.** -/
theorem scaled_append_zeros (whole fraction : List Char) (k : ℕ) :
    scaled whole (fraction ++ List.replicate k '0') 0 = scaled whole fraction 0 := by
  have hvalue : digitsValue (whole ++ (fraction ++ List.replicate k '0')) =
      10 ^ k * digitsValue (whole ++ fraction) := by
    rw [← List.append_assoc, digitsValue_append, digitsValue_replicate_zero, List.length_replicate,
      Nat.add_zero]
  unfold scaled
  rw [hvalue, List.length_append, List.length_replicate]
  push_cast
  have hpower : (10 : ℚ) ^ (0 - (fraction.length : ℤ)) =
      10 ^ k * 10 ^ (0 - ((fraction.length : ℤ) + k)) := by
    rw [← zpow_natCast, ← zpow_add₀ (by norm_num)]
    congr 1
    ring
  rw [hpower]
  ring

theorem takeWhile_digits {whole rest : List Char} (hwhole : ∀ c ∈ whole, isDigit c = true)
    (hrest : ∀ c ∈ rest.head?, isDigit c = false) :
    (whole ++ rest).takeWhile isDigit = whole ∧ (whole ++ rest).dropWhile isDigit = rest := by
  have hnone : rest.takeWhile isDigit = [] ∧ rest.dropWhile isDigit = rest := by
    cases rest with
    | nil => exact ⟨rfl, rfl⟩
    | cons c rest =>
      have hc := hrest c rfl
      rw [List.takeWhile_cons_of_neg (by rw [hc]; exact Bool.false_ne_true),
        List.dropWhile_cons_of_neg (by rw [hc]; exact Bool.false_ne_true)]
      exact ⟨rfl, rfl⟩
  rw [List.takeWhile_append_of_pos hwhole, List.dropWhile_append_of_pos hwhole, hnone.1, hnone.2,
    List.append_nil]
  exact ⟨rfl, rfl⟩

/-- The point and the digits after it, where there are any. -/
def pointed (fraction : List Char) : List Char :=
  if fraction = [] then [] else '.' :: fraction

/-- A magnitude under a sign, as it is written. -/
def signText (negative : Bool) (body : List Char) : List Char :=
  if negative then '-' :: body else body

theorem splitSign_signText {negative : Bool} {body : List Char}
    (h : ∀ c ∈ body.head?, isDigit c = true) :
    splitSign (signText negative body) = (negative, body) := by
  cases negative with
  | true => rfl
  | false =>
    cases body with
    | nil => rfl
    | cons c body =>
      have hc := h c rfl
      have hminus : c ≠ '-' := by rintro rfl; exact absurd hc (by decide)
      have hplus : c ≠ '+' := by rintro rfl; exact absurd hc (by decide)
      unfold splitSign signText
      rw [if_neg Bool.false_ne_true]
      split
      · next heq => exact absurd (List.cons.inj heq).1 hminus
      · next heq => exact absurd (List.cons.inj heq).1 hplus
      · rfl

/-- **A plain literal is read as the digits about its point.** -/
theorem plain?_eq {negative : Bool} {whole fraction : List Char} (hne : whole ≠ [])
    (hwhole : ∀ c ∈ whole, isDigit c = true) (hfraction : ∀ c ∈ fraction, isDigit c = true) :
    plain? (signText negative (whole ++ pointed fraction)) =
      some (signed negative (scaled whole fraction 0)) := by
  have hsign : splitSign (signText negative (whole ++ pointed fraction)) =
      (negative, whole ++ pointed fraction) := by
    refine splitSign_signText fun c hc => ?_
    obtain ⟨d, ds, rfl⟩ := List.exists_cons_of_ne_nil hne
    obtain rfl : d = c := Option.some.inj hc
    exact hwhole d List.mem_cons_self
  have hpoint : ∀ c ∈ (pointed fraction).head?, isDigit c = false := by
    intro c hc
    unfold pointed at hc
    split at hc
    · simp at hc
    · obtain rfl : '.' = c := Option.some.inj hc
      rfl
  obtain ⟨htake, hdrop⟩ := takeWhile_digits hwhole hpoint
  have hempty : whole.isEmpty = false := by
    cases whole with
    | nil => exact absurd rfl hne
    | cons c whole => rfl
  unfold plain?
  rw [hsign]
  dsimp only
  rw [htake, hdrop, hempty, if_neg Bool.false_ne_true]
  unfold pointed
  by_cases hf : fraction = []
  · rw [if_pos hf, hf]
  · rw [if_neg hf]
    have hdigits : allDigits fraction = true := by
      unfold allDigits
      rw [Bool.and_eq_true, Bool.not_eq_true', List.isEmpty_eq_false_iff, List.all_eq_true]
      exact ⟨hf, hfraction⟩
    exact if_pos hdigits

end Decimal
