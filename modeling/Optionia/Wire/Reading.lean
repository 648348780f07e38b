import Optionia.Wire.Rule
/-!
# How the two languages read a string or an operand

The comparisons of the plugin's evaluator and of the JavaScript ones come
down to two readings of a value: as text, and as a number. As text they part
only on an integer no double holds. As a number they part on a string: the
two `trim`s remove different characters, and JavaScript refuses a literal
that overflows where PHP reads it as an infinity. Where both read a number,
it is the same number (`number_eq`).
-/

namespace Optionia.Wire

/-! ## Trimming down to a literal -/

/-- A character decimal literals are made of. -/
def literalChar (c : Char) : Bool :=
  Decimal.isDigit c || c == '+' || c == '-' || c == '.' || c == 'e' || c == 'E'

theorem literalChar_of_isDigit {c : Char} (h : Decimal.isDigit c = true) :
    literalChar c = true := by
  simp [literalChar, h]

theorem literalChar_of_allDigits {ds : List Char} (h : Decimal.allDigits ds = true) :
    ∀ c ∈ ds, literalChar c = true := by
  rw [Decimal.allDigits, Bool.and_eq_true, List.all_eq_true] at h
  exact fun c hc => literalChar_of_isDigit (h.2 c hc)

theorem literalChar_of_splitSign {cs : List Char}
    (h : ∀ c ∈ (Decimal.splitSign cs).2, literalChar c = true) : ∀ c ∈ cs, literalChar c = true := by
  unfold Decimal.splitSign at h
  split at h
  · exact List.forall_mem_cons.2 ⟨by decide, h⟩
  · exact List.forall_mem_cons.2 ⟨by decide, h⟩
  · exact h

theorem literalChar_of_exponent {cs : List Char} {e : ℤ} (h : Decimal.exponent? cs = some e) :
    ∀ c ∈ cs, literalChar c = true := by
  cases cs with
  | nil => exact fun c hc => absurd hc List.not_mem_nil
  | cons c cs =>
    rw [Decimal.exponent?] at h
    split at h
    · rename_i hc
      refine List.forall_mem_cons.2 ⟨?_, literalChar_of_splitSign ?_⟩
      · rcases hc with rfl | rfl <;> decide
      · simp only at h
        split at h
        · rename_i hall
          exact literalChar_of_allDigits hall
        · simp at h
    · simp at h

theorem literalChar_of_mantissa {cs whole fraction rest : List Char}
    (h : Decimal.mantissa? cs = some (whole, fraction, rest))
    (hrest : ∀ c ∈ rest, literalChar c = true) : ∀ c ∈ cs, literalChar c = true := by
  have hdigits : ∀ l : List Char, ∀ c ∈ l.takeWhile Decimal.isDigit, literalChar c = true :=
    fun l c hc => literalChar_of_isDigit (List.mem_takeWhile_imp hc)
  have hsplit : ∀ l : List Char, (∀ c ∈ l.dropWhile Decimal.isDigit, literalChar c = true) →
      ∀ c ∈ l, literalChar c = true := by
    intro l hl c hc
    rw [← List.takeWhile_append_dropWhile (p := Decimal.isDigit) (l := l), List.mem_append] at hc
    exact hc.elim (hdigits l c) (hl c)
  refine hsplit cs ?_
  simp only [Decimal.mantissa?] at h
  split at h
  · rename_i tail heq
    split at h
    · simp at h
    · obtain ⟨-, h⟩ := Prod.mk.inj (Option.some.inj h)
      obtain ⟨-, rfl⟩ := Prod.mk.inj h
      rw [heq]
      exact List.forall_mem_cons.2 ⟨by decide, hsplit tail hrest⟩
  · split at h
    · simp at h
    · obtain ⟨-, h⟩ := Prod.mk.inj (Option.some.inj h)
      obtain ⟨-, rfl⟩ := Prod.mk.inj h
      exact hrest

/-- **A literal is made of literal characters.** -/
theorem literalChar_of_literal {cs : List Char} {q : ℚ} (h : Decimal.literal? cs = some q) :
    ∀ c ∈ cs, literalChar c = true := by
  refine literalChar_of_splitSign ?_
  rw [Decimal.literal?] at h
  simp only at h
  split at h
  · simp at h
  · rename_i heq
    obtain ⟨e, he, -⟩ := Option.map_eq_some_iff.1 h
    exact literalChar_of_mantissa heq (literalChar_of_exponent he)

/-- **Trimming that leaves only literal characters leaves the one run of
them**, whatever else it may remove. -/
theorem trim_eq_core {p : Char → Bool} (hp : ∀ c, p c = true → literalChar c = false)
    {s l : List Char} (h : (s.dropWhile p).rdropWhile p = l)
    (hl : ∀ c ∈ l, literalChar c = true) :
    l = (s.dropWhile fun c => !literalChar c).takeWhile literalChar := by
  have htail : ∀ c ∈ (s.dropWhile p).rtakeWhile p, literalChar c = false :=
    fun c hc => hp c (List.mem_rtakeWhile_imp hc)
  have hhead : ∀ c ∈ s.takeWhile p, (!literalChar c) = true := by
    intro c hc
    rw [hp c (List.mem_takeWhile_imp hc)]
    rfl
  have hs : s = s.takeWhile p ++ (l ++ (s.dropWhile p).rtakeWhile p) := by
    rw [← h, List.rdropWhile_append_rtakeWhile, List.takeWhile_append_dropWhile]
  generalize s.takeWhile p = a at hhead hs
  generalize (s.dropWhile p).rtakeWhile p = b at htail hs
  rw [hs, List.dropWhile_append_of_pos hhead]
  cases l with
  | nil =>
    rw [List.nil_append, List.dropWhile_eq_nil_iff.2 fun c hc => by rw [htail c hc]; rfl]
    rfl
  | cons c l =>
    have hc : (!literalChar c) = false := by rw [hl c List.mem_cons_self]; rfl
    rw [List.cons_append, List.dropWhile_cons_of_neg (by rw [hc]; decide), ← List.cons_append,
      List.takeWhile_append_of_pos hl]
    have hb : b.takeWhile literalChar = [] := by
      cases b with
      | nil => rfl
      | cons d b => rw [List.takeWhile_cons_of_neg (by rw [htail d List.mem_cons_self]; decide)]
    rw [hb, List.append_nil]

theorem literalChar_of_phpTrimmed {c : Char} (h : Php.trimmed c = true) :
    literalChar c = false := by
  simp only [Php.trimmed, Bool.or_eq_true, beq_iff_eq] at h
  rcases h with ((((rfl | rfl) | rfl) | rfl) | rfl) | rfl <;> decide

theorem literalChar_of_jsTrimmed {c : Char} (h : Js.trimmed c = true) :
    literalChar c = false := by
  by_contra hlit
  have hle : c.toNat ≤ 0x7A ∧ 0x2B ≤ c.toNat := by
    rw [Bool.not_eq_false] at hlit
    simp only [literalChar, Decimal.isDigit, Bool.or_eq_true, Bool.and_eq_true, beq_iff_eq,
      decide_eq_true_eq] at hlit
    rcases hlit with ((((⟨h1, h2⟩ | rfl) | rfl) | rfl) | rfl) | rfl
    · have h1' : (0x30 : ℕ) ≤ c.toNat := h1
      have h2' : c.toNat ≤ 0x39 := h2
      omega
    all_goals decide
  simp only [Js.trimmed, Bool.or_eq_true, Bool.and_eq_true, decide_eq_true_eq] at h
  rcases h with h | h
  · simp only [List.mem_cons, List.not_mem_nil, or_false] at h
    omega
  · omega

/-! ## Numbers -/

/-- **A string both languages read as a number, they read as the same
one.** -/
theorem number_eq {s : String} {x y : Binary64}
    (hx : Engine.RuleEvaluator.numericValue (.str s) = some x)
    (hy : Js.numericValue (.str s) = some y) : x = y := by
  rw [Engine.RuleEvaluator.numericValue] at hx
  rw [Js.numericValue] at hy
  obtain ⟨q, hq, rfl⟩ := Option.map_eq_some_iff.1 hx
  obtain ⟨r, hr, hfin⟩ := Option.bind_eq_some_iff.1 hy
  have hcore : (Php.trim s).toList = (Js.trim s).toList := by
    rw [Php.trim, Js.trim, String.toList_ofList, String.toList_ofList] at *
    rw [trim_eq_core (fun c => literalChar_of_phpTrimmed) rfl (literalChar_of_literal hq),
      trim_eq_core (fun c => literalChar_of_jsTrimmed) rfl (literalChar_of_literal hr)]
  rw [hcore, hr] at hq
  rw [Js.finite?] at hfin
  split at hfin
  · rw [← Option.some.inj hfin, Option.some.inj hq]
  · simp at hfin

/-- What is not a string reads as the same number in both languages, or as
none. -/
theorem number_decode {v : Json} (h : ∀ s, v ≠ .str s) :
    Engine.RuleEvaluator.numericValue v.decode = Js.numericValue v.parse := by
  cases v with
  | str s => exact absurd rfl (h s)
  | int n =>
    rw [Json.decode, Json.parse, Php.Value.ofNumber, Js.numericValue, Js.finite?]
    split
    · rfl
    · rfl
  | null => rfl
  | bool b => rfl
  | real q => rfl
  | arr vs => rfl
  | obj es => rfl

/-- What the two languages read of one value, as numbers: the same, where
both read one. -/
def NumbersAgree (x y : Option Binary64) : Prop := ∀ a b, x = some a → y = some b → a = b

theorem numbersAgree_str (s : String) :
    NumbersAgree (Engine.RuleEvaluator.numericValue (.str s)) (Js.numericValue (.str s)) :=
  fun _ _ => number_eq

theorem numbersAgree_decode (v : Json) :
    NumbersAgree (Engine.RuleEvaluator.numericValue v.decode) (Js.numericValue v.parse) := by
  by_cases h : ∃ s, v = .str s
  · obtain ⟨s, rfl⟩ := h
    exact numbersAgree_str s
  · rw [number_decode (not_exists.1 h)]
    intro a b ha hb
    exact Option.some.inj (ha.symm.trans hb)

theorem numbersAgree_answer (a : Answer) :
    NumbersAgree (Engine.RuleEvaluator.numericValue a.toPhp) (Js.numericValue a.toJs) := by
  cases a with
  | one s => exact numbersAgree_str s
  | many ss => exact fun _ _ h => absurd h.symm (Option.some_ne_none _)

/-! ## Text -/

/-- An operand as text, in PHP. -/
def phpText (v : Json) : String := Engine.RuleEvaluator.asString v.decode

/-- An operand as text, in JavaScript. -/
def jsText (v : Json) : String := Js.asString v.parse

theorem toString_neg {n : ℤ} (h : n < 0) :
    String.ofList ('-' :: (toString n.natAbs).toList) = toString n := by
  cases n with
  | ofNat m => exact absurd h (not_lt.2 (Int.natCast_nonneg m))
  | negSucc m =>
    rw [String.ofList_cons, String.ofList_toList]
    rfl

/-- **An integer a double holds is spelled alike**, by its digits. -/
theorem numberString_ofInt {n : ℤ} (h : |n| ≤ 2 ^ 53) :
    Js.numberString (.ofInt n) = toString n := by
  obtain ⟨v, hv, hval⟩ := Binary64.exists_ofInt_eq h
  have hden : ((n : ℚ)).den = 1 ∧ |(n : ℚ)| ≤ 2 ^ 53 := ⟨Rat.den_intCast n, by exact_mod_cast h⟩
  have hmag : Js.magnitudeString n = (toString n.natAbs).toList := by
    rw [Js.magnitudeString, if_pos hden, Rat.num_intCast]
  rw [hv, Js.numberString, hval, hmag]
  by_cases hn : n < 0
  · rw [if_pos (by exact_mod_cast hn), toString_neg hn]
  · rw [if_neg (by exact_mod_cast hn), String.ofList_toList]
    cases n with
    | ofNat m => rfl
    | negSucc m => exact absurd (Int.negSucc_lt_zero m) hn

/-- An operand that is no integer beyond `2^53` is the same text in both
languages. -/
theorem text_eq {v : Json} (hint : ∀ n, v = .int n → |n| ≤ 2 ^ 53) (hreal : ∀ q, v ≠ .real q) :
    phpText v = jsText v := by
  cases v with
  | int n =>
    have hn := hint n rfl
    have hbounds := abs_le.1 hn
    have hrange : -2 ^ 63 ≤ n ∧ n < 2 ^ 63 := by omega
    have hphp : phpText (.int n) = toString n := by
      rw [phpText, Json.decode, Php.Value.ofNumber, if_pos hrange]
      rfl
    rw [hphp, jsText, Json.parse, Js.asString, numberString_ofInt hn]
  | real q => exact absurd rfl (hreal q)
  | null => rfl
  | bool b => rfl
  | str s => rfl
  | arr vs => rfl
  | obj es => rfl

end Optionia.Wire
