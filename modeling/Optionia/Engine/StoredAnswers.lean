import Optionia.Php.Places
import Optionia.Engine.Soundness
/-!
# Numbers and answers as they are stored

`format_number` writes a finite number as its millionths, whichever of its two
branches it takes (`formatNumber_finite`), and `parse_number` reads that text
back to a number that is written the same (`formatNumber_parseNumber`).
-/

namespace Optionia.Engine

open Php

/-! ## Whole numbers -/

theorem exists_abs_eq (v : Binary64.Finite) :
    ∃ w : Binary64.Finite, (Binary64.finite v).abs = .finite w ∧ w.val = |v.val| := by
  obtain ⟨z, hz, hzero⟩ := Binary64.exists_ofInt_eq (n := 0) (by norm_num)
  have hlt : (Binary64.finite v).lt (.ofInt 0) = decide (v.val < 0) := by
    rw [hz, Binary64.lt, hzero, Int.cast_zero]
  unfold Binary64.abs
  rw [hlt]
  by_cases hv : v.val < 0
  · rw [if_pos (decide_eq_true hv)]
    exact ⟨_, rfl, (abs_of_neg hv).symm⟩
  · rw [if_neg (by rw [decide_eq_true_eq]; exact hv)]
    exact ⟨v, rfl, (abs_of_nonneg (not_lt.1 hv)).symm⟩

/-- **The first branch of `format_number` takes whole numbers** of less than
sixteen digits. -/
theorem exists_int_of_floor_eq {v : Binary64.Finite}
    (h : (Binary64.finite v).floor = .finite v ∧
      (Binary64.finite v).abs.lt (.ofInt (10 ^ 15)) = true) :
    ∃ m : ℤ, v.val = m ∧ |m| < 10 ^ 15 := by
  obtain ⟨hfloor, hlt⟩ := h
  obtain ⟨w, hw, hwv⟩ := exists_abs_eq v
  obtain ⟨b, hb, hbound⟩ := Binary64.exists_ofInt_eq (n := 10 ^ 15) (by norm_num)
  rw [hw, hb, Binary64.lt, decide_eq_true_eq, hwv, hbound] at hlt
  have habs := abs_lt.1 hlt
  have hnear : |⌊v.val⌋| ≤ 2 ^ 53 := by
    have hlo : -10 ^ 15 ≤ ⌊v.val⌋ := Int.le_floor.2 (by push_cast at habs ⊢; linarith)
    have hhi : ⌊v.val⌋ < 10 ^ 15 := Int.floor_lt.2 (by push_cast at habs ⊢; linarith)
    exact abs_le.2 ⟨by omega, by omega⟩
  obtain ⟨u, hu, huv⟩ := Binary64.exists_ofInt_eq hnear
  have hval : v.val = ⌊v.val⌋ := by
    have hsame : Binary64.finite u = .finite v := hu.symm.trans hfloor
    rwa [Binary64.finite.inj hsame] at huv
  refine ⟨⌊v.val⌋, hval, ?_⟩
  rw [hval] at hlt
  exact_mod_cast hlt

theorem toString_eq_printed (m : ℤ) : toString m = String.ofList (printed (m * 10 ^ 6)) := by
  have hwhole : (m * 10 ^ 6).natAbs / 10 ^ 6 = m.natAbs := by
    rw [Int.natAbs_mul]
    exact Nat.mul_div_cancel _ (by norm_num)
  have hrest : (m * 10 ^ 6).natAbs % 10 ^ 6 = 0 := by
    rw [Int.natAbs_mul]
    exact Nat.mul_mod_left _ _
  have hsign : decide (m * 10 ^ 6 < 0) = decide (m < 0) := decide_eq_decide.2 (by omega)
  have hzeros : (sixDigits 0).rdropWhile (· = '0') = [] := by decide
  unfold printed Decimal.pointed
  rw [hwhole, hrest, hsign, hzeros, if_pos rfl, List.append_nil, Int.toString_eq_repr,
    Int.repr_eq_if]
  unfold Decimal.signText
  by_cases hm : m < 0
  · have hnat : (-m).toNat = m.natAbs := by omega
    rw [if_neg (not_le.2 hm), if_pos (decide_eq_true hm), hnat, Nat.repr_eq_ofList_toDigits,
      String.ofList_cons]
    rfl
  · have hnat : m.toNat = m.natAbs := by omega
    rw [if_pos (not_lt.1 hm), if_neg (by rw [decide_eq_true_eq]; exact hm), hnat,
      Nat.repr_eq_ofList_toDigits]

theorem truncate_of_int {v : Binary64.Finite} {m : ℤ} (hv : v.val = m) (hm : |m| < 10 ^ 15) :
    Value.truncate (.finite v) = m := by
  have hrange := abs_lt.1 hm
  have hpart : (if v.val < 0 then ⌈v.val⌉ else ⌊v.val⌋) = m := by
    rw [hv, Int.ceil_intCast, Int.floor_intCast, ite_self]
  unfold Value.truncate
  dsimp only
  rw [hpart]
  omega

/-! ## Writing -/

/-- **A finite number is stored as its millionths are printed.** -/
theorem formatNumber_finite (v : Binary64.Finite) :
    formatNumber (.finite v) = String.ofList (printed (millionths v.val)) := by
  unfold formatNumber
  by_cases hwhole : (Binary64.finite v).floor = .finite v ∧
      (Binary64.finite v).abs.lt (.ofInt (10 ^ 15)) = true
  · rw [if_pos hwhole]
    obtain ⟨m, hv, hm⟩ := exists_int_of_floor_eq hwhole
    rw [truncate_of_int hv hm, toString_eq_printed, hv, millionths_intCast]
  · rw [if_neg hwhole]
    have htext : rtrim '.' (rtrim '0' (numberFormat (.finite v))) = printed (millionths v.val) :=
      rdropWhile_sixPlaces _
    dsimp only
    rw [htext, if_neg (printed_ne_nil _)]

/-! ## Reading again -/

theorem trim_printed (n : ℤ) : trim (String.ofList (printed n)) = String.ofList (printed n) := by
  have hkept : ∀ c ∈ printed n, trimmed c = false := by
    intro c hc
    by_contra htrimmed
    have hblank : trimmed c = true := Bool.not_eq_false _ ▸ htrimmed
    simp only [trimmed, Bool.or_eq_true, beq_iff_eq] at hblank
    rcases of_mem_printed hc with rfl | rfl | hdigit
    · exact htrimmed (by decide)
    · exact htrimmed (by decide)
    · rcases hblank with ((((rfl | rfl) | rfl) | rfl) | rfl) | rfl <;>
        exact absurd hdigit (by decide)
  exact trim_ofList (fun c hc => hkept c (List.mem_of_head? hc))
    fun c hc => hkept c (List.mem_of_getLast? hc)

theorem parseNumber_printed (n : ℤ) :
    parseNumber (String.ofList (printed n)) = some (.ofRat (ofMillionths n)) := by
  have hfeed : (printed n).getLast? ≠ some '\n' := by
    intro hlast
    rcases of_mem_printed (List.mem_of_getLast? hlast) with h | h | h
    · exact absurd h (by decide)
    · exact absurd h (by decide)
    · exact absurd h (by decide)
  unfold parseNumber
  rw [String.toList_ofList]
  dsimp only
  rw [if_neg hfeed, plain?_printed]
  rfl

/-- **A number read from what is stored of one is stored the same.** -/
theorem formatNumber_parseNumber {number again : Binary64} (hfinite : number.isFinite = true)
    (h : parseNumber (formatNumber number) = some again) :
    formatNumber again = formatNumber number := by
  obtain ⟨v, rfl⟩ := Binary64.isFinite_iff.1 hfinite
  obtain ⟨w, hw, hmillionths⟩ := exists_ofRat_ofMillionths v
  rw [formatNumber_finite, parseNumber_printed, hw] at h
  obtain rfl := Option.some.inj h
  rw [formatNumber_finite, formatNumber_finite, hmillionths]

end Optionia.Engine

/-! ## Stored answers, read again

What the resolver stores of an answer it reads as that answer again
(`read_stored`), a typed text as long as cleaning leaves it as it is, and a
number as long as its own text is one that the option accepts. Stored choices
are sent back as the same keys and pass the same checks
(`choiceViolation_authored`).
-/

namespace Optionia.Engine.SelectionResolver

open Php Rules

/-- An option answered by typing a text. -/
def readsText (option : Value) : Bool := isFreeText option && !isHidden option

/-- An option answered by writing a number. -/
def readsNumber (option : Value) : Bool := isNumber option && !isHidden option

/-- A stored text is what cleaning makes of it. -/
def CleanText (P : Platform) (option : Value) (text : String) : Prop :=
  readsText option = true → cleanText P text (isMultiline option) = text

/-- A stored number is one that its option accepts. -/
def AcceptedNumber (option : Value) (text : String) : Prop :=
  readsNumber option = true →
    ∃ number, parseNumber text = some number ∧ numberViolation option number = none

/-! ## One reader after another -/

variable {raw answer : String} {P : Platform} {option : Value} {today : Option String}

theorem readFile_stored (h : readFile raw = .taken answer) : readFile answer = .taken answer := by
  have hanswer : answer = trim raw := by
    unfold readFile at h
    split at h
    · exact Reading.noConfusion h
    · split at h
      · exact (Reading.taken.inj h).symm
      · exact Reading.noConfusion h
  have hagain : readFile answer = readFile raw := by
    unfold readFile
    rw [hanswer, trim_trim]
  rw [hagain, h]

theorem readText_stored (hclean : cleanText P answer (isMultiline option) = answer)
    (h : readText P option raw = .taken answer) : readText P option answer = .taken answer := by
  have hanswer : answer = cleanText P raw (isMultiline option) := by
    unfold readText at h
    dsimp only at h
    split at h
    · exact Reading.noConfusion h
    · split at h
      · exact Reading.noConfusion h
      · exact (Reading.taken.inj h).symm
  have hagain : readText P option answer = readText P option raw := by
    unfold readText
    rw [hclean, ← hanswer]
  rw [hagain, h]

theorem readDate_stored (h : readDate P option raw today = .taken answer) :
    readDate P option answer today = .taken answer := by
  have hanswer : answer = trim raw := by
    unfold readDate at h
    split at h
    · exact Reading.noConfusion h
    · split at h
      · exact Reading.noConfusion h
      next date hdate =>
      split at h
      · exact Reading.noConfusion h
      · obtain rfl := Reading.taken.inj h
        unfold parseDate at hdate
        split at hdate
        · simp at hdate
        · split at hdate
          · exact (Option.some.inj hdate).symm
          · simp at hdate
  have hagain : readDate P option answer today = readDate P option raw today := by
    unfold readDate
    rw [hanswer, trim_trim]
  rw [hagain, h]

theorem of_readNumber (h : readNumber option raw = .taken answer) :
    ∃ number, parseNumber (trim raw) = some number ∧ answer = formatNumber number := by
  unfold readNumber at h
  split at h
  · exact Reading.noConfusion h
  · split at h
    · exact Reading.noConfusion h
    next number hnumber =>
    split at h
    · exact Reading.noConfusion h
    · exact ⟨number, hnumber, (Reading.taken.inj h).symm⟩

theorem isFinite_of_parseNumber {number again : Binary64} (hnumber : parseNumber raw = some number)
    (hagain : parseNumber (formatNumber number) = some again) : number.isFinite = true := by
  cases number with
  | finite v => rfl
  | inf negative =>
    have htext : formatNumber (.inf negative) = "inf" := by
      unfold formatNumber
      rw [if_neg]
      · rfl
      · rintro ⟨-, hlt⟩
        cases negative with
        | false => exact absurd hlt (by decide +kernel)
        | true => exact absurd hlt (by decide +kernel)
    have hnone : parseNumber "inf" = none := by decide +kernel
    rw [htext, hnone] at hagain
    simp at hagain
  | nan =>
    unfold parseNumber at hnumber
    obtain ⟨q, -, hq⟩ := Option.map_eq_some_iff.1 hnumber
    unfold Binary64.ofRat at hq
    split at hq <;> cases hq

/-- **A number is stored as text that is read as the same text**, where the
number of that text is still accepted. -/
theorem readNumber_stored
    (haccepted : ∃ number, parseNumber answer = some number ∧ numberViolation option number = none)
    (h : readNumber option raw = .taken answer) : readNumber option answer = .taken answer := by
  obtain ⟨number, hnumber, rfl⟩ := of_readNumber h
  obtain ⟨again, hagain, hnone⟩ := haccepted
  have hfinite := isFinite_of_parseNumber hnumber hagain
  have hsame := formatNumber_parseNumber hfinite hagain
  obtain ⟨v, rfl⟩ := Binary64.isFinite_iff.1 hfinite
  have htrim : trim (formatNumber (.finite v)) = formatNumber (.finite v) := by
    rw [formatNumber_finite]
    exact trim_printed _
  have hne : formatNumber (.finite v) ≠ "" := by
    rw [formatNumber_finite]
    intro hempty
    exact printed_ne_nil _ (String.ofList_eq_empty_iff.1 hempty)
  unfold readNumber
  rw [htrim, if_neg hne, hagain]
  dsimp only
  rw [hnone]
  dsimp only
  rw [hsame]

/-- **What is stored of an answer is read as that answer.** -/
theorem read_stored (hclean : CleanText P option answer) (haccepted : AcceptedNumber option answer)
    (h : read P today option raw = some (.taken answer)) :
    read P today option answer = some (.taken answer) := by
  unfold read at h ⊢
  unfold CleanText readsText at hclean
  unfold AcceptedNumber readsNumber at haccepted
  by_cases hhidden : isHidden option = true
  · rw [if_pos hhidden] at h ⊢
    exact h
  · rw [if_neg hhidden] at h ⊢
    by_cases hfile : isFile option = true
    · rw [if_pos hfile] at h ⊢
      exact congrArg some (readFile_stored (Option.some.inj h))
    rw [if_neg hfile] at h ⊢
    by_cases htext : isFreeText option = true
    · rw [if_pos htext] at h ⊢
      have hfixed := hclean (by rw [htext, eq_false_of_ne_true hhidden]; rfl)
      exact congrArg some (readText_stored hfixed (Option.some.inj h))
    rw [if_neg htext] at h ⊢
    by_cases hdate : isDate option = true
    · rw [if_pos hdate] at h ⊢
      exact congrArg some (readDate_stored (Option.some.inj h))
    rw [if_neg hdate] at h ⊢
    by_cases hnumber : isNumber option = true
    · rw [if_pos hnumber] at h ⊢
      have hstill := haccepted (by rw [hnumber, eq_false_of_ne_true hhidden]; rfl)
      exact congrArg some (readNumber_stored hstill (Option.some.inj h))
    · rw [if_neg hnumber] at h
      simp at h

/-! ## Keys sent back -/

theorem keysSent_str (option : Value) (answer : String) :
    keysSent option (.str answer) = some [answer] := by
  unfold keysSent sentKeys
  have hone : (takesMany option && (Value.str answer).isArray) = false := Bool.and_false _
  rw [hone]
  rfl

/-- **Stored choices are sent back as the same keys.** -/
theorem keysSent_stored {keys : List String} (hnodup : keys.Nodup) (hne : keys ≠ [])
    (hone : takesMany option = false → keys.length ≤ 1) :
    keysSent option (stored option keys) = some keys := by
  unfold stored
  by_cases hmany : takesMany option = true
  · rw [if_pos hmany]
    unfold keysSent sentKeys
    have harray : (takesMany option && (Value.ofList (keys.map .str)).isArray) = true := by
      rw [hmany]
      rfl
    have hscalar : ((keys.map Value.str).all Value.isScalar) = true := by
      rw [List.all_map]
      exact List.all_eq_true.2 fun _ _ => rfl
    have hcast : (keys.map Value.str).map Value.castString = keys := by
      rw [List.map_map]
      exact List.map_id keys
    dsimp only
    rw [if_pos harray, Value.items_ofList, Option.filter_some, if_pos hscalar, Option.map_some,
      hcast, distinct_of_nodup hnodup]
  · rw [if_neg hmany, keysSent_str]
    have hlength := hone (Bool.not_eq_true _ ▸ hmany)
    obtain ⟨key, rest, rfl⟩ := List.exists_cons_of_ne_nil hne
    have hrest : rest = [] := by
      rw [List.length_cons] at hlength
      exact List.eq_nil_of_length_eq_zero (by omega)
    rw [hrest]
    rfl

theorem authored_authored (option : Value) (keys : List String) (hnodup : keys.Nodup)
    (hknown : ∀ key ∈ keys, key ∈ (indexValues option).keys) :
    authored option (authored option keys) = authored option keys := by
  have hlength := (authored_perm hnodup hknown).length_eq
  by_cases hmany : (takesMany option && decide (1 < keys.length)) = true
  · have hfilter : authored option keys =
        (indexValues option).keys.filter fun key => decide (key ∈ keys) := if_pos hmany
    have hagain : authored option (authored option keys) =
        (indexValues option).keys.filter fun key => decide (key ∈ authored option keys) := by
      refine if_pos ?_
      rw [hlength]
      exact hmany
    rw [hagain, hfilter]
    refine List.filter_congr fun key hkey => decide_eq_decide.2 ?_
    rw [List.mem_filter, decide_eq_true_eq]
    exact and_iff_right hkey
  · have hself : authored option keys = keys := if_neg hmany
    rw [hself, hself]

/-- **Keys in the merchant's order pass the checks that the keys passed.** -/
theorem choiceViolation_authored {ctx : Context} {keys : List String} (hnodup : keys.Nodup)
    (h : choiceViolation ctx option keys = none) :
    choiceViolation ctx option (authored option keys) = none := by
  obtain ⟨hknown, -, -, hhidden⟩ := of_choiceViolation h
  have hperm := authored_perm hnodup hknown
  have hsame := authored_authored option keys hnodup hknown
  have hcount : (authored option keys).length = keys.length := hperm.length_eq
  have hany : ∀ test : String → Bool, (authored option keys).any test = keys.any test :=
    fun test => hperm.any_eq
  have hagain : choiceViolation ctx option (authored option keys) =
      choiceViolation ctx option keys := by
    unfold choiceViolation
    dsimp only
    rw [hsame, hcount, hany]
  rw [hagain, h]

end Optionia.Engine.SelectionResolver
