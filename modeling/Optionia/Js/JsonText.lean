import Optionia.Php.JsonText
/-!
# JSON text as JavaScript writes it

`JSON.stringify` of a text and of a number. Of a text it escapes the quote, the
backslash and the control characters, and leaves every other character; a
number is written as it prints, and one that is not finite as `null`. Texts are
read back in one way (`jsonQuoting`), and numbers are words (`jsonNumber`).
-/

namespace Optionia.Js

open JsonText

/-! ## Texts -/

/-- The letter that escapes a character after a backslash, where one does. -/
def shortEscape? (c : Char) : Option Char :=
  if c = '"' then some '"' else if c = '\\' then some '\\'
  else if c.toNat = 8 then some 'b' else if c.toNat = 12 then some 'f'
  else if c = '\n' then some 'n' else if c = '\r' then some 'r' else if c = '\t' then some 't'
  else none

def escaped (c : Char) : List Char :=
  match shortEscape? c with
  | some e => ['\\', e]
  | none =>
    if c.toNat < 32 then
      ['\\', 'u', '0', '0', Php.lowerHex (c.toNat / 16), Php.lowerHex (c.toNat % 16)]
    else [c]

/-- What a letter after a backslash stands for. -/
def shortChar (e : Char) : Char :=
  if e = 'b' then Char.ofNat 8 else if e = 'f' then Char.ofNat 12 else if e = 'n' then '\n'
  else if e = 'r' then '\r' else if e = 't' then '\t' else e

/-- The character an escaped text opens with, and what follows. -/
def readEscaped : List Char → Option (Char × List Char)
  | [] => none
  | c :: rest =>
    if c = '\\' then
      match rest with
      | [] => none
      | e :: rest =>
        if e = 'u' then
          match rest with
          | _ :: _ :: h₃ :: h₄ :: rest =>
            some (Char.ofNat (Php.lowerHexValue h₃ * 16 + Php.lowerHexValue h₄), rest)
          | _ => none
        else some (shortChar e, rest)
    else some (c, rest)

/-- **An escaped character is read back**, whatever follows. -/
theorem readEscaped_escaped (c : Char) (rest : List Char) :
    readEscaped (escaped c ++ rest) = some (c, rest) := by
  unfold escaped
  cases hshort : shortEscape? c with
  | some e =>
    have hback : shortChar e = c ∧ e ≠ 'u' := by
      unfold shortEscape? at hshort
      split_ifs at hshort with h h h h h h h <;> obtain rfl := Option.some.inj hshort
      · exact ⟨h.symm, by decide⟩
      · exact ⟨h.symm, by decide⟩
      · exact ⟨Char.toNat_inj.1 (h.symm ▸ rfl), by decide⟩
      · exact ⟨Char.toNat_inj.1 (h.symm ▸ rfl), by decide⟩
      · exact ⟨h.symm, by decide⟩
      · exact ⟨h.symm, by decide⟩
      · exact ⟨h.symm, by decide⟩
    rw [List.cons_append, List.singleton_append]
    unfold readEscaped
    dsimp only
    rw [if_pos rfl, if_neg hback.2, hback.1]
  | none =>
    dsimp only
    by_cases hcontrol : c.toNat < 32
    · have hvalue : c.toNat / 16 * 16 + c.toNat % 16 = c.toNat := by omega
      rw [if_pos hcontrol]
      simp only [List.cons_append, List.nil_append]
      unfold readEscaped
      dsimp only
      rw [if_pos rfl, if_pos rfl, Php.lowerHexValue_lowerHex _ (by omega),
        Php.lowerHexValue_lowerHex _ (by omega), hvalue, Char.ofNat_toNat]
    · have hslash : c ≠ '\\' := by
        intro h
        rw [h] at hshort
        exact absurd hshort (by decide)
      rw [if_neg hcontrol, List.singleton_append]
      unfold readEscaped
      dsimp only
      rw [if_neg hslash]

/-- The texts of `JSON.stringify`. -/
def jsonQuoting : Quoting where
  word := escaped
  ne_nil c := by
    unfold escaped
    split
    · exact List.cons_ne_nil _ _
    · split_ifs <;> exact List.cons_ne_nil _ _
  cancel := by
    intro a b r s h
    have hread := congrArg readEscaped h
    rw [readEscaped_escaped, readEscaped_escaped] at hread
    exact Prod.mk.inj (Option.some.inj hread)
  quote c t h := by
    have hread := readEscaped_escaped c []
    rw [List.append_nil, h] at hread
    have hc : c = '"' := (Prod.mk.inj (Option.some.inj hread)).1.symm
    rw [hc] at h
    exact absurd (List.cons.inj h).1 (by decide)

/-- `JSON.stringify` of a text. -/
def jsonString (s : String) : List Char := quoted jsonQuoting s.toList

example : jsonString "a\"/é\n" = "\"a\\\"/é\\n\"".toList := by decide +kernel

/-! ## Numbers -/

/-! The three literals are words. -/

theorem null_ne_nil : "null".toList ≠ [] := by decide

theorem true_ne_nil : "true".toList ≠ [] := by decide

theorem false_ne_nil : "false".toList ≠ [] := by decide

theorem wordChars_null : ∀ c ∈ "null".toList, wordChar c = true := List.all_eq_true.1 rfl

theorem wordChars_true : ∀ c ∈ "true".toList, wordChar c = true := List.all_eq_true.1 rfl

theorem wordChars_false : ∀ c ∈ "false".toList, wordChar c = true := List.all_eq_true.1 rfl

/-- `null` -/
def nullWord : Word := ⟨"null".toList, null_ne_nil, wordChars_null⟩

/-- `true`, `false` -/
def boolWord : Bool → Word
  | true => ⟨"true".toList, true_ne_nil, wordChars_true⟩
  | false => ⟨"false".toList, false_ne_nil, wordChars_false⟩

theorem magnitudeString_ne_nil (q : ℚ) : magnitudeString q ≠ [] := by
  intro h
  have hlength := congrArg List.length h
  have hrepr : (toString q.num.natAbs).toList ≠ [] := Php.toString_ne_nil q.num.natAbs
  unfold magnitudeString at hlength
  dsimp only at hlength
  split_ifs at hlength with hint hplain hshort <;>
    simp only [List.length_append, List.length_cons, List.length_take, List.length_replicate,
      List.length_nil, List.length_eq_zero_iff] at hlength
  · exact hrepr hlength
  all_goals omega

theorem wordChars_magnitudeString (q : ℚ) : ∀ c ∈ magnitudeString q, wordChar c = true := by
  have hdigits := Php.wordChars_shortest q 17 1
  have hzeros : ∀ n : ℕ, ∀ c ∈ List.replicate n '0', wordChar c = true := fun n c hc => by
    rw [List.eq_of_mem_replicate hc]
    rfl
  have htake : ∀ n, ∀ c ∈ (shortest q 17 1).1.take n, wordChar c = true :=
    fun n c hc => hdigits c (List.mem_of_mem_take hc)
  have hdrop : ∀ n, ∀ c ∈ '.' :: (shortest q 17 1).1.drop n, wordChar c = true := fun n c hc => by
    rcases List.mem_cons.1 hc with rfl | hc
    · rfl
    · exact hdigits c (List.mem_of_mem_drop hc)
  intro c hc
  unfold magnitudeString at hc
  dsimp only at hc
  split_ifs at hc with hint hplain hshort hsmall
  · exact Php.wordChars_repr _ c hc
  · exact (List.mem_append.1 hc).elim (hdigits c) (hzeros _ c)
  · exact (List.mem_append.1 hc).elim (htake _ c) (hdrop _ c)
  · rcases List.mem_cons.1 hc with rfl | hc
    · rfl
    · rcases List.mem_cons.1 hc with rfl | hc
      · rfl
      · exact (List.mem_append.1 hc).elim (hzeros _ c) (hdigits c)
  all_goals
    rcases List.mem_append.1 hc with hc | hc
    · rcases List.mem_append.1 hc with hc | hc
      · exact htake 1 c hc
      · first
          | exact absurd hc List.not_mem_nil
          | exact hdrop 1 c hc
    · rcases List.mem_cons.1 hc with rfl | hc
      · rfl
      · rcases List.mem_cons.1 hc with rfl | hc
        · rfl
        · exact Php.wordChars_repr _ c hc

/-- `JSON.stringify` of a number, as a word. -/
def jsonNumber : Binary64 → Word
  | .finite v =>
    if v.val < 0 then ⟨'-' :: magnitudeString v.val, List.cons_ne_nil _ _, fun c hc => by
      rcases List.mem_cons.1 hc with rfl | hc
      · rfl
      · exact wordChars_magnitudeString v.val c hc⟩
    else ⟨magnitudeString v.val, magnitudeString_ne_nil v.val, wordChars_magnitudeString v.val⟩
  | _ => nullWord

end Optionia.Js
