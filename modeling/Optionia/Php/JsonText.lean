import Mathlib.Tactic.SplitIfs
import Optionia.Lib.JsonText
import Optionia.Js.Value
import Optionia.Php.Value
/-!
# JSON text as PHP writes it

`json_encode` without options: a text is escaped to ASCII, in UTF-16 units
beyond it; an array whose keys are `0`, `1`, … is a list, and any other a
record. Nothing is written of an infinite float, or of arrays too deep. What
is written is read back in one way, but for a float, which may read as an
integer (`eq_of_tree`, `eq_of_tree_ints`).
-/

namespace Optionia.Php

open JsonText

/-! ## Escaping -/

def utf16Units (c : Char) : List UInt16 :=
  if c.toNat < 0x10000 then [UInt16.ofNat c.toNat]
  else [UInt16.ofNat (0xD800 + (c.toNat - 0x10000) / 1024),
    UInt16.ofNat (0xDC00 + (c.toNat - 0x10000) % 1024)]

theorem not_surrogate (c : Char) : c.toNat < 0xD800 ∨ 0xDFFF < c.toNat := by
  rcases c.valid with h | h
  · exact Or.inl h
  · exact Or.inr h.1

def utf16 : Code Char UInt16 where
  word := utf16Units
  ne_nil c := by
    unfold utf16Units
    split_ifs <;> exact List.cons_ne_nil _ _
  cancel := by
    intro a b r s h
    have hvalue : ∀ {n m : ℕ}, n < 65536 → m < 65536 → UInt16.ofNat n = UInt16.ofNat m → n = m := by
      intro n m hn hm heq
      have hnat := congrArg UInt16.toNat heq
      rwa [UInt16.toNat_ofNat_of_lt' hn, UInt16.toNat_ofNat_of_lt' hm] at hnat
    have hbound : ∀ c : Char, c.toNat < 0x110000 := fun c => by
      rcases c.valid with h | h
      · exact lt_trans h (by decide)
      · exact h.2
    have ha := not_surrogate a
    have hb := not_surrogate b
    have hamax := hbound a
    have hbmax := hbound b
    unfold utf16Units at h
    split_ifs at h with hsmall hsmall' hsmall'
    · obtain ⟨hhead, hrest⟩ := List.cons.inj h
      exact ⟨Char.toNat_inj.1 (hvalue hsmall hsmall' hhead), hrest⟩
    · have hhead := hvalue hsmall (by omega) (List.cons.inj h).1
      omega
    · have hhead := hvalue (by omega) hsmall' (List.cons.inj h).1
      omega
    · obtain ⟨hhigh, htail⟩ := List.cons.inj h
      obtain ⟨hlow, hrest⟩ := List.cons.inj htail
      have hhigh := hvalue (by omega) (by omega) hhigh
      have hlow := hvalue (by omega) (by omega) hlow
      exact ⟨Char.toNat_inj.1 (by omega), hrest⟩

/-- A hexadecimal digit in lower case. -/
def lowerHex (n : ℕ) : Char := if n < 10 then Char.ofNat (48 + n) else Char.ofNat (87 + n)

def lowerHexValue (c : Char) : ℕ := if c.toNat < 58 then c.toNat - 48 else c.toNat - 87

/-- The letter that escapes a unit after a backslash, where one does. -/
def shortEscape? (u : UInt16) : Option Char :=
  if u = 34 then some '"' else if u = 92 then some '\\' else if u = 47 then some '/'
  else if u = 8 then some 'b' else if u = 12 then some 'f' else if u = 10 then some 'n'
  else if u = 13 then some 'r' else if u = 9 then some 't' else none

def escapeUnit (u : UInt16) : List Char :=
  match shortEscape? u with
  | some c => ['\\', c]
  | none =>
    if 32 ≤ u ∧ u < 128 then [Char.ofNat u.toNat]
    else ['\\', 'u', lowerHex (u.toNat / 4096), lowerHex (u.toNat / 256 % 16),
      lowerHex (u.toNat / 16 % 16), lowerHex (u.toNat % 16)]

/-- What a letter after a backslash stands for. -/
def shortUnit (c : Char) : UInt16 :=
  if c = 'b' then 8 else if c = 'f' then 12 else if c = 'n' then 10 else if c = 'r' then 13
  else if c = 't' then 9 else UInt16.ofNat c.toNat

/-- The unit an escaped text opens with, and what follows. -/
def readUnit : List Char → Option (UInt16 × List Char)
  | [] => none
  | c :: rest =>
    if c = '\\' then
      match rest with
      | [] => none
      | e :: rest =>
        if e = 'u' then
          match rest with
          | h₁ :: h₂ :: h₃ :: h₄ :: rest =>
            some (UInt16.ofNat (((lowerHexValue h₁ * 16 + lowerHexValue h₂) * 16
              + lowerHexValue h₃) * 16 + lowerHexValue h₄), rest)
          | _ => none
        else some (shortUnit e, rest)
    else some (UInt16.ofNat c.toNat, rest)

theorem lowerHexValue_lowerHex : ∀ n < 16, lowerHexValue (lowerHex n) = n := by
  decide

/-- **An escaped unit is read back**, whatever follows. -/
theorem readUnit_escapeUnit (u : UInt16) (rest : List Char) :
    readUnit (escapeUnit u ++ rest) = some (u, rest) := by
  unfold escapeUnit
  cases hshort : shortEscape? u with
  | some c =>
    unfold shortEscape? at hshort
    split_ifs at hshort with h h h h h h h h <;>
      (obtain rfl := Option.some.inj hshort; rw [h]; rfl)
  | none =>
    dsimp only
    by_cases hself : 32 ≤ u ∧ u < 128
    · have hsmall : u.toNat < 128 := hself.2
      have hvalid : (Char.ofNat u.toNat).toNat = u.toNat := by
        rw [Char.ofNat, dif_pos (Or.inl (by omega))]
        rfl
      have hslash : Char.ofNat u.toNat ≠ '\\' := by
        intro heq
        have hu : u = 92 := by
          refine UInt16.toNat_inj.1 ?_
          rw [← hvalid, heq]
          rfl
        rw [hu] at hshort
        exact absurd hshort (by decide)
      rw [if_pos hself, List.singleton_append]
      unfold readUnit
      dsimp only
      rw [if_neg hslash, hvalid, UInt16.ofNat_toNat]
    · have hbound := u.toNat_lt
      have hdigits : ((u.toNat / 4096 * 16 + u.toNat / 256 % 16) * 16 + u.toNat / 16 % 16) * 16
          + u.toNat % 16 = u.toNat := by omega
      rw [if_neg hself, List.cons_append, List.cons_append, List.cons_append, List.cons_append,
        List.cons_append, List.cons_append, List.nil_append]
      unfold readUnit
      dsimp only
      rw [if_pos rfl, if_pos rfl, lowerHexValue_lowerHex _ (by omega), lowerHexValue_lowerHex _ (by omega),
        lowerHexValue_lowerHex _ (by omega), lowerHexValue_lowerHex _ (by omega), hdigits,
        UInt16.ofNat_toNat]

def unitCode : Code UInt16 Char where
  word := escapeUnit
  ne_nil u := by
    unfold escapeUnit
    split
    · exact List.cons_ne_nil _ _
    · split_ifs <;> exact List.cons_ne_nil _ _
  cancel := by
    intro a b r s h
    have hread := congrArg readUnit h
    rw [readUnit_escapeUnit, readUnit_escapeUnit] at hread
    exact Prod.mk.inj (Option.some.inj hread)

theorem escapeUnit_ne_quote (u : UInt16) (t : List Char) : escapeUnit u ≠ '"' :: t := by
  intro h
  have hread := readUnit_escapeUnit u []
  rw [List.append_nil, h] at hread
  have hu : u = 34 := (Prod.mk.inj (Option.some.inj hread)).1.symm
  rw [hu] at h
  exact absurd (List.cons.inj h).1 (by decide)

/-- The texts of `json_encode`. -/
def jsonQuoting : Quoting where
  toCode := utf16.comp unitCode
  quote c t h := by
    have hunits : ∀ us : List UInt16, us ≠ [] → unitCode.write us ≠ '"' :: t := by
      intro us hne heq
      cases us with
      | nil => exact hne rfl
      | cons u us =>
        rw [Code.write_cons] at heq
        cases hu : escapeUnit u with
        | nil => exact unitCode.ne_nil u hu
        | cons d ds =>
          rw [show unitCode.word u = escapeUnit u from rfl, hu, List.cons_append] at heq
          exact escapeUnit_ne_quote u ds (by rw [hu, (List.cons.inj heq).1])
    exact hunits (utf16.word c) (utf16.ne_nil c) h

example : jsonQuoting.write "a\"/é😀\n".toList = "a\\\"\\/\\u00e9\\ud83d\\ude00\\n".toList := by
  decide +kernel

/-! ## Words -/

theorem wordChar_of_isDigit {c : Char} (h : c.isDigit = true) : wordChar c = true := by
  unfold wordChar Char.isAlphanum
  rw [h, Bool.or_true]
  rfl

theorem wordChars_repr (n : ℕ) : ∀ c ∈ n.repr.toList, wordChar c = true := by
  intro c hc
  rw [Nat.toList_repr] at hc
  exact wordChar_of_isDigit (Nat.isDigit_of_mem_toDigits (by decide) (by decide) hc)

theorem wordChars_toString (n : ℤ) : ∀ c ∈ (toString n).toList, wordChar c = true := by
  intro c hc
  rw [Int.toString_eq_repr, Int.repr_eq_if] at hc
  split_ifs at hc with hn
  · exact wordChars_repr _ c hc
  · rw [String.toList_append, List.mem_append] at hc
    rcases hc with hc | hc
    · obtain rfl := List.mem_singleton.1 hc
      rfl
    · exact wordChars_repr _ c hc

theorem toString_ne_nil (n : ℤ) : (toString n).toList ≠ [] := by
  rw [Int.toString_eq_repr, Int.repr_eq_if]
  split_ifs
  · rw [Nat.toList_repr]
    exact Nat.toDigits_ne_nil
  · rw [String.toList_append]
    exact List.cons_ne_nil _ _

theorem repr_injective {a b : ℕ} (h : a.repr = b.repr) : a = b := by
  have hlist := congrArg (fun s => Nat.ofDigitChars 10 s.toList 0) h
  simpa only [Nat.toList_repr, Nat.ofDigitChars_ten_toDigits] using hlist

theorem toString_injective {m n : ℤ} (h : toString m = toString n) : m = n := by
  have hsign : ∀ a b : ℕ, a.repr ≠ "-" ++ b.repr := by
    intro a b hab
    have hmem : '-' ∈ a.repr.toList := by
      rw [hab, String.toList_append]
      exact List.mem_cons_self
    rw [Nat.toList_repr] at hmem
    exact absurd (Nat.isDigit_of_mem_toDigits (by decide) (by decide) hmem) (by decide)
  rw [Int.toString_eq_repr, Int.toString_eq_repr, Int.repr_eq_if, Int.repr_eq_if] at h
  split_ifs at h with hm hn hn
  · have := repr_injective h
    omega
  · exact absurd h (hsign _ _)
  · exact absurd h.symm (hsign _ _)
  · have hlist := congrArg String.toList h
    rw [String.toList_append, String.toList_append] at hlist
    have := repr_injective (String.toList_injective (List.append_cancel_left hlist))
    omega

/-- The text of a magnitude: its shortest digits. -/
def jsonMagnitude (q : ℚ) : List Char :=
  let (digits, place) := Js.shortest q 17 1
  if place < -3 ∨ 17 < place then
    (Value.withExponent digits place).map fun c => if c = 'E' then 'e' else c
  else Value.pointAt digits place

def jsonFloat : Binary64 → List Char
  | .finite v =>
    if v.val = 0 then ['0']
    else if v.val < 0 then '-' :: jsonMagnitude v.val
    else jsonMagnitude v.val
  | .inf s => if s then "-INF".toList else "INF".toList
  | .nan => "NAN".toList

theorem wordChars_significant (precision : ℕ) (q : ℚ) :
    ∀ c ∈ (Decimal.significant precision q).1, wordChar c = true := by
  intro c hc
  unfold Decimal.significant at hc
  dsimp only at hc
  split_ifs at hc
  · obtain rfl := List.mem_singleton.1 hc
    rfl
  · exact wordChars_toString _ c ((List.rdropWhile_prefix _ _).mem hc)

theorem wordChars_shortest (q : ℚ) (fuel precision : ℕ) :
    ∀ c ∈ (Js.shortest q fuel precision).1, wordChar c = true := by
  induction fuel generalizing precision with
  | zero => exact wordChars_significant precision q
  | succ fuel ih =>
    unfold Js.shortest
    dsimp only
    split_ifs
    · exact wordChars_significant precision q
    · exact ih (precision + 1)

theorem wordChars_withExponent {digits : List Char} (place : ℤ)
    (h : ∀ c ∈ digits, wordChar c = true) :
    ∀ c ∈ Value.withExponent digits place, wordChar c = true := by
  intro c hc
  unfold Value.withExponent at hc
  dsimp only at hc
  simp only [List.mem_append, List.mem_cons] at hc
  rcases hc with (hc | rfl | hc) | rfl | rfl | hc
  · exact h c (List.mem_of_mem_take hc)
  · rfl
  · split_ifs at hc
    · obtain rfl := List.mem_singleton.1 hc
      rfl
    · exact h c (List.mem_of_mem_drop hc)
  · rfl
  · split_ifs <;> rfl
  · exact wordChars_repr _ c hc

theorem wordChars_pointAt {digits : List Char} (place : ℤ)
    (h : ∀ c ∈ digits, wordChar c = true) :
    ∀ c ∈ Value.pointAt digits place, wordChar c = true := by
  have hzeros : ∀ (n : ℕ), ∀ c ∈ List.replicate n '0', wordChar c = true := fun n c hc => by
    rw [List.eq_of_mem_replicate hc]
    rfl
  intro c hc
  unfold Value.pointAt at hc
  dsimp only at hc
  split_ifs at hc
  · simp only [List.mem_cons, List.mem_append] at hc
    rcases hc with rfl | rfl | hc | hc
    · rfl
    · rfl
    · exact hzeros _ c hc
    · exact h c hc
  · rcases List.mem_append.1 hc with hc | hc
    · exact h c (List.mem_of_mem_take hc)
    · exact hzeros _ c hc
  · simp only [List.mem_cons, List.mem_append] at hc
    rcases hc with (hc | hc) | rfl | hc
    · exact h c (List.mem_of_mem_take hc)
    · exact hzeros _ c hc
    · rfl
    · exact h c (List.mem_of_mem_drop hc)

theorem pointAt_ne_nil (digits : List Char) (place : ℤ) : Value.pointAt digits place ≠ [] := by
  intro h
  have hlength := congrArg List.length h
  unfold Value.pointAt at hlength
  dsimp only at hlength
  split_ifs at hlength <;>
    simp only [List.length_cons, List.length_append, List.length_take, List.length_replicate,
      List.length_nil] at hlength <;> omega

theorem jsonMagnitude_ne_nil (q : ℚ) : jsonMagnitude q ≠ [] := by
  unfold jsonMagnitude
  dsimp only
  split_ifs
  · rw [Ne, List.map_eq_nil_iff]
    unfold Value.withExponent
    intro h
    have hlength := congrArg List.length h
    simp only [List.length_append, List.length_cons, List.length_nil] at hlength
    omega
  · exact pointAt_ne_nil _ _

theorem wordChars_jsonMagnitude (q : ℚ) : ∀ c ∈ jsonMagnitude q, wordChar c = true := by
  have hdigits := wordChars_shortest q 17 1
  intro c hc
  unfold jsonMagnitude at hc
  dsimp only at hc
  split_ifs at hc
  · obtain ⟨d, hd, rfl⟩ := List.mem_map.1 hc
    split_ifs
    · rfl
    · exact wordChars_withExponent _ hdigits d hd
  · exact wordChars_pointAt _ hdigits c hc

theorem jsonFloat_word (x : Binary64) :
    jsonFloat x ≠ [] ∧ ∀ c ∈ jsonFloat x, wordChar c = true := by
  unfold jsonFloat
  cases x with
  | inf s => cases s <;> exact ⟨by decide, List.all_eq_true.1 (by decide)⟩
  | nan => exact ⟨by decide, List.all_eq_true.1 (by decide)⟩
  | finite v =>
    dsimp only
    split_ifs
    · exact ⟨by decide, List.all_eq_true.1 (by decide)⟩
    · refine ⟨List.cons_ne_nil _ _, fun c hc => ?_⟩
      rcases List.mem_cons.1 hc with rfl | hc
      · rfl
      · exact wordChars_jsonMagnitude v.val c hc
    · exact ⟨jsonMagnitude_ne_nil v.val, wordChars_jsonMagnitude v.val⟩

example : String.ofList (jsonFloat (.ofRat (1 / 10))) = "0.1" := by decide +kernel

example : String.ofList (jsonFloat (.ofRat (10 ^ 25))) = "1.0e+25" := by decide +kernel

/-! ## Encoding -/

/-- `array_is_list`: the keys are `0`, `1`, …. -/
def isListArray (es : List (String × Value)) : Bool :=
  decide (es.map Prod.fst = (List.range es.length).map toString)

def intWord (n : ℤ) : Word := ⟨(toString n).toList, toString_ne_nil n, wordChars_toString n⟩

def floatWord (x : Binary64) : Word := ⟨jsonFloat x, (jsonFloat_word x).1, (jsonFloat_word x).2⟩

mutual

/-- What is spelled of a value. -/
def jsonTree : Value → Tree
  | .null => .word ⟨"null".toList, by decide, List.all_eq_true.1 (by decide)⟩
  | .bool true => .word ⟨"true".toList, by decide, List.all_eq_true.1 (by decide)⟩
  | .bool false => .word ⟨"false".toList, by decide, List.all_eq_true.1 (by decide)⟩
  | .int n => .word (intWord n)
  | .float x => .word (floatWord x)
  | .str s => .text s.toList
  | .arr es => if isListArray es then .list (jsonItems es) else .record (jsonMembers es)

def jsonItems : List (String × Value) → List Tree
  | [] => []
  | (_, v) :: es => jsonTree v :: jsonItems es

def jsonMembers : List (String × Value) → List (List Char × Tree)
  | [] => []
  | (k, v) :: es => (k.toList, jsonTree v) :: jsonMembers es

end

mutual

/-- Whether a value inside so many arrays can be spelled. -/
def jsonFits : ℕ → Value → Bool
  | _, .float x => x.isFinite
  | depth, .arr es => decide (depth < 512) && jsonFitsAll (depth + 1) es
  | _, _ => true

/-- Whether all of an array can. -/
def jsonFitsAll : ℕ → List (String × Value) → Bool
  | _, [] => true
  | depth, (_, v) :: es => jsonFits depth v && jsonFitsAll depth es

end

/-- `wp_json_encode`, as text: `false` reads as none. -/
def wpJsonEncode (v : Value) : String :=
  if jsonFits 0 v then String.ofList (print jsonQuoting (jsonTree v)) else ""

example : wpJsonEncode (.arr [("o", .str "a/b"), ("m", .ofList [.int 1, .bool true])]) =
    "\x7b\"o\":\"a\\/b\",\"m\":[1,true]\x7d" := by decide +kernel

theorem length_jsonItems (es : List (String × Value)) : (jsonItems es).length = es.length := by
  induction es with
  | nil => rfl
  | cons p es ih => rw [jsonItems, List.length_cons, List.length_cons, ih]

/-! ## Reading back -/

/-- **A spelled value is read back up to a bar**, as the tree it was spelled
from. -/
theorem wpJsonEncode_cancel {a b : Value} {r s : List Char} (ha : jsonFits 0 a = true)
    (h : (wpJsonEncode a).toList ++ '|' :: r = (wpJsonEncode b).toList ++ '|' :: s) :
    jsonTree a = jsonTree b ∧ r = s := by
  unfold wpJsonEncode at h
  rw [if_pos ha, String.toList_ofList] at h
  split_ifs at h
  · rw [String.toList_ofList] at h
    obtain ⟨htree, hrest⟩ := print_cancel jsonQuoting (jsonTree a) (jsonTree b)
      (ended_cons (by decide)) (ended_cons (by decide)) h
    exact ⟨htree, (List.cons.inj hrest).2⟩
  · obtain ⟨rest, hprint⟩ := print_eq_cons jsonQuoting (jsonTree a)
    rw [hprint] at h
    exact absurd (List.cons.inj h).1
      (opening_ne (by decide) (by decide) (by decide) (by decide))

/-- Entries of one array are those of another, where the values spelled alike
are the same. -/
theorem eq_of_entries {es fs : List (String × Value)}
    (hvalue : ∀ p ∈ es, ∀ q ∈ fs, jsonTree p.2 = jsonTree q.2 → p.2 = q.2)
    (h : jsonTree (.arr es) = jsonTree (.arr fs)) : es = fs := by
  have hitems : ∀ es fs : List (String × Value),
      (∀ p ∈ es, ∀ q ∈ fs, jsonTree p.2 = jsonTree q.2 → p.2 = q.2) →
      es.map Prod.fst = fs.map Prod.fst → jsonItems es = jsonItems fs → es = fs := by
    intro es
    induction es with
    | nil => exact fun fs _ hkeys _ => (List.map_eq_nil_iff.1 hkeys.symm).symm
    | cons p es ih =>
      intro fs hvalue hkeys h
      cases fs with
      | nil => exact absurd hkeys (List.cons_ne_nil _ _)
      | cons q fs =>
        rw [jsonItems, jsonItems] at h
        obtain ⟨htree, hrest⟩ := List.cons.inj h
        obtain ⟨hkey, hkeys⟩ := List.cons.inj hkeys
        have hpq := hvalue p List.mem_cons_self q List.mem_cons_self htree
        rw [Prod.ext hkey hpq, ih fs (fun p hp q hq => hvalue p (List.mem_cons_of_mem _ hp) q
          (List.mem_cons_of_mem _ hq)) hkeys hrest]
  have hmembers : ∀ es fs : List (String × Value),
      (∀ p ∈ es, ∀ q ∈ fs, jsonTree p.2 = jsonTree q.2 → p.2 = q.2) →
      jsonMembers es = jsonMembers fs → es = fs := by
    intro es
    induction es with
    | nil =>
      intro fs _ h
      cases fs with
      | nil => rfl
      | cons q fs =>
        rw [jsonMembers, jsonMembers] at h
        exact absurd h.symm (List.cons_ne_nil _ _)
    | cons p es ih =>
      intro fs hvalue h
      cases fs with
      | nil =>
        rw [jsonMembers, jsonMembers] at h
        exact absurd h (List.cons_ne_nil _ _)
      | cons q fs =>
        rw [jsonMembers, jsonMembers] at h
        obtain ⟨hhead, hrest⟩ := List.cons.inj h
        obtain ⟨hkey, htree⟩ := Prod.mk.inj hhead
        have hpq := hvalue p List.mem_cons_self q List.mem_cons_self htree
        rw [Prod.ext (String.toList_injective hkey) hpq, ih fs (fun p hp q hq =>
          hvalue p (List.mem_cons_of_mem _ hp) q (List.mem_cons_of_mem _ hq)) hrest]
  rw [jsonTree, jsonTree] at h
  split_ifs at h with hes hfs hfs
  · have h := Tree.list.inj h
    refine hitems es fs hvalue ?_ h
    rw [of_decide_eq_true hes, of_decide_eq_true hfs, ← length_jsonItems es, h, length_jsonItems]
  · exact hmembers es fs hvalue (Tree.record.inj h)

mutual

/-- A value made of texts alone. -/
def Value.textual : Value → Bool
  | .str _ => true
  | .arr es => textualEntries es
  | _ => false

def Value.textualEntries : List (String × Value) → Bool
  | [] => true
  | (_, v) :: es => v.textual && textualEntries es

end

theorem textual_of_mem {es : List (String × Value)} (h : Value.textualEntries es = true) :
    ∀ p ∈ es, p.2.textual = true := by
  induction es with
  | nil => exact fun p hp => absurd hp List.not_mem_nil
  | cons q es ih =>
    rw [Value.textualEntries, Bool.and_eq_true] at h
    intro p hp
    rcases List.mem_cons.1 hp with rfl | hp
    · exact h.1
    · exact ih h.2 p hp

/-- **A value of texts is told from any other** by what is spelled of it. -/
theorem eq_of_tree (a b : Value) (ha : a.textual = true) (h : jsonTree a = jsonTree b) : a = b := by
  match a with
  | .str s =>
    cases b with
    | str t =>
      rw [jsonTree, jsonTree] at h
      rw [String.toList_injective (Tree.text.inj h)]
    | arr fs =>
      rw [jsonTree, jsonTree] at h
      split_ifs at h
    | bool b => cases b <;> (rw [jsonTree, jsonTree] at h; exact Tree.noConfusion h)
    | _ =>
      rw [jsonTree, jsonTree] at h
      exact Tree.noConfusion h
  | .arr es =>
    cases b with
    | arr fs =>
      have htextual := textual_of_mem ha
      rw [eq_of_entries (fun p hp q _ => eq_of_tree p.2 q.2 (htextual p hp)) h]
    | bool b =>
      cases b <;> (rw [jsonTree, jsonTree] at h; split_ifs at h)
    | _ =>
      rw [jsonTree, jsonTree] at h
      split_ifs at h
termination_by sizeOf a
decreasing_by
  have hmem := List.sizeOf_lt_of_mem hp
  have hpair : sizeOf p = 1 + sizeOf p.1 + sizeOf p.2 := by cases p; rfl
  simp only [Value.arr.sizeOf_spec]
  omega

/-- **Arrays of integers are told apart** by what is spelled of them. -/
theorem eq_of_tree_ints {es fs : List (String × Value)} (hes : ∀ p ∈ es, ∃ n, p.2 = .int n)
    (hfs : ∀ p ∈ fs, ∃ n, p.2 = .int n) (h : jsonTree (.arr es) = jsonTree (.arr fs)) :
    es = fs := by
  refine eq_of_entries (fun p hp q hq htree => ?_) h
  obtain ⟨m, hm⟩ := hes p hp
  obtain ⟨n, hn⟩ := hfs q hq
  rw [hm, hn, jsonTree, jsonTree] at htree
  have hword := congrArg Word.letters (Tree.word.inj htree)
  rw [hm, hn, toString_injective (String.toList_injective hword)]

end Optionia.Php
