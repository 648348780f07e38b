import Optionia.Lib.Codes
import Optionia.Php.Value
/-!
# Query strings

`http_build_query` spells an array as pairs of a name and a value: the name
holds the keys on the way to the value, those below the first in brackets.
Names and values are percent-encoded, so neither `&` nor `=` stands inside
them, and an encoded text is read back in one way (`urlencode_injective`).
-/

namespace Optionia.Php

/-! ## Percent-encoding -/

/-- A byte that is spelled as itself. -/
def unreserved (b : UInt8) : Bool :=
  (48 ≤ b && b ≤ 57) || (65 ≤ b && b ≤ 90) || (97 ≤ b && b ≤ 122) || b == 45 || b == 46 || b == 95

def hexDigit (n : ℕ) : Char := if n < 10 then Char.ofNat (48 + n) else Char.ofNat (55 + n)

/-- What a hexadecimal digit is worth. -/
def hexValue (c : Char) : ℕ := if c.toNat < 58 then c.toNat - 48 else c.toNat - 55

def encodeByte (b : UInt8) : List Char :=
  if unreserved b then [Char.ofUInt8 b]
  else if b = 32 then ['+']
  else ['%', hexDigit (b.toNat / 16), hexDigit (b.toNat % 16)]

/-- The byte an encoded text opens with, and what follows. -/
def readByte : List Char → Option (UInt8 × List Char)
  | [] => none
  | c :: rest =>
    if c = '+' then some (32, rest)
    else if c = '%' then
      match rest with
      | high :: low :: rest => some (UInt8.ofNat (hexValue high * 16 + hexValue low), rest)
      | _ => none
    else some (c.toUInt8, rest)

theorem hexValue_hexDigit : ∀ n < 16, hexValue (hexDigit n) = n := by
  decide

theorem toUInt8_ofUInt8 (b : UInt8) : (Char.ofUInt8 b).toUInt8 = b := UInt8.toUInt8_toUInt32 b

/-- **An encoded byte is read back**, whatever follows. -/
theorem readByte_encodeByte (b : UInt8) (rest : List Char) :
    readByte (encodeByte b ++ rest) = some (b, rest) := by
  unfold encodeByte
  by_cases hself : unreserved b = true
  · have hspelled : ∀ a : UInt8, unreserved a = false → Char.ofUInt8 b ≠ Char.ofUInt8 a := by
      intro a ha heq
      have hba : b = a := by rw [← toUInt8_ofUInt8 b, heq, toUInt8_ofUInt8]
      rw [hba, ha] at hself
      exact Bool.false_ne_true hself
    have hplus : Char.ofUInt8 b ≠ '+' := hspelled 43 (by decide)
    have hpercent : Char.ofUInt8 b ≠ '%' := hspelled 37 (by decide)
    rw [if_pos hself, List.singleton_append]
    unfold readByte
    dsimp only
    rw [if_neg hplus, if_neg hpercent, toUInt8_ofUInt8]
  rw [if_neg hself]
  by_cases hspace : b = 32
  · rw [if_pos hspace, hspace]
    rfl
  · have hbound := b.toNat_lt
    rw [if_neg hspace, List.cons_append, List.cons_append, List.cons_append, List.nil_append,
      readByte, if_neg (by decide), if_pos rfl, hexValue_hexDigit _ (by omega),
      hexValue_hexDigit _ (by omega), Nat.div_add_mod' b.toNat 16, UInt8.ofNat_toNat]

def percentCode : Code UInt8 Char where
  word := encodeByte
  ne_nil b := by
    unfold encodeByte
    split_ifs <;> exact List.cons_ne_nil _ _
  cancel := by
    intro a b r s h
    have hread := congrArg readByte h
    rw [readByte_encodeByte, readByte_encodeByte] at hread
    exact Prod.mk.inj (Option.some.inj hread)

def urlCode : Code Char Char := Code.utf8.comp percentCode

def urlencode (s : String) : List Char := urlCode.write s.toList

/-- **An encoded text is read back in one way.** -/
theorem urlencode_injective : Function.Injective urlencode := fun _ _ h =>
  String.toList_injective (urlCode.write_injective h)

example : urlencode "selections[ü ]" = "selections%5B%C3%BC+%5D".toList := by decide +kernel

/-! ## Queries -/

mutual

/-- The pairs of a value under a name. -/
def queryPairs (name : List Char) : Value → List (List Char)
  | .null => []
  | .arr es => queryEntries name es
  | .bool b => [name ++ '=' :: urlencode (if b then "1" else "0")]
  | v => [name ++ '=' :: urlencode v.castString]

/-- The pairs of entries below a name. -/
def queryEntries (name : List Char) : List (String × Value) → List (List Char)
  | [] => []
  | (k, v) :: es =>
    queryPairs (name ++ urlencode "[" ++ urlencode k ++ urlencode "]") v ++ queryEntries name es

end

def httpBuildQuery (v : Value) : String :=
  match v with
  | .arr es => String.ofList (['&'].intercalate (es.flatMap fun p => queryPairs (urlencode p.1) p.2))
  | _ => ""

example : httpBuildQuery (.arr [("selections", .arr [("a", .str "x y"), ("b", .ofList [.str "1"])])]) =
    "selections%5Ba%5D=x+y&selections%5Bb%5D%5B0%5D=1" := by decide +kernel

/-! ## Reading back -/

theorem urlencode_append (s t : String) : urlencode (s ++ t) = urlencode s ++ urlencode t := by
  unfold urlencode
  rw [String.toList_append, Code.write_append]

/-- A character that separates pairs or stands around them. -/
def marks (c : Char) : Bool := c == '&' || c == '=' || trimmed c

theorem marks_encodeByte :
    ∀ n < 256, ((encodeByte (UInt8.ofNat n)).all fun c => !marks c) = true := by
  decide +kernel

theorem marks_urlencode (s : String) : ∀ c ∈ urlencode s, marks c = false := by
  intro c hc
  unfold urlencode urlCode at hc
  rw [Code.write_comp] at hc
  obtain ⟨b, -, hb⟩ := List.mem_flatMap.1 hc
  have hbyte := List.all_eq_true.1 (marks_encodeByte b.toNat b.toNat_lt) c
  rw [UInt8.ofNat_toNat, Bool.not_eq_true'] at hbyte
  exact hbyte hb

/-- A pair of a name and a value. -/
def spellPair (name value : String) : List Char := urlencode name ++ '=' :: urlencode value

/-- **A pair is read back.** -/
theorem spellPair_inj {n v n' v' : String} (h : spellPair n v = spellPair n' v') :
    n = n' ∧ v = v' := by
  have hmark : ∀ (t : List Char) (a : Char) (u : List Char), '=' :: t ≠ urlCode.word a ++ u := by
    intro t a u heq
    cases hword : urlCode.word a with
    | nil => exact urlCode.ne_nil a hword
    | cons c cs =>
      rw [hword] at heq
      have hc : c ∈ urlencode (String.ofList [a]) := by
        unfold urlencode
        rw [String.toList_ofList, Code.write_cons, hword]
        exact List.mem_append_left _ List.mem_cons_self
      have hnone := marks_urlencode _ c hc
      rw [← (List.cons.inj heq).1] at hnone
      exact absurd hnone (by decide)
  obtain ⟨hname, hvalue⟩ := urlCode.write_cancel (hmark _) (hmark _) h
  exact ⟨String.toList_injective hname, urlencode_injective (List.cons.inj hvalue).2⟩

/-- **Pairs are read back from a query.** -/
theorem map_spellPair_inj {ps qs : List (String × String)} (hps : ps ≠ []) (hqs : qs ≠ [])
    (h : ['&'].intercalate (ps.map fun p => spellPair p.1 p.2) =
      ['&'].intercalate (qs.map fun p => spellPair p.1 p.2)) : ps = qs := by
  have hfree : ∀ ps : List (String × String), ∀ l ∈ ps.map fun p => spellPair p.1 p.2,
      '&' ∉ l := by
    intro ps l hl hmem
    obtain ⟨p, -, rfl⟩ := List.mem_map.1 hl
    rcases List.mem_append.1 hmem with hmem | hmem
    · exact absurd (marks_urlencode _ _ hmem) (by decide)
    · rcases List.mem_cons.1 hmem with heq | hmem
      · exact absurd heq (by decide)
      · exact absurd (marks_urlencode _ _ hmem) (by decide)
  have hsplit := congrArg (List.splitOn '&') h
  rw [List.splitOn_intercalate _ (hfree ps) (by rwa [Ne, List.map_eq_nil_iff]),
    List.splitOn_intercalate _ (hfree qs) (by rwa [Ne, List.map_eq_nil_iff])] at hsplit
  refine List.map_injective_iff.2 (fun p q hpq => ?_) hsplit
  obtain ⟨hname, hvalue⟩ := spellPair_inj hpq
  exact Prod.ext hname hvalue

theorem trimmed_query {ps : List (String × String)} :
    ∀ c ∈ ['&'].intercalate (ps.map fun p => spellPair p.1 p.2), trimmed c = false := by
  have hpair : ∀ n v : String, ∀ c ∈ spellPair n v, trimmed c = false := by
    intro n v c hc
    have hencoded : ∀ s, c ∈ urlencode s → trimmed c = false := fun s hs => by
      have hnone := marks_urlencode s c hs
      unfold marks at hnone
      rw [Bool.or_eq_false_iff] at hnone
      exact hnone.2
    rcases List.mem_append.1 hc with hc | hc
    · exact hencoded n hc
    · rcases List.mem_cons.1 hc with rfl | hc
      · decide
      · exact hencoded v hc
  induction ps with
  | nil => exact fun c hc => absurd hc List.not_mem_nil
  | cons p ps ih =>
    cases ps with
    | nil =>
      intro c hc
      rw [List.map_cons, List.map_nil, List.intercalate_singleton] at hc
      exact hpair _ _ c hc
    | cons q qs =>
      intro c hc
      rw [List.map_cons, List.map_cons, List.intercalate_cons_cons, List.mem_append,
        List.mem_append] at hc
      rcases hc with (hc | hc) | hc
      · exact hpair _ _ c hc
      · rw [List.mem_singleton.1 hc]
        decide
      · exact ih c hc

end Optionia.Php
