import Optionia.Lib.JsonRead
import Optionia.Php.JsonText
import Optionia.Php.Numbers
/-!
# JSON text as PHP reads it

`json_decode` into arrays. A text that is no JSON, or too deep, is null; a
later member of a record stands for an earlier one of its name. What
`wp_json_encode` wrote of texts is read back (`jsonDecode_wpJsonEncode`).
-/

namespace Optionia.Php

open JsonText

/-! ## Texts -/

def hexDigit? (c : Char) : Option ℕ :=
  if Decimal.isDigit c then some (c.toNat - 48)
  else if 'a' ≤ c ∧ c ≤ 'f' then some (c.toNat - 87)
  else if 'A' ≤ c ∧ c ≤ 'F' then some (c.toNat - 55)
  else none

/-- The unit that four digits write, and what follows them. -/
def readDigits : List Char → Option (ℕ × List Char)
  | a :: b :: c :: d :: rest =>
    (hexDigit? a).bind fun a => (hexDigit? b).bind fun b => (hexDigit? c).bind fun c =>
      (hexDigit? d).map fun d => (((a * 16 + b) * 16 + c) * 16 + d, rest)
  | _ => none

/-- The second half of a pair of surrogates. -/
def readLow : List Char → Option (ℕ × List Char)
  | c :: e :: rest =>
    if c = '\\' ∧ e = 'u' then (readDigits rest).filter fun p => decide (p.1 / 1024 = 55) else none
  | _ => none

/-- The character that a unit opens, and what follows it. -/
def ofUnit (unit : ℕ) (rest : List Char) : Option (Char × List Char) :=
  if unit / 1024 = 54 then
    (readLow rest).map fun p =>
      (Char.ofNat (0x10000 + unit % 1024 * 1024 + p.1 % 1024), p.2)
  else if unit / 1024 = 55 then none
  else some (Char.ofNat unit, rest)

/-- What a letter after a backslash stands for. -/
def escaped? (c : Char) : Option Char :=
  if c = '"' ∨ c = '\\' ∨ c = '/' then some c
  else if c = 'b' then some '\x08' else if c = 'f' then some '\x0C' else if c = 'n' then some '\n'
  else if c = 'r' then some '\r' else if c = 't' then some '\t' else none

/-- The character a text opens with, and what follows it. -/
def readChar : List Char → Option (Char × List Char)
  | [] => none
  | c :: rest =>
    if c = '\\' then
      match rest with
      | [] => none
      | e :: rest =>
        if e = 'u' then (readDigits rest).bind fun p => ofUnit p.1 p.2
        else (escaped? e).map fun c => (c, rest)
    else if c.toNat < 32 then none else some (c, rest)

/-- A text up to its closing quote, and what follows it. -/
def readText : ℕ → List Char → Option (List Char × List Char)
  | 0, _ => none
  | fuel + 1, cs =>
    if cs.head? = some '"' then some ([], cs.tail)
    else (readChar cs).bind fun p => (readText fuel p.2).map fun q => (p.1 :: q.1, q.2)

/-- The same, in as much fuel as the text has letters. -/
def unquote (cs : List Char) : Option (List Char × List Char) := readText (cs.length + 1) cs

example : unquote "a\\u00e9\\ud83d\\ude00\\/\"rest".toList =
    some ("aé😀/".toList, "rest".toList) := by decide +kernel

/-! ## Words -/

/-- A number: an integer where it has neither a point nor an exponent and the
machine holds it. -/
def jsonNumber? (cs : List Char) : Option Value :=
  let body := if cs.head? = some '-' then cs.tail else cs
  let whole := body.takeWhile Decimal.isDigit
  let rest := body.dropWhile Decimal.isDigit
  if whole = [] ∨ (whole.head? = some '0' ∧ whole ≠ ['0']) then none
  else if rest = [] then
    let n : ℤ := Decimal.digitsValue whole
    some (Value.ofNumber (if cs.head? = some '-' then -n else n))
  else if rest.head? = some '.' ∧ rest.tail.takeWhile Decimal.isDigit = [] then none
  else (Decimal.literal? cs).map fun q => .float (.ofRat q)

/-- A word, in letters of either case where it is no number. -/
def ofWord (letters : List Char) : Option Value :=
  let lower := letters.map Char.toLower
  if lower = "null".toList then some .null
  else if lower = "true".toList then some (.bool true)
  else if lower = "false".toList then some (.bool false)
  else jsonNumber? letters

/-! ## Decoding -/

mutual

/-- The value of a tree inside so many arrays. -/
def ofTree : ℕ → Tree → Option Value
  | _, .word w => ofWord w.letters
  | _, .text s => some (.str (String.ofList s))
  | depth, .list ts => if depth < 512 then (ofItems (depth + 1) ts).map Value.ofList else none
  | depth, .record es => if depth < 512 then (ofMembers (depth + 1) es).map fun es =>
      .arr ((∅ : OrderedMap String Value).setAll es).entries else none

def ofItems : ℕ → List Tree → Option (List Value)
  | _, [] => some []
  | depth, t :: ts => (ofTree depth t).bind fun v => (ofItems depth ts).map fun vs => v :: vs

def ofMembers : ℕ → List (List Char × Tree) → Option (List (String × Value))
  | _, [] => some []
  | depth, (k, t) :: es => (ofTree depth t).bind fun v =>
      (ofMembers depth es).map fun es => (String.ofList k, v) :: es

end

/-- `json_decode( $s, true )` -/
def jsonDecode (s : String) : Value :=
  match readTree unquote (s.toList.length + 1) s.toList with
  | some (t, rest) => if skip rest = [] then (ofTree 0 t).getD .null else .null
  | none => .null

example : jsonDecode " \x7b\"o\":\"a\\/b\",\"m\":[1,true,2.5e1]\x7d\n" =
    .arr [("o", .str "a/b"), ("m", .ofList [.int 1, .bool true, .float (.ofInt 25)])] := by
  decide +kernel

example : jsonDecode "[1,]" = .null := by decide +kernel

/-! ## Reading back -/

theorem hexDigit?_lowerHex : ∀ n < 16, hexDigit? (lowerHex n) = some n := by decide

theorem readDigits_unit {n : ℕ} (h : n < 65536) (rest : List Char) :
    readDigits (lowerHex (n / 4096) :: lowerHex (n / 256 % 16) :: lowerHex (n / 16 % 16) ::
      lowerHex (n % 16) :: rest) = some (n, rest) := by
  have hvalue : ((n / 4096 * 16 + n / 256 % 16) * 16 + n / 16 % 16) * 16 + n % 16 = n := by omega
  unfold readDigits
  dsimp only
  rw [hexDigit?_lowerHex _ (by omega), hexDigit?_lowerHex _ (by omega),
    hexDigit?_lowerHex _ (by omega), hexDigit?_lowerHex _ (by omega)]
  simp only [Option.bind_some, Option.map_some, hvalue]

theorem readChar_escapeUnit (u : UInt16) (rest : List Char) :
    readChar (escapeUnit u ++ rest) = ofUnit u.toNat rest := by
  unfold escapeUnit
  cases hshort : shortEscape? u with
  | some c =>
    unfold shortEscape? at hshort
    split_ifs at hshort with h h h h h h h h <;>
      (obtain rfl := Option.some.inj hshort; rw [h]; rfl)
  | none =>
    dsimp only
    by_cases hself : 32 ≤ u ∧ u < 128
    · have hlarge : 32 ≤ u.toNat := hself.1
      have hsmall : u.toNat < 128 := hself.2
      have hvalid : (Char.ofNat u.toNat).toNat = u.toNat := by
        rw [Char.ofNat, dif_pos (Or.inl (by omega))]
        rfl
      have hslash : Char.ofNat u.toNat ≠ '\\' := by
        intro heq
        have hu : u = 92 := by
          refine UInt16.toNat_inj.1 ?_
          rw [← hvalid, heq]
          rfl
        rw [hu] at hshort
        exact absurd hshort (by decide)
      rw [if_pos hself, List.singleton_append]
      unfold readChar ofUnit
      dsimp only
      rw [if_neg hslash, hvalid, if_neg (by omega), if_neg (by omega), if_neg (by omega)]
    · rw [if_neg hself, List.cons_append, List.cons_append, List.cons_append, List.cons_append,
        List.cons_append, List.cons_append, List.nil_append]
      unfold readChar
      dsimp only
      rw [if_pos rfl, if_pos rfl, readDigits_unit u.toNat_lt, Option.bind_some]

theorem readLow_escapeUnit {u : UInt16} (h : u.toNat / 1024 = 55) (rest : List Char) :
    readLow (escapeUnit u ++ rest) = some (u.toNat, rest) := by
  have hshort : shortEscape? u = none := by
    unfold shortEscape?
    split_ifs with h' h' h' h' h' h' h' h' <;> first | rfl | (rw [h'] at h; exact absurd h (by decide))
  have hself : ¬ (32 ≤ u ∧ u < 128) := by
    rintro ⟨-, hlt⟩
    have hsmall : u.toNat < 128 := hlt
    omega
  unfold escapeUnit
  rw [hshort]
  dsimp only
  rw [if_neg hself, List.cons_append, List.cons_append, List.cons_append, List.cons_append,
    List.cons_append, List.cons_append, List.nil_append]
  unfold readLow
  dsimp only
  rw [if_pos ⟨rfl, rfl⟩, readDigits_unit u.toNat_lt, Option.filter_some, if_pos (decide_eq_true h)]

theorem readChar_pair {high low : UInt16} (hhigh : high.toNat / 1024 = 54)
    (hlow : low.toNat / 1024 = 55) (rest : List Char) :
    readChar (escapeUnit high ++ (escapeUnit low ++ rest)) =
      some (Char.ofNat (0x10000 + high.toNat % 1024 * 1024 + low.toNat % 1024), rest) := by
  rw [readChar_escapeUnit]
  unfold ofUnit
  rw [if_pos hhigh, readLow_escapeUnit hlow, Option.map_some]

/-- **A character written is read back**, whatever follows. -/
theorem readChar_word (c : Char) (rest : List Char) :
    readChar (jsonQuoting.word c ++ rest) = some (c, rest) := by
  have hword : jsonQuoting.word c = (utf16Units c).flatMap escapeUnit := rfl
  have hsurrogate := not_surrogate c
  have hbound : c.toNat < 0x110000 := by
    rcases c.valid with h | h
    · exact lt_trans h (by decide)
    · exact h.2
  rw [hword]
  unfold utf16Units
  split_ifs with hsmall
  · have hvalue : (UInt16.ofNat c.toNat).toNat = c.toNat := UInt16.toNat_ofNat_of_lt' hsmall
    rw [List.flatMap_singleton, readChar_escapeUnit]
    unfold ofUnit
    rw [hvalue, if_neg (by omega), if_neg (by omega), Char.ofNat_toNat]
  · have hhigh : (UInt16.ofNat (0xD800 + (c.toNat - 0x10000) / 1024)).toNat =
        0xD800 + (c.toNat - 0x10000) / 1024 :=
      UInt16.toNat_ofNat_of_lt' (show _ < 65536 by omega)
    have hlow : (UInt16.ofNat (0xDC00 + (c.toNat - 0x10000) % 1024)).toNat =
        0xDC00 + (c.toNat - 0x10000) % 1024 :=
      UInt16.toNat_ofNat_of_lt' (show _ < 65536 by omega)
    have hchar : 0x10000 + (0xD800 + (c.toNat - 0x10000) / 1024) % 1024 * 1024 +
        (0xDC00 + (c.toNat - 0x10000) % 1024) % 1024 = c.toNat := by omega
    rw [List.flatMap_cons, List.flatMap_singleton, List.append_assoc,
      readChar_pair (by rw [hhigh]; omega) (by rw [hlow]; omega), hhigh, hlow, hchar,
      Char.ofNat_toNat]

/-- **A text written is read back** up to its quote. -/
theorem unquote_write (s r : List Char) : unquote (jsonQuoting.write s ++ '"' :: r) = some (s, r) := by
  have hread : ∀ (s : List Char) (fuel : ℕ), s.length < fuel →
      readText fuel (jsonQuoting.write s ++ '"' :: r) = some (s, r) := by
    intro s
    induction s with
    | nil =>
      intro fuel hfuel
      obtain ⟨fuel, rfl⟩ := Nat.exists_eq_add_one_of_ne_zero (Nat.ne_of_gt hfuel)
      rfl
    | cons c s ih =>
      intro fuel hfuel
      obtain ⟨fuel, rfl⟩ := Nat.exists_eq_add_one_of_ne_zero (Nat.ne_of_gt (Nat.zero_lt_of_lt hfuel))
      have hhead : (jsonQuoting.word c ++ (jsonQuoting.write s ++ '"' :: r)).head? ≠ some '"' := by
        cases hword : jsonQuoting.word c with
        | nil => exact absurd hword (jsonQuoting.ne_nil c)
        | cons d ds =>
          intro heq
          obtain rfl := Option.some.inj heq
          exact jsonQuoting.quote c ds hword
      rw [Code.write_cons, List.append_assoc, readText, if_neg hhead, readChar_word,
        Option.bind_some, ih fuel (by rw [List.length_cons] at hfuel; omega)]
      rfl
  have hlength : s.length ≤ (jsonQuoting.write s).length := by
    induction s with
    | nil => exact Nat.zero_le _
    | cons c s ih =>
      have hword := List.length_pos_iff.2 (jsonQuoting.ne_nil c)
      rw [Code.write_cons, List.length_append, List.length_cons]
      omega
  refine hread s _ ?_
  rw [List.length_append]
  omega

mutual

/-- Every array in a value has each key once. -/
def Value.keyed : Value → Bool
  | .arr es => decide (es.map Prod.fst).Nodup && keyedEntries es
  | _ => true

def Value.keyedEntries : List (String × Value) → Bool
  | [] => true
  | (_, v) :: es => v.keyed && keyedEntries es

end

variable {es : List (String × Value)}

theorem ofList_of_isListArray (h : isListArray es = true) :
    Value.ofList (es.map Prod.snd) = .arr es := by
  have hkeys : es.map Prod.fst = (List.range es.length).map toString := of_decide_eq_true h
  refine congrArg Value.arr (List.ext_getElem (by simp) fun i hi hi' => ?_)
  have hkey : (es.map Prod.fst)[i]? = ((List.range es.length).map toString)[i]? := by rw [hkeys]
  rw [List.getElem?_eq_getElem (by simpa using hi'), List.getElem?_eq_getElem (by simpa using hi'),
    List.getElem_map, List.getElem_map, List.getElem_range] at hkey
  rw [List.getElem_mapIdx, List.getElem_map]
  exact Prod.ext (Option.some.inj hkey).symm rfl

theorem nodup_of_isListArray (h : isListArray es = true) : (es.map Prod.fst).Nodup := by
  rw [of_decide_eq_true h]
  exact List.nodup_range.map fun _ _ hrepr => repr_injective hrepr

theorem isListArray_mapIdx (vs : List Value) :
    isListArray (vs.mapIdx fun i v => (toString i, v)) = true := by
  refine decide_eq_true (List.ext_getElem (by simp) fun i hi hi' => ?_)
  simp

theorem texts_json (hkeys : (es.map Prod.fst).Nodup) (hes : ∀ p ∈ es, ∃ s, p.2 = .str s) :
    (Value.arr es).textual = true ∧
      (∀ depth < 512, jsonFits depth (.arr es) = true) ∧ (Value.arr es).keyed = true := by
  have hentries : Value.textualEntries es = true ∧ (∀ depth, jsonFitsAll depth es = true) ∧
      Value.keyedEntries es = true := by
    clear hkeys
    induction es with
    | nil => exact ⟨rfl, fun _ => rfl, rfl⟩
    | cons p es ih =>
      obtain ⟨k, v⟩ := p
      obtain ⟨s, rfl⟩ := hes (k, v) List.mem_cons_self
      exact ih fun q hq => hes q (List.mem_cons_of_mem _ hq)
  refine ⟨hentries.1, fun depth hdepth => ?_, ?_⟩
  · rw [jsonFits, decide_eq_true hdepth, hentries.2.1]
    rfl
  · rw [Value.keyed, decide_eq_true hkeys, hentries.2.2]
    rfl

mutual

/-- **A value of texts is decoded from its tree.** -/
theorem ofTree_jsonTree : ∀ (v : Value) (depth : ℕ), v.textual = true → jsonFits depth v = true →
    v.keyed = true → ofTree depth (jsonTree v) = some v
  | .str s, depth, _, _, _ => by rw [jsonTree, ofTree, String.ofList_toList]
  | .arr es, depth, htext, hfits, hkeyed => by
    rw [jsonFits, Bool.and_eq_true, decide_eq_true_eq] at hfits
    rw [Value.keyed, Bool.and_eq_true, decide_eq_true_eq] at hkeyed
    obtain ⟨hitems, hmembers⟩ := ofEntries_jsonTree es (depth + 1) htext hfits.2 hkeyed.2
    rw [jsonTree]
    split_ifs with hlist
    · rw [ofTree, if_pos hfits.1, hitems, Option.map_some, ofList_of_isListArray hlist]
    · have hset : ((∅ : OrderedMap String Value).setAll es).entries = es :=
        OrderedMap.entries_setAll_of_nodup (m := ∅) hkeyed.1
      rw [ofTree, if_pos hfits.1, hmembers, Option.map_some, hset]

theorem ofEntries_jsonTree : ∀ (es : List (String × Value)) (depth : ℕ),
    Value.textualEntries es = true → jsonFitsAll depth es = true → Value.keyedEntries es = true →
      ofItems depth (jsonItems es) = some (es.map Prod.snd) ∧
        ofMembers depth (jsonMembers es) = some es
  | [], _, _, _, _ => ⟨rfl, rfl⟩
  | (k, v) :: es, depth, htext, hfits, hkeyed => by
    rw [Value.textualEntries, Bool.and_eq_true] at htext
    rw [jsonFitsAll, Bool.and_eq_true] at hfits
    rw [Value.keyedEntries, Bool.and_eq_true] at hkeyed
    have hv := ofTree_jsonTree v depth htext.1 hfits.1 hkeyed.1
    obtain ⟨hitems, hmembers⟩ := ofEntries_jsonTree es depth htext.2 hfits.2 hkeyed.2
    constructor
    · rw [jsonItems, ofItems, hv, Option.bind_some, hitems]
      rfl
    · rw [jsonMembers, ofMembers, hv, Option.bind_some, hmembers, Option.map_some,
        String.ofList_toList]

end

/-- **What is written of texts is read back.** -/
theorem jsonDecode_wpJsonEncode {v : Value} (htext : v.textual = true)
    (hfits : jsonFits 0 v = true) (hkeyed : v.keyed = true) : jsonDecode (wpJsonEncode v) = v := by
  have hread := readTree_print jsonQuoting (fun s r => unquote_write s r) (jsonTree v)
    ((print jsonQuoting (jsonTree v)).length + 1) [] (Nat.lt_succ_self _) fun c hc => by cases hc
  rw [List.append_nil] at hread
  unfold jsonDecode wpJsonEncode
  rw [if_pos hfits, String.toList_ofList, hread]
  dsimp only
  rw [if_pos (show skip [] = [] from rfl), ofTree_jsonTree v 0 htext hfits hkeyed]
  rfl

end Optionia.Php
