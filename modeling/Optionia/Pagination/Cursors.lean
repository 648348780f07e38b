import Optionia.Js.Buffer
import Optionia.Js.Date
/-!
# The cursors a page ends with

A cursor is the sort key of the last row of a page, in base64: a text under its
length and an id, or a timestamp, a mark and an id. A cursor that is no such
thing is refused, and so is one beyond a length. A timestamp's cursor is always
read back (`decodeCursorOrNull_encodeCursor`), a text's where the text is short
enough (`decodeTextCursorOrNull_encodeTextCursor`).
-/

namespace Optionia.Pagination

open Js

/-! ## The keys -/

/-- A hexadecimal digit, in either case. -/
def isHexDigit (c : Char) : Bool :=
  Decimal.isDigit c || decide ('a' ≤ c ∧ c ≤ 'f') || decide ('A' ≤ c ∧ c ≤ 'F')

/-- `UUID_PATTERN.test(id)`. -/
def isUuid (id : List Char) : Bool :=
  decide (id.length = 36) && id.zipIdx.all fun p =>
    if p.2 = 8 ∨ p.2 = 13 ∨ p.2 = 18 ∨ p.2 = 23 then p.1 = '-' else isHexDigit p.1

/-- An id that the pattern takes. -/
structure Uuid where
  text : List Char
  valid : isUuid text = true
  deriving DecidableEq

/-- What a request is refused with. -/
structure Invalid where
  field : String
  code : String
  deriving DecidableEq

/-- A cursor that cannot be read. -/
def invalidCursor : Invalid := ⟨"cursor", "INVALID_CURSOR"⟩

/-- The key of a row ordered by a text. -/
structure TextCursorKey where
  value : List Char
  id : List Char
  deriving DecidableEq

/-- The key of a row ordered by its time. -/
structure CursorKey where
  createdAt : Instant
  id : List Char
  deriving DecidableEq

/-- `Buffer.from(text, 'utf8').toString('base64url')`. -/
def toBase64 (text : List Char) : List Char := Base64.encode (utf8Bytes text)

/-- `Buffer.from(cursor, 'base64url').toString('utf8')`. -/
def ofBase64 (cursor : List Char) : List Char := utf8Text (Base64.decode cursor)

/-- A cursor, or the refusal of one; nothing where none was given. -/
def decodeWith {α : Type*} (decode : List Char → Option α) :
    Option (List Char) → Except Invalid (Option α)
  | none => .ok none
  | some cursor => (decode cursor).elim (.error invalidCursor) fun key => .ok (some key)

/-! ## A text and an id -/

/-- `MAX_CURSOR_LENGTH`, of a text cursor. -/
def maxTextCursorLength : ℕ := 512

def encodeTextCursor (value id : List Char) : List Char :=
  toBase64 (Nat.toDigits 10 (textLength value) ++ ':' :: (value ++ id))

/-- What stands after the declared length: the value, and the id. -/
def readBody (declared : ℕ) (body : List Char) : Option TextCursorKey :=
  let value := sliceTo declared body
  let id := sliceFrom declared body
  if textLength value ≠ declared ∨ ¬ isUuid id = true then none else some ⟨value, id⟩

/-- `decodeTextCursorOrNull`. Digits are a safe integer up to `2^53 - 1`. -/
def decodeTextCursorOrNull (cursor : List Char) : Option TextCursorKey :=
  if textLength cursor = 0 ∨ maxTextCursorLength < textLength cursor then none
  else
    let raw := ofBase64 cursor
    let declared := raw.takeWhile (· ≠ ':')
    match raw.dropWhile (· ≠ ':') with
    | [] => none
    | _ :: body =>
      if declared = [] ∨ ¬ declared.all Decimal.isDigit = true ∨
          9007199254740991 < Decimal.digitsValue declared then none
      else readBody (Decimal.digitsValue declared) body

def decodeTextCursor : Option (List Char) → Except Invalid (Option TextCursorKey) :=
  decodeWith decodeTextCursorOrNull

/-- A text whose cursor is short enough: its bytes and the digits of its
length. -/
def FitsCursor (value : List Char) : Prop :=
  (Nat.toDigits 10 (textLength value)).length + (utf8Bytes value).length ≤ 347

instance (value : List Char) : Decidable (FitsCursor value) :=
  inferInstanceAs (Decidable (_ ≤ _))

/-! ## A timestamp and an id -/

/-- `MAX_CURSOR_LENGTH`, of a timestamp's cursor. -/
def maxCursorLength : ℕ := 256

def encodeCursor (createdAt : Instant) (id : List Char) : List Char :=
  toBase64 (toISOString createdAt ++ '|' :: id)

/-- A timestamp that is written as it was read. -/
def readTimestamp (timestamp : List Char) : Option Instant :=
  (parse timestamp).filter fun createdAt => toISOString createdAt = timestamp

def decodeCursorOrNull (cursor : List Char) : Option CursorKey :=
  if textLength cursor = 0 ∨ maxCursorLength < textLength cursor then none
  else
    match (ofBase64 cursor).splitOn '|' with
    | [timestamp, id] =>
      if timestamp = [] ∨ id = [] ∨ ¬ isUuid id = true then none
      else (readTimestamp timestamp).map fun createdAt => ⟨createdAt, id⟩
    | _ => none

def decodeCursor : Option (List Char) → Except Invalid (Option CursorKey) :=
  decodeWith decodeCursorOrNull

/-! ## Lengths -/

/-- Characters below a code point. Those below 128 are of one byte. -/
def Below (n : ℕ) (cs : List Char) : Prop := ∀ c ∈ cs, c.toNat < n

variable {cs : List Char} {c : Char}

theorem Below.append {n : ℕ} {ds : List Char} (hc : Below n cs) (hd : Below n ds) :
    Below n (cs ++ ds) :=
  fun c h => (List.mem_append.1 h).elim (hc c) (hd c)

theorem Below.cons {n : ℕ} (h : c.toNat < n) (hcs : Below n cs) : Below n (c :: cs) :=
  List.forall_mem_cons.2 ⟨h, hcs⟩

theorem Below.mono {m n : ℕ} (h : m ≤ n) (hcs : Below m cs) : Below n cs :=
  fun c hc => Nat.lt_of_lt_of_le (hcs c hc) h

theorem utf8Size_of_lt (h : c.toNat < 128) : c.utf8Size = 1 := by
  rw [Char.utf8Size_eq_one_iff, UInt32.le_iff_toNat_le]
  change c.toNat ≤ 127
  omega

theorem units_le_utf8Size (c : Char) : units c ≤ c.utf8Size := by
  have hpos := c.utf8Size_pos
  unfold units
  split
  · omega
  · rename_i hlarge
    have hne : c.utf8Size ≠ 1 := by
      rw [Ne, Char.utf8Size_eq_one_iff, UInt32.le_iff_toNat_le]
      change ¬ c.toNat ≤ 127
      omega
    omega

theorem textLength_le_utf8Bytes (cs : List Char) : textLength cs ≤ (utf8Bytes cs).length := by
  induction cs with
  | nil => exact Nat.zero_le _
  | cons c cs ih =>
    have hunits := units_le_utf8Size c
    rw [utf8Bytes_cons, List.length_append, String.length_utf8EncodeChar, textLength_cons]
    omega

theorem Below.length_utf8Bytes (h : Below 128 cs) : (utf8Bytes cs).length = cs.length := by
  induction cs with
  | nil => rfl
  | cons c cs ih =>
    obtain ⟨hc, hcs⟩ := List.forall_mem_cons.1 h
    rw [utf8Bytes_cons, List.length_append, String.length_utf8EncodeChar, utf8Size_of_lt hc,
      ih hcs, List.length_cons, Nat.add_comm]

theorem Below.textLength (h : Below 128 cs) : textLength cs = cs.length := by
  induction cs with
  | nil => rfl
  | cons c cs ih =>
    obtain ⟨hc, hcs⟩ := List.forall_mem_cons.1 h
    have hunit : units c = 1 := if_pos (by omega)
    rw [textLength_cons, hunit, ih hcs, List.length_cons, Nat.add_comm]

theorem ascii_letter : ∀ n < 64, (Base64.letter n).toNat < 128 := by decide

theorem ascii_toBase64 (text : List Char) : Below 128 (toBase64 text) := by
  intro c hc
  obtain ⟨n, hn, rfl⟩ := List.mem_map.1 hc
  exact ascii_letter n (Base64.sextets_lt _ n hn)

theorem textLength_toBase64 (text : List Char) :
    textLength (toBase64 text) = (4 * (utf8Bytes text).length + 2) / 3 := by
  rw [(ascii_toBase64 text).textLength, toBase64, Base64.length_encode]

@[simp] theorem ofBase64_toBase64 (text : List Char) : ofBase64 (toBase64 text) = text := by
  rw [ofBase64, toBase64, Base64.decode_encode, utf8Text_utf8Bytes]

theorem isDigit_bounds (h : Decimal.isDigit c = true) : 48 ≤ c.toNat ∧ c.toNat ≤ 57 := by
  unfold Decimal.isDigit at h
  rw [Bool.and_eq_true, decide_eq_true_eq, decide_eq_true_eq] at h
  exact h

theorem ascii_digits (n : ℕ) : Below 128 (Nat.toDigits 10 n) := by
  intro c hc
  have hdigit := isDigit_bounds (Decimal.isDigit_of_mem_toDigits hc)
  omega

theorem Uuid.mem_text (id : Uuid) (h : c ∈ id.text) : c.toNat < 128 ∧ c ≠ '|' := by
  have hvalid := id.valid
  rw [isUuid, Bool.and_eq_true, List.all_eq_true] at hvalid
  obtain ⟨i, hi, hc⟩ := List.mem_iff_getElem.1 h
  have hform := hvalid.2 (c, i) (by
    rw [List.mem_iff_getElem]
    exact ⟨i, by rwa [List.length_zipIdx], by rw [List.getElem_zipIdx, hc, Nat.zero_add]⟩)
  split at hform
  · have hhyphen : c = '-' := of_decide_eq_true hform
    rw [hhyphen]
    decide
  · change isHexDigit c = true at hform
    rw [isHexDigit, Bool.or_eq_true, Bool.or_eq_true, decide_eq_true_eq, decide_eq_true_eq]
      at hform
    have hbar : ('|' : Char).toNat = 124 := rfl
    have hbound : c.toNat < 103 := by
      rcases hform with (hdigit | hlower) | hupper
      · have hdigit := isDigit_bounds hdigit
        omega
      · have hle : c.toNat ≤ 102 := hlower.2
        omega
      · have hle : c.toNat ≤ 70 := hupper.2
        omega
    refine ⟨by omega, fun heq => ?_⟩
    rw [heq] at hbound
    omega

theorem Uuid.ascii (id : Uuid) : Below 128 id.text := fun _ h => (id.mem_text h).1

theorem Uuid.length (id : Uuid) : id.text.length = 36 := by
  have hvalid := id.valid
  rw [isUuid, Bool.and_eq_true, decide_eq_true_eq] at hvalid
  exact hvalid.1

/-! ## Reading back -/

theorem readBody_append (value : List Char) (id : Uuid) :
    readBody (textLength value) (value ++ id.text) = some ⟨value, id.text⟩ := by
  have hread : ¬ (textLength value ≠ textLength value ∨ ¬ isUuid id.text = true) := by
    rw [not_or, not_not, not_not]
    exact ⟨rfl, id.valid⟩
  rw [readBody, sliceTo_append, sliceFrom_append, if_neg hread]

theorem length_textKey (value : List Char) (id : Uuid) :
    (utf8Bytes (Nat.toDigits 10 (textLength value) ++ ':' :: (value ++ id.text))).length =
      (Nat.toDigits 10 (textLength value)).length + (utf8Bytes value).length + 37 := by
  have hcolon : (utf8Bytes [':']).length = 1 := by decide
  rw [← List.singleton_append, utf8Bytes_append, utf8Bytes_append, utf8Bytes_append,
    List.length_append, List.length_append, List.length_append,
    (ascii_digits _).length_utf8Bytes, id.ascii.length_utf8Bytes, id.length, hcolon]
  omega

/-- **A text's cursor is read back where it is short enough, and refused
where it is not.** -/
theorem decodeTextCursorOrNull_encodeTextCursor (value : List Char) (id : Uuid) :
    decodeTextCursorOrNull (encodeTextCursor value id.text) =
      if FitsCursor value then some ⟨value, id.text⟩ else none := by
  have hlength : textLength (encodeTextCursor value id.text) =
      (4 * ((Nat.toDigits 10 (textLength value)).length + (utf8Bytes value).length + 37) + 2) /
        3 := by
    rw [encodeTextCursor, textLength_toBase64, length_textKey]
  unfold decodeTextCursorOrNull
  by_cases hfits : FitsCursor value
  · have hfits' : (Nat.toDigits 10 (textLength value)).length + (utf8Bytes value).length ≤ 347 :=
      hfits
    have hlimit : maxTextCursorLength = 512 := rfl
    have hin : ¬ (textLength (encodeTextCursor value id.text) = 0 ∨
        maxTextCursorLength < textLength (encodeTextCursor value id.text)) := by
      omega
    have hdigits : ∀ c ∈ Nat.toDigits 10 (textLength value), Decimal.isDigit c = true :=
      fun c hc => Decimal.isDigit_of_mem_toDigits hc
    have hcolon : ∀ c ∈ Nat.toDigits 10 (textLength value), decide (c ≠ ':') = true := by
      intro c hc
      have hdigit := isDigit_bounds (hdigits c hc)
      rw [decide_eq_true_eq]
      intro heq
      rw [heq] at hdigit
      exact absurd hdigit (by decide)
    have hne : Nat.toDigits 10 (textLength value) ≠ [] := Nat.toDigits_ne_nil
    have hsafe := textLength_le_utf8Bytes value
    have hdeclared : ¬ (Nat.toDigits 10 (textLength value) = [] ∨
        ¬ (Nat.toDigits 10 (textLength value)).all Decimal.isDigit = true ∨
        9007199254740991 < Decimal.digitsValue (Nat.toDigits 10 (textLength value))) := by
      rw [Decimal.digitsValue_toDigits, List.all_eq_true]
      rintro (h | h | h)
      · exact hne h
      · exact h hdigits
      · omega
    rw [if_neg hin, if_pos hfits, encodeTextCursor, ofBase64_toBase64]
    dsimp only
    rw [List.takeWhile_append_of_pos hcolon, List.dropWhile_append_of_pos hcolon,
      List.takeWhile_cons_of_neg (by decide), List.dropWhile_cons_of_neg (by decide),
      List.append_nil]
    dsimp only
    rw [if_neg hdeclared, Decimal.digitsValue_toDigits, readBody_append]
  · have hfits' : ¬ (Nat.toDigits 10 (textLength value)).length + (utf8Bytes value).length ≤ 347 :=
      hfits
    have hlimit : maxTextCursorLength = 512 := rfl
    rw [if_neg hfits, if_pos (by omega)]

theorem below_padded (width n : ℕ) : Below 91 (padded width n) := by
  intro c hc
  have hdigit := isDigit_bounds (List.all_eq_true.1 (all_padded width n) c hc)
  omega

theorem below_yearText (year : ℤ) : Below 91 (yearText year) := by
  unfold yearText
  split
  · exact below_padded _ _
  · refine Below.cons ?_ (below_padded _ _)
    split <;> decide

/-- A timestamp is written with nothing beyond a `Z`. -/
theorem below_toISOString (t : Instant) : Below 91 (toISOString t) := by
  unfold toISOString
  refine (below_yearText _).append (Below.cons (by decide) ?_)
  refine (below_padded _ _).append (Below.cons (by decide) ?_)
  refine (below_padded _ _).append (Below.cons (by decide) ?_)
  refine (below_padded _ _).append (Below.cons (by decide) ?_)
  refine (below_padded _ _).append (Below.cons (by decide) ?_)
  refine (below_padded _ _).append (Below.cons (by decide) ?_)
  exact (below_padded _ _).append (Below.cons (by decide) fun _ h => absurd h List.not_mem_nil)

theorem length_toISOString (t : Instant) : (toISOString t).length ≤ 27 := by
  have hyear : ∀ y : ℤ, (yearText y).length ≤ 7 := by
    intro y
    unfold yearText
    split
    · rw [length_padded]
      omega
    · rw [List.length_cons, length_padded]
  have h := hyear (civilOf (t.ms / 86400000)).year
  unfold toISOString
  simp only [List.length_append, List.length_cons, length_padded, List.length_nil]
  omega

/-- **A timestamp's cursor is always read back.** -/
theorem decodeCursorOrNull_encodeCursor (t : Instant) (id : Uuid) :
    decodeCursorOrNull (encodeCursor t id.text) = some ⟨t, id.text⟩ := by
  have hascii : Below 128 (toISOString t ++ '|' :: id.text) := by
    exact ((below_toISOString t).mono (by decide)).append (Below.cons (by decide) id.ascii)
  have hlength : textLength (encodeCursor t id.text) =
      (4 * ((toISOString t).length + 37) + 2) / 3 := by
    rw [encodeCursor, textLength_toBase64, hascii.length_utf8Bytes, List.length_append,
      List.length_cons, id.length]
  have hshort := length_toISOString t
  have hlimit : maxCursorLength = 256 := rfl
  have hin : ¬ (textLength (encodeCursor t id.text) = 0 ∨
      maxCursorLength < textLength (encodeCursor t id.text)) := by
    omega
  have hbefore : ∀ c ∈ toISOString t, (c == '|') = false := by
    intro c hc
    have hmem := below_toISOString t c hc
    refine beq_false_of_ne fun heq => ?_
    rw [heq] at hmem
    exact absurd hmem (by decide)
  have hafter : ∀ c ∈ id.text, (c == '|') = false :=
    fun c hc => beq_false_of_ne (id.mem_text hc).2
  have hsplit : (toISOString t ++ '|' :: id.text).splitOn '|' = [toISOString t, id.text] := by
    rw [List.splitOn_eq_splitOnP, List.splitOnP_append_cons_of_forall_mem hbefore '|' (by decide),
      List.splitOnP_eq_singleton hafter]
  have hread : readTimestamp (toISOString t) = some t := by
    rw [readTimestamp, parse_toISOString, Option.filter_some]
    exact if_pos (decide_eq_true rfl)
  have hnonempty : ¬ (toISOString t = [] ∨ id.text = [] ∨ ¬ isUuid id.text = true) := by
    rintro (h | h | h)
    · rw [h] at hread
      exact Option.some_ne_none t hread.symm
    · have hid := id.length
      rw [h] at hid
      exact absurd hid (by decide)
    · exact h id.valid
  rw [decodeCursorOrNull, if_neg hin, encodeCursor, ofBase64_toBase64, hsplit]
  dsimp only
  rw [if_neg hnonempty, hread, Option.map_some]

end Optionia.Pagination
