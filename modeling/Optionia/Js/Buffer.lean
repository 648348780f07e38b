import Optionia.Lib.Base64
/-!
# Bytes and UTF-16 units of a text

A buffer's text is read byte by byte, and what is no character is replaced, one
mark for as much as could have begun one. Text is counted and sliced in units
of sixteen bits, two for a character beyond the first plane. What a text was
encoded to reads back as the text (`utf8Text_utf8Bytes`), and a text cut at the
length of its beginning is cut where the beginning ends (`sliceTo_append`,
`sliceFrom_append`).
-/

namespace Optionia.Js

/-! ## UTF-8 -/

def replacement : Char := Char.ofNat 0xFFFD

/-- `Buffer.from(text, 'utf8')`. -/
def utf8Bytes (cs : List Char) : List UInt8 := cs.flatMap String.utf8EncodeChar

/-- The bytes a first byte still needs, and the range of the next of them. -/
def needed (b : UInt8) : ℕ × UInt8 × UInt8 :=
  if 0xC2 ≤ b ∧ b ≤ 0xDF then (1, 0x80, 0xBF)
  else if 0xE0 ≤ b ∧ b ≤ 0xEF then
    (2, if b = 0xE0 then 0xA0 else 0x80, if b = 0xED then 0x9F else 0xBF)
  else if 0xF0 ≤ b ∧ b ≤ 0xF4 then
    (3, if b = 0xF0 then 0x90 else 0x80, if b = 0xF4 then 0x8F else 0xBF)
  else (0, 0x80, 0xBF)

/-- How many of the bytes needed are there. -/
def continuing : ℕ → UInt8 → UInt8 → List UInt8 → ℕ
  | 0, _, _, _ => 0
  | _ + 1, _, _, [] => 0
  | n + 1, low, high, b :: bs =>
    if low ≤ b ∧ b ≤ high then continuing n 0x80 0xBF bs + 1 else 0

/-- The bytes at the head of `b :: bs` that one mark replaces. -/
def replaced (b : UInt8) (bs : List UInt8) : ℕ :=
  continuing (needed b).1 (needed b).2.1 (needed b).2.2 bs + 1

/-- The text of some bytes, of at most so many characters. -/
def utf8Chars : ℕ → List UInt8 → List Char
  | 0, _ => []
  | _ + 1, [] => []
  | n + 1, b :: bs =>
    match (b :: bs).toByteArray.utf8DecodeChar? 0 with
    | some c => c :: utf8Chars n ((b :: bs).drop c.utf8Size)
    | none => replacement :: utf8Chars n ((b :: bs).drop (replaced b bs))

/-- `buffer.toString('utf8')`: a character takes a byte at least. -/
def utf8Text (bs : List UInt8) : List Char := utf8Chars bs.length bs

theorem utf8Bytes_cons (c : Char) (cs : List Char) :
    utf8Bytes (c :: cs) = String.utf8EncodeChar c ++ utf8Bytes cs := List.flatMap_cons

theorem utf8Chars_encode (c : Char) (bs : List UInt8) (n : ℕ) :
    utf8Chars (n + 1) (String.utf8EncodeChar c ++ bs) = c :: utf8Chars n bs := by
  have hread : (String.utf8EncodeChar c ++ bs).toByteArray.utf8DecodeChar? 0 = some c := by
    rw [List.toByteArray_append, ByteArray.utf8DecodeChar?_utf8EncodeChar_append]
  have hdrop : (String.utf8EncodeChar c ++ bs).drop c.utf8Size = bs := by
    rw [← String.length_utf8EncodeChar, List.drop_left]
  cases hbytes : String.utf8EncodeChar c ++ bs with
  | nil =>
    have hempty := (List.append_eq_nil_iff.1 hbytes).1
    exact absurd hempty String.utf8EncodeChar_ne_nil
  | cons b rest =>
    rw [hbytes] at hread hdrop
    simp only [utf8Chars, hread, hdrop]

theorem utf8Chars_utf8Bytes {cs : List Char} {n : ℕ} (h : cs.length ≤ n) :
    utf8Chars n (utf8Bytes cs) = cs := by
  induction cs generalizing n with
  | nil => cases n <;> rfl
  | cons c cs ih =>
    cases n with
    | zero =>
      rw [List.length_cons] at h
      omega
    | succ n =>
      have hrest : cs.length ≤ n := by
        rw [List.length_cons] at h
        omega
      rw [utf8Bytes_cons, utf8Chars_encode, ih hrest]

theorem length_le_utf8Bytes (cs : List Char) : cs.length ≤ (utf8Bytes cs).length := by
  induction cs with
  | nil => exact Nat.zero_le _
  | cons c cs ih =>
    have hpos := c.utf8Size_pos
    rw [utf8Bytes_cons, List.length_append, String.length_utf8EncodeChar, List.length_cons]
    omega

/-- **A text is read back from its bytes.** -/
theorem utf8Text_utf8Bytes (cs : List Char) : utf8Text (utf8Bytes cs) = cs :=
  utf8Chars_utf8Bytes (length_le_utf8Bytes cs)

theorem utf8Bytes_append (cs ds : List Char) :
    utf8Bytes (cs ++ ds) = utf8Bytes cs ++ utf8Bytes ds := List.flatMap_append

/-! ## UTF-16 -/

def units (c : Char) : ℕ := if c.toNat < 0x10000 then 1 else 2

def textLength : List Char → ℕ
  | [] => 0
  | c :: cs => units c + textLength cs

/-- `text.slice(0, n)`. Half of a pair stands as U+FFFD, which is what it is
written as. -/
def sliceTo : ℕ → List Char → List Char
  | _, [] => []
  | n, c :: cs =>
    if units c ≤ n then c :: sliceTo (n - units c) cs
    else if n = 0 then [] else [replacement]

/-- `text.slice(n)`, halves of pairs as in `sliceTo`. -/
def sliceFrom : ℕ → List Char → List Char
  | _, [] => []
  | n, c :: cs =>
    if units c ≤ n then sliceFrom (n - units c) cs
    else if n = 0 then c :: cs else replacement :: cs

theorem units_pos (c : Char) : 0 < units c := by
  unfold units
  split <;> omega

theorem textLength_cons (c : Char) (cs : List Char) :
    textLength (c :: cs) = units c + textLength cs := rfl

/-- **A text cut where its beginning ends begins with it.** -/
theorem sliceTo_append (cs ds : List Char) : sliceTo (textLength cs) (cs ++ ds) = cs := by
  induction cs with
  | nil =>
    cases ds with
    | nil => rfl
    | cons d ds =>
      have hpos := units_pos d
      have hbeyond : ¬ units d ≤ textLength [] := by
        change ¬ units d ≤ 0
        omega
      rw [List.nil_append, sliceTo, if_neg hbeyond]
      exact if_pos rfl
  | cons c cs ih =>
    have hrest : textLength (c :: cs) - units c = textLength cs := by
      rw [textLength_cons]
      omega
    rw [List.cons_append, sliceTo, if_pos (by rw [textLength_cons]; omega), hrest, ih]

/-- **And goes on with the rest.** -/
theorem sliceFrom_append (cs ds : List Char) : sliceFrom (textLength cs) (cs ++ ds) = ds := by
  induction cs with
  | nil =>
    cases ds with
    | nil => rfl
    | cons d ds =>
      have hpos := units_pos d
      have hbeyond : ¬ units d ≤ textLength [] := by
        change ¬ units d ≤ 0
        omega
      rw [List.nil_append, sliceFrom, if_neg hbeyond]
      exact if_pos rfl
  | cons c cs ih =>
    have hrest : textLength (c :: cs) - units c = textLength cs := by
      rw [textLength_cons]
      omega
    rw [List.cons_append, sliceFrom, if_pos (by rw [textLength_cons]; omega), hrest, ih]

end Optionia.Js
