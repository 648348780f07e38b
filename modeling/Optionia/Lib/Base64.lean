import Mathlib.Data.List.Basic
/-!
# Base64 for URLs

Bytes in an alphabet of sixty-four letters, six bits a letter and no padding.
Reading takes both alphabets, the one with `-` and `_` and the one with `+` and
`/`, and passes over every other character. What is written is read back
(`decode_encode`), in four letters for every three bytes (`length_encode`).
-/

namespace Base64

def letter (n : ℕ) : Char :=
  if n < 26 then Char.ofNat (65 + n)
  else if n < 52 then Char.ofNat (71 + n)
  else if n < 62 then Char.ofNat (n - 4)
  else if n = 62 then '-' else '_'

/-- The six bits of a letter, of either alphabet. -/
def sextet? (c : Char) : Option ℕ :=
  if 65 ≤ c.toNat ∧ c.toNat ≤ 90 then some (c.toNat - 65)
  else if 97 ≤ c.toNat ∧ c.toNat ≤ 122 then some (c.toNat - 71)
  else if 48 ≤ c.toNat ∧ c.toNat ≤ 57 then some (c.toNat + 4)
  else if c = '-' ∨ c = '+' then some 62
  else if c = '_' ∨ c = '/' then some 63
  else none

/-- Bytes, three at a time, as sextets. -/
def sextets : List UInt8 → List ℕ
  | a :: b :: c :: rest =>
    a.toNat / 4 :: (a.toNat % 4 * 16 + b.toNat / 16) :: (b.toNat % 16 * 4 + c.toNat / 64) ::
      c.toNat % 64 :: sextets rest
  | [a, b] => [a.toNat / 4, a.toNat % 4 * 16 + b.toNat / 16, b.toNat % 16 * 4]
  | [a] => [a.toNat / 4, a.toNat % 4 * 16]
  | [] => []

/-- Sextets, four at a time, as bytes; bits that fill no byte are dropped. -/
def bytes : List ℕ → List UInt8
  | a :: b :: c :: d :: rest =>
    .ofNat (a * 4 + b / 16) :: .ofNat (b % 16 * 16 + c / 4) :: .ofNat (c % 4 * 64 + d) ::
      bytes rest
  | [a, b, c] => [.ofNat (a * 4 + b / 16), .ofNat (b % 16 * 16 + c / 4)]
  | [a, b] => [.ofNat (a * 4 + b / 16)]
  | _ => []

def encode (l : List UInt8) : List Char := (sextets l).map letter

def decode (cs : List Char) : List UInt8 := bytes (cs.filterMap sextet?)

theorem sextet?_letter : ∀ n < 64, sextet? (letter n) = some n := by decide

theorem ofNat_eq {n : ℕ} {a : UInt8} (h : n = a.toNat) : UInt8.ofNat n = a := by
  rw [h, UInt8.ofNat_toNat]

theorem sextets_lt (l : List UInt8) : ∀ n ∈ sextets l, n < 64 := by
  induction l using sextets.induct with
  | case1 a b c rest ih =>
    have ha := a.toNat_lt
    have hb := b.toNat_lt
    intro n hn
    rw [sextets] at hn
    simp only [List.mem_cons] at hn
    rcases hn with rfl | rfl | rfl | rfl | hn
    · omega
    · omega
    · have hc := c.toNat_lt
      omega
    · omega
    · exact ih n hn
  | case2 a b =>
    have ha := a.toNat_lt
    have hb := b.toNat_lt
    simp only [sextets, List.forall_mem_cons]
    refine ⟨by omega, by omega, by omega, List.forall_mem_nil _⟩
  | case3 a =>
    have ha := a.toNat_lt
    simp only [sextets, List.forall_mem_cons]
    refine ⟨by omega, by omega, List.forall_mem_nil _⟩
  | case4 => exact List.forall_mem_nil _

theorem bytes_sextets (l : List UInt8) : bytes (sextets l) = l := by
  induction l using sextets.induct with
  | case1 a b c rest ih =>
    have ha := a.toNat_lt
    have hb := b.toNat_lt
    have hc := c.toNat_lt
    rw [sextets, bytes, ih, ofNat_eq (a := a) (by omega), ofNat_eq (a := b) (by omega),
      ofNat_eq (a := c) (by omega)]
  | case2 a b =>
    have ha := a.toNat_lt
    have hb := b.toNat_lt
    rw [sextets, bytes, ofNat_eq (a := a) (by omega), ofNat_eq (a := b) (by omega)]
  | case3 a => rw [sextets, bytes, ofNat_eq (a := a) (by omega)]
  | case4 => rfl

/-- **What is written is read back.** -/
theorem decode_encode (l : List UInt8) : decode (encode l) = l := by
  have hread : (encode l).filterMap sextet? = sextets l := by
    unfold encode
    rw [List.filterMap_map]
    have hall : ∀ n ∈ sextets l, (sextet? ∘ letter) n = some n :=
      fun n hn => sextet?_letter n (sextets_lt l n hn)
    rw [List.filterMap_congr hall, List.filterMap_some]
  rw [decode, hread, bytes_sextets]

theorem length_sextets (l : List UInt8) : (sextets l).length = (4 * l.length + 2) / 3 := by
  induction l using sextets.induct with
  | case1 a b c rest ih =>
    simp only [sextets, List.length_cons, ih]
    omega
  | case2 a b =>
    simp only [sextets, List.length_cons, List.length_nil]
  | case3 a =>
    simp only [sextets, List.length_cons, List.length_nil]
  | case4 => rfl

/-- **Four letters for every three bytes.** -/
theorem length_encode (l : List UInt8) : (encode l).length = (4 * l.length + 2) / 3 := by
  rw [encode, List.length_map, length_sextets]

end Base64
