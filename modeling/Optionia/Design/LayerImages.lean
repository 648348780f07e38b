import Optionia.Js.Numbers
import Optionia.Lib.IpText
/-!
# Which addresses a layer's image may be fetched from

`isPrivateAddress` reads the text of an address: an IPv4 address by its octets,
an IPv6 address by what its text begins with. IPv4 is read rightly. Of an IPv6
address there are many texts, and the answer is right for the ones `Seen`
describes (`private_iff_seen`): the unspecified and the loopback address in
their shortest text only, a mapped address with its octets in decimal, a
link-local address that begins with `fe80`.
-/

namespace Optionia.Design.LayerImages

open Hex IpText Js

/-! ## The check -/

/-- `text.toLowerCase()`, of ASCII. -/
def toLowerCase (cs : List Char) : List Char := cs.map Char.toLower

/-- `text.startsWith( word )` -/
def startsWith (cs : List Char) (word : String) : Bool := word.toList.isPrefixOf cs

/-- `address.replace( /^::ffff:/i, '' )` -/
def unmapped (address : List Char) : List Char :=
  if toLowerCase (address.take 7) = "::ffff:".toList then address.drop 7 else address

/-- The ranges of an IPv4 address, by its first two octets. -/
def privateOctets (a b : Binary64) : Bool :=
  a.same (.ofInt 0) || a.same (.ofInt 10) || a.same (.ofInt 127) ||
    (a.same (.ofInt 169) && b.same (.ofInt 254)) ||
    (a.same (.ofInt 172) && (Binary64.ofInt 16).le b && b.le (.ofInt 31)) ||
    (a.same (.ofInt 192) && b.same (.ofInt 168)) ||
    (a.same (.ofInt 100) && (Binary64.ofInt 64).le b && b.le (.ofInt 127)) ||
    (Binary64.ofInt 224).le a

/-- The beginnings of an IPv6 address in a private range. -/
def startsPrivate (v6 : List Char) : Bool :=
  startsWith v6 "fc" || startsWith v6 "fd" || startsWith v6 "fe80" || startsWith v6 "ff"

def isPrivateAddress (address : List Char) : Bool :=
  let mapped := unmapped address
  if isIP mapped = 4 then
    let parts := (mapped.splitOn '.').map number
    if parts.length ≠ 4 ∨
        parts.any (fun n => !isInteger n || n.lt (.ofInt 0) || (Binary64.ofInt 255).lt n) = true
    then true
    else privateOctets (parts.getD 0 .nan) (parts.getD 1 .nan)
  else
    let v6 := toLowerCase mapped
    decide (v6 = "::".toList) || decide (v6 = "::1".toList) || startsPrivate v6

/-! ## The addresses it is about -/

/-- An IPv4 address in 0/8, 10/8, 127/8, 169.254/16, 172.16/12, 192.168/16,
100.64/10 or 224/3. -/
def PrivateQuad (q : Quad) : Prop :=
  q.a = 0 ∨ q.a = 10 ∨ q.a = 127 ∨ (q.a = 169 ∧ q.b = 254) ∨
    (q.a = 172 ∧ 16 ≤ q.b ∧ q.b ≤ 31) ∨ (q.a = 192 ∧ q.b = 168) ∨
    (q.a = 100 ∧ 64 ≤ q.b ∧ q.b ≤ 127) ∨ 224 ≤ q.a

/-- The groups of the unspecified address. -/
def unspecified : List ℕ := List.replicate 8 0

/-- The groups of the loopback address. -/
def loopback : List ℕ := List.replicate 7 0 ++ [1]

/-- The groups of an IPv4-mapped address. -/
def mappedGroups (q : Quad) : List ℕ := List.replicate 5 0 ++ 0xffff :: q.values

/-- An IPv6 address that is unspecified, loopback, in fc00::/7, fe80::/10 or
ff00::/8, or maps such an IPv4 address. -/
def PrivateGroups (values : List ℕ) : Prop :=
  values = unspecified ∨ values = loopback ∨
    (∃ v ∈ values.head?, (0xfc00 ≤ v ∧ v ≤ 0xfdff) ∨ (0xfe80 ≤ v ∧ v ≤ 0xfebf) ∨ 0xff00 ≤ v) ∨
    ∃ q, PrivateQuad q ∧ values = mappedGroups q

/-- An address that a render must not reach. -/
def Private : Spelling → Prop
  | .v4 q => PrivateQuad q
  | .v6 spelt _ => PrivateGroups spelt.values

/-! ## What the check looks at -/

/-- The group a text begins with, if it is no `::`. -/
def first : V6 → Option Group
  | .full tail _ => tail.groups.head?
  | .run lead _ _ => lead.head?

/-- What follows `::ffff:`, where the text begins so. -/
def unwrapped : V6 → Option Tail
  | .run [] ⟨g :: groups, quad⟩ _ =>
    if toLowerCase g.text = "ffff".toList ∧ (groups ≠ [] ∨ quad ≠ none) then some ⟨groups, quad⟩
    else none
  | _ => none

/-- The group the check looks at. -/
def looked (spelt : V6) : Option Group :=
  match unwrapped spelt with
  | some tail => tail.groups.head?
  | none => first spelt

/-- A group that is taken for the beginning of a private range. -/
def Marked (g : Group) : Prop := startsPrivate (toLowerCase g.text) = true

/-- The texts of an IPv6 address that are answered rightly. -/
structure Seen (spelt : V6) : Prop where
  /-- The unspecified address is written `::`. -/
  unspecified : spelt.values = unspecified → spelt.text = "::".toList
  /-- The loopback address is written `::1`. -/
  loopback : spelt.values = loopback → spelt.text = "::1".toList
  /-- An address of fe80::/10 has `fe80` as its first group. -/
  linkLocal : ∀ g, first spelt = some g → 0xfe80 ≤ g.value → g.value ≤ 0xfebf → g.value = 0xfe80
  /-- A private address that is mapped has its octets after `::ffff:`, in
  decimal or behind a group that is taken for a private range. -/
  mapped : ∀ q, PrivateQuad q → spelt.values = mappedGroups q →
    unwrapped spelt = some ⟨[], some q⟩ ∨ ∃ g, looked spelt = some g ∧ Marked g
  /-- The group looked at of any other address is not taken for a private
  range. -/
  others : ¬PrivateGroups spelt.values → ∀ g, looked spelt = some g → ¬Marked g

/-- The texts that are answered rightly. -/
def Sees : Spelling → Prop
  | .v4 _ => True
  | .v6 spelt _ => Seen spelt

/-! ## IPv4 -/

/-- The number an octet is read as. -/
def octetNumber (n : Fin 256) : Binary64 := .ofInt (n : ℕ)

theorem octet_small (n : Fin 256) : |((n : ℕ) : ℤ)| ≤ 2 ^ 53 := by
  have hlt := n.isLt
  rw [abs_of_nonneg (by omega)]
  omega

theorem octet_same (n k : Fin 256) :
    (octetNumber n).same (octetNumber k) = decide (n = k) := by
  rw [octetNumber, octetNumber, same_ofInt (octet_small n) (octet_small k)]
  refine decide_eq_decide.2 ⟨fun h => Fin.ext (by exact_mod_cast h), ?_⟩
  rintro rfl
  rfl

theorem octet_le (n k : Fin 256) :
    (octetNumber n).le (octetNumber k) = decide (n ≤ k) := by
  rw [octetNumber, octetNumber, Binary64.le_ofInt (octet_small n) (octet_small k)]
  exact decide_eq_decide.2 (by rw [Fin.le_def]; exact Int.ofNat_le)

theorem privateOctets_iff (q : Quad) :
    privateOctets (octetNumber q.a) (octetNumber q.b) = true ↔ PrivateQuad q := by
  have hsame : ∀ n k : Fin 256, (octetNumber n).same (octetNumber k) = true ↔ n = k :=
    fun n k => by rw [octet_same, decide_eq_true_eq]
  have hle : ∀ n k : Fin 256, (octetNumber n).le (octetNumber k) = true ↔ n ≤ k :=
    fun n k => by rw [octet_le, decide_eq_true_eq]
  have h16 := hle 16 q.b
  have h31 := hle q.b 31
  have h64 := hle 64 q.b
  have h127 := hle q.b 127
  have h224 := hle 224 q.a
  have ha : ∀ k : Fin 256, _ := hsame q.a
  have hb : ∀ k : Fin 256, _ := hsame q.b
  simp only [privateOctets, PrivateQuad, Bool.or_eq_true, Bool.and_eq_true, or_assoc, and_assoc]
  exact or_congr (ha 0) (or_congr (ha 10) (or_congr (ha 127)
    (or_congr (and_congr (ha 169) (hb 254)) (or_congr (and_congr (ha 172) (and_congr h16 h31))
      (or_congr (and_congr (ha 192) (hb 168)) (or_congr (and_congr (ha 100) (and_congr h64 h127))
        h224))))))

theorem map_number_splitOn (q : Quad) :
    (q.text.splitOn '.').map number = q.octets.map octetNumber := by
  have hsplit : q.text.splitOn '.' = q.octets.map octetText := by
    refine List.splitOn_intercalate '.' (fun l hl => ?_) (List.cons_ne_nil _ _)
    obtain ⟨n, -, rfl⟩ := List.mem_map.1 hl
    exact notMem_octetText n (by decide)
  rw [hsplit, List.map_map]
  exact List.map_congr_left fun n _ => number_toDigits n

theorem octets_any (q : Quad) :
    (q.octets.map octetNumber).any
      (fun n => !isInteger n || n.lt (.ofInt 0) || (Binary64.ofInt 255).lt n) = false := by
  rw [List.any_map]
  refine List.any_eq_false.2 fun n _ => ?_
  have hlt := n.isLt
  have hinteger : isInteger (octetNumber n) = true := isInteger_ofInt (octet_small n)
  have hlow : (octetNumber n).lt (.ofInt 0) = false := by
    rw [octetNumber, Binary64.lt_ofInt (octet_small n) (by decide)]
    exact decide_eq_false (by omega)
  have hhigh : (Binary64.ofInt 255).lt (octetNumber n) = false := by
    rw [octetNumber, Binary64.lt_ofInt (by decide) (octet_small n)]
    exact decide_eq_false (by omega)
  simp [hinteger, hlow, hhigh]

variable {cs : List Char} {g : Group} {spelt : V6} {tail : Tail}

/-- **Four octets, once they are unwrapped, are read by their range.** -/
theorem isPrivateAddress_of_unmapped {q : Quad} (h : unmapped cs = q.text) :
    isPrivateAddress cs = true ↔ PrivateQuad q := by
  have hfour : isIP q.text = 4 := isIP_v4 q
  have hparts : (q.octets.map octetNumber).length = 4 := rfl
  rw [isPrivateAddress, h]
  dsimp only
  rw [if_pos hfour, map_number_splitOn, if_neg (by
    rw [hparts, octets_any]
    simp)]
  exact privateOctets_iff q

theorem unmapped_of_head (h : ∀ c ∈ cs.head?, c.toLower ≠ ':') : unmapped cs = cs := by
  refine if_neg fun heq => ?_
  cases cs with
  | nil => cases heq
  | cons c cs => exact h c rfl (List.cons.inj heq).1

theorem toLower_ne_colon_of_isDigit {c : Char} (h : Decimal.isDigit c = true) :
    c.toLower ≠ ':' := by
  intro hcolon
  have hc : isHex c = true := by
    simp only [Decimal.isDigit] at h
    simp [isHex, h]
  rw [toLower_eq_digitChar hc] at hcolon
  have hdigit := isHex_digitChar (hexDigit_lt hc)
  rw [hcolon] at hdigit
  exact absurd hdigit (by decide)

theorem isPrivateAddress_quad (q : Quad) : isPrivateAddress q.text = true ↔ PrivateQuad q := by
  refine isPrivateAddress_of_unmapped (unmapped_of_head fun c hc => ?_)
  have hmem : c ∈ (octetText q.a).head? := by
    obtain ⟨d, ds, hd⟩ := List.exists_cons_of_ne_nil (octetText_ne_nil q.a)
    rw [q.text_eq, hd] at hc
    rw [hd]
    exact hc
  exact toLower_ne_colon_of_isDigit (isDigit_of_mem_octetText (List.mem_of_mem_head? hmem))

/-! ## What an IPv6 text begins with -/

theorem toLowerCase_append (cs ds : List Char) :
    toLowerCase (cs ++ ds) = toLowerCase cs ++ toLowerCase ds := List.map_append

theorem colon_notMem_toLowerCase (g : Group) : ':' ∉ toLowerCase g.text := by
  intro hmem
  obtain ⟨c, hc, heq⟩ := List.mem_map.1 hmem
  have hhex := isHex_digitChar (hexDigit_lt (g.isHex_of_mem hc))
  rw [← toLower_eq_digitChar (g.isHex_of_mem hc), heq] at hhex
  exact absurd hhex (by decide)

theorem head_ne_colon (g : Group) (rest : List Char) :
    ∀ c ∈ (g.text ++ rest).head?, c.toLower ≠ ':' := by
  intro c hc hcolon
  obtain ⟨d, ds, hd⟩ := List.exists_cons_of_ne_nil g.ne_nil
  rw [hd] at hc
  obtain rfl : d = c := Option.some.inj hc
  refine colon_notMem_toLowerCase g ?_
  rw [toLowerCase, hd, List.map_cons, hcolon]
  exact List.mem_cons_self

theorem isPrefixOf_append_colon {w : List Char} (hw : ':' ∉ w) (cs rest : List Char) :
    w.isPrefixOf (cs ++ ':' :: rest) = w.isPrefixOf cs := by
  induction w generalizing cs with
  | nil => simp
  | cons c w ih =>
    have hc : c ≠ ':' := fun h => hw (h ▸ List.mem_cons_self)
    cases cs with
    | nil =>
      rw [List.nil_append, List.isPrefixOf_cons_cons, beq_eq_false_iff_ne.2 hc, Bool.false_and]
      rfl
    | cons d cs =>
      rw [List.cons_append, List.isPrefixOf_cons_cons, List.isPrefixOf_cons_cons,
        ih fun h => hw (List.mem_cons_of_mem _ h)]

theorem startsPrivate_append {rest : List Char} (hrest : ∀ c ∈ rest.head?, c = ':')
    (cs : List Char) : startsPrivate (cs ++ toLowerCase rest) = startsPrivate cs := by
  cases rest with
  | nil => rw [toLowerCase, List.map_nil, List.append_nil]
  | cons c rest =>
    obtain rfl : c = ':' := hrest c rfl
    change startsPrivate (cs ++ ':' :: toLowerCase rest) = _
    simp only [startsPrivate, startsWith]
    rw [isPrefixOf_append_colon (by decide), isPrefixOf_append_colon (by decide),
      isPrefixOf_append_colon (by decide), isPrefixOf_append_colon (by decide)]

theorem isPrivateAddress_of_ne (h : isIP (unmapped cs) ≠ 4) :
    isPrivateAddress cs = true ↔ toLowerCase (unmapped cs) = "::".toList ∨
      toLowerCase (unmapped cs) = "::1".toList ∨
        startsPrivate (toLowerCase (unmapped cs)) = true := by
  rw [isPrivateAddress]
  dsimp only
  rw [if_neg h, Bool.or_eq_true, Bool.or_eq_true, decide_eq_true_eq, decide_eq_true_eq, or_assoc]

/-- **A text that begins with a group is read by it.** -/
theorem isPrivateAddress_group {rest : List Char} (hmapped : unmapped cs = g.text ++ rest)
    (hrest : ∀ c ∈ rest.head?, c = ':') (hip : isIP (unmapped cs) ≠ 4) :
    isPrivateAddress cs = true ↔ Marked g := by
  have hhead := head_ne_colon g rest
  have hne : ∀ rest, toLowerCase (unmapped cs) ≠ ':' :: rest := by
    intro rest heq
    rw [← hmapped] at hhead
    cases hcs : unmapped cs with
    | nil =>
      rw [hcs] at heq
      cases heq
    | cons c cs' =>
      rw [hcs] at hhead heq
      exact hhead c rfl (List.cons.inj heq).1
  rw [isPrivateAddress_of_ne hip]
  constructor
  · rintro (h | h | h)
    · exact absurd h (hne _)
    · exact absurd h (hne _)
    · rwa [hmapped, toLowerCase_append, startsPrivate_append hrest] at h
  · intro h
    rw [hmapped, toLowerCase_append, startsPrivate_append hrest]
    exact Or.inr (Or.inr h)

theorem head_behind (t : Tail) : ∀ c ∈ t.behind.head?, c = ':' := by
  intro c hc
  unfold Tail.behind at hc
  split at hc
  · cases hc
  · exact (Option.some.inj hc).symm

theorem isIP_text_ne (spelt : V6) : isIP spelt.text ≠ 4 := by
  have hsix := isIP_v6 spelt none
  rw [Spelling.text, zoneText, List.append_nil] at hsix
  rw [hsix]
  decide

theorem isIP_tail_ne (g : Group) (groups : List Group) (quad : Option Quad) :
    isIP (Tail.text ⟨g :: groups, quad⟩) ≠ 4 := by
  intro h
  obtain ⟨q, hq⟩ := isIP_eq_four_iff.1 h
  have hquad : Tail.text ⟨[], some q⟩ = q.text := List.intercalate_singleton
  have hread := tail?_text ⟨g :: groups, quad⟩
  rw [← hq, ← hquad, tail?_text] at hread
  cases hread

theorem exists_rest (h : first spelt = some g) :
    ∃ rest, spelt.text = g.text ++ rest ∧ ∀ c ∈ rest.head?, c = ':' := by
  cases spelt with
  | full tail fits =>
    obtain ⟨groups, quad⟩ := tail
    cases groups with
    | nil => cases h
    | cons g' groups =>
      obtain rfl : g' = g := Option.some.inj h
      exact ⟨Tail.behind ⟨groups, quad⟩, Tail.text_cons _ _ _, head_behind _⟩
  | run lead tail fits =>
    cases lead with
    | nil => cases h
    | cons g' lead =>
      obtain rfl : g' = g := Option.some.inj h
      refine ⟨Tail.behind ⟨lead, none⟩ ++ ':' :: ':' :: tail.text, ?_, ?_⟩
      · rw [V6.text, Tail.text_cons, List.append_assoc]
      · intro c hc
        rw [List.head?_append] at hc
        cases hb : (Tail.behind ⟨lead, none⟩).head? with
        | none =>
          rw [hb] at hc
          exact (Option.some.inj hc).symm
        | some d =>
          rw [hb] at hc
          obtain rfl : d = c := Option.some.inj hc
          exact head_behind _ d hb

theorem first_eq_none (h : first spelt = none) : ∃ tail fits, spelt = .run [] tail fits := by
  cases spelt with
  | full tail fits =>
    obtain ⟨groups, quad⟩ := tail
    cases groups with
    | nil =>
      -- Four octets alone are two groups, not eight.
      cases quad <;> cases fits
    | cons g groups => cases h
  | run lead tail fits =>
    cases lead with
    | nil => exact ⟨tail, fits, rfl⟩
    | cons g lead => cases h

/-! ## What follows `::ffff:` -/

theorem unwrapped_eq_some (h : unwrapped spelt = some tail) :
    ∃ g fits, spelt = .run [] ⟨g :: tail.groups, tail.quad⟩ fits ∧
      toLowerCase g.text = "ffff".toList ∧ tail ≠ ⟨[], none⟩ := by
  unfold unwrapped at h
  split at h
  · next g groups quad fits =>
    split at h
    · next hcond =>
      obtain rfl := Option.some.inj h
      refine ⟨g, fits, rfl, hcond.1, ?_⟩
      rintro hnone
      obtain ⟨rfl, rfl⟩ := Tail.mk.inj hnone
      exact hcond.2.elim (fun h => h rfl) fun h => h rfl
    · cases h
  · cases h

/-- **What follows `::ffff:` is what the check is about.** -/
theorem unmapped_of_unwrapped (h : unwrapped spelt = some tail) :
    unmapped spelt.text = tail.text := by
  obtain ⟨g, fits, rfl, hffff, hne⟩ := unwrapped_eq_some h
  obtain ⟨groups, quad⟩ := tail
  have hlength : g.text.length = 4 := by
    have hmap : (toLowerCase g.text).length = g.text.length := List.length_map _
    rw [← hmap, hffff]
    rfl
  have hbehind : Tail.behind ⟨groups, quad⟩ = ':' :: Tail.text ⟨groups, quad⟩ := if_neg hne
  have htext : V6.text (.run [] ⟨g :: groups, quad⟩ fits) =
      (':' :: ':' :: g.text ++ [':']) ++ Tail.text ⟨groups, quad⟩ := by
    change ':' :: ':' :: Tail.text ⟨g :: groups, quad⟩ = _
    rw [Tail.text_cons, hbehind]
    simp
  have hseven : (':' :: ':' :: g.text ++ [':']).length = 7 := by simp [hlength]
  have hlower : toLowerCase (':' :: ':' :: g.text ++ [':']) = "::ffff:".toList := by
    rw [toLowerCase_append]
    change ':' :: ':' :: toLowerCase g.text ++ [':'] = _
    rw [hffff]
    rfl
  rw [htext, unmapped, List.take_left' hseven, hlower, if_pos rfl, List.drop_left' hseven]

/-- A text that begins with `::` otherwise stays as it is. -/
theorem unmapped_of_none {fits : ([] : List Group).length + tail.width ≤ 7}
    (h : unwrapped (.run [] tail fits) = none) :
    unmapped (V6.text (.run [] tail fits)) = V6.text (.run [] tail fits) := by
  refine if_neg fun heq => ?_
  have htext : V6.text (.run [] tail fits) = ':' :: ':' :: tail.text := rfl
  rw [htext] at heq
  have hfive : toLowerCase (tail.text.take 5) = "ffff:".toList := by
    have hcons : toLowerCase ((':' :: ':' :: tail.text).take 7) =
        ':' :: ':' :: toLowerCase (tail.text.take 5) := rfl
    rw [hcons] at heq
    exact (List.cons.inj (List.cons.inj heq).2).2
  have hlower : toLowerCase tail.text = "ffff:".toList ++ toLowerCase (tail.text.drop 5) := by
    rw [← hfive, ← toLowerCase_append, List.take_append_drop]
  obtain ⟨groups, quad⟩ := tail
  cases groups with
  | nil =>
    cases quad with
    | none => cases hlower
    | some q =>
      -- The octets begin with a digit, not with a letter.
      have hquad : Tail.text ⟨[], some q⟩ = q.text := List.intercalate_singleton
      obtain ⟨c, cs, hc⟩ := List.exists_cons_of_ne_nil (octetText_ne_nil q.a)
      have hdigit := isDigit_of_mem_octetText (hc ▸ List.mem_cons_self : c ∈ octetText q.a)
      rw [hquad, q.text_eq, hc] at hlower
      have hf : c.toLower = 'f' := (List.cons.inj hlower).1
      have hhex : isHex c = true := by
        simp only [Decimal.isDigit] at hdigit
        simp [isHex, hdigit]
      have hsame : c.toLower = c := by
        refine dif_neg fun hupper => ?_
        have hle : c.toNat ≤ 57 := by
          simp only [Decimal.isDigit, Bool.and_eq_true, decide_eq_true_eq] at hdigit
          exact hdigit.2
        have hge : 65 ≤ c.toNat := hupper.1
        omega
      rw [hsame] at hf
      rw [hf] at hdigit
      exact absurd hdigit (by decide)
  | cons g groups =>
    have hcut : ∀ (cs rest : List Char), ':' ∉ cs → (∀ c ∈ rest.head?, c = ':') →
        (cs ++ rest).takeWhile (· ≠ ':') = cs := by
      intro cs rest hcs hrest
      have hall : ∀ c ∈ cs, decide (c ≠ ':') = true := fun c hc =>
        decide_eq_true fun h : c = ':' => hcs (h ▸ hc)
      rw [List.takeWhile_append_of_pos hall]
      cases rest with
      | nil => rw [List.takeWhile_nil, List.append_nil]
      | cons c rest =>
        rw [hrest c rfl, List.takeWhile_cons_of_neg (by decide), List.append_nil]
    have hlowerBehind : ∀ c ∈ (toLowerCase (Tail.behind ⟨groups, quad⟩)).head?, c = ':' := by
      intro c hc
      rw [toLowerCase, List.head?_map] at hc
      obtain ⟨d, hd, rfl⟩ := Option.map_eq_some_iff.1 hc
      rw [head_behind _ d hd]
      rfl
    have hleft := hcut _ _ (colon_notMem_toLowerCase g) hlowerBehind
    have hright := hcut "ffff".toList (':' :: toLowerCase
      ((Tail.text ⟨g :: groups, quad⟩).drop 5)) (by decide) fun c hc => (Option.some.inj hc).symm
    have hsplit : toLowerCase g.text ++ toLowerCase (Tail.behind ⟨groups, quad⟩) =
        "ffff".toList ++ ':' :: toLowerCase ((Tail.text ⟨g :: groups, quad⟩).drop 5) := by
      rw [← toLowerCase_append, ← Tail.text_cons]
      exact hlower
    have hffff : toLowerCase g.text = "ffff".toList := by
      rw [← hleft, hsplit, hright]
    refine absurd h ?_
    rw [unwrapped, if_pos]
    · exact Option.some_ne_none _
    · refine ⟨hffff, ?_⟩
      by_contra hnone
      rw [not_or, not_not, not_not] at hnone
      obtain ⟨rfl, rfl⟩ := hnone
      rw [hffff] at hsplit
      cases hsplit

/-! ## The answer -/

theorem eq_of_toLowerCase {w : List Char} (hw : ∀ c ∈ w, c.toNat < 65) (h : toLowerCase cs = w) :
    cs = w := by
  subst h
  induction cs with
  | nil => rfl
  | cons c cs ih =>
    have hc := hw c.toLower (List.mem_map_of_mem List.mem_cons_self)
    have hcs := ih fun d hd => hw d (List.mem_cons_of_mem _ hd)
    have hsame : c = c.toLower := eq_of_toLower_eq hc rfl
    calc c :: cs = c.toLower :: toLowerCase cs := by rw [← hsame, ← hcs]
      _ = toLowerCase (c :: cs) := rfl

/-- A text with a group after `::ffff:` is neither `::` nor `::1`. -/
theorem text_ne_of_unwrapped (h : unwrapped spelt = some tail) :
    spelt.text ≠ "::".toList ∧ spelt.text ≠ "::1".toList := by
  have hunmapped := unmapped_of_unwrapped h
  have hread := tail?_text tail
  constructor
  · intro htext
    have hself : unmapped "::".toList = "::".toList := by decide
    rw [← hunmapped, htext, hself] at hread
    exact absurd hread.symm (by rw [show tail? "::".toList = none by decide]; exact nofun)
  · intro htext
    have hself : unmapped "::1".toList = "::1".toList := by decide
    rw [← hunmapped, htext, hself] at hread
    exact absurd hread.symm (by rw [show tail? "::1".toList = none by decide]; exact nofun)

theorem text_ne_of_first (h : first spelt = some g) (rest : List Char) :
    spelt.text ≠ ':' :: rest := by
  obtain ⟨behind, htext, -⟩ := exists_rest h
  intro heq
  have hhead := head_ne_colon g behind
  rw [← htext, heq] at hhead
  exact hhead ':' rfl rfl

theorem unwrapped_of_first (h : first spelt = some g) : unwrapped spelt = none := by
  cases hw : unwrapped spelt with
  | none => rfl
  | some tail =>
    obtain ⟨g', fits, rfl, -⟩ := unwrapped_eq_some hw
    cases h

/-- **What the check answers.** -/
theorem isPrivateAddress_iff (spelt : V6) :
    isPrivateAddress spelt.text = true ↔ spelt.text = "::".toList ∨ spelt.text = "::1".toList ∨
      (∃ q, unwrapped spelt = some ⟨[], some q⟩ ∧ PrivateQuad q) ∨
        ∃ g, looked spelt = some g ∧ Marked g := by
  cases hw : unwrapped spelt with
  | some tail =>
    have hunmapped := unmapped_of_unwrapped hw
    obtain ⟨hne, hne'⟩ := text_ne_of_unwrapped hw
    have hlooked : looked spelt = tail.groups.head? := by rw [looked, hw]
    rw [hlooked]
    obtain ⟨-, -, -, -, hempty⟩ := unwrapped_eq_some hw
    obtain ⟨groups, quad⟩ := tail
    cases groups with
    | nil =>
      cases quad with
      | none => exact absurd rfl hempty
      | some q =>
        have hquad : Tail.text ⟨[], some q⟩ = q.text := List.intercalate_singleton
        rw [isPrivateAddress_of_unmapped (hunmapped.trans hquad), or_iff_right hne,
          or_iff_right hne']
        simp
    | cons g groups =>
      have htext := hunmapped.trans (Tail.text_cons g groups quad)
      have hip : isIP (unmapped spelt.text) ≠ 4 := by
        rw [hunmapped]
        exact isIP_tail_ne g groups quad
      rw [isPrivateAddress_group htext (head_behind _) hip, or_iff_right hne, or_iff_right hne']
      simp
  | none =>
    have hlooked : looked spelt = first spelt := by rw [looked, hw]
    rw [hlooked]
    cases hf : first spelt with
    | some g =>
      obtain ⟨rest, htext, hrest⟩ := exists_rest hf
      have hself : unmapped spelt.text = spelt.text := by
        rw [htext]
        exact unmapped_of_head (head_ne_colon g rest)
      have hip : isIP (unmapped spelt.text) ≠ 4 := by
        rw [hself]
        exact isIP_text_ne spelt
      rw [isPrivateAddress_group (hself.trans htext) hrest hip]
      simp [text_ne_of_first hf]
    | none =>
      obtain ⟨tail, fits, rfl⟩ := first_eq_none hf
      have hself := unmapped_of_none hw
      have hip : isIP (unmapped (V6.text (.run [] tail fits))) ≠ 4 := by
        rw [hself]
        exact isIP_text_ne _
      have hstart : startsPrivate (toLowerCase (V6.text (.run [] tail fits))) = false := rfl
      rw [isPrivateAddress_of_ne hip, hself, hstart]
      have hshort : toLowerCase (V6.text (.run [] tail fits)) = "::".toList ↔
          V6.text (.run [] tail fits) = "::".toList :=
        ⟨eq_of_toLowerCase (by simp), fun h => by rw [h]; rfl⟩
      have hone : toLowerCase (V6.text (.run [] tail fits)) = "::1".toList ↔
          V6.text (.run [] tail fits) = "::1".toList :=
        ⟨eq_of_toLowerCase (by simp), fun h => by rw [h]; rfl⟩
      rw [hshort, hone]
      simp

/-! ## What the groups of a text are worth -/

theorem toLowerCase_group (g : Group) :
    toLowerCase g.text = (g.text.map hexDigit).map Nat.digitChar := by
  rw [toLowerCase, List.map_map]
  exact List.map_congr_left fun c hc => toLower_eq_digitChar (g.isHex_of_mem hc)

theorem exists_digits (h : 4096 ≤ g.value) :
    ∃ a b c d, toLowerCase g.text = [a, b, c, d].map Nat.digitChar ∧
      g.value = 4096 * a + 256 * b + 16 * c + d ∧ a < 16 ∧ b < 16 ∧ c < 16 ∧ d < 16 := by
  have hlt := hexValue_lt fun c hc => g.isHex_of_mem hc
  have hfour : g.text.length = 4 := by
    have hle := g.length_le
    by_contra hne
    have hpow : 16 ^ g.text.length ≤ 16 ^ 3 := Nat.pow_le_pow_right (by decide) (by omega)
    have hbig : 4096 ≤ hexValue g.text := h
    omega
  have hlower : toLowerCase g.text = (g.text.map hexDigit).map Nat.digitChar := toLowerCase_group g
  have hhex := fun c hc => hexDigit_lt (g.isHex_of_mem (c := c) hc)
  have hvalue : g.value = hexValue g.text := rfl
  obtain ⟨a, b, c, d, htext⟩ := List.length_eq_four.1 hfour
  rw [htext] at hhex hvalue
  have hdigits : g.text.map hexDigit = [hexDigit a, hexDigit b, hexDigit c, hexDigit d] := by
    rw [htext]
    rfl
  rw [hdigits] at hlower
  refine ⟨hexDigit a, hexDigit b, hexDigit c, hexDigit d, hlower, ?_, hhex a (by simp),
    hhex b (by simp), hhex c (by simp), hhex d (by simp)⟩
  rw [hvalue, hexValue]
  simp only [List.foldl_cons, List.foldl_nil]
  omega

theorem startsPrivate_digits (a b c d : ℕ) :
    startsPrivate ([a, b, c, d].map Nat.digitChar) = true ↔
      a = 15 ∧ (b = 12 ∨ b = 13 ∨ (b = 14 ∧ c = 8 ∧ d = 0) ∨ b = 15) := by
  simp only [startsPrivate, startsWith, List.map_cons, List.map_nil, Bool.or_eq_true,
    List.isPrefixOf_iff_prefix]
  simp only [show "fc".toList = ['f', 'c'] from rfl, show "fd".toList = ['f', 'd'] from rfl,
    show "fe80".toList = ['f', 'e', '8', '0'] from rfl, show "ff".toList = ['f', 'f'] from rfl,
    List.cons_prefix_cons, List.nil_prefix, and_true, @eq_comm Char 'f', @eq_comm Char 'c',
    @eq_comm Char 'd', @eq_comm Char 'e', @eq_comm Char '8', @eq_comm Char '0',
    Nat.digitChar_eq_f, Nat.digitChar_eq_c, Nat.digitChar_eq_d, Nat.digitChar_eq_e,
    Nat.digitChar_eq_eight, Nat.digitChar_eq_zero]
  tauto

/-- **A large group is taken for a private range by its value.** -/
theorem marked_iff (h : 4096 ≤ g.value) :
    Marked g ↔ (0xfc00 ≤ g.value ∧ g.value ≤ 0xfdff) ∨ g.value = 0xfe80 ∨ 0xff00 ≤ g.value := by
  obtain ⟨a, b, c, d, htext, hvalue, ha, hb, hc, hd⟩ := exists_digits h
  rw [Marked, htext, startsPrivate_digits, hvalue]
  constructor
  · rintro ⟨rfl, hcases⟩
    omega
  · intro hrange
    have hdigit : a = 15 := by omega
    refine ⟨hdigit, ?_⟩
    subst hdigit
    omega

theorem hexDigit_of_f {c : Char} (h : isHex c = true) (hf : c.toLower = 'f') :
    hexDigit c = 15 := by
  rw [toLower_eq_digitChar h] at hf
  exact Nat.digitChar_eq_f.1 hf

/-- No group that is taken for a private range is worth 0 or 1: its first digit
is fifteen. -/
theorem two_le_of_marked (h : Marked g) : 2 ≤ g.value := by
  obtain ⟨c, cs, hc⟩ := List.exists_cons_of_ne_nil g.ne_nil
  have hhex := g.isHex_of_mem (hc ▸ List.mem_cons_self : c ∈ g.text)
  have hf : c.toLower = 'f' := by
    rw [Marked, hc] at h
    simp only [startsPrivate, startsWith, toLowerCase, List.map_cons, Bool.or_eq_true,
      List.isPrefixOf_iff_prefix] at h
    rcases h with ((h | h) | h) | h
    · exact (List.cons_prefix_cons.1 h).1.symm
    · exact (List.cons_prefix_cons.1 h).1.symm
    · exact (List.cons_prefix_cons.1 h).1.symm
    · exact (List.cons_prefix_cons.1 h).1.symm
  have hle := hexDigit_le_hexValue c cs
  rw [hexDigit_of_f hhex hf, ← hc] at hle
  have hvalue : g.value = hexValue g.text := rfl
  omega

/-! ## What the groups denote -/

theorem head?_of_first (h : first spelt = some g) : spelt.values.head? = some g.value := by
  cases spelt with
  | full tail fits =>
    obtain ⟨groups, quad⟩ := tail
    cases groups with
    | nil => cases h
    | cons g' groups =>
      obtain rfl : g' = g := Option.some.inj h
      rfl
  | run lead tail fits =>
    cases lead with
    | nil => cases h
    | cons g' lead =>
      obtain rfl : g' = g := Option.some.inj h
      rfl

/-- What begins with `::` denotes zeros and what stands behind them. -/
theorem values_run (tail : Tail) (fits : ([] : List Group).length + tail.width ≤ 7) :
    (V6.run [] tail fits).values = List.replicate (8 - tail.width) 0 ++ tail.values := by
  rw [V6.values]
  rfl

theorem head?_of_none (h : first spelt = none) : spelt.values.head? = some 0 := by
  obtain ⟨tail, fits, rfl⟩ := first_eq_none h
  have hroom : 8 - tail.width = (7 - tail.width) + 1 := by
    rw [List.length_nil] at fits
    omega
  rw [values_run, hroom, List.replicate_succ]
  rfl

theorem value_of_ffff (h : toLowerCase g.text = "ffff".toList) : g.value = 0xffff := by
  have hmap : (toLowerCase g.text).length = g.text.length := List.length_map _
  rw [h] at hmap
  have hhex := fun c hc => g.isHex_of_mem (c := c) hc
  have hvalue : g.value = hexValue g.text := rfl
  obtain ⟨a, b, c, d, htext⟩ := List.length_eq_four.1 hmap.symm
  rw [htext] at h hhex hvalue
  obtain ⟨ha, h⟩ := List.cons.inj h
  obtain ⟨hb, h⟩ := List.cons.inj h
  obtain ⟨hc, h⟩ := List.cons.inj h
  obtain ⟨hd, -⟩ := List.cons.inj h
  rw [hvalue, hexValue]
  simp only [List.foldl_cons, List.foldl_nil, hexDigit_of_f (hhex a (by simp)) ha,
    hexDigit_of_f (hhex b (by simp)) hb, hexDigit_of_f (hhex c (by simp)) hc,
    hexDigit_of_f (hhex d (by simp)) hd]

/-- **What is unwrapped is a mapped address where only octets are left.** -/
theorem values_of_unwrapped_quad {q : Quad} (h : unwrapped spelt = some ⟨[], some q⟩) :
    spelt.values = mappedGroups q := by
  obtain ⟨g, fits, rfl, hffff, -⟩ := unwrapped_eq_some h
  have hwidth : (Tail.mk [g] (some q)).width = 3 := rfl
  rw [values_run, hwidth]
  change List.replicate 5 0 ++ (g.value :: q.values) = _
  rw [value_of_ffff hffff]
  rfl

theorem mem_values_of_looked (h : looked spelt = some g) : g.value ∈ spelt.values := by
  cases hw : unwrapped spelt with
  | none =>
    rw [looked, hw] at h
    exact List.mem_of_mem_head? (head?_of_first h)
  | some tail =>
    rw [looked, hw] at h
    obtain ⟨g', fits, rfl, -⟩ := unwrapped_eq_some hw
    obtain ⟨groups, quad⟩ := tail
    cases groups with
    | nil => cases h
    | cons g'' groups =>
      obtain rfl : g'' = g := Option.some.inj h
      rw [values_run]
      refine List.mem_append_right _ (List.mem_append_left _ ?_)
      exact List.mem_cons_of_mem _ List.mem_cons_self

theorem not_marked_of_small (h : ∀ v ∈ spelt.values, v < 2) (hg : looked spelt = some g) :
    ¬Marked g := by
  intro hmarked
  have hlt := h _ (mem_values_of_looked hg)
  have hle := two_le_of_marked hmarked
  omega

theorem values_of_short (h : spelt.text = "::".toList) : spelt.values = unspecified := by
  have hread := v6?_text spelt
  have hshort : v6? "::".toList = some (.run [] ⟨[], none⟩ (by decide)) := by decide
  rw [h, hshort] at hread
  rw [← Option.some.inj hread]
  rfl

theorem values_of_one (h : spelt.text = "::1".toList) : spelt.values = loopback := by
  have hread := v6?_text spelt
  have hone : v6? "::1".toList = some (.run [] ⟨[⟨['1'], by decide⟩], none⟩ (by decide)) := by
    decide
  rw [h, hone] at hread
  rw [← Option.some.inj hread]
  rfl

/-! ## When the answer is right -/

theorem unspecified_ne_mapped (q : Quad) : unspecified ≠ mappedGroups q := by
  intro h
  have hsixth : (0 : ℕ) = 0xffff := congrArg (fun l => l.getD 5 0) h
  exact absurd hsixth (by decide)

theorem loopback_ne_mapped (q : Quad) : loopback ≠ mappedGroups q := by
  intro h
  have hsixth : (0 : ℕ) = 0xffff := congrArg (fun l => l.getD 5 0) h
  exact absurd hsixth (by decide)

theorem mappedGroups_inj {q q' : Quad} (h : mappedGroups q = mappedGroups q') : q = q' := by
  have hhigh : (q.a * 256 + q.b : ℕ) = q'.a * 256 + q'.b := congrArg (fun l => l.getD 6 0) h
  have hlow : (q.c * 256 + q.d : ℕ) = q'.c * 256 + q'.d := congrArg (fun l => l.getD 7 0) h
  obtain ⟨a, b, c, d⟩ := q
  obtain ⟨a', b', c', d'⟩ := q'
  dsimp only at hhigh hlow
  have ha : a = a' := Fin.ext (by omega)
  have hb : b = b' := Fin.ext (by omega)
  have hc : c = c' := Fin.ext (by omega)
  have hd : d = d' := Fin.ext (by omega)
  rw [ha, hb, hc, hd]

/-- The answer for a text that neither is `::` or `::1` nor has its octets
behind `::ffff:`. -/
theorem answer_of_ne (hshort : spelt.text ≠ "::".toList) (hone : spelt.text ≠ "::1".toList)
    (hquad : ∀ q, unwrapped spelt ≠ some ⟨[], some q⟩) :
    isPrivateAddress spelt.text = true ↔ ∃ g, looked spelt = some g ∧ Marked g := by
  rw [isPrivateAddress_iff, or_iff_right hshort, or_iff_right hone, or_iff_right]
  rintro ⟨q, hq, -⟩
  exact hquad q hq

theorem answer_of_first (h : first spelt = some g) :
    isPrivateAddress spelt.text = true ↔ Marked g := by
  have hnone := unwrapped_of_first h
  have hlooked : looked spelt = some g := by rw [looked, hnone, h]
  rw [answer_of_ne (text_ne_of_first h _) (text_ne_of_first h _) fun q hq => by
    rw [hnone] at hq
    cases hq]
  rw [hlooked]
  simp

/-- **What the answer says is so**: wherever the check says private and the
group looked at is not mistaken, the address is. -/
theorem private_of_answer
    (hothers : ¬PrivateGroups spelt.values → ∀ g, looked spelt = some g → ¬Marked g)
    (h : isPrivateAddress spelt.text = true) : PrivateGroups spelt.values := by
  rcases (isPrivateAddress_iff spelt).1 h with hshort | hone | ⟨q, hq, hprivate⟩ | ⟨g, hg, hmarked⟩
  · exact Or.inl (values_of_short hshort)
  · exact Or.inr (Or.inl (values_of_one hone))
  · exact Or.inr (Or.inr (Or.inr ⟨q, hprivate, values_of_unwrapped_quad hq⟩))
  · by_contra hnot
    exact hothers hnot g hg hmarked

/-- **A private address is answered as one where its text is one of those
described.** -/
theorem answer_of_private (hseen : Seen spelt) (h : PrivateGroups spelt.values) :
    isPrivateAddress spelt.text = true := by
  rcases h with hzero | hone | ⟨v, hv, hrange⟩ | ⟨q, hq, hmapped⟩
  · exact (isPrivateAddress_iff spelt).2 (Or.inl (hseen.unspecified hzero))
  · exact (isPrivateAddress_iff spelt).2 (Or.inr (Or.inl (hseen.loopback hone)))
  · -- The first group is not zero, so the text begins with it.
    cases hf : first spelt with
    | none =>
      rw [head?_of_none hf] at hv
      obtain rfl : 0 = v := Option.some.inj hv
      omega
    | some g =>
      rw [head?_of_first hf] at hv
      obtain rfl : g.value = v := Option.some.inj hv
      refine (answer_of_first hf).2 ((marked_iff (by omega)).2 ?_)
      rcases hrange with hfc | hfe | hff
      · exact Or.inl hfc
      · exact Or.inr (Or.inl (hseen.linkLocal g hf hfe.1 hfe.2))
      · exact Or.inr (Or.inr hff)
  · rcases hseen.mapped q hq hmapped with hunwrapped | hmarked
    · exact (isPrivateAddress_iff spelt).2 (Or.inr (Or.inr (Or.inl ⟨q, hunwrapped, hq⟩)))
    · exact (isPrivateAddress_iff spelt).2 (Or.inr (Or.inr (Or.inr hmarked)))

/-- **And its text is one of those where it is answered as one.** -/
theorem seen_of_answers (h : isPrivateAddress spelt.text = true ↔ PrivateGroups spelt.values) :
    Seen spelt where
  unspecified := by
    intro hzero
    have hanswer := h.2 (Or.inl hzero)
    rcases (isPrivateAddress_iff spelt).1 hanswer with hshort | hone | ⟨q, hq, -⟩ | ⟨g, hg, hmarked⟩
    · exact hshort
    · rw [values_of_one hone] at hzero
      exact absurd hzero (by decide)
    · rw [values_of_unwrapped_quad hq] at hzero
      exact absurd hzero.symm (unspecified_ne_mapped q)
    · refine absurd hmarked (not_marked_of_small (fun v hv => ?_) hg)
      rw [hzero] at hv
      exact (by decide : ∀ v ∈ unspecified, v < 2) v hv
  loopback := by
    intro hloop
    have hanswer := h.2 (Or.inr (Or.inl hloop))
    rcases (isPrivateAddress_iff spelt).1 hanswer with hshort | hone | ⟨q, hq, -⟩ | ⟨g, hg, hmarked⟩
    · rw [values_of_short hshort] at hloop
      exact absurd hloop (by decide)
    · exact hone
    · rw [values_of_unwrapped_quad hq] at hloop
      exact absurd hloop.symm (loopback_ne_mapped q)
    · refine absurd hmarked (not_marked_of_small (fun v hv => ?_) hg)
      rw [hloop] at hv
      exact (by decide : ∀ v ∈ loopback, v < 2) v hv
  linkLocal := by
    intro g hf hlow hhigh
    have hprivate : PrivateGroups spelt.values :=
      Or.inr (Or.inr (Or.inl ⟨g.value, head?_of_first hf, Or.inr (Or.inl ⟨hlow, hhigh⟩)⟩))
    have hmarked := (answer_of_first hf).1 (h.2 hprivate)
    rcases (marked_iff (by omega)).1 hmarked with hfc | hfe | hff
    · omega
    · exact hfe
    · omega
  mapped := by
    intro q hq hmapped
    have hanswer := h.2 (Or.inr (Or.inr (Or.inr ⟨q, hq, hmapped⟩)))
    rcases (isPrivateAddress_iff spelt).1 hanswer with hshort | hone | ⟨q', hq', -⟩ | hmarked
    · rw [values_of_short hshort] at hmapped
      exact absurd hmapped (unspecified_ne_mapped q)
    · rw [values_of_one hone] at hmapped
      exact absurd hmapped (loopback_ne_mapped q)
    · have hsame : mappedGroups q' = mappedGroups q := by
        rw [← values_of_unwrapped_quad hq', hmapped]
      exact Or.inl (mappedGroups_inj hsame ▸ hq')
    · exact Or.inr hmarked
  others := by
    intro hnot g hg hmarked
    refine hnot (h.1 ?_)
    exact (isPrivateAddress_iff spelt).2 (Or.inr (Or.inr (Or.inr ⟨g, hg, hmarked⟩)))

/-- An address of 2000::/3 is never answered as private, however it is written. -/
theorem answer_of_global {v : ℕ} (hv : spelt.values.head? = some v) (hlow : 0x2000 ≤ v)
    (hhigh : v ≤ 0x3fff) : isPrivateAddress spelt.text = false := by
  cases hf : first spelt with
  | none =>
    rw [head?_of_none hf] at hv
    obtain rfl : 0 = v := Option.some.inj hv
    omega
  | some g =>
    rw [head?_of_first hf] at hv
    obtain rfl : g.value = v := Option.some.inj hv
    rw [Bool.eq_false_iff]
    intro hanswer
    have hmarked := (answer_of_first hf).1 hanswer
    have hrange := (marked_iff (by omega)).1 hmarked
    omega

/-- **An IPv6 text is answered rightly where it is one of those described.** -/
theorem private_iff_seen (spelt : V6) :
    (isPrivateAddress spelt.text = true ↔ PrivateGroups spelt.values) ↔ Seen spelt :=
  ⟨seen_of_answers, fun hseen =>
    ⟨private_of_answer hseen.others, answer_of_private hseen⟩⟩

/-- **When the check sees through a text.** Of all texts that `isIP` accepts, zones
aside, the check answers private for the addresses of the ranges and not for
any other where the text is of the kind described. -/
theorem sees_through_iff {cs : List Char} {s : Spelling} (hread : read? cs = some s)
    (hzone : '%' ∉ cs) :
    ((Private s → isPrivateAddress cs = true) ∧ (¬Private s → isPrivateAddress cs = false)) ↔
      Sees s := by
  obtain rfl := read?_eq_some_iff.1 hread
  have hshape : ((Private s → isPrivateAddress s.text = true) ∧
      (¬Private s → isPrivateAddress s.text = false)) ↔
        (isPrivateAddress s.text = true ↔ Private s) := by
    by_cases hp : Private s <;> simp [hp]
  rw [hshape]
  cases s with
  | v4 q => exact iff_of_true (isPrivateAddress_quad q) trivial
  | v6 spelt zone =>
    cases zone with
    | none =>
      have htext : Spelling.text (.v6 spelt none) = spelt.text := List.append_nil _
      rw [htext]
      exact private_iff_seen spelt
    | some zone => exact absurd (List.mem_append_right _ List.mem_cons_self) hzone

theorem sees_through_public :
    (Private (.v4 ⟨8, 8, 8, 8⟩) → isPrivateAddress "8.8.8.8".toList = true) ∧
      (¬Private (.v4 ⟨8, 8, 8, 8⟩) → isPrivateAddress "8.8.8.8".toList = false) :=
  (@sees_through_iff "8.8.8.8".toList (.v4 ⟨8, 8, 8, 8⟩) (by decide +kernel) (by decide)).2
    trivial

/-- The loopback address of IPv4, mapped and in hexadecimal, is not answered as
private. -/
theorem slips_through_mapped :
    ¬∀ cs s, read? cs = some s → '%' ∉ cs →
      (Private s → isPrivateAddress cs = true) ∧ (¬Private s → isPrivateAddress cs = false) := by
  intro hall
  have hread : read? "::ffff:7f00:1".toList = some (.v6 (.run [] ⟨[⟨"ffff".toList, by decide⟩,
      ⟨"7f00".toList, by decide⟩, ⟨"1".toList, by decide⟩], none⟩ (by decide)) none) := by
    decide +kernel
  have hprivate := (hall _ _ hread (by decide)).1
    (Or.inr (Or.inr (Or.inr ⟨⟨127, 0, 0, 1⟩, Or.inr (Or.inr (Or.inl rfl)), by decide⟩)))
  exact absurd hprivate (by decide +kernel)

end Optionia.Design.LayerImages
