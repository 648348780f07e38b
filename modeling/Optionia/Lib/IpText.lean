import Optionia.Lib.Decimal
import Optionia.Lib.Hex
/-!
# The texts of an address

An IPv4 address is written as four decimal octets. An IPv6 address is eight
groups of one to four hexadecimal digits; one run of zero groups may be left
out as `::`, the last two groups may be four octets, and a zone may follow
after `%`. A text is read back as what was written (`read?_eq_some_iff`), so it
denotes at most one address; an address has many texts.
-/

namespace IpText

open Decimal (digitsValue)
open Hex

/-! ## Groups and octets -/

def isGroup (cs : List Char) : Bool :=
  decide (cs ≠ []) && decide (cs.length ≤ 4) && cs.all isHex

/-- A group as it is written. -/
structure Group where
  text : List Char
  ok : isGroup text = true
  deriving DecidableEq

/-- The sixteen bits of a group. -/
def Group.value (g : Group) : ℕ := hexValue g.text

/-- An octet in decimal, without leading zeros. -/
def octetText (n : Fin 256) : List Char := Nat.toDigits 10 n

/-- Four octets. -/
structure Quad where
  a : Fin 256
  b : Fin 256
  c : Fin 256
  d : Fin 256
  deriving DecidableEq

def Quad.octets (q : Quad) : List (Fin 256) := [q.a, q.b, q.c, q.d]

/-- `a.b.c.d` -/
def Quad.text (q : Quad) : List Char := ['.'].intercalate (q.octets.map octetText)

def Quad.values (q : Quad) : List ℕ := [q.a * 256 + q.b, q.c * 256 + q.d]

/-! ## An address as it is written -/

/-- Groups in a row, and four octets after them where there are any. -/
structure Tail where
  groups : List Group
  quad : Option Quad
  deriving DecidableEq

def Tail.fields (t : Tail) : List (List Char) :=
  t.groups.map Group.text ++ t.quad.toList.map Quad.text

/-- The fields with colons between them. -/
def Tail.text (t : Tail) : List Char := [':'].intercalate t.fields

def Tail.values (t : Tail) : List ℕ := t.groups.map Group.value ++ t.quad.toList.flatMap Quad.values

def Tail.width (t : Tail) : ℕ := t.values.length

/-- An IPv6 address as it is written, without a zone. -/
inductive V6 where
  | full (tail : Tail) (fits : tail.width = 8)
  /-- `::` between the first groups and the last, for one group or more. -/
  | run (lead : List Group) (tail : Tail) (fits : lead.length + tail.width ≤ 7)
  deriving DecidableEq

/-- The text of an IPv6 address. -/
def V6.text : V6 → List Char
  | full tail _ => tail.text
  | run lead tail _ => Tail.text ⟨lead, none⟩ ++ ':' :: ':' :: tail.text

def V6.values : V6 → List ℕ
  | full tail _ => tail.values
  | run lead tail _ =>
    lead.map Group.value ++ List.replicate (8 - lead.length - tail.width) 0 ++ tail.values

def isZoneChar (c : Char) : Bool :=
  c.isAlphanum || decide (c = '-') || decide (c = '.') || decide (c = ':')

/-- The zone an address is bound to. -/
structure Zone where
  text : List Char
  /-- It has one, of the characters a name may have. -/
  ok : text ≠ [] ∧ text.all isZoneChar = true
  deriving DecidableEq

/-- An address as it is written. -/
inductive Spelling where
  | v4 (quad : Quad)
  | v6 (spelt : V6) (zone : Option Zone)
  deriving DecidableEq

/-- The zone as it follows an address. -/
def zoneText : Option Zone → List Char
  | none => []
  | some zone => '%' :: zone.text

def Spelling.text : Spelling → List Char
  | v4 quad => quad.text
  | v6 spelt zone => spelt.text ++ zoneText zone

def octetByte (n : Fin 256) : UInt8 := UInt8.ofNat n

def groupBytes (value : ℕ) : List UInt8 := [UInt8.ofNat (value / 256), UInt8.ofNat value]

/-- The sixteen bytes an address denotes, an IPv4 address as its IPv4-mapped
IPv6 address. -/
def Spelling.bytes : Spelling → List UInt8
  | v4 quad => List.replicate 10 0 ++ [0xff, 0xff] ++ quad.octets.map octetByte
  | v6 spelt _ => spelt.values.flatMap groupBytes

/-! ## Reading a text -/

def group? (cs : List Char) : Option Group := if h : isGroup cs = true then some ⟨cs, h⟩ else none

def octet? (cs : List Char) : Option (Fin 256) :=
  if h : digitsValue cs < 256 then
    if octetText ⟨digitsValue cs, h⟩ = cs then some ⟨digitsValue cs, h⟩ else none
  else none

def quad? (cs : List Char) : Option Quad :=
  match cs.splitOn '.' with
  | [a, b, c, d] => do some ⟨← octet? a, ← octet? b, ← octet? c, ← octet? d⟩
  | _ => none

/-- The last field of an address is read: a group or four octets. -/
def last? (cs : List Char) : Option Tail :=
  match group? cs with
  | some g => some ⟨[g], none⟩
  | none => (quad? cs).map fun q => ⟨[], some q⟩

/-- Fields are read, all but the last of them as groups. -/
def fields? : List (List Char) → Option Tail
  | [] => some ⟨[], none⟩
  | [f] => last? f
  | f :: fs => do
    let g ← group? f
    let t ← fields? fs
    some ⟨g :: t.groups, t.quad⟩

/-- Groups in a row are read. -/
def tail? (cs : List Char) : Option Tail :=
  if cs = [] then some ⟨[], none⟩ else fields? (cs.splitOn ':')

/-- A text split at each `::`, from the left. -/
def splitRun : List Char → List (List Char)
  | [] => [[]]
  | [c] => [[c]]
  | c :: d :: cs =>
    if c = ':' ∧ d = ':' then [] :: splitRun cs
    else (splitRun (d :: cs)).modifyHead (c :: ·)

def v6? (cs : List Char) : Option V6 :=
  match splitRun cs with
  | [p] => do
    let tail ← tail? p
    if h : tail.width = 8 then some (.full tail h) else none
  | [p, q] => do
    let lead ← tail? p
    let tail ← tail? q
    if lead.quad = none then
      if h : lead.groups.length + tail.width ≤ 7 then some (.run lead.groups tail h) else none
    else none
  | _ => none

/-- A zone is read, where there is one. -/
def zone? : List Char → Option (Option Zone)
  | [] => some none
  | _ :: cs => if h : cs ≠ [] ∧ cs.all isZoneChar = true then some (some ⟨cs, h⟩) else none

def read? (cs : List Char) : Option Spelling :=
  match quad? cs with
  | some q => some (.v4 q)
  | none => do
    let spelt ← v6? (cs.takeWhile (· ≠ '%'))
    let zone ← zone? (cs.dropWhile (· ≠ '%'))
    some (.v6 spelt zone)

/-- `isIP`: 4 or 6 for the text of an address, 0 for any other. -/
def isIP (cs : List Char) : ℕ :=
  match read? cs with
  | some (.v4 _) => 4
  | some (.v6 _ _) => 6
  | none => 0

example : isIP "fe80::1%eth0.1".toList = 6 := by decide +kernel

example : isIP "1:2:3:4:5:6:7::8".toList = 0 := by decide +kernel

/-! ## What a field is made of -/

theorem Group.ne_nil (g : Group) : g.text ≠ [] := by
  have hok := g.ok
  rw [isGroup, Bool.and_eq_true, Bool.and_eq_true, decide_eq_true_eq] at hok
  exact hok.1.1

theorem Group.length_le (g : Group) : g.text.length ≤ 4 := by
  have hok := g.ok
  rw [isGroup, Bool.and_eq_true, Bool.and_eq_true, decide_eq_true_eq, decide_eq_true_eq] at hok
  exact hok.1.2

variable {c : Char} {t : Tail} {fs : List (List Char)} {cs : List Char}

theorem Group.isHex_of_mem (g : Group) (hc : c ∈ g.text) : isHex c = true := by
  have hok := g.ok
  rw [isGroup, Bool.and_eq_true] at hok
  exact List.all_eq_true.1 hok.2 c hc

theorem Group.notMem (g : Group) (hc : isHex c = false) : c ∉ g.text := by
  intro hmem
  rw [g.isHex_of_mem hmem] at hc
  cases hc

theorem octetText_ne_nil (n : Fin 256) : octetText n ≠ [] := Nat.toDigits_ne_nil

theorem isDigit_of_mem_octetText {n : Fin 256} (hc : c ∈ octetText n) :
    Decimal.isDigit c = true := Decimal.isDigit_of_mem_toDigits hc

theorem notMem_octetText (n : Fin 256) (hc : Decimal.isDigit c = false) : c ∉ octetText n := by
  intro hmem
  rw [isDigit_of_mem_octetText hmem] at hc
  cases hc

theorem Quad.text_eq (q : Quad) :
    q.text = octetText q.a ++ '.' :: (octetText q.b ++ '.' :: (octetText q.c ++ '.' ::
      octetText q.d)) := by
  simp [Quad.text, Quad.octets, List.intercalate_cons_cons, List.intercalate_singleton]

theorem Quad.text_ne_nil (q : Quad) : q.text ≠ [] := by
  rw [q.text_eq]
  exact List.append_ne_nil_of_right_ne_nil _ (List.cons_ne_nil _ _)

theorem Quad.dot_mem (q : Quad) : '.' ∈ q.text := by
  rw [q.text_eq]
  exact List.mem_append_right _ List.mem_cons_self

theorem Quad.notMem (q : Quad) (hc : Decimal.isDigit c = false) (hdot : c ≠ '.') : c ∉ q.text := by
  rw [q.text_eq]
  simp [notMem_octetText _ hc, hdot]

theorem Tail.notMem_field (t : Tail) (hhex : isHex c = false) (hdigit : Decimal.isDigit c = false)
    (hdot : c ≠ '.') : ∀ f ∈ t.fields, c ∉ f := by
  intro f hf
  rcases List.mem_append.1 hf with hg | hq
  · obtain ⟨g, -, rfl⟩ := List.mem_map.1 hg
    exact g.notMem hhex
  · obtain ⟨q, -, rfl⟩ := List.mem_map.1 hq
    exact q.notMem hdigit hdot

theorem Tail.colon_notMem_field (t : Tail) : ∀ f ∈ t.fields, ':' ∉ f :=
  t.notMem_field (by decide) (by decide) (by decide)

theorem Tail.field_ne_nil (t : Tail) : ∀ f ∈ t.fields, f ≠ [] := by
  intro f hf
  rcases List.mem_append.1 hf with hg | hq
  · obtain ⟨g, -, rfl⟩ := List.mem_map.1 hg
    exact g.ne_nil
  · obtain ⟨q, -, rfl⟩ := List.mem_map.1 hq
    exact q.text_ne_nil

theorem Tail.fields_eq_nil (h : t.fields = []) : t = ⟨[], none⟩ := by
  obtain ⟨groups, quad⟩ := t
  obtain ⟨hgroups, hquad⟩ := List.append_eq_nil_iff.1 h
  have hnone : quad = none := by
    cases quad with
    | none => rfl
    | some q => cases hquad
  have hempty : groups = [] := List.map_eq_nil_iff.1 hgroups
  rw [hempty, hnone]

theorem Group.value_lt (g : Group) : g.value < 65536 := by
  have hlt := hexValue_lt fun c hc => g.isHex_of_mem hc
  have hpow : 16 ^ g.text.length ≤ 16 ^ 4 := Nat.pow_le_pow_right (by decide) g.length_le
  exact lt_of_lt_of_le hlt hpow

theorem Quad.value_lt (q : Quad) : ∀ v ∈ q.values, v < 65536 := by
  have ha := q.a.isLt
  have hb := q.b.isLt
  have hc := q.c.isLt
  have hd := q.d.isLt
  simp only [Quad.values, List.mem_cons, List.not_mem_nil, or_false]
  rintro v (rfl | rfl) <;> omega

theorem Tail.value_lt (t : Tail) : ∀ v ∈ t.values, v < 65536 := by
  intro v hv
  rcases List.mem_append.1 hv with hg | hq
  · obtain ⟨g, -, rfl⟩ := List.mem_map.1 hg
    exact g.value_lt
  · obtain ⟨q, -, hq⟩ := List.mem_flatMap.1 hq
    exact q.value_lt v hq

/-! ## Fields between colons -/

/-- Fields that hold no colon and are not empty. -/
def Fields (fs : List (List Char)) : Prop := ∀ f ∈ fs, f ≠ [] ∧ ':' ∉ f

theorem Tail.fields_ok (t : Tail) : Fields t.fields := fun f hf =>
  ⟨t.field_ne_nil f hf, t.colon_notMem_field f hf⟩

theorem intercalate_ne_nil (hfs : Fields fs) (hne : fs ≠ []) : [':'].intercalate fs ≠ [] := by
  cases fs with
  | nil => exact absurd rfl hne
  | cons f rest =>
    have hf := (hfs f List.mem_cons_self).1
    cases rest with
    | nil => rwa [List.intercalate_singleton]
    | cons f' rest =>
      rw [List.intercalate_cons_cons, List.append_assoc]
      exact List.append_ne_nil_of_left_ne_nil hf _

theorem Tail.text_eq_nil (h : t.text = []) : t = ⟨[], none⟩ := by
  by_contra hne
  exact intercalate_ne_nil t.fields_ok (fun hnil => hne (fields_eq_nil hnil)) h

/-- What stands between a group and the fields after it, and these. -/
def Tail.behind (t : Tail) : List Char := if t = ⟨[], none⟩ then [] else ':' :: t.text

theorem Tail.text_cons (g : Group) (groups : List Group) (quad : Option Quad) :
    Tail.text ⟨g :: groups, quad⟩ = g.text ++ Tail.behind ⟨groups, quad⟩ := by
  have hfields : Tail.fields ⟨g :: groups, quad⟩ = g.text :: Tail.fields ⟨groups, quad⟩ := rfl
  unfold Tail.behind
  split
  · next hempty =>
    rw [Tail.text, hfields, hempty]
    change [':'].intercalate [g.text] = _
    rw [List.intercalate_singleton, List.append_nil]
  · next hne =>
    have hcons : Tail.fields ⟨groups, quad⟩ ≠ [] := fun h => hne (fields_eq_nil h)
    rw [Tail.text, hfields, List.intercalate_cons_of_ne_nil hcons, List.append_assoc]
    rfl

theorem splitRun_ne_nil (cs : List Char) : splitRun cs ≠ [] := by
  induction cs using splitRun.induct with
  | case1 => exact List.cons_ne_nil _ _
  | case2 c => exact List.cons_ne_nil _ _
  | case3 c d cs h ih =>
    rw [splitRun, if_pos h]
    exact List.cons_ne_nil _ _
  | case4 c d cs h ih =>
    rw [splitRun, if_neg h]
    intro hnil
    cases hs : splitRun (d :: cs) with
    | nil => exact ih hs
    | cons p ps =>
      rw [hs] at hnil
      cases hnil

theorem splitRun_cons (hc : c ≠ ':') (cs : List Char) :
    splitRun (c :: cs) = (splitRun cs).modifyHead (c :: ·) := by
  cases cs with
  | nil => rfl
  | cons d cs => rw [splitRun, if_neg fun h => hc h.1]

theorem splitRun_append {f : List Char} (hf : ':' ∉ f) (cs : List Char) :
    splitRun (f ++ cs) = (splitRun cs).modifyHead (f ++ ·) := by
  induction f with
  | nil =>
    cases hs : splitRun cs with
    | nil => exact absurd hs (splitRun_ne_nil cs)
    | cons p ps => rw [List.nil_append, hs]; rfl
  | cons c f ih =>
    have hc : c ≠ ':' := fun h => hf (h ▸ List.mem_cons_self)
    rw [List.cons_append, splitRun_cons hc, ih fun h => hf (List.mem_cons_of_mem _ h)]
    cases splitRun cs <;> rfl

theorem splitRun_colon (hc : c ≠ ':') (cs : List Char) :
    splitRun (':' :: c :: cs) = (splitRun (c :: cs)).modifyHead (':' :: ·) := by
  rw [splitRun, if_neg fun h => hc h.2]

/-- **Fields between single colons are not split.** -/
theorem splitRun_fields (hfs : Fields fs) (cs : List Char) : splitRun ([':'].intercalate fs ++ cs) =
      (splitRun cs).modifyHead ([':'].intercalate fs ++ ·) := by
  induction fs with
  | nil =>
    cases hs : splitRun cs with
    | nil => exact absurd hs (splitRun_ne_nil cs)
    | cons p ps => rw [List.intercalate_nil, List.nil_append, hs]; rfl
  | cons f rest ih =>
    have hf := (hfs f List.mem_cons_self).2
    have hrest : Fields rest := fun g hg => hfs g (List.mem_cons_of_mem _ hg)
    cases rest with
    | nil =>
      rw [List.intercalate_singleton]
      exact splitRun_append hf cs
    | cons f' rest =>
      have htail := ih hrest
      obtain ⟨c, cs', hcs⟩ := List.exists_cons_of_ne_nil
        (intercalate_ne_nil hrest (List.cons_ne_nil f' rest))
      have hc : c ≠ ':' := by
        obtain ⟨hne, hcolon⟩ := hrest f' List.mem_cons_self
        obtain ⟨d, ds, rfl⟩ := List.exists_cons_of_ne_nil hne
        have hd : d = c := by
          cases rest with
          | nil =>
            rw [List.intercalate_singleton] at hcs
            exact (List.cons.inj hcs).1
          | cons f'' rest =>
            rw [List.intercalate_cons_cons] at hcs
            exact (List.cons.inj hcs).1
        exact fun h => hcolon (hd ▸ h ▸ List.mem_cons_self)
      rw [hcs] at htail
      rw [List.intercalate_cons_cons, List.append_assoc, List.append_assoc, splitRun_append hf,
        hcs, List.singleton_append, List.cons_append, splitRun_colon hc, ← List.cons_append, htail]
      cases splitRun cs with
      | nil => rfl
      | cons p ps => simp

theorem splitRun_pair (cs : List Char) : splitRun (':' :: ':' :: cs) = [] :: splitRun cs := by
  rw [splitRun, if_pos ⟨rfl, rfl⟩]

/-- The parts with `::` between them are the text. -/
theorem intercalate_splitRun (cs : List Char) : [':', ':'].intercalate (splitRun cs) = cs := by
  induction cs using splitRun.induct with
  | case1 => rfl
  | case2 c => rfl
  | case3 c d cs h ih =>
    obtain ⟨rfl, rfl⟩ := h
    rw [splitRun_pair, List.intercalate_cons_of_ne_nil (splitRun_ne_nil cs), ih]
    rfl
  | case4 c d cs h ih =>
    rw [splitRun, if_neg h]
    cases hs : splitRun (d :: cs) with
    | nil => exact absurd hs (splitRun_ne_nil _)
    | cons p ps =>
      rw [hs] at ih
      rw [← ih]
      cases ps with
      | nil => rfl
      | cons q ps =>
        rw [List.modifyHead_cons, List.intercalate_cons_cons, List.intercalate_cons_cons]
        rfl

/-! ## What was written is read -/

@[simp] theorem group?_text (g : Group) : group? g.text = some g := dif_pos g.ok

theorem text_of_group? {g : Group} (h : group? cs = some g) : g.text = cs := by
  unfold group? at h
  split at h
  · cases h
    rfl
  · cases h

theorem group?_quad (q : Quad) : group? q.text = none := by
  refine dif_neg fun hok => ?_
  have hdot := Group.isHex_of_mem ⟨q.text, hok⟩ q.dot_mem
  exact absurd hdot (by decide)

@[simp] theorem octet?_octetText (n : Fin 256) : octet? (octetText n) = some n := by
  have hvalue : digitsValue (octetText n) = n := Decimal.digitsValue_toDigits n
  have hlt : digitsValue (octetText n) < 256 := by
    rw [hvalue]
    exact n.isLt
  have hsame : (⟨digitsValue (octetText n), hlt⟩ : Fin 256) = n := Fin.ext hvalue
  rw [octet?, dif_pos hlt, hsame, if_pos rfl]

theorem text_of_octet? {n : Fin 256} (h : octet? cs = some n) : octetText n = cs := by
  unfold octet? at h
  split at h
  · split at h
    · next hsame =>
      cases h
      exact hsame
    · cases h
  · cases h

@[simp] theorem quad?_text (q : Quad) : quad? q.text = some q := by
  have hsplit : q.text.splitOn '.' = q.octets.map octetText := by
    refine List.splitOn_intercalate '.' (fun l hl => ?_) (List.cons_ne_nil _ _)
    obtain ⟨n, -, rfl⟩ := List.mem_map.1 hl
    exact notMem_octetText n (by decide)
  rw [quad?, hsplit]
  simp [Quad.octets]

theorem text_of_quad? {q : Quad} (h : quad? cs = some q) : q.text = cs := by
  have hjoin : ['.'].intercalate (cs.splitOn '.') = cs := List.intercalate_splitOn '.'
  unfold quad? at h
  split at h
  · next a b c d hsplit =>
    rw [hsplit] at hjoin
    simp only [Option.bind_eq_bind, Option.bind_eq_some_iff, Option.some.injEq] at h
    obtain ⟨_, ha, _, hb, _, hc, _, hd, rfl⟩ := h
    rw [← hjoin, ← text_of_octet? ha, ← text_of_octet? hb, ← text_of_octet? hc,
      ← text_of_octet? hd]
    rfl
  · cases h

/-- **Fields are read.** -/
theorem fields?_fields (t : Tail) : fields? t.fields = some t := by
  obtain ⟨groups, quad⟩ := t
  induction groups with
  | nil =>
    cases quad with
    | none => rfl
    | some q =>
      change last? q.text = _
      rw [last?, group?_quad, quad?_text]
      rfl
  | cons g groups ih =>
    cases hfields : Tail.fields ⟨groups, quad⟩ with
    | nil =>
      have hempty := Tail.fields_eq_nil hfields
      cases hempty
      change last? g.text = _
      rw [last?, group?_text]
    | cons f fs =>
      have hcons : Tail.fields ⟨g :: groups, quad⟩ = g.text :: f :: fs := by
        rw [← hfields]
        rfl
      rw [hfields] at ih
      rw [hcons, fields?, group?_text, ih]
      · rfl
      · exact List.cons_ne_nil f fs

theorem fields_of_last? {f : List Char} (h : last? f = some t) : t.fields = [f] := by
  unfold last? at h
  split at h
  · next g hg =>
    cases h
    rw [← text_of_group? hg]
    rfl
  · obtain ⟨q, hq, rfl⟩ := Option.map_eq_some_iff.1 h
    rw [← text_of_quad? hq]
    rfl

theorem fields_of_fields? (h : fields? fs = some t) : t.fields = fs := by
  induction fs using fields?.induct generalizing t with
  | case1 =>
    cases h
    rfl
  | case2 f => exact fields_of_last? h
  | case3 f fs hne ih =>
    rw [fields?] at h
    · simp only [Option.bind_eq_bind, Option.bind_eq_some_iff, Option.some.injEq] at h
      obtain ⟨g, hg, t', ht', rfl⟩ := h
      rw [← ih ht', ← text_of_group? hg]
      rfl
    · exact hne

@[simp] theorem tail?_text (t : Tail) : tail? t.text = some t := by
  unfold tail?
  split
  · next hnil => rw [Tail.text_eq_nil hnil]
  · next hne =>
    have hfields : t.fields ≠ [] := by
      intro hnil
      exact hne (by rw [Tail.text, hnil, List.intercalate_nil])
    rw [Tail.text, List.splitOn_intercalate ':' t.colon_notMem_field hfields, fields?_fields]

theorem text_of_tail? (h : tail? cs = some t) : t.text = cs := by
  unfold tail? at h
  split at h
  · next hnil =>
    cases h
    rw [hnil]
    rfl
  · rw [Tail.text, fields_of_fields? h, List.intercalate_splitOn]

theorem splitRun_text (t : Tail) (cs : List Char) :
    splitRun (t.text ++ cs) = (splitRun cs).modifyHead (t.text ++ ·) :=
  splitRun_fields t.fields_ok cs

theorem splitRun_tail (t : Tail) : splitRun t.text = [t.text] := by
  have hsplit := splitRun_text t []
  rw [List.append_nil] at hsplit
  rw [hsplit]
  change [t.text ++ []] = _
  rw [List.append_nil]

/-- **An IPv6 address is read.** -/
@[simp] theorem v6?_text (s : V6) : v6? s.text = some s := by
  cases s with
  | full tail fits =>
    rw [V6.text, v6?, splitRun_tail]
    simp [fits]
  | run lead tail fits =>
    rw [V6.text, v6?, splitRun_text, splitRun_pair, splitRun_tail]
    simp [fits]

/-- And nothing else. -/
theorem text_of_v6? {s : V6} (h : v6? cs = some s) : s.text = cs := by
  have hjoin := intercalate_splitRun cs
  unfold v6? at h
  split at h
  · next p hsplit =>
    rw [hsplit] at hjoin
    simp only [Option.bind_eq_bind, Option.bind_eq_some_iff] at h
    obtain ⟨tail, htail, h⟩ := h
    split at h
    · cases h
      rw [V6.text, text_of_tail? htail, ← hjoin, List.intercalate_singleton]
    · cases h
  · next p q hsplit =>
    rw [hsplit] at hjoin
    simp only [Option.bind_eq_bind, Option.bind_eq_some_iff] at h
    obtain ⟨⟨groups, quad⟩, hlead, tail, htail, h⟩ := h
    split at h
    · next hquad =>
      change quad = none at hquad
      subst hquad
      split at h
      · cases h
        rw [V6.text, text_of_tail? hlead, text_of_tail? htail, ← hjoin,
          List.intercalate_cons_cons, List.intercalate_singleton, List.append_assoc]
        rfl
      · cases h
    · cases h
  · cases h

/-! ## The whole text -/

theorem notMem_intercalate (hc : c ≠ ':') (hfs : ∀ f ∈ fs, c ∉ f) : c ∉ [':'].intercalate fs := by
  induction fs with
  | nil => exact List.not_mem_nil
  | cons f rest ih =>
    have hf := hfs f List.mem_cons_self
    have hrest := ih fun g hg => hfs g (List.mem_cons_of_mem _ hg)
    cases rest with
    | nil => rwa [List.intercalate_singleton]
    | cons f' rest =>
      rw [List.intercalate_cons_cons]
      simp [hf, hrest, hc]

theorem Tail.percent_notMem (t : Tail) : '%' ∉ t.text :=
  notMem_intercalate (by decide) (t.notMem_field (by decide) (by decide) (by decide))

theorem V6.percent_notMem (s : V6) : '%' ∉ s.text := by
  cases s with
  | full tail fits => exact tail.percent_notMem
  | run lead tail fits =>
    rw [V6.text]
    simp [Tail.percent_notMem]

/-- An IPv6 address is no four octets, whatever follows it: it has a colon. -/
theorem V6.colon_mem (s : V6) : ':' ∈ s.text := by
  cases s with
  | full tail fits =>
    by_contra hmem
    have hsplit : tail.text.splitOn ':' = [tail.text] := List.splitOn_eq_singleton hmem
    have hne : tail.fields ≠ [] := by
      intro hnil
      rw [Tail.fields_eq_nil hnil] at fits
      cases fits
    have hfields : tail.fields = [tail.text] := by
      rw [← hsplit, Tail.text, List.splitOn_intercalate ':' tail.colon_notMem_field hne]
    have hlength : tail.fields.length = 1 := by rw [hfields]; rfl
    obtain ⟨groups, quad⟩ := tail
    cases quad with
    | none =>
      simp [Tail.fields] at hlength
      simp [Tail.width, Tail.values, hlength] at fits
    | some q =>
      simp [Tail.fields] at hlength
      simp [Tail.width, Tail.values, Quad.values, hlength] at fits
  | run lead tail fits => simp [V6.text]

theorem quad?_eq_none (h : ':' ∈ cs) : quad? cs = none := by
  cases hq : quad? cs with
  | none => rfl
  | some q =>
    have hno := q.notMem (c := ':') (by decide) (by decide)
    rw [text_of_quad? hq] at hno
    exact absurd h hno

@[simp] theorem zone?_zoneText (zone : Option Zone) : zone? (zoneText zone) = some zone := by
  cases zone with
  | none => rfl
  | some zone => exact dif_pos zone.ok

/-- **What was written is read.** -/
@[simp] theorem read?_text (s : Spelling) : read? s.text = some s := by
  cases s with
  | v4 q =>
    rw [Spelling.text, read?, quad?_text]
  | v6 spelt zone =>
    have hcolon : ':' ∈ spelt.text ++ zoneText zone := List.mem_append_left _ spelt.colon_mem
    have hall : ∀ c ∈ spelt.text, decide (c ≠ '%') = true := by
      intro c hc
      exact decide_eq_true fun h => spelt.percent_notMem (h ▸ hc)
    have hstop : (zoneText zone).takeWhile (· ≠ '%') = [] ∧
        (zoneText zone).dropWhile (· ≠ '%') = zoneText zone := by
      cases zone <;> exact ⟨rfl, rfl⟩
    rw [Spelling.text, read?, quad?_eq_none hcolon, List.takeWhile_append_of_pos hall,
      List.dropWhile_append_of_pos hall, hstop.1, hstop.2, List.append_nil]
    simp

theorem text_of_zone? {zone : Option Zone} (h : zone? (cs.dropWhile (· ≠ '%')) = some zone) :
    zoneText zone = cs.dropWhile (· ≠ '%') := by
  cases hdrop : cs.dropWhile (· ≠ '%') with
  | nil =>
    rw [hdrop] at h
    cases h
    rfl
  | cons c rest =>
    have hc : c = '%' := by
      have hhead := List.head?_dropWhile_not (fun c => decide (c ≠ '%')) cs
      rw [hdrop] at hhead
      exact not_not.1 (of_decide_eq_false hhead)
    rw [hdrop, zone?] at h
    split at h
    · cases h
      rw [hc]
      rfl
    · cases h

/-- **A text is read as what it is the text of**, so it is the text of one
address. -/
theorem read?_eq_some_iff {s : Spelling} : read? cs = some s ↔ s.text = cs := by
  constructor
  · intro h
    unfold read? at h
    split at h
    · next q hq =>
      cases h
      exact text_of_quad? hq
    · simp only [Option.bind_eq_bind, Option.bind_eq_some_iff, Option.some.injEq] at h
      obtain ⟨spelt, hspelt, zone, hzone, rfl⟩ := h
      rw [Spelling.text, text_of_v6? hspelt, text_of_zone? hzone, List.takeWhile_append_dropWhile]
  · rintro rfl
    exact read?_text s

@[simp] theorem isIP_v4 (q : Quad) : isIP (Spelling.v4 q).text = 4 := by
  rw [isIP, read?_text]

@[simp] theorem isIP_v6 (spelt : V6) (zone : Option Zone) :
    isIP (Spelling.v6 spelt zone).text = 6 := by
  rw [isIP, read?_text]

theorem isIP_eq_four_iff : isIP cs = 4 ↔ ∃ q : Quad, q.text = cs := by
  constructor
  · intro h
    unfold isIP at h
    cases hread : read? cs with
    | none =>
      rw [hread] at h
      cases h
    | some s =>
      rw [hread] at h
      cases s with
      | v4 q => exact ⟨q, read?_eq_some_iff.1 hread⟩
      | v6 spelt zone => cases h
  · rintro ⟨q, rfl⟩
    exact isIP_v4 q

end IpText
