import Optionia.Support.IpAddress
import Optionia.Wire.Reading
/-!
# An audited address with a zone

The expander of `packIpAddress` does not take the zone off an address. It
looks for the last dot and the last colon of the whole text, and what it finds
of them in the zone it reads as octets and as groups. So an address is packed
as what it denotes where it has no zone, or where what is read of the zone
comes to nothing (`Harmless`, `pack_iff`).
-/

namespace Optionia.Support.IpAddress

open Hex IpText Js

/-! ## What is read of a zone -/

/-- The fields of a zone behind its first colon and before its first `::`, as
the groups they are read as. -/
def strays (zone : List Char) : List ℤ :=
  ((((splitRun zone).headD []).splitOn ':').tail.filter (· ≠ [])).map worth

/-- The fields of a zone between its first `::` and its next. -/
def later (zone : List Char) : List ℤ := (trailingOf (splitRun zone).tail).map worth

/-- At the end of so many places; what is too long loses its end. -/
def padded (places : ℕ) (l : List ℤ) : List ℤ :=
  (List.replicate (places - l.length) 0 ++ l).take places

def Zeros (l : List ℤ) : Prop := ∀ v ∈ l, v = 0

/-! ## When a zone does no harm -/

/-- A zone with dots and no colon, behind groups: its dots are read as those of
octets, which stand in the place of the last group. -/
def HarmlessDots : V6 → List Char → Prop
  | .full tail _, zone => (int32 (between zone 1)).toInt = (tail.values.getLast?.getD 0 : ℕ)
  | .run lead tail _, zone =>
    (int32 (between zone 1)).toInt = 0 ∧ Zeros (ints tail.values.dropLast) ∧
      (lead.length = 7 ∨ (joined zone 2).toInt = (tail.values.getLast?.getD 0 : ℕ))

/-- A zone with colons, behind groups: its fields push the groups after the run
to the left. -/
def HarmlessFields : V6 → List Char → Prop
  | .full _ _, _ => True
  | .run lead tail _, zone =>
    strays zone = [] ∨
      Zeros (ints tail.values) ∧ Zeros ((strays zone).take (8 - lead.length - max 1 tail.width))

local instance octet_neZero : NeZero 256 := ⟨Nat.succ_ne_zero 255⟩

/-- A zone with colons, behind octets: the octets are left as they are, of
which only the first is read, and the last field of the zone is rewritten in
their place. -/
def HarmlessRewriting (q : Quad) : V6 → List Char → Prop
  | .full _ _, zone =>
    q.a = 0 ∧ q.b = 0 ∧
      (strays (hexTail zone) ++ later (hexTail zone)).headD 0 = (q.c * 256 + q.d : ℕ)
  | .run lead tail _, zone =>
    q.a = 0 ∧
      (Zeros (ints (tail.groups.map Group.value)) ∨ (strays (hexTail zone)).length = 1) ∧
        padded (7 - lead.length - tail.groups.length) (strays (hexTail zone)) =
          padded (7 - lead.length - tail.groups.length) (ints q.values)

/-- The groups and octets a text ends in. -/
def tailOf : V6 → Tail
  | .full tail _ => tail
  | .run _ tail _ => tail

/-- **What is read of the zone comes to nothing.** -/
def Harmless (spelt : V6) (zone : List Char) : Prop :=
  match (tailOf spelt).quad with
  | none =>
    if ':' ∈ zone then HarmlessFields spelt (if '.' ∈ zone then hexTail zone else zone)
    else '.' ∈ zone → HarmlessDots spelt zone
  | some q => if ':' ∈ zone then HarmlessRewriting q spelt zone else q.d = 0

/-- The texts that are packed as what they denote: those without a zone, and
those with one that does no harm. -/
def Kept : Spelling → Prop
  | .v4 _ => True
  | .v6 _ none => True
  | .v6 spelt (some zone) => Harmless spelt zone.text

/-! ## The shape of a text -/

/-- A text with the groups and octets it ends in left open. -/
def ended : V6 → List Char → List Char
  | .full _ _, cs => cs
  | .run lead _ _, cs => Tail.text ⟨lead, none⟩ ++ ':' :: ':' :: cs

theorem ended_text (spelt : V6) : spelt.text = ended spelt (tailOf spelt).text := by
  cases spelt <;> rfl

theorem ended_append (spelt : V6) (cs ds : List Char) :
    ended spelt cs ++ ds = ended spelt (cs ++ ds) := by
  cases spelt with
  | full tail fits => rfl
  | run lead tail fits =>
    rw [ended, ended, List.append_assoc]
    rfl

theorem intercalate_concat (init : List (List Char)) (last : List Char) :
    [':'].intercalate (init ++ [last]) =
      if init = [] then last else [':'].intercalate init ++ ':' :: last := by
  induction init with
  | nil => rw [if_pos rfl, List.nil_append, List.intercalate_singleton]
  | cons f init ih =>
    rw [if_neg (List.cons_ne_nil f init), List.cons_append,
      List.intercalate_cons_of_ne_nil (List.append_ne_nil_of_right_ne_nil _ (List.cons_ne_nil _ _)),
      ih]
    cases init with
    | nil => rw [if_pos rfl, List.intercalate_singleton, List.append_assoc]; rfl
    | cons f' init =>
      rw [if_neg (List.cons_ne_nil f' init), List.intercalate_cons_cons]
      simp

theorem intercalate_concat_append (init : List (List Char)) (last cs : List Char) :
    [':'].intercalate (init ++ [last]) ++ cs = [':'].intercalate (init ++ [last ++ cs]) := by
  rw [intercalate_concat, intercalate_concat]
  split
  · rfl
  · rw [List.append_assoc]
    rfl

theorem intercalate_two (init : List (List Char)) (f g : List Char) :
    [':'].intercalate (init ++ [f ++ ':' :: g]) = [':'].intercalate (init ++ [f, g]) := by
  have hsplit : init ++ [f, g] = (init ++ [f]) ++ [g] := by simp
  have hne : init ++ [f] ≠ [] := List.append_ne_nil_of_right_ne_nil _ (List.cons_ne_nil _ _)
  rw [hsplit, intercalate_concat (init ++ [f]) g, if_neg hne, intercalate_concat_append]

variable {last cs value : List Char} {t : Tail} {spelt : V6} {T l seen : List ℤ} {n : ℕ} {q : Quad}

/-- **The last field is rewritten as two.** -/
theorem hexTail_ended (spelt : V6) (init : List (List Char)) (hlast : ':' ∉ last) :
    hexTail (ended spelt ([':'].intercalate (init ++ [last]))) =
      ended spelt ([':'].intercalate
        (init ++ [hexString (joined last 0), hexString (joined last 2)])) := by
  have hfields : hexTail ([':'].intercalate (init ++ [last])) = [':'].intercalate
      (init ++ [hexString (joined last 0), hexString (joined last 2)]) := by
    rw [← intercalate_two, intercalate_concat, intercalate_concat]
    split
    · exact hexTail_of_notMem hlast
    · exact hexTail_append hlast _
  cases spelt with
  | full tail fits => exact hfields
  | run lead tail fits =>
    change hexTail (Tail.text ⟨lead, none⟩ ++ ':' :: ':' :: _) =
      Tail.text ⟨lead, none⟩ ++ ':' :: ':' :: _
    rw [← intercalate_two, intercalate_concat, intercalate_concat]
    split
    · -- The colon before the field is the second of the run's.
      have hcolon := hexTail_append hlast (Tail.text ⟨lead, none⟩ ++ [':'])
      simpa using hcolon
    · have hcolon := hexTail_append hlast
        (Tail.text ⟨lead, none⟩ ++ ':' :: ':' :: [':'].intercalate init)
      simpa using hcolon

theorem tail_cases (t : Tail) :
    t = ⟨[], none⟩ ∨ (∃ groups g, t = ⟨groups ++ [g], none⟩) ∨ ∃ groups q, t = ⟨groups, some q⟩ := by
  obtain ⟨groups, quad⟩ := t
  cases quad with
  | some q => exact Or.inr (Or.inr ⟨groups, q, rfl⟩)
  | none =>
    rcases List.eq_nil_or_concat groups with rfl | ⟨init, g, rfl⟩
    · exact Or.inl rfl
    · exact Or.inr (Or.inl ⟨init, g, by rw [List.concat_eq_append]⟩)

/-! ## Dots -/

theorem dot_notMem_tail (h : t.quad = none) : '.' ∉ t.text := by
  refine notMem_intercalate (by decide) fun f hf => ?_
  rw [Tail.fields, h, List.mem_append] at hf
  rcases hf with hf | hf
  · obtain ⟨g, -, rfl⟩ := List.mem_map.1 hf
    exact g.notMem (by decide)
  · cases hf

theorem dot_mem_iff (spelt : V6) : '.' ∈ spelt.text ↔ (tailOf spelt).quad ≠ none := by
  have htail : '.' ∈ (tailOf spelt).text ↔ (tailOf spelt).quad ≠ none := by
    constructor
    · intro hmem hnone
      exact dot_notMem_tail hnone hmem
    · intro hne
      rcases tail_cases (tailOf spelt) with h | ⟨groups, g, h⟩ | ⟨groups, q, h⟩
      · rw [h] at hne
        exact absurd rfl hne
      · rw [h] at hne
        exact absurd rfl hne
      · have htext : (tailOf spelt).text =
            [':'].intercalate (groups.map Group.text ++ [q.text]) := by
          rw [h]
          rfl
        rw [htext, intercalate_concat]
        split
        · exact q.dot_mem
        · exact List.mem_append_right _ (List.mem_cons_of_mem _ q.dot_mem)
  rw [← htail]
  cases spelt with
  | full tail fits => rfl
  | run lead tail fits =>
    have hlead : '.' ∉ Tail.text ⟨lead, none⟩ := dot_notMem_tail rfl
    change '.' ∈ Tail.text ⟨lead, none⟩ ++ ':' :: ':' :: tail.text ↔ '.' ∈ tail.text
    simp [hlead]

theorem undotted_of_mem (h : '.' ∈ cs) : undotted cs = hexTail cs :=
  if_pos fun heq => lastIndexOf_eq_neg_one_iff.1 heq h

theorem undotted_of_notMem (h : '.' ∉ cs) : undotted cs = cs :=
  if_neg fun hne => hne (lastIndexOf_eq_neg_one_iff.2 h)

/-! ## What the fields of a text are worth -/

/-- What the groups and octets a text ends in are read as, where something
follows them: of octets only the first is read, and where there is nothing, a
nothing. -/
def worths (t : Tail) : List ℤ :=
  if t = ⟨[], none⟩ then [0]
  else ints (t.groups.map Group.value) ++ t.quad.toList.map fun q : Quad =>
    (hexValue (octetText q.a) : ℤ)

/-- What the numbers found in a text are laid out as. -/
def laid : V6 → List ℤ → List ℤ → List ℤ
  | .full _ _, seen, behind => filled seen behind
  | .run lead _ _, seen, _ => filled (ints (lead.map Group.value)) seen

theorem map_worth_groups (groups : List Group) :
    (groups.map Group.text).map worth = ints (groups.map Group.value) := by
  rw [ints, List.map_map, List.map_map]
  refine List.map_congr_left fun g _ => ?_
  have hgroup := @worth_group g [] (fun c hc => by cases hc)
  rw [List.append_nil] at hgroup
  exact hgroup

theorem fields_groups (groups : List Group) : Fields (groups.map Group.text) := by
  intro f hf
  obtain ⟨g, -, rfl⟩ := List.mem_map.1 hf
  exact ⟨g.ne_nil, g.notMem (by decide)⟩

theorem fields_concat {init : List (List Char)} (hinit : Fields init) (hne : last ≠ [])
    (hcolon : ':' ∉ last) : Fields (init ++ [last]) := by
  intro f hf
  rcases List.mem_append.1 hf with hf | hf
  · exact hinit f hf
  · rw [List.mem_singleton.1 hf]
    exact ⟨hne, hcolon⟩

theorem percent_ends (cs : List Char) :
    ∀ c ∈ ('%' :: cs).head?, isHex c = false ∧ c ≠ 'x' ∧ c ≠ 'X' := by
  intro c hc
  obtain rfl : '%' = c := Option.some.inj hc
  decide

/-- The last field takes on a zone's beginning, and is read as before. -/
theorem fieldsOf_percent (t : Tail) {z : List Char} (hz : ':' ∉ z) :
    (fieldsOf (t.text ++ '%' :: z)).map worth = worths t := by
  have hpercent : ':' ∉ '%' :: z := by
    rw [List.mem_cons, not_or]
    exact ⟨by decide, hz⟩
  rcases tail_cases t with rfl | ⟨groups, g, rfl⟩ | ⟨groups, q, rfl⟩
  · have htext : Tail.text ⟨[], none⟩ ++ '%' :: z = '%' :: z := rfl
    rw [htext, fieldsOf_of_notMem (List.cons_ne_nil _ _) hpercent, List.map_cons,
      worth_percent]
    rfl
  · have htext : Tail.text ⟨groups ++ [g], none⟩ =
        [':'].intercalate (groups.map Group.text ++ [g.text]) := by
      rw [Tail.text, Tail.fields]
      simp
    have hfields := fields_concat (fields_groups groups)
      (List.append_ne_nil_of_left_ne_nil g.ne_nil ('%' :: z))
      (show ':' ∉ g.text ++ '%' :: z by
        rw [List.mem_append, not_or]
        exact ⟨g.notMem (by decide), hpercent⟩)
    have hworths : worths ⟨groups ++ [g], none⟩ =
        ints (groups.map Group.value) ++ [(g.value : ℤ)] := by
      have hne : (⟨groups ++ [g], none⟩ : Tail) ≠ ⟨[], none⟩ := by simp
      rw [worths, if_neg hne]
      simp [ints]
    rw [htext, intercalate_concat_append, fieldsOf_intercalate hfields, List.map_append,
      map_worth_groups, List.map_singleton, worth_group g (percent_ends z), hworths]
  · have htext : Tail.text ⟨groups, some q⟩ =
        [':'].intercalate (groups.map Group.text ++ [q.text]) := rfl
    have hfields := fields_concat (fields_groups groups)
      (List.append_ne_nil_of_left_ne_nil q.text_ne_nil ('%' :: z))
      (show ':' ∉ q.text ++ '%' :: z by
        rw [List.mem_append, not_or]
        exact ⟨q.notMem (by decide) (by decide), hpercent⟩)
    have hworths : worths ⟨groups, some q⟩ =
        ints (groups.map Group.value) ++ [(hexValue (octetText q.a) : ℤ)] := by
      have hne : (⟨groups, some q⟩ : Tail) ≠ ⟨[], none⟩ := by simp
      rw [worths, if_neg hne]
      rfl
    rw [htext, intercalate_concat_append, fieldsOf_intercalate hfields, List.map_append,
      map_worth_groups, List.map_singleton, worth_quad, hworths]

theorem fieldsOf_zone (t : Tail) (p : List Char) :
    (fieldsOf (t.text ++ '%' :: p)).map worth =
      worths t ++ ((p.splitOn ':').tail.filter (· ≠ [])).map worth := by
  by_cases hp : ':' ∈ p
  · obtain ⟨z, more, rfl, hz⟩ := List.eq_append_cons_of_mem hp
    have htext : t.text ++ '%' :: (z ++ ':' :: more) = (t.text ++ '%' :: z) ++ ':' :: more := by
      simp
    have hsplit : (z ++ ':' :: more).splitOn ':' = z :: more.splitOn ':' := by
      rw [List.splitOn_append_cons_self, List.splitOn_eq_singleton hz]
      rfl
    rw [htext, fieldsOf_append_colon, List.map_append, fieldsOf_percent t hz, hsplit]
    rfl
  · rw [fieldsOf_percent t hp, List.splitOn_eq_singleton hp]
    simp

/-! ## How a text is packed -/

theorem V6.length_values (spelt : V6) : spelt.values.length = 8 := by
  cases spelt with
  | full tail fits => exact fits
  | run lead tail fits =>
    have hwidth : tail.values.length = tail.width := rfl
    rw [V6.values]
    simp only [List.length_append, List.length_map, List.length_replicate, hwidth]
    omega

theorem V6.value_lt (spelt : V6) : ∀ v ∈ spelt.values, v < 65536 := by
  cases spelt with
  | full tail fits => exact tail.value_lt
  | run lead tail fits =>
    intro v hv
    rw [V6.values, List.mem_append, List.mem_append] at hv
    rcases hv with (hv | hv) | hv
    · obtain ⟨g, -, rfl⟩ := List.mem_map.1 hv
      exact g.value_lt
    · rw [List.eq_of_mem_replicate hv]
      decide
    · exact tail.value_lt v hv

theorem fieldsOf_lead (lead : List Group) :
    (fieldsOf (Tail.text ⟨lead, none⟩)).map worth = ints (lead.map Group.value) := by
  have htext : Tail.text ⟨lead, none⟩ = [':'].intercalate (lead.map Group.text) := by
    rw [Tail.text, Tail.fields]
    simp
  rw [htext, fieldsOf_intercalate (fields_groups lead), map_worth_groups]

/-- **A text without a zone left in it** is packed as its fields are laid out. -/
theorem packV6_fields {fs : List (List Char)} (hfs : Fields fs)
    (h : undotted value = ended spelt ([':'].intercalate fs)) :
    packV6 value = .ok (Spelling.v6 spelt none).bytes ↔
      laid spelt (fs.map worth) [] = ints spelt.values := by
  have hsplit : splitRun ([':'].intercalate fs) = [[':'].intercalate fs] := by
    have hrun := splitRun_fields hfs []
    rw [List.append_nil] at hrun
    rw [hrun]
    change [[':'].intercalate fs ++ []] = _
    rw [List.append_nil]
  have hvalues := V6.value_lt spelt
  have hlength := V6.length_values spelt
  cases spelt with
  | full tail fits =>
    have hundotted : splitRun (undotted value) = [[':'].intercalate fs] := by
      rw [h]
      exact hsplit
    have hpack := packV6_iff hundotted hvalues hlength
    rw [fieldsOf_intercalate hfs] at hpack
    exact hpack
  | run lead tail fits =>
    have hrun : splitRun (ended (.run lead tail fits) ([':'].intercalate fs)) =
        [Tail.text ⟨lead, none⟩, [':'].intercalate fs] := by
      change splitRun (Tail.text ⟨lead, none⟩ ++ ':' :: ':' :: [':'].intercalate fs) = _
      rw [splitRun_text, splitRun_pair, hsplit]
      simp
    have hpack := packV6_iff ((congrArg splitRun h).trans hrun) hvalues hlength
    have htrailing : trailingOf [[':'].intercalate fs] = fs := fieldsOf_intercalate hfs
    rw [htrailing, fieldsOf_lead] at hpack
    exact hpack

/-- **A text with a zone left in it** is packed with the fields of the zone
among its own. -/
theorem packV6_zone {w : List Char} (h : undotted value = spelt.text ++ '%' :: w) :
    packV6 value = .ok (Spelling.v6 spelt none).bytes ↔
      laid spelt (worths (tailOf spelt) ++ strays w) (later w) = ints spelt.values := by
  obtain ⟨p, ps, hw⟩ := List.exists_cons_of_ne_nil (splitRun_ne_nil w)
  have hpercent : splitRun ('%' :: w) = ('%' :: p) :: ps := by
    rw [splitRun_cons (by decide), hw]
    rfl
  have htail : splitRun ((tailOf spelt).text ++ '%' :: w) =
      ((tailOf spelt).text ++ '%' :: p) :: ps := by
    rw [splitRun_text, hpercent]
    rfl
  have hseen : (fieldsOf ((tailOf spelt).text ++ '%' :: p)).map worth =
      worths (tailOf spelt) ++ strays w := by
    rw [fieldsOf_zone, strays, hw]
    rfl
  have hlater : (trailingOf ps).map worth = later w := by
    rw [later, hw]
    rfl
  rw [ended_text, ended_append] at h
  have hvalues := V6.value_lt spelt
  have hlength := V6.length_values spelt
  cases spelt with
  | full tail fits =>
    have hundotted : splitRun (undotted value) = (tail.text ++ '%' :: p) :: ps := by
      rw [h]
      exact htail
    have hpack := packV6_iff hundotted hvalues hlength
    rw [hlater] at hpack
    rw [← hseen]
    exact hpack
  | run lead tail fits =>
    have hrun : splitRun (ended (.run lead tail fits) (tail.text ++ '%' :: w)) =
        Tail.text ⟨lead, none⟩ :: (tail.text ++ '%' :: p) :: ps := by
      change splitRun (Tail.text ⟨lead, none⟩ ++ ':' :: ':' :: (tail.text ++ '%' :: w)) = _
      have htail' : splitRun (tail.text ++ '%' :: w) = (tail.text ++ '%' :: p) :: ps := htail
      rw [splitRun_text, splitRun_pair, htail']
      simp
    have hpack := packV6_iff ((congrArg splitRun h).trans hrun) hvalues hlength
    have htrailing : (trailingOf ((tail.text ++ '%' :: p) :: ps)).map worth =
        worths tail ++ strays w := hseen
    rw [htrailing, fieldsOf_lead] at hpack
    exact hpack

/-! ## Numbers pushed to the left -/

theorem getElem?_shifted {A : List ℤ} {m j : ℕ} (hj : j < T.length) (hfit : m + T.length ≤ n) :
    ((List.replicate m 0 ++ (T ++ A)).take n)[m + j]? = T[j]? := by
  rw [List.getElem?_take_of_lt (by omega), List.getElem?_append_right (by simp),
    List.length_replicate, Nat.add_sub_cancel_left, List.getElem?_append_left hj]

/-- **A list that agrees with itself further to the left is zeros.** The induction
is on the place: each place is that of an earlier one, or one of the zeros in
front. -/
theorem zeros_of_shift {A B : List ℤ} {m m' : ℕ} (hm : m < m') (hfit : m + T.length ≤ n)
    (h : (List.replicate m 0 ++ (T ++ A)).take n = (List.replicate m' 0 ++ (T ++ B)).take n) :
    Zeros T := by
  have hzero : ∀ j < T.length, T[j]? = some 0 := by
    intro j
    induction j using Nat.strong_induction_on with
    | _ j ih =>
      intro hj
      have hleft := getElem?_shifted (A := A) hj hfit
      rw [← hleft, h, List.getElem?_take_of_lt (by omega)]
      by_cases hbefore : m + j < m'
      · rw [List.getElem?_append_left (by simpa using hbefore), List.getElem?_replicate,
          if_pos hbefore]
      · rw [List.getElem?_append_right (by simpa using hbefore), List.length_replicate,
          List.getElem?_append_left (by omega)]
        exact ih (m + j - m') (by omega) (by omega)
  intro v hv
  obtain ⟨j, hj, rfl⟩ := List.mem_iff_getElem.1 hv
  have hval := hzero j hj
  rw [List.getElem?_eq_getElem hj] at hval
  exact Option.some.inj hval

theorem zeros_append {m : List ℤ} : Zeros (l ++ m) ↔ Zeros l ∧ Zeros m := List.forall_mem_append

theorem eq_replicate_of_zeros (h : Zeros l) : l = List.replicate l.length 0 :=
  List.eq_replicate_of_mem h

theorem padded_eq_zeros_iff : padded n l = List.replicate n 0 ↔ Zeros (l.take n) := by
  unfold padded
  rw [List.eq_replicate_iff]
  by_cases hn : n ≤ l.length
  · rw [Nat.sub_eq_zero_of_le hn, List.replicate_zero, List.nil_append]
    exact and_iff_right (by rw [List.length_take]; omega)
  · rw [List.take_of_length_le (by simp; omega), List.take_of_length_le (by omega)]
    constructor
    · rintro ⟨-, hall⟩
      exact fun v hv => hall v (List.mem_append_right _ hv)
    · intro hzero
      refine ⟨by simp; omega, fun v hv => ?_⟩
      rcases List.mem_append.1 hv with hv | hv
      · exact List.eq_of_mem_replicate hv
      · exact hzero v hv

theorem padded_of_le (h : l.length ≤ n) : padded n l = List.replicate (n - l.length) 0 ++ l := by
  rw [padded, List.take_of_length_le (by simp; omega)]

/-- **What further numbers do no harm**: none, or zeros behind zeros. -/
theorem padded_append_iff {E : List ℤ} (hT : T.length < n ∨ (Zeros T ∧ T.length ≤ n)) :
    padded n (T ++ E) = padded n T ↔ E = [] ∨ Zeros T ∧ Zeros (E.take (n - T.length)) := by
  have hle : T.length ≤ n := hT.elim le_of_lt fun h => h.2
  by_cases hE : E = []
  · rw [hE, List.append_nil]
    exact iff_of_true rfl (Or.inl rfl)
  · rw [or_iff_right hE]
    have hzeros : Zeros T → padded n T = List.replicate n 0 := fun h =>
      padded_eq_zeros_iff.2 fun v hv => h v (List.mem_of_mem_take hv)
    have hall : Zeros ((T ++ E).take n) ↔ Zeros T ∧ Zeros (E.take (n - T.length)) := by
      rw [List.take_append, List.take_of_length_le hle, zeros_append]
    rw [← hall]
    constructor
    · intro h
      have hT' : Zeros T := by
        rcases hT with hlt | ⟨hzero, -⟩
        · have hlength := List.length_pos_of_ne_nil hE
          refine @zeros_of_shift T n E [] (n - (T ++ E).length) (n - T.length) ?_ ?_ ?_
          · rw [List.length_append]
            omega
          · rw [List.length_append]
            omega
          · rw [List.append_nil]
            exact h
        · exact hzero
      rw [hzeros hT'] at h
      exact padded_eq_zeros_iff.1 h
    · intro h
      rw [padded_eq_zeros_iff.2 h, hzeros (hall.1 h).1]

/-- **When two numbers in the place of the last do no harm.** -/
theorem padded_two_iff {own : List ℤ} (hlt : own.length < n) (high low : ℤ) :
    padded n (own.dropLast ++ [high, low]) = padded n own ↔
      high = 0 ∧ Zeros own.dropLast ∧ (n = 1 ∨ low = own.getLast?.getD 0) := by
  rcases List.eq_nil_or_concat own with rfl | ⟨T, x, rfl⟩
  · have hempty : padded n [] = List.replicate n 0 := padded_eq_zeros_iff.2 (by simp [Zeros])
    rw [hempty, padded_eq_zeros_iff]
    obtain ⟨k, rfl⟩ : ∃ k, n = k + 1 := ⟨n - 1, by omega⟩
    cases k with
    | zero => simp [Zeros]
    | succ k => simp [Zeros]
  · rw [List.concat_eq_append, List.length_append, List.length_singleton] at hlt
    rw [List.concat_eq_append, List.dropLast_concat, List.getLast?_concat, Option.getD_some]
    have hone : ¬n = 1 := by omega
    rw [or_iff_right hone]
    have hzeros : Zeros T → (padded n (T ++ [high, low]) = padded n (T ++ [x]) ↔
        high = 0 ∧ low = x) := by
      intro hT
      obtain ⟨k, rfl⟩ : ∃ k, T = List.replicate k 0 := ⟨T.length, eq_replicate_of_zeros hT⟩
      rw [List.length_replicate] at hlt
      have hleft : padded n (List.replicate k 0 ++ [high, low]) =
          List.replicate (n - 2) 0 ++ [high, low] := by
        rw [padded_of_le (by simp; omega), ← List.append_assoc, List.replicate_append_replicate]
        congr 2
        simp
        omega
      have hright : padded n (List.replicate k 0 ++ [x]) =
          List.replicate (n - 2) 0 ++ [0, x] := by
        have hroom : n - (k + 1) + k = (n - 2) + 1 := by omega
        rw [padded_of_le (by simp; omega), ← List.append_assoc, List.replicate_append_replicate,
          List.length_append, List.length_replicate, List.length_singleton, hroom,
          List.replicate_succ', List.append_assoc]
        rfl
      rw [hleft, hright, List.append_cancel_left_eq]
      simp
    constructor
    · intro h
      have hT : Zeros T := by
        refine @zeros_of_shift T n [high, low] [x] (n - (T.length + 2)) (n - (T.length + 1)) ?_ ?_ ?_
        · omega
        · omega
        · have h' := h
          unfold padded at h'
          simpa using h'
      obtain ⟨hhigh, hlow⟩ := (hzeros hT).1 h
      exact ⟨hhigh, hT, hlow⟩
    · rintro ⟨hhigh, hT, hlow⟩
      exact (hzeros hT).2 ⟨hhigh, hlow⟩

theorem padded_replicate_append {k : ℕ} (hk : k ≤ n) (l : List ℤ) :
    padded n (List.replicate k 0 ++ l) = List.replicate k 0 ++ padded (n - k) l := by
  have hroom : n - (k + l.length) + k = k + (n - k - l.length) ∨ n < k + l.length := by omega
  have hlength : (List.replicate k (0 : ℤ) ++ l).length = k + l.length := by simp
  unfold padded
  rw [hlength]
  rcases hroom with hroom | hlong
  · rw [← List.append_assoc, List.replicate_append_replicate, hroom,
      ← List.replicate_append_replicate, List.append_assoc, List.take_append,
      List.take_of_length_le (by simpa using hk), List.length_replicate]
  · have hnone : n - (k + l.length) = 0 ∧ n - k - l.length = 0 := by omega
    rw [hnone.1, hnone.2, List.replicate_zero, List.nil_append, List.nil_append, List.take_append,
      List.take_of_length_le (by simpa using hk), List.length_replicate]

/-- **When the octets do no harm**: the first of them is nothing, the groups
before them are not moved or are zeros, and what is read behind them stands for
all four. -/
theorem padded_rewriting_iff {E : List ℤ} {x high low : ℤ} (hn : T.length + 3 ≤ n)
    (hx : x = high ∨ high = 0 → x = 0) : padded n (T ++ x :: E) = padded n (T ++ [high, low]) ↔
      x = 0 ∧ (Zeros T ∨ E.length = 1) ∧
        padded (n - 1 - T.length) E = padded (n - 1 - T.length) [high, low] := by
  obtain ⟨N, hN, hN2⟩ : ∃ N, n = N + 1 + T.length ∧ 2 ≤ N := ⟨n - 1 - T.length, by omega, by omega⟩
  have hNeq : n - 1 - T.length = N := by omega
  rw [hNeq]
  have htwo : padded N [high, low] = List.replicate (N - 2) 0 ++ [high, low] :=
    padded_of_le (by simpa using hN2)
  by_cases hone : E.length = 1
  · -- The octets are two numbers either way, so nothing is moved.
    obtain ⟨e, rfl⟩ := List.length_eq_one_iff.1 hone
    have hleft : padded n (T ++ [x, e]) = List.replicate (n - (T.length + 2)) 0 ++ (T ++ [x, e]) := by
      rw [padded_of_le (by simp; omega)]
      simp
    have hright : padded n (T ++ [high, low]) =
        List.replicate (n - (T.length + 2)) 0 ++ (T ++ [high, low]) := by
      rw [padded_of_le (by simp; omega)]
      simp
    have hsingle : padded N [e] = List.replicate (N - 2) 0 ++ [0, e] := by
      have hroom : N - 1 = (N - 2) + 1 := by omega
      rw [padded_of_le (by simp; omega), List.length_singleton, hroom, List.replicate_succ',
        List.append_assoc]
      rfl
    rw [hleft, hright, htwo, hsingle, List.append_cancel_left_eq, List.append_cancel_left_eq,
      List.append_cancel_left_eq]
    simp only [List.cons.injEq, and_true, hone, or_true, true_and]
    constructor
    · rintro ⟨hhigh, hlow⟩
      have hzero := hx (Or.inl hhigh)
      exact ⟨hzero, by rw [← hhigh, hzero], hlow⟩
    · rintro ⟨hzero, hhigh, hlow⟩
      exact ⟨by rw [hzero, hhigh], hlow⟩
  · rw [or_iff_left hone]
    -- Moved by one place or more, the groups are zeros on either side.
    have hmoved : padded n (T ++ x :: E) = padded n (T ++ [high, low]) → Zeros T := by
      intro h
      unfold padded at h
      rw [List.length_append, List.length_append, List.length_cons] at h
      by_cases hfew : E.length = 0
      · refine @zeros_of_shift T n _ _ (n - (T.length + [high, low].length))
          (n - (T.length + (E.length + 1))) ?_ ?_ h.symm
        · simp
          omega
        · simp
          omega
      · refine @zeros_of_shift T n _ _ (n - (T.length + (E.length + 1)))
          (n - (T.length + [high, low].length)) ?_ ?_ h
        · simp
          omega
        · omega
    have hzeros : Zeros T → (padded n (T ++ x :: E) = padded n (T ++ [high, low]) ↔
        x = 0 ∧ padded N E = padded N [high, low]) := by
      intro hT
      have hcut : ∀ l, padded n (T ++ l) = T ++ padded (N + 1) l := by
        intro l
        have hpadded := padded_replicate_append (k := T.length) (n := n) (by omega) l
        rw [← eq_replicate_of_zeros hT] at hpadded
        rw [hpadded]
        congr 2
        omega
      have hfront : ∀ l : List ℤ, padded (N + 1) (0 :: l) = 0 :: padded N l := by
        intro l
        have hpadded := padded_replicate_append (k := 1) (n := N + 1) (by omega) l
        exact hpadded
      have hright : padded (N + 1) [high, low] = 0 :: padded N [high, low] := by
        have hroom : N + 1 - 2 = (N - 2) + 1 := by omega
        rw [htwo, padded_of_le (by simp; omega)]
        simp only [List.length_cons, List.length_nil]
        rw [hroom, List.replicate_succ]
        rfl
      rw [hcut, hcut, List.append_cancel_left_eq]
      constructor
      · intro h
        have hx0 : x = 0 := by
          by_cases hfew : E.length = 0
          · obtain rfl := List.length_eq_zero_iff.1 hfew
            refine hx (Or.inr ?_)
            have hroom : N + 1 - 1 = (N - 1) + 1 := by omega
            have hroom' : N + 1 - 2 = N - 1 := by omega
            rw [padded_of_le (by simp), padded_of_le (by simp; omega)] at h
            simp only [List.length_cons, List.length_nil, Nat.zero_add] at h
            rw [hroom, hroom', List.replicate_succ', List.append_assoc,
              List.append_cancel_left_eq] at h
            exact (List.cons.inj h).1.symm
          · have hplace := getElem?_shifted (T := [x]) (A := E) (m := N + 1 - (E.length + 1))
              (n := N + 1) (j := 0) (by simp) (by simp)
            have hthere : (padded (N + 1) [high, low])[N + 1 - (E.length + 1) + 0]? = some 0 := by
              have htwoLong : [high, low].length = 2 := rfl
              rw [padded_of_le (by omega), List.getElem?_append_left (by simp; omega),
                List.getElem?_replicate, if_pos (by omega)]
            rw [← h] at hthere
            unfold padded at hthere
            rw [List.length_cons] at hthere
            have hboth := hplace.symm.trans hthere
            exact Option.some.inj hboth
        subst hx0
        rw [hfront, hright] at h
        exact ⟨rfl, (List.cons.inj h).2⟩
      · rintro ⟨rfl, h⟩
        rw [hfront, hright, h]
    constructor
    · intro h
      obtain ⟨hx0, hrest⟩ := (hzeros (hmoved h)).1 h
      exact ⟨hx0, hmoved h, hrest⟩
    · rintro ⟨hx0, hT, hrest⟩
      exact (hzeros hT).2 ⟨hx0, hrest⟩

theorem hexValue_octet : ∀ a : Fin 256, a ≠ 0 →
    0 < hexValue (octetText a) ∧ hexValue (octetText a) < 256 * a := by decide +kernel

/-! ## Dots in a zone -/

/-- A text with `%` in it is no number. -/
theorem number_of_percent (h : '%' ∈ cs) : number cs = .nan := by
  have hleft : '%' ∈ cs.dropWhile trimmed := by
    rw [← List.takeWhile_append_dropWhile (p := trimmed) (l := cs), List.mem_append] at h
    refine h.resolve_left fun hmem => ?_
    have htrim := List.mem_takeWhile_imp hmem
    exact absurd htrim (by decide)
  have hbody : '%' ∈ (cs.dropWhile trimmed).rdropWhile trimmed := by
    rw [← List.rdropWhile_append_rtakeWhile (p := trimmed) (l := cs.dropWhile trimmed),
      List.mem_append] at hleft
    refine hleft.resolve_right fun hmem => ?_
    have htrim := List.mem_rtakeWhile_imp hmem
    exact absurd htrim (by decide)
  rw [number]
  generalize (cs.dropWhile trimmed).rdropWhile trimmed = body at hbody
  have hne : body ≠ [] := List.ne_nil_of_mem hbody
  have hinteger : ∀ {isDigit : Char → Bool} {value : List Char → ℕ} {ds : List Char},
      isDigit '%' = false → '%' ∈ ds → integerOf isDigit value ds = .nan := by
    intro isDigit value ds hdigit hmem
    refine if_neg fun hall => ?_
    have hmark := List.all_eq_true.1 hall.2 _ hmem
    rw [hdigit] at hmark
    cases hmark
  have hmarked : markedInteger? body = none ∨ markedInteger? body = some .nan := by
    unfold markedInteger?
    split
    · next z c ds =>
      by_cases hz : z ≠ '0'
      · exact Or.inl (if_pos hz)
      · rw [if_neg hz]
        -- Neither the zero nor the letter after it is the `%`, so a digit is.
        have hds : c ≠ '%' → '%' ∈ ds := by
          intro hc
          simp only [List.mem_cons] at hbody
          rcases hbody with hbody | hbody | hbody
          · exact absurd (hbody ▸ not_not.1 hz : '%' = '0') (by decide)
          · exact absurd hbody.symm hc
          · exact hbody
        split
        · next hx =>
          have hc : c ≠ '%' := by rcases hx with rfl | rfl <;> decide
          exact Or.inr (congrArg some (hinteger (by decide) (hds hc)))
        · split
          · next ho =>
            have hc : c ≠ '%' := by rcases ho with rfl | rfl <;> decide
            exact Or.inr (congrArg some (hinteger (by decide) (hds hc)))
          · split
            · next hb =>
              have hc : c ≠ '%' := by rcases hb with rfl | rfl <;> decide
              exact Or.inr (congrArg some (hinteger (by decide) (hds hc)))
            · exact Or.inl rfl
    · exact Or.inl rfl
  have hinfinity : (Decimal.splitSign body).2 ≠ "Infinity".toList := by
    intro heq
    have hmem : '%' ∈ (Decimal.splitSign body).2 := by
      unfold Decimal.splitSign
      split
      · exact (List.mem_cons.1 hbody).resolve_left (by decide)
      · exact (List.mem_cons.1 hbody).resolve_left (by decide)
      · exact hbody
    rw [heq] at hmem
    exact absurd hmem (by decide)
  have hliteral : Decimal.literal? body = none := by
    cases hl : Decimal.literal? body with
    | none => rfl
    | some r =>
      have hchar := Wire.literalChar_of_literal hl '%' hbody
      exact absurd hchar (by decide)
  rw [numberOf, if_neg hne]
  rcases hmarked with hnone | hnan
  · rw [hnone]
    dsimp only
    rw [if_neg hinfinity, hliteral]
  · rw [hnan]

theorem splitOn_append_dots {x : List Char} (hx : '.' ∉ x) (cs : List Char) :
    (x ++ cs).splitOn '.' = (cs.splitOn '.').modifyHead (x ++ ·) := by
  induction x with
  | nil =>
    cases hs : cs.splitOn '.' with
    | nil => exact absurd hs (List.splitOn_ne_nil _ _)
    | cons p ps => rw [List.nil_append, hs]; rfl
  | cons c x ih =>
    have hc : (c == '.') = false := beq_eq_false_iff_ne.2 fun h => hx (h ▸ List.mem_cons_self)
    rw [List.cons_append, List.splitOn_cons_eq_if_modifyHead, hc, if_neg Bool.false_ne_true,
      ih fun h => hx (List.mem_cons_of_mem _ h)]
    cases cs.splitOn '.' <;> rfl

/-- **Behind a group, the zone's own fields are the octets**: the field that has
the group in it is no number. -/
theorem joined_zone {x : List Char} (hx : '.' ∉ x) (zone : List Char) :
    joined (x ++ '%' :: zone) 0 = int32 (between zone 1) ∧
      joined (x ++ '%' :: zone) 2 = joined zone 2 := by
  obtain ⟨p, ps, hzone⟩ := List.exists_cons_of_ne_nil (List.splitOn_ne_nil '.' zone)
  have hsplit : (x ++ '%' :: zone).splitOn '.' = (x ++ '%' :: p) :: ps := by
    have happend : x ++ '%' :: zone = (x ++ ['%']) ++ zone := by simp
    have hno : '.' ∉ x ++ ['%'] := by
      rw [List.mem_append, not_or]
      exact ⟨hx, by decide⟩
    rw [happend, splitOn_append_dots hno, hzone]
    simp
  have hnan : number (x ++ '%' :: p) = .nan :=
    number_of_percent (List.mem_append_right _ List.mem_cons_self)
  have hfirst : between (x ++ '%' :: zone) 0 = some .nan := by
    rw [between, hsplit, List.map_cons, hnan]
    rfl
  have hrest : ∀ i, between (x ++ '%' :: zone) (i + 1) = between zone (i + 1) := by
    intro i
    rw [between, between, hsplit, hzone, List.map_cons, List.map_cons, List.getElem?_cons_succ,
      List.getElem?_cons_succ]
  constructor
  · rw [joined, hfirst, hrest 0]
    simp [int32]
  · rw [joined, joined, hrest 1, hrest 2]

/-- **Behind octets, the last of them is lost**: with the zone on it, it is no
number. -/
theorem toInt_joined_zone (q : Quad) (zone : List Char) :
    (joined (q.text ++ '%' :: zone) 0).toInt = (q.a * 256 + q.b : ℕ) ∧
      (joined (q.text ++ '%' :: zone) 2).toInt = (q.c * 256 : ℕ) := by
  obtain ⟨p, ps, hzone⟩ := List.exists_cons_of_ne_nil (List.splitOn_ne_nil '.' ('%' :: zone))
  have hno := fun n : Fin 256 => notMem_octetText n (c := '.') (by decide)
  have hpercent : '%' ∈ p := by
    have hhead : ('%' :: zone).splitOn '.' = (zone.splitOn '.').modifyHead ('%' :: ·) :=
      splitOn_append_dots (x := ['%']) (by decide) zone
    rw [hhead] at hzone
    cases hz : zone.splitOn '.' with
    | nil => exact absurd hz (List.splitOn_ne_nil _ _)
    | cons p' ps' =>
      rw [hz] at hzone
      rw [← (List.cons.inj hzone).1]
      exact List.mem_cons_self
  have hsplit : (q.text ++ '%' :: zone).splitOn '.' =
      octetText q.a :: octetText q.b :: octetText q.c :: (octetText q.d ++ p) :: ps := by
    have hcons : ∀ (n : Fin 256) (cs : List Char),
        (octetText n ++ '.' :: cs).splitOn '.' = octetText n :: cs.splitOn '.' := by
      intro n cs
      rw [List.splitOn_append_cons_self, List.splitOn_eq_singleton (hno n)]
      rfl
    rw [q.text_eq]
    simp only [List.append_assoc, List.cons_append]
    rw [hcons, hcons, hcons, splitOn_append_dots (hno q.d), hzone]
    rfl
  have hnan : number (octetText q.d ++ p) = .nan :=
    number_of_percent (List.mem_append_right _ hpercent)
  have ha := int32_octet q.a
  have hb := int32_octet q.b
  have hc := int32_octet q.c
  have hd : int32 (some (number (octetText q.d ++ p))) = BitVec.ofNat 32 0 := by
    rw [hnan]
    rfl
  rw [joined, joined, between, between, between, between, hsplit]
  change (int32 (some (number (octetText q.a))) <<< 8 |||
      int32 (some (number (octetText q.b)))).toInt = _ ∧
    (int32 (some (number (octetText q.c))) <<< 8 |||
      int32 (some (number (octetText q.d ++ p)))).toInt = _
  rw [ha, hb, hc, hd, toInt_join q.a.isLt q.b.isLt, toInt_join q.c.isLt (by decide)]
  push_cast
  exact ⟨rfl, add_zero _⟩

/-! ## What is laid out -/

theorem length_ints (l : List ℕ) : (ints l).length = l.length := List.length_map _

theorem ints_append (l m : List ℕ) : ints (l ++ m) = ints l ++ ints m := List.map_append

theorem filled_eq {leading : List ℤ} (h : leading.length ≤ 8) :
    filled leading seen = leading ++ padded (8 - leading.length) seen := by
  rw [filled, List.append_assoc, List.take_append, List.take_of_length_le h, padded]

theorem filled_of_eight {behind : List ℤ} (h : 8 ≤ seen.length) :
    filled seen behind = seen.take 8 := by
  have hnone : 8 - seen.length - behind.length = 0 := by omega
  rw [filled, hnone, List.replicate_zero, List.append_nil, List.take_append_of_le_length h]

/-- **After a run, only the number that stands there counts.** -/
theorem laid_run_iff {lead : List Group} {tail : Tail} (fits : lead.length + tail.width ≤ 7)
    (seen behind : List ℤ) :
    laid (.run lead tail fits) seen behind = ints (V6.run lead tail fits).values ↔
      padded (8 - lead.length) seen = padded (8 - lead.length) (ints tail.values) := by
  have hwidth : tail.values.length = tail.width := rfl
  have hlead : (ints (lead.map Group.value)).length = lead.length := by
    rw [length_ints, List.length_map]
  have hown : ints (V6.run lead tail fits).values =
      ints (lead.map Group.value) ++ padded (8 - lead.length) (ints tail.values) := by
    rw [padded_of_le (by rw [length_ints]; omega), length_ints, hwidth, V6.values, ints_append,
      ints_append, List.append_assoc]
    congr 2
    rw [ints, List.map_replicate]
    rfl
  rw [hown, laid, filled_eq (by omega), hlead, List.append_cancel_left_eq]

theorem laid_full_iff {tail : Tail} (fits : tail.width = 8) (seen behind : List ℤ) :
    laid (.full tail fits) seen behind = ints (V6.full tail fits).values ↔
      filled seen behind = ints tail.values := Iff.rfl

/-- **As many numbers as stand there** are laid out as what is denoted where they
are these. -/
theorem laid_iff_of_length (h : seen.length = (tailOf spelt).values.length) :
    laid spelt seen [] = ints spelt.values ↔ seen = ints (tailOf spelt).values := by
  cases spelt with
  | full tail fits =>
    have hlength : seen.length = 8 := h.trans fits
    refine (laid_full_iff fits _ _).trans ?_
    rw [filled_of_eight (le_of_eq hlength.symm), List.take_of_length_le (le_of_eq hlength)]
    rfl
  | run lead tail fits =>
    have hwidth : tail.values.length = tail.width := rfl
    have hlength : seen.length = tail.values.length := h
    refine (laid_run_iff fits _ _).trans ?_
    rw [padded_of_le (by omega), padded_of_le (by rw [length_ints]; omega), length_ints, hlength,
      List.append_cancel_left_eq]
    rfl

/-! ## An address without a zone -/

theorem hexString_ok (bits : BitVec 32) : hexString bits ≠ [] ∧ ':' ∉ hexString bits := by
  have hdigits : Nat.toDigits 16 bits.toInt.natAbs ≠ [] := Nat.toDigits_ne_nil
  have hcolon : ':' ∉ Nat.toDigits 16 bits.toInt.natAbs := by
    intro hmem
    exact absurd (isHex_of_mem_toDigits hmem) (by decide)
  unfold hexString Decimal.signText
  split
  · refine ⟨List.cons_ne_nil _ _, ?_⟩
    rw [List.mem_cons, not_or]
    exact ⟨by decide, hcolon⟩
  · exact ⟨hdigits, hcolon⟩

theorem fields_two (groups : List Group) (last : List Char) :
    Fields (groups.map Group.text ++
      [hexString (joined last 0), hexString (joined last 2)]) := by
  intro f hf
  rcases List.mem_append.1 hf with hf | hf
  · exact fields_groups groups f hf
  · rcases List.mem_cons.1 hf with rfl | hf
    · exact hexString_ok _
    · rw [List.mem_singleton.1 hf]
      exact hexString_ok _

theorem map_worth_two (groups : List Group) (last : List Char) :
    (groups.map Group.text ++ [hexString (joined last 0), hexString (joined last 2)]).map worth =
      ints (groups.map Group.value) ++ [(joined last 0).toInt, (joined last 2).toInt] := by
  rw [List.map_append, map_worth_groups, List.map_cons, List.map_singleton, worth_hexString,
    worth_hexString]

/-- **A text whose last field is rewritten** is packed as its groups and the two
numbers of that field. -/
theorem packV6_rewritten {groups : List Group} (hdot : '.' ∈ value) (hlast : ':' ∉ last)
    (h : value = ended spelt ([':'].intercalate (groups.map Group.text ++ [last]))) :
    packV6 value = .ok (Spelling.v6 spelt none).bytes ↔
      laid spelt (ints (groups.map Group.value) ++
        [(joined last 0).toInt, (joined last 2).toInt]) [] = ints spelt.values := by
  have hundotted : undotted value = ended spelt ([':'].intercalate (groups.map Group.text ++
      [hexString (joined last 0), hexString (joined last 2)])) := by
    rw [undotted_of_mem hdot, h, hexTail_ended spelt _ hlast]
  rw [packV6_fields (fields_two groups last) hundotted, map_worth_two]

/-- **An address without a zone is packed as what it denotes.** -/
theorem packV6_text (spelt : V6) :
    packV6 spelt.text = .ok (Spelling.v6 spelt none).bytes := by
  cases hquad : (tailOf spelt).quad with
  | none =>
    have hdot : '.' ∉ spelt.text := fun h => (dot_mem_iff spelt).1 h hquad
    have hundotted : undotted spelt.text =
        ended spelt ([':'].intercalate (tailOf spelt).fields) := by
      rw [undotted_of_notMem hdot]
      exact ended_text spelt
    refine (packV6_fields (tailOf spelt).fields_ok hundotted).2 ?_
    have hworths : (tailOf spelt).fields.map worth = ints (tailOf spelt).values := by
      rw [Tail.fields, Tail.values, hquad, Option.toList_none, List.map_nil, List.append_nil,
        List.flatMap_nil, List.append_nil]
      exact map_worth_groups _
    rw [hworths]
    exact (laid_iff_of_length (length_ints _)).2 rfl
  | some q =>
    have hdot : '.' ∈ spelt.text := (dot_mem_iff spelt).2 (by rw [hquad]; exact Option.some_ne_none q)
    have htext : spelt.text = ended spelt
        ([':'].intercalate ((tailOf spelt).groups.map Group.text ++ [q.text])) := by
      rw [ended_text, Tail.text, Tail.fields, hquad]
      rfl
    refine (packV6_rewritten hdot (q.notMem (by decide) (by decide)) htext).2 ?_
    have hown : ints ((tailOf spelt).groups.map Group.value) ++
        [(joined q.text 0).toInt, (joined q.text 2).toInt] = ints (tailOf spelt).values := by
      rw [(toInt_joined_quad q).1, (toInt_joined_quad q).2, Tail.values, hquad, ints_append]
      rfl
    rw [hown]
    exact (laid_iff_of_length (length_ints _)).2 rfl

/-! ## An address with a zone -/

theorem worths_of_none (h : t.quad = none) :
    worths t = if t.values = [] then [0] else ints t.values := by
  obtain ⟨groups, quad⟩ := t
  dsimp only at h
  subst h
  have hvalues : Tail.values ⟨groups, none⟩ = groups.map Group.value := by
    rw [Tail.values, Option.toList_none, List.flatMap_nil, List.append_nil]
  rw [worths, hvalues, Option.toList_none, List.map_nil, List.append_nil]
  cases groups with
  | nil => rw [if_pos rfl, List.map_nil, if_pos rfl]
  | cons g groups =>
    rw [if_neg (by simp), if_neg (by simp)]

/-- **Fields of a zone behind groups.** -/
theorem laid_fields_iff (h : (tailOf spelt).quad = none) (w : List Char) :
    laid spelt (worths (tailOf spelt) ++ strays w) (later w) = ints spelt.values ↔
      HarmlessFields spelt w := by
  cases spelt with
  | full tail fits =>
    change tail.quad = none at h
    have hlength : (ints tail.values).length = 8 := by
      rw [length_ints]
      exact fits
    have hne : tail.values ≠ [] := by
      intro hnil
      rw [hnil] at hlength
      cases hlength
    refine iff_of_true ((laid_full_iff fits _ _).2 ?_) trivial
    change filled (worths tail ++ strays w) (later w) = _
    rw [worths_of_none h, if_neg hne, filled_of_eight (by rw [List.length_append]; omega),
      List.take_append_of_le_length (by omega), List.take_of_length_le (by omega)]
  | run lead tail fits =>
    change tail.quad = none at h
    have hwidth : tail.values.length = tail.width := rfl
    refine (laid_run_iff fits _ _).trans ?_
    change padded _ (worths tail ++ strays w) = _ ↔
      strays w = [] ∨ Zeros (ints tail.values) ∧
        Zeros ((strays w).take (8 - lead.length - max 1 tail.width))
    rw [worths_of_none h]
    by_cases hnil : tail.values = []
    · have hempty : tail.width = 0 := by rw [← hwidth, hnil]; rfl
      have hzero : Zeros [0] := by simp [Zeros]
      have hnone : padded (8 - lead.length) (ints []) = padded (8 - lead.length) [0] := by
        have hnothing : Zeros ((ints []).take (8 - lead.length)) := by simp [Zeros, ints]
        have hone : Zeros ([0].take (8 - lead.length)) := fun v hv =>
          hzero v (List.mem_of_mem_take hv)
        rw [padded_eq_zeros_iff.2 hnothing, padded_eq_zeros_iff.2 hone]
      rw [if_pos hnil, hnil, hnone, padded_append_iff (Or.inr ⟨hzero, by simp; omega⟩), hempty]
      have hall : Zeros (ints []) := by simp [Zeros, ints]
      exact or_congr_right (and_congr_left fun _ => iff_of_true hzero hall)
    · have hpos : 0 < tail.width := by
        rw [← hwidth]
        exact List.length_pos_of_ne_nil hnil
      have hmax : max 1 tail.width = tail.width := by omega
      rw [if_neg hnil, padded_append_iff (Or.inl (by rw [length_ints]; omega)), length_ints,
        hwidth, hmax]

/-- **Dots of a zone behind groups.** -/
theorem laid_dots_iff (spelt : V6) (zone : List Char) :
    laid spelt (ints (tailOf spelt).values.dropLast ++
      [(int32 (between zone 1)).toInt, (joined zone 2).toInt]) [] = ints spelt.values ↔
        HarmlessDots spelt zone := by
  cases spelt with
  | full tail fits =>
    refine (laid_full_iff fits _ _).trans ?_
    change filled (ints tail.values.dropLast ++ _) [] = _ ↔ _ = ((tail.values.getLast?.getD 0 : ℕ) : ℤ)
    have hlength : tail.values.length = 8 := fits
    rcases List.eq_nil_or_concat tail.values with hnil | ⟨init, last, hlast⟩
    · rw [hnil] at hlength
      cases hlength
    · rw [List.concat_eq_append] at hlast
      rw [hlast, List.length_append, List.length_singleton] at hlength
      have hseven : (ints init).length = 7 := by rw [length_ints]; omega
      rw [hlast, List.dropLast_concat, List.getLast?_concat, Option.getD_some,
        filled_of_eight (by rw [List.length_append, hseven]; simp), List.take_append, hseven,
        List.take_of_length_le (by omega), ints_append, List.append_cancel_left_eq]
      simp [ints]
  | run lead tail fits =>
    have hwidth : tail.values.length = tail.width := rfl
    refine (laid_run_iff fits _ _).trans ?_
    have hdrop : ints tail.values.dropLast = (ints tail.values).dropLast := List.map_dropLast
    have hlast : (ints tail.values).getLast?.getD 0 = ((tail.values.getLast?.getD 0 : ℕ) : ℤ) := by
      rw [ints, List.getLast?_map]
      cases tail.values.getLast? <;> rfl
    have hseven : 8 - lead.length = 1 ↔ lead.length = 7 := by omega
    change padded _ (ints tail.values.dropLast ++ _) = _ ↔ _
    rw [hdrop, padded_two_iff (by rw [length_ints]; omega), ← hdrop, hlast, hseven]
    rfl

theorem ints_values_of_quad (h : t.quad = some q) :
    ints t.values = ints (t.groups.map Group.value) ++
      [((q.a * 256 + q.b : ℕ) : ℤ), ((q.c * 256 + q.d : ℕ) : ℤ)] := by
  rw [Tail.values, h, ints_append]
  rfl

theorem worths_of_quad (h : t.quad = some q) :
    worths t = ints (t.groups.map Group.value) ++ [(hexValue (octetText q.a) : ℤ)] := by
  have hne : t ≠ ⟨[], none⟩ := by
    intro heq
    rw [heq] at h
    cases h
  rw [worths, if_neg hne, h]
  rfl

/-- **Octets whose last one is lost.** -/
theorem laid_lost_iff (h : (tailOf spelt).quad = some q) :
    laid spelt (ints ((tailOf spelt).groups.map Group.value) ++
      [((q.a * 256 + q.b : ℕ) : ℤ), ((q.c * 256 : ℕ) : ℤ)]) [] = ints spelt.values ↔ q.d = 0 := by
  have hown := ints_values_of_quad h
  have hlength := congrArg List.length hown
  rw [length_ints, List.length_append] at hlength
  have hsame : (ints ((tailOf spelt).groups.map Group.value) ++
      [((q.a * 256 + q.b : ℕ) : ℤ), ((q.c * 256 : ℕ) : ℤ)]).length =
        (tailOf spelt).values.length := by
    rw [hlength, List.length_append]
    simp only [List.length_cons, List.length_nil]
  rw [laid_iff_of_length hsame, hown, List.append_cancel_left_eq]
  constructor
  · intro heq
    have hlast := Int.ofNat.inj (List.cons.inj (List.cons.inj heq).2).1
    exact Fin.ext (by simpa using hlast)
  · intro hd
    simp [hd]

/-- **Octets that are left as they are.** -/
theorem laid_rewriting_iff (h : (tailOf spelt).quad = some q) (zone : List Char) :
    laid spelt (worths (tailOf spelt) ++ strays (hexTail zone)) (later (hexTail zone)) =
      ints spelt.values ↔ HarmlessRewriting q spelt zone := by
  -- The first octet in base sixteen is its group only where both octets are 0.
  have hzero : (hexValue (octetText q.a) : ℤ) = 0 ↔ q.a = 0 := by
    constructor
    · intro heq
      by_contra hne
      have hpos := (hexValue_octet q.a hne).1
      omega
    · intro ha
      rw [ha]
      decide
  have hgroup : (hexValue (octetText q.a) : ℤ) = ((q.a * 256 + q.b : ℕ) : ℤ) → q.a = 0 := by
    intro heq
    by_contra hne
    have hlt := (hexValue_octet q.a hne).2
    omega
  cases spelt with
  | full tail fits =>
    have hquad : tail.quad = some q := h
    have hown := ints_values_of_quad hquad
    have hlength := congrArg List.length hown
    rw [length_ints, List.length_append, show tail.values.length = 8 from fits] at hlength
    have hsix : (ints (tail.groups.map Group.value)).length = 6 := by
      simp only [List.length_cons, List.length_nil] at hlength
      omega
    refine (laid_full_iff fits _ _).trans ?_
    change filled (worths tail ++ _) _ = _ ↔ q.a = 0 ∧ q.b = 0 ∧ _
    rw [worths_of_quad hquad, hown, List.append_assoc]
    generalize strays (hexTail zone) = E
    generalize later (hexTail zone) = F
    generalize ints (tail.groups.map Group.value) = T at hsix
    have hlaid : filled (T ++ ([(hexValue (octetText q.a) : ℤ)] ++ E)) F =
        T ++ [(hexValue (octetText q.a) : ℤ), (E ++ F).headD 0] := by
      unfold filled
      rw [List.append_assoc, List.append_assoc, List.take_append, hsix,
        List.take_of_length_le (by omega)]
      cases E with
      | cons e E => rfl
      | nil => cases F <;> simp [hsix]
    rw [hlaid, List.append_cancel_left_eq]
    simp only [List.cons.injEq, and_true]
    constructor
    · rintro ⟨hsame, hlast⟩
      have ha := hgroup hsame
      refine ⟨ha, ?_, hlast⟩
      rw [hzero.2 ha, ha] at hsame
      refine Fin.ext ?_
      have hnat : (0 : ℤ) = ((0 : ℕ) * 256 + q.b : ℕ) := hsame
      change (q.b : ℕ) = 0
      omega
    · rintro ⟨ha, hb, hlast⟩
      refine ⟨?_, hlast⟩
      rw [hzero.2 ha, ha, hb]
      rfl
  | run lead tail fits =>
    have hquad : tail.quad = some q := h
    have hwidth : tail.values.length = tail.width := rfl
    have hown := ints_values_of_quad hquad
    have hlength := congrArg List.length hown
    rw [length_ints, List.length_append, hwidth] at hlength
    simp only [List.length_cons, List.length_nil, length_ints, List.length_map] at hlength
    refine (laid_run_iff fits _ _).trans ?_
    change padded _ (worths tail ++ _) = _ ↔ q.a = 0 ∧ _
    rw [worths_of_quad hquad, hown, List.append_assoc]
    have hrewriting := @padded_rewriting_iff (ints (tail.groups.map Group.value))
      (8 - lead.length) (strays (hexTail zone)) (hexValue (octetText q.a)) (q.a * 256 + q.b : ℕ)
      (q.c * 256 + q.d : ℕ)
      (by rw [length_ints, List.length_map]; omega) (by
        rintro (hsame | hhigh)
        · exact hzero.2 (hgroup hsame)
        · refine hzero.2 (Fin.ext ?_)
          have hnat : (q.a * 256 + q.b : ℕ) = 0 := by exact_mod_cast hhigh
          change (q.a : ℕ) = 0
          omega)
    have hroom : 8 - lead.length - 1 - (ints (tail.groups.map Group.value)).length =
        7 - lead.length - tail.groups.length := by
      rw [length_ints, List.length_map]
      omega
    rw [hroom, hzero] at hrewriting
    exact hrewriting

theorem undotted_zone {zone : List Char} (hdot : '.' ∈ spelt.text ++ '%' :: zone)
    (hcolon : ':' ∈ zone) :
    undotted (spelt.text ++ '%' :: zone) = spelt.text ++ '%' :: hexTail zone := by
  have happend : ∀ cs, spelt.text ++ '%' :: cs = (spelt.text ++ ['%']) ++ cs := by simp
  rw [undotted_of_mem hdot, happend, hexTail_of_mem hcolon, ← happend]

theorem strays_of_notMem {zone : List Char} (h : ':' ∉ zone) : strays zone = [] := by
  have hone : splitRun zone = [zone] := by
    have hsplit := splitRun_append h []
    rw [List.append_nil] at hsplit
    rw [hsplit]
    change [zone ++ []] = _
    rw [List.append_nil]
  rw [strays, hone, List.headD_cons, List.splitOn_eq_singleton h]
  rfl

theorem packV6_behind_groups (h : (tailOf spelt).quad = none) (zone : List Char) :
    packV6 (spelt.text ++ '%' :: zone) = .ok (Spelling.v6 spelt none).bytes ↔
      Harmless spelt zone := by
  have hnodot : '.' ∉ spelt.text := fun hmem => (dot_mem_iff spelt).1 hmem h
  have hmem : '.' ∈ spelt.text ++ '%' :: zone ↔ '.' ∈ zone := by simp [hnodot]
  rw [Harmless, h]
  dsimp only
  by_cases hcolon : ':' ∈ zone
  · rw [if_pos hcolon]
    by_cases hdot : '.' ∈ zone
    · rw [if_pos hdot, ← laid_fields_iff h]
      exact packV6_zone (undotted_zone (hmem.2 hdot) hcolon)
    · rw [if_neg hdot, ← laid_fields_iff h]
      exact packV6_zone (undotted_of_notMem fun hin => hdot (hmem.1 hin))
  · rw [if_neg hcolon]
    have hpercent : ∀ x : List Char, ':' ∉ x → ':' ∉ x ++ '%' :: zone := by
      intro x hx
      simp [hx, hcolon]
    by_cases hdot : '.' ∈ zone
    · rw [forall_prop_of_true hdot, ← laid_dots_iff]
      rcases tail_cases (tailOf spelt) with htail | ⟨groups, g, htail⟩ | ⟨groups, q, htail⟩
      · have htext : spelt.text ++ '%' :: zone = ended spelt
            ([':'].intercalate (([] : List Group).map Group.text ++ [[] ++ '%' :: zone])) := by
          rw [ended_text, ended_append, htail, List.map_nil, List.nil_append,
            List.intercalate_singleton]
          rfl
        have hjoined := @joined_zone [] (by decide) zone
        rw [packV6_rewritten (hmem.2 hdot) (hpercent [] (by decide)) htext, hjoined.1, hjoined.2,
          htail]
        rfl
      · have htext : spelt.text ++ '%' :: zone = ended spelt
            ([':'].intercalate (groups.map Group.text ++ [g.text ++ '%' :: zone])) := by
          rw [ended_text, ended_append, ← intercalate_concat_append, htail]
          simp [Tail.text, Tail.fields]
        have hjoined := joined_zone (g.notMem (c := '.') (by decide)) zone
        have hdrop : ints (tailOf spelt).values.dropLast = ints (groups.map Group.value) := by
          rw [htail, Tail.values, Option.toList_none, List.flatMap_nil, List.append_nil,
            List.map_append, List.map_singleton, List.dropLast_concat]
        rw [packV6_rewritten (hmem.2 hdot) (hpercent _ (g.notMem (by decide))) htext, hjoined.1,
          hjoined.2, hdrop]
      · rw [htail] at h
        cases h
    · have hnone : '.' ∉ spelt.text ++ '%' :: zone := fun hin => hdot (hmem.1 hin)
      rw [packV6_zone (undotted_of_notMem hnone), laid_fields_iff h]
      refine iff_of_true ?_ fun hin => absurd hin hdot
      cases spelt with
      | full tail fits => trivial
      | run lead tail fits => exact Or.inl (strays_of_notMem hcolon)

theorem packV6_behind_octets (h : (tailOf spelt).quad = some q) (zone : List Char) :
    packV6 (spelt.text ++ '%' :: zone) = .ok (Spelling.v6 spelt none).bytes ↔
      Harmless spelt zone := by
  have hdot : '.' ∈ spelt.text ++ '%' :: zone := by
    refine List.mem_append_left _ ((dot_mem_iff spelt).2 ?_)
    rw [h]
    exact Option.some_ne_none q
  rw [Harmless, h]
  dsimp only
  by_cases hcolon : ':' ∈ zone
  · rw [if_pos hcolon, ← laid_rewriting_iff h]
    exact packV6_zone (undotted_zone hdot hcolon)
  · rw [if_neg hcolon, ← laid_lost_iff h]
    have hlast : ':' ∉ q.text ++ '%' :: zone := by
      have hq := q.notMem (c := ':') (by decide) (by decide)
      simp [hq, hcolon]
    have htext : spelt.text ++ '%' :: zone = ended spelt
        ([':'].intercalate ((tailOf spelt).groups.map Group.text ++ [q.text ++ '%' :: zone])) := by
      rw [ended_text, ended_append, ← intercalate_concat_append, Tail.text, Tail.fields, h]
      rfl
    rw [packV6_rewritten hdot hlast htext, (toInt_joined_zone q zone).1, (toInt_joined_zone q zone).2]

/-! ## When an address is packed as itself -/

theorem text_ne_nil (s : Spelling) : s.text ≠ [] := by
  intro hnil
  have hread := read?_text s
  have hnone : read? [] = none := by decide
  rw [hnil, hnone] at hread
  cases hread

/-- **An address is packed as the bytes it denotes where its zone does no
harm.** -/
theorem pack_text_iff (s : Spelling) :
    packIpAddress (some s.text) = .ok (some s.bytes) ↔ Kept s := by
  cases s with
  | v4 q => exact iff_of_true (pack_quad q) trivial
  | v6 spelt zone =>
    have hsix : isIP (Spelling.v6 spelt zone).text = 6 := isIP_v6 spelt zone
    have hnotFour : isIP (Spelling.v6 spelt zone).text ≠ 4 := by
      rw [hsix]
      decide
    have hpack : packIpAddress (some (Spelling.v6 spelt zone).text) =
        (packV6 (Spelling.v6 spelt zone).text).map some := by
      rw [packIpAddress, if_neg (text_ne_nil _), if_neg hnotFour, if_pos hsix]
    have hmap : packIpAddress (some (Spelling.v6 spelt zone).text) =
        .ok (some (Spelling.v6 spelt zone).bytes) ↔
          packV6 (Spelling.v6 spelt zone).text = .ok (Spelling.v6 spelt none).bytes := by
      rw [hpack]
      cases packV6 (Spelling.v6 spelt zone).text with
      | error e => exact iff_of_false (fun h => by cases h) fun h => by cases h
      | ok bytes =>
        constructor
        · intro h
          exact congrArg Except.ok (Option.some.inj (Except.ok.inj h))
        · intro h
          exact congrArg (fun b => Except.ok (some b)) (Except.ok.inj h)
    rw [hmap]
    cases zone with
    | none =>
      have htext : (Spelling.v6 spelt none).text = spelt.text := List.append_nil _
      rw [htext]
      exact iff_of_true (packV6_text spelt) trivial
    | some zone =>
      change packV6 (spelt.text ++ '%' :: zone.text) = _ ↔ Harmless spelt zone.text
      cases hquad : (tailOf spelt).quad with
      | none => exact packV6_behind_groups hquad zone.text
      | some q => exact packV6_behind_octets hquad zone.text

/-! ## Unpacking and packing again -/

theorem byte_eq (b : UInt8) : UInt8.ofNat b.toNat = b := UInt8.ofNat_toNat

/-- A group as it is written out. -/
def writtenGroup (value : ℕ) (h : value < 65536) : Group where
  text := Nat.toDigits 16 value
  ok := by
    have hlength : (Nat.toDigits 16 value).length ≤ 4 :=
      (Nat.length_toDigits_le_iff (by decide) (by decide)).2 h
    rw [isGroup, Bool.and_eq_true, Bool.and_eq_true, decide_eq_true_eq, decide_eq_true_eq,
      List.all_eq_true]
    exact ⟨⟨Nat.toDigits_ne_nil, hlength⟩, fun c hc => isHex_of_mem_toDigits hc⟩

theorem exists_groups (bytes : List UInt8) (h : bytes.length = 2 * n) :
    ∃ groups : List Group, groups.map Group.text = groupTexts bytes ∧ groups.length = n ∧
      (groups.map Group.value).flatMap groupBytes = bytes := by
  induction n generalizing bytes with
  | zero =>
    rw [List.length_eq_zero_iff.1 h]
    exact ⟨[], rfl, rfl, rfl⟩
  | succ n ih =>
    obtain ⟨high, low, rest, rfl⟩ : ∃ high low rest, bytes = high :: low :: rest := by
      cases bytes with
      | nil => simp at h
      | cons high bytes =>
        cases bytes with
        | nil => simp at h; omega
        | cons low rest => exact ⟨high, low, rest, rfl⟩
    obtain ⟨groups, htexts, hlength, hvalues⟩ := ih rest (by simp at h; omega)
    have hhigh := high.toNat_lt
    have hlow := low.toNat_lt
    have hlt : high.toNat * 256 + low.toNat < 65536 := by omega
    refine ⟨writtenGroup _ hlt :: groups, ?_, by rw [List.length_cons, hlength], ?_⟩
    · rw [List.map_cons, htexts]
      rfl
    · have hvalue : (writtenGroup _ hlt).value = high.toNat * 256 + low.toNat :=
        hexValue_toDigits _
      have hdiv : (high.toNat * 256 + low.toNat) / 256 = high.toNat := by omega
      have hmod : UInt8.ofNat (high.toNat * 256 + low.toNat) = low := by
        refine UInt8.toNat_inj.1 ?_
        rw [UInt8.toNat_ofNat']
        omega
      rw [List.map_cons, List.flatMap_cons, hvalues, hvalue, groupBytes, hdiv, byte_eq, hmod]
      rfl

/-- **What is unpacked is packed as the bytes it was.** -/
theorem pack_unpack {bytes : List UInt8} (h : bytes.length = 16) :
    packIpAddress (unpackIpAddress (some bytes)) = .ok (some bytes) := by
  rw [unpackIpAddress, if_neg (not_not.2 h)]
  by_cases hmapped : bytes.take 12 = v4MappedPrefix
  · rw [if_pos hmapped]
    have hfour : (bytes.drop 12).length = 4 := by rw [List.length_drop, h]
    obtain ⟨a, b, c, d, hdrop⟩ := List.length_eq_four.1 hfour
    have hbytes : bytes = v4MappedPrefix ++ [a, b, c, d] := by
      rw [← hmapped, ← hdrop, List.take_append_drop]
    have htext : ['.'].intercalate ([a, b, c, d].map fun o => Nat.toDigits 10 o.toNat) =
        Quad.text ⟨⟨a.toNat, a.toNat_lt⟩, ⟨b.toNat, b.toNat_lt⟩, ⟨c.toNat, c.toNat_lt⟩,
          ⟨d.toNat, d.toNat_lt⟩⟩ := rfl
    rw [hdrop, htext, pack_quad, hbytes]
    simp [Spelling.bytes, Quad.octets, octetByte, v4MappedPrefix]
  · rw [if_neg hmapped]
    obtain ⟨groups, htexts, hlength, hvalues⟩ := exists_groups bytes (n := 8) h
    have hwidth : (Tail.mk groups none).width = 8 := by
      rw [Tail.width, Tail.values]
      simp [hlength]
    have htext : [':'].intercalate (groupTexts bytes) =
        (Spelling.v6 (.full ⟨groups, none⟩ hwidth) none).text := by
      rw [← htexts, Spelling.text, zoneText, List.append_nil, V6.text, Tail.text, Tail.fields]
      simp
    have hdenoted : (Spelling.v6 (.full ⟨groups, none⟩ hwidth) none).bytes = bytes := by
      rw [Spelling.bytes, V6.values, Tail.values]
      simp [hvalues]
    have hpack := (pack_text_iff (.v6 (.full ⟨groups, none⟩ hwidth) none)).2 trivial
    rw [hdenoted] at hpack
    rw [htext, hpack]

/-- **When an audited address is the address.** A text that `isIP` accepts is
packed as the bytes it denotes where what is read of its zone comes to nothing;
two such texts are packed alike where they denote one address; and what is
unpacked is packed as what it was. -/
theorem packed_as_denoted_iff (cs : List Char) (s : Spelling) (hread : read? cs = some s) :
    (packIpAddress (some cs) = .ok (some s.bytes) ↔ Kept s) ∧
    (∀ cs' s', read? cs' = some s' → Kept s → Kept s' →
      (packIpAddress (some cs) = packIpAddress (some cs') ↔ s.bytes = s'.bytes)) ∧
    ∀ bytes : List UInt8, bytes.length = 16 →
      packIpAddress (unpackIpAddress (some bytes)) = .ok (some bytes) := by
  obtain rfl := read?_eq_some_iff.1 hread
  refine ⟨pack_text_iff s, fun cs' s' hread' hkept hkept' => ?_,
    fun bytes hlength => pack_unpack hlength⟩
  obtain rfl := read?_eq_some_iff.1 hread'
  rw [(pack_text_iff s).2 hkept, (pack_text_iff s').2 hkept']
  constructor
  · intro h
    exact Option.some.inj (Except.ok.inj h)
  · intro h
    rw [h]

theorem packed_as_denoted_interface :
    packIpAddress (some "fe80::1%eth0".toList) =
        .ok (some ([0xfe, 0x80] ++ List.replicate 13 0 ++ [1])) ∧
      packIpAddress (unpackIpAddress (some (List.replicate 15 0 ++ [1]))) =
        .ok (some (List.replicate 15 0 ++ [1])) := by
  have hread : read? "fe80::1%eth0".toList = some (.v6 (.run [⟨"fe80".toList, by decide⟩]
      ⟨[⟨['1'], by decide⟩], none⟩ (by decide)) (some ⟨"eth0".toList, by decide⟩)) := by
    decide +kernel
  have hkept : Kept (.v6 (.run [⟨"fe80".toList, by decide⟩] ⟨[⟨['1'], by decide⟩], none⟩
      (by decide)) (some ⟨"eth0".toList, by decide⟩)) := fun hdot => absurd hdot (by decide)
  obtain ⟨hpacked, -, hunpacked⟩ := packed_as_denoted_iff _ _ hread
  refine ⟨(hpacked.2 hkept).trans ?_, hunpacked _ (by decide)⟩
  exact congrArg (fun b => Except.ok (some b)) (by decide +kernel)

/-- The address of an interface with a dot in its name is packed as another
one: the dot is taken for that of an octet. -/
theorem packed_with_interface :
    ¬∀ cs s, read? cs = some s → packIpAddress (some cs) = .ok (some s.bytes) := by
  intro hall
  have hread : read? "fe80::1%eth0.100".toList = some (.v6 (.run [⟨"fe80".toList, by decide⟩]
      ⟨[⟨['1'], by decide⟩], none⟩ (by decide)) (some ⟨"eth0.100".toList, by decide⟩)) := by
    decide +kernel
  have hpacked : (packIpAddress (some "fe80::1%eth0.100".toList)).toOption =
      some (some [0xfe, 0x80, 0, 0, 0, 0, 0, 0, 0, 0, 0, 0, 0, 100, 0, 0]) := by decide +kernel
  rw [hall _ _ hread] at hpacked
  exact absurd hpacked (by decide +kernel)

end Optionia.Support.IpAddress
