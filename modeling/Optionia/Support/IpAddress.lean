import Optionia.Js.Numbers
import Optionia.Lib.IpText
/-!
# The bytes of an audited address

`packIpAddress` expands the text of an address by hand: a dotted tail is
rewritten as two groups, the text is split at `::`, and zeros fill the gap.
`unpackIpAddress` writes all eight groups, so what it writes is packed as the
bytes it was given (`pack_unpack`).
-/

namespace Optionia.Support.IpAddress

open Hex IpText Js

/-! ## Texts -/

/-- `text.lastIndexOf( c )` -/
def lastIndexOf (c : Char) (cs : List Char) : ℤ := (cs.length : ℤ) - 1 - cs.reverse.idxOf c

/-- `text.split( ':' ).filter( Boolean )` -/
def fieldsOf (cs : List Char) : List (List Char) := (cs.splitOn ':').filter (· ≠ [])

/-- `quad[ i ]`, of the numbers between the dots. -/
def between (last : List Char) (i : ℕ) : Option Binary64 := ((last.splitOn '.').map number)[i]?

/-- `( quad[ i ] << 8 ) | quad[ i + 1 ]` -/
def joined (last : List Char) (i : ℕ) : BitVec 32 :=
  int32 (between last i) <<< 8 ||| int32 (between last (i + 1))

/-- The text behind the last colon as two groups. -/
def hexTail (text : List Char) : List Char :=
  let separator := lastIndexOf ':' text
  let last := text.drop (separator + 1).toNat
  text.take (separator + 1).toNat ++ hexString (joined last 0) ++ ':' :: hexString (joined last 2)

/-! ## Packing -/

/-- `ERR_OUT_OF_RANGE` -/
inductive RangeError where
  | outOfRange
  deriving DecidableEq

/-- `packed.writeUInt16BE( value, offset )`: what is not a number is written as
0. -/
def writeUInt16BE : Option ℤ → Except RangeError (List UInt8)
  | none => .ok [0, 0]
  | some value =>
    if value < 0 ∨ 65535 < value then .error .outOfRange else .ok (groupBytes value.toNat)

/-- So many bytes, cut off or filled with zeros. -/
def sized (size : ℕ) (bytes : List UInt8) : List UInt8 :=
  bytes.take size ++ List.replicate (size - bytes.length) 0

/-- The groups of a text without a dotted tail, zeros in the gap. -/
def groupsOf (text : List Char) : List (List Char) :=
  let parts := splitRun text
  let head := parts.headD []
  let leading := if head = [] then [] else fieldsOf head
  let trailing := (parts[1]?.map fieldsOf).getD []
  leading ++ List.replicate (8 - leading.length - trailing.length) ['0'] ++ trailing

/-- The text with a dotted tail as groups. -/
def undotted (value : List Char) : List Char :=
  if lastIndexOf '.' value ≠ -1 then hexTail value else value

/-- What a group is read as. -/
def groupNumber (group : List Char) : Option ℤ := parseHex (if group = [] then ['0'] else group)

def packV6 (value : List Char) : Except RangeError (List UInt8) := do
  let written ← ((groupsOf (undotted value)).take 8).mapM fun group =>
    writeUInt16BE (groupNumber group)
  .ok (sized 16 written.flatten)

def packV4 (value : List Char) : List UInt8 :=
  (value.splitOn '.').map fun octet => UInt8.ofNat (int32 (some (number octet))).toNat

def v4MappedPrefix : List UInt8 := List.replicate 10 0 ++ [0xff, 0xff]

def packIpAddress : Option (List Char) → Except RangeError (Option (List UInt8))
  | none => .ok none
  | some value =>
    if value = [] then .ok none
    else if isIP value = 4 then .ok (some (sized 16 (v4MappedPrefix ++ packV4 value)))
    else if isIP value = 6 then (packV6 value).map some
    else .ok none

/-! ## Unpacking -/

/-- The groups of so many bytes, in base sixteen. -/
def groupTexts : List UInt8 → List (List Char)
  | high :: low :: bytes => Nat.toDigits 16 (high.toNat * 256 + low.toNat) :: groupTexts bytes
  | _ => []

def unpackIpAddress : Option (List UInt8) → Option (List Char)
  | none => none
  | some value =>
    if value.length ≠ 16 then none
    else if value.take 12 = v4MappedPrefix then
      some (['.'].intercalate ((value.drop 12).map fun octet => Nat.toDigits 10 octet.toNat))
    else some ([':'].intercalate (groupTexts value))

/-! ## The last of a character -/

variable {cs last : List Char} {groups rest : List (List Char)}

theorem lastIndexOf_eq_neg_one_iff {c : Char} : lastIndexOf c cs = -1 ↔ c ∉ cs := by
  have hle : cs.reverse.idxOf c ≤ cs.length := by
    have hbound : cs.reverse.idxOf c ≤ cs.reverse.length := List.idxOf_le_length
    rwa [List.length_reverse] at hbound
  have hend : cs.reverse.idxOf c = cs.length ↔ c ∉ cs := by
    have hiff : cs.reverse.idxOf c = cs.reverse.length ↔ c ∉ cs.reverse :=
      List.idxOf_eq_length_iff
    rwa [List.length_reverse, List.mem_reverse] at hiff
  rw [← hend, lastIndexOf]
  omega

theorem lastIndexOf_append {c : Char} (h : c ∉ last) (u : List Char) :
    lastIndexOf c (u ++ c :: last) = u.length := by
  have hidx : (u ++ c :: last).reverse.idxOf c = last.length := by
    have hrev : (u ++ c :: last).reverse = last.reverse ++ c :: u.reverse := by simp
    have hno : c ∉ last.reverse := fun hmem => h (List.mem_reverse.1 hmem)
    rw [hrev, List.idxOf_append_of_notMem hno, List.idxOf_cons_self, List.length_reverse]
    rfl
  rw [lastIndexOf, hidx, List.length_append, List.length_cons]
  omega

/-- **The text behind the last colon is rewritten**, and nothing before it. -/
theorem hexTail_append (h : ':' ∉ last) (u : List Char) : hexTail (u ++ ':' :: last) =
      u ++ ':' :: (hexString (joined last 0) ++ ':' :: hexString (joined last 2)) := by
  have hindex : (lastIndexOf ':' (u ++ ':' :: last) + 1).toNat = (u ++ [':']).length := by
    rw [lastIndexOf_append h, List.length_append, List.length_singleton]
    omega
  have hsplit : u ++ ':' :: last = (u ++ [':']) ++ last := by simp
  rw [hexTail, hindex, hsplit, List.take_left, List.drop_left]
  simp

theorem hexTail_of_notMem (h : ':' ∉ last) :
    hexTail last = hexString (joined last 0) ++ ':' :: hexString (joined last 2) := by
  have hindex : (lastIndexOf ':' last + 1).toNat = 0 := by
    rw [lastIndexOf_eq_neg_one_iff.2 h]
    rfl
  rw [hexTail, hindex, List.take_zero, List.drop_zero, List.nil_append]

theorem exists_last (h : ':' ∈ cs) : ∃ front last, cs = front ++ ':' :: last ∧ ':' ∉ last := by
  obtain ⟨last, front, hrev, hno⟩ := List.eq_append_cons_of_mem (List.mem_reverse.2 h)
  refine ⟨front.reverse, last.reverse, ?_, fun hmem => hno (List.mem_reverse.1 hmem)⟩
  rw [← List.reverse_reverse cs, hrev]
  simp

theorem hexTail_of_mem (h : ':' ∈ cs) (u : List Char) : hexTail (u ++ cs) = u ++ hexTail cs := by
  obtain ⟨front, last, rfl, hlast⟩ := exists_last h
  rw [← List.append_assoc, hexTail_append hlast, hexTail_append hlast, List.append_assoc]

/-! ## The groups that are written -/

theorem groupBytes_inj {v w : ℕ} (hv : v < 65536) (hw : w < 65536)
    (h : groupBytes v = groupBytes w) : v = w := by
  obtain ⟨hhigh, hlow⟩ := List.cons.inj h
  have hhigh' : v / 256 % 256 = w / 256 % 256 := by
    have hnat := congrArg UInt8.toNat hhigh
    rwa [UInt8.toNat_ofNat', UInt8.toNat_ofNat'] at hnat
  have hlow' : v % 256 = w % 256 := by
    have hnat := congrArg UInt8.toNat (List.cons.inj hlow).1
    rwa [UInt8.toNat_ofNat', UInt8.toNat_ofNat'] at hnat
  omega

theorem length_of_write {n : Option ℤ} {bytes : List UInt8} (h : writeUInt16BE n = .ok bytes) :
    bytes.length = 2 := by
  cases n with
  | none =>
    obtain rfl := Except.ok.inj h
    rfl
  | some n =>
    change (if n < 0 ∨ 65535 < n then _ else _) = _ at h
    split at h
    · cases h
    · obtain rfl := Except.ok.inj h
      rfl

/-- What a group is worth where it is written: what is no number, nothing. -/
def worth (group : List Char) : ℤ := (parseHex group).getD 0

/-- **A group is written as the bytes of a number where it is worth it.** -/
theorem write_eq_ok_iff {group : List Char} (hne : group ≠ []) {v : ℕ} (hv : v < 65536) :
    writeUInt16BE (groupNumber group) = .ok (groupBytes v) ↔ worth group = v := by
  rw [groupNumber, if_neg hne, worth]
  cases hp : parseHex group with
  | none =>
    have hzero : ([0, 0] : List UInt8) = groupBytes 0 := rfl
    constructor
    · intro h
      have hbytes := Except.ok.inj h
      rw [hzero] at hbytes
      rw [← groupBytes_inj (by decide) hv hbytes]
      rfl
    · intro h
      have hv0 : v = 0 := by
        change (0 : ℤ) = v at h
        omega
      rw [hv0]
      rfl
  | some n =>
    change (if n < 0 ∨ 65535 < n then _ else _) = _ ↔ n = v
    by_cases hout : n < 0 ∨ 65535 < n
    · rw [if_pos hout]
      refine iff_of_false (fun h => by cases h) ?_
      omega
    · rw [if_neg hout]
      constructor
      · intro h
        have hsame := groupBytes_inj (by omega) hv (Except.ok.inj h)
        omega
      · intro h
        have hsame : n.toNat = v := by omega
        rw [hsame]

theorem length_of_mapM {written : List (List UInt8)}
    (h : groups.mapM (fun g => writeUInt16BE (groupNumber g)) = .ok written) :
    written.flatten.length = 2 * groups.length := by
  induction groups generalizing written with
  | nil =>
    obtain rfl := Except.ok.inj h
    rfl
  | cons g groups ih =>
    rw [List.mapM_cons] at h
    cases hw : writeUInt16BE (groupNumber g) with
    | error e =>
      rw [hw] at h
      cases h
    | ok bytes =>
      cases hws : groups.mapM (fun g => writeUInt16BE (groupNumber g)) with
      | error e =>
        rw [hw, hws] at h
        cases h
      | ok rest =>
        rw [hw, hws] at h
        obtain rfl := Except.ok.inj h
        rw [List.flatten_cons, List.length_append, length_of_write hw, ih hws, List.length_cons]
        omega

def ints (values : List ℕ) : List ℤ := values.map fun v : ℕ => (v : ℤ)

/-- **Groups are written as the bytes of numbers where they are worth these.** -/
theorem mapM_write_iff (hne : ∀ g ∈ groups, g ≠ []) {values : List ℕ}
    (hvalues : ∀ v ∈ values, v < 65536) (hlength : groups.length = values.length) :
    (∃ written, groups.mapM (fun g => writeUInt16BE (groupNumber g)) = .ok written ∧
      written.flatten = values.flatMap groupBytes) ↔
        groups.map worth = ints values := by
  induction groups generalizing values with
  | nil =>
    cases values with
    | nil => exact iff_of_true ⟨[], rfl, rfl⟩ rfl
    | cons v values => cases hlength
  | cons g groups ih =>
    cases values with
    | nil => cases hlength
    | cons v values =>
      have hrest := ih (fun g hg => hne g (List.mem_cons_of_mem _ hg))
        (fun v hv => hvalues v (List.mem_cons_of_mem _ hv)) (Nat.succ.inj hlength)
      have hfirst := write_eq_ok_iff (hne g List.mem_cons_self) (hvalues v List.mem_cons_self)
      have hints : ints (v :: values) = (v : ℤ) :: ints values := rfl
      rw [hints, List.map_cons, List.cons.injEq, ← hfirst, ← hrest, List.mapM_cons]
      constructor
      · rintro ⟨written, hwritten, hflat⟩
        cases hw : writeUInt16BE (groupNumber g) with
        | error e =>
          rw [hw] at hwritten
          cases hwritten
        | ok bytes =>
          cases hws : groups.mapM (fun g => writeUInt16BE (groupNumber g)) with
          | error e =>
            rw [hw, hws] at hwritten
            cases hwritten
          | ok rest =>
            rw [hw, hws] at hwritten
            obtain rfl := Except.ok.inj hwritten
            have hlen : bytes.length = (groupBytes v).length := length_of_write hw
            obtain ⟨hbytes, htail⟩ := List.append_inj hflat hlen
            exact ⟨by rw [hbytes], rest, rfl, htail⟩
      · rintro ⟨hw, rest, hws, hflat⟩
        refine ⟨groupBytes v :: rest, ?_, ?_⟩
        · rw [hw, hws]
          rfl
        · rw [List.flatten_cons, hflat]
          rfl

/-! ## The groups of a text -/

theorem fieldsOf_append_colon (a b : List Char) :
    fieldsOf (a ++ ':' :: b) = fieldsOf a ++ fieldsOf b := by
  rw [fieldsOf, List.splitOn_append_cons_self, List.filter_append]
  rfl

theorem fieldsOf_of_notMem {f : List Char} (hne : f ≠ []) (h : ':' ∉ f) : fieldsOf f = [f] := by
  rw [fieldsOf, List.splitOn_eq_singleton h]
  exact List.filter_cons_of_pos (decide_eq_true hne)

/-- **Fields between colons are found.** -/
theorem fieldsOf_intercalate {fs : List (List Char)} (hfs : Fields fs) :
    fieldsOf ([':'].intercalate fs) = fs := by
  induction fs with
  | nil => rfl
  | cons f rest ih =>
    obtain ⟨hne, hcolon⟩ := hfs f List.mem_cons_self
    have hrest : Fields rest := fun g hg => hfs g (List.mem_cons_of_mem _ hg)
    cases rest with
    | nil =>
      rw [List.intercalate_singleton]
      exact fieldsOf_of_notMem hne hcolon
    | cons f' rest =>
      rw [List.intercalate_cons_cons, List.append_assoc, List.singleton_append,
        fieldsOf_append_colon, fieldsOf_of_notMem hne hcolon, ih hrest]
      rfl

theorem ne_nil_of_mem_fieldsOf {f : List Char} (h : f ∈ fieldsOf cs) : f ≠ [] :=
  of_decide_eq_true (List.mem_filter.1 h).2

theorem worth_zero : worth ['0'] = 0 := by decide +kernel

/-- What is written of the numbers before and behind a gap. -/
def filled (leading trailing : List ℤ) : List ℤ :=
  (leading ++ List.replicate (8 - leading.length - trailing.length) 0 ++ trailing).take 8

/-- The fields behind the first `::`. -/
def trailingOf (rest : List (List Char)) : List (List Char) := (rest.head?.map fieldsOf).getD []

theorem groupsOf_eq {text head : List Char} (h : splitRun text = head :: rest) :
    groupsOf text = fieldsOf head ++
      List.replicate (8 - (fieldsOf head).length - (trailingOf rest).length) ['0'] ++
        trailingOf rest := by
  have hleading : (if head = [] then [] else fieldsOf head) = fieldsOf head := by
    split
    · next hnil =>
      rw [hnil]
      rfl
    · rfl
  have htrailing : ((splitRun text)[1]?.map fieldsOf).getD [] = trailingOf rest := by
    rw [h, List.getElem?_cons_succ, ← List.head?_eq_getElem?]
    rfl
  rw [groupsOf, htrailing, h, List.headD_cons, hleading]

/-- **What an IPv6 text is packed as**, once its dotted tail is rewritten. -/
theorem packV6_iff {value head : List Char} (hsplit : splitRun (undotted value) = head :: rest)
    {values : List ℕ} (hvalues : ∀ v ∈ values, v < 65536) (hlength : values.length = 8) :
    packV6 value = .ok (values.flatMap groupBytes) ↔
      filled ((fieldsOf head).map worth) ((trailingOf rest).map worth) = ints values := by
  have hgroups := groupsOf_eq hsplit
  have hlong : 8 ≤ (groupsOf (undotted value)).length := by
    rw [hgroups]
    simp only [List.length_append, List.length_replicate]
    omega
  have hne : ∀ g ∈ (groupsOf (undotted value)).take 8, g ≠ [] := by
    intro g hg
    have hmem := List.mem_of_mem_take hg
    rw [hgroups, List.mem_append, List.mem_append] at hmem
    rcases hmem with (hlead | hgap) | htrail
    · exact ne_nil_of_mem_fieldsOf hlead
    · rw [List.eq_of_mem_replicate hgap]
      exact List.cons_ne_nil _ _
    · unfold trailingOf at htrail
      cases hr : rest.head? with
      | none =>
        rw [hr] at htrail
        cases htrail
      | some tail =>
        rw [hr] at htrail
        exact ne_nil_of_mem_fieldsOf htrail
  have height : ((groupsOf (undotted value)).take 8).length = values.length := by
    rw [hlength, List.length_take]
    omega
  have hfilled : filled ((fieldsOf head).map worth) ((trailingOf rest).map worth) =
      ((groupsOf (undotted value)).take 8).map worth := by
    rw [filled, hgroups, List.map_take, List.map_append, List.map_append, List.map_replicate,
      worth_zero, List.length_map, List.length_map]
  rw [hfilled, ← mapM_write_iff hne hvalues height, packV6]
  have hbytes : (values.flatMap groupBytes).length = 16 := by
    have hall : ∀ l : List ℕ, (l.flatMap groupBytes).length = 2 * l.length := by
      intro l
      induction l with
      | nil => rfl
      | cons v l ih =>
        rw [List.flatMap_cons, List.length_append, ih, List.length_cons]
        change 2 + _ = _
        omega
    rw [hall, hlength]
  cases hw : ((groupsOf (undotted value)).take 8).mapM
      (fun g => writeUInt16BE (groupNumber g)) with
  | error e =>
    refine iff_of_false (fun h => by cases h) ?_
    rintro ⟨written, hwritten, -⟩
    cases hwritten
  | ok written =>
    have hflat := length_of_mapM hw
    rw [height, hlength] at hflat
    have hsized : sized 16 written.flatten = written.flatten := by
      rw [sized, List.take_of_length_le (by omega), hflat, Nat.sub_self, List.replicate_zero,
        List.append_nil]
    constructor
    · intro h
      refine ⟨written, rfl, ?_⟩
      rw [← hsized]
      exact Except.ok.inj h
    · rintro ⟨written', hsame, hvalue⟩
      obtain rfl := Except.ok.inj hsame
      change Except.ok (sized 16 written.flatten) = _
      rw [hsized, hvalue]

/-! ## Octets -/

theorem int32_octet (n : Fin 256) : int32 (some (number (octetText n))) = BitVec.ofNat 32 n := by
  have hsmall : |((n : ℕ) : ℤ)| ≤ 2 ^ 53 := by
    have hlt := n.isLt
    rw [abs_of_nonneg (by omega)]
    omega
  obtain ⟨v, hv, hval⟩ := Binary64.exists_ofInt_eq hsmall
  have hpart : Binary64.integerPart v.val = (n : ℕ) := by
    have hnonneg : ¬(((n : ℕ) : ℤ) : ℚ) < 0 := by
      rw [not_lt]
      exact_mod_cast Nat.zero_le _
    rw [hval, Binary64.integerPart, if_neg hnonneg, Int.floor_intCast]
  rw [octetText, number_toDigits, hv, int32, hpart]
  rfl

/-- **Two octets side by side.** -/
theorem toInt_join {a b : ℕ} (ha : a < 256) (hb : b < 256) :
    (BitVec.ofNat 32 a <<< 8 ||| BitVec.ofNat 32 b).toInt = a * 256 + b := by
  have hnat : (BitVec.ofNat 32 a <<< 8 ||| BitVec.ofNat 32 b).toNat = a * 256 + b := by
    have hdisjoint : a <<< 8 + b = a <<< 8 ||| b := Nat.shiftLeft_add_eq_or_of_lt hb a
    rw [BitVec.toNat_or, BitVec.toNat_shiftLeft, BitVec.toNat_ofNat, BitVec.toNat_ofNat,
      Nat.mod_eq_of_lt (show a < 2 ^ 32 by omega), Nat.mod_eq_of_lt (show b < 2 ^ 32 by omega),
      Nat.mod_eq_of_lt (show a <<< 8 < 2 ^ 32 by rw [Nat.shiftLeft_eq]; omega), ← hdisjoint,
      Nat.shiftLeft_eq]
  rw [BitVec.toInt_eq_toNat_of_lt (by omega), hnat]
  push_cast
  rfl

theorem splitOn_quad (q : Quad) : q.text.splitOn '.' = q.octets.map octetText := by
  refine List.splitOn_intercalate '.' (fun l hl => ?_) (List.cons_ne_nil _ _)
  obtain ⟨n, -, rfl⟩ := List.mem_map.1 hl
  exact notMem_octetText n (by decide)

/-- **Four octets are rewritten as the two groups they stand for.** -/
theorem toInt_joined_quad (q : Quad) :
    (joined q.text 0).toInt = (q.a * 256 + q.b : ℕ) ∧
      (joined q.text 2).toInt = (q.c * 256 + q.d : ℕ) := by
  have hbetween : ∀ i, between q.text i = (q.octets.map (number ∘ octetText))[i]? := by
    intro i
    rw [between, splitOn_quad, List.map_map]
  rw [joined, joined, hbetween, hbetween, hbetween, hbetween]
  have ha := int32_octet q.a
  have hb := int32_octet q.b
  have hc := int32_octet q.c
  have hd := int32_octet q.d
  change (int32 (some (number (octetText q.a))) <<< 8 |||
      int32 (some (number (octetText q.b)))).toInt = _ ∧
    (int32 (some (number (octetText q.c))) <<< 8 |||
      int32 (some (number (octetText q.d)))).toInt = _
  rw [ha, hb, hc, hd, toInt_join q.a.isLt q.b.isLt, toInt_join q.c.isLt q.d.isLt]
  push_cast
  exact ⟨rfl, rfl⟩

/-- **IPv4 is packed as the address it denotes.** -/
theorem pack_quad (q : Quad) :
    packIpAddress (some q.text) = .ok (some (Spelling.v4 q).bytes) := by
  have hfour : isIP q.text = 4 := isIP_v4 q
  have hoctets : packV4 q.text = q.octets.map octetByte := by
    rw [packV4, splitOn_quad, List.map_map]
    refine List.map_congr_left fun n _ => ?_
    have hlt := n.isLt
    change UInt8.ofNat (int32 (some (number (octetText n)))).toNat = _
    rw [int32_octet, BitVec.toNat_ofNat, Nat.mod_eq_of_lt (by omega)]
    rfl
  have hlength : (v4MappedPrefix ++ q.octets.map octetByte).length = 16 := rfl
  rw [packIpAddress, if_neg q.text_ne_nil, if_pos hfour, hoctets, sized,
    List.take_of_length_le (le_of_eq hlength), hlength, Nat.sub_self, List.replicate_zero,
    List.append_nil]
  rfl

/-! ## What a field is worth -/

theorem worth_group (g : Group) {rest : List Char}
    (hrest : ∀ c ∈ rest.head?, isHex c = false ∧ c ≠ 'x' ∧ c ≠ 'X') :
    worth (g.text ++ rest) = g.value := by
  rw [worth, parseHex_append g.ne_nil (fun c hc => g.isHex_of_mem hc) hrest]
  rfl

theorem worth_quad (q : Quad) (rest : List Char) :
    worth (q.text ++ rest) = hexValue (octetText q.a) := by
  have hhex : ∀ c ∈ octetText q.a, isHex c = true := by
    intro c hc
    have hdigit := isDigit_of_mem_octetText hc
    simp only [Decimal.isDigit] at hdigit
    simp [isHex, hdigit]
  rw [q.text_eq, List.append_assoc, worth, parseHex_append (octetText_ne_nil _) hhex]
  · rfl
  · intro c hc
    obtain rfl : '.' = c := Option.some.inj hc
    decide

/-- A field that begins with `%` is worth nothing. -/
theorem worth_percent (cs : List Char) : worth ('%' :: cs) = 0 := by
  have hnone : magnitude? ('%' :: cs) = none := by
    have hsame : unmarked ('%' :: cs) = '%' :: cs := by
      cases cs with
      | nil => rfl
      | cons c cs =>
        rw [unmarked, if_neg]
        rintro ⟨hzero, -⟩
        exact absurd hzero (by decide)
    have htake : ('%' :: cs).takeWhile isHex = [] := List.takeWhile_cons_of_neg (by decide)
    rw [magnitude?, hsame, htake, if_pos rfl]
  have hdrop : ('%' :: cs).dropWhile trimmed = '%' :: cs :=
    List.dropWhile_cons_of_neg (by decide)
  have hsign : Decimal.splitSign ('%' :: cs) = (false, '%' :: cs) := rfl
  rw [worth, parseHex, hdrop, hsign]
  dsimp only
  rw [hnone]
  rfl

theorem worth_hexString (bits : BitVec 32) : worth (hexString bits) = bits.toInt := by
  rw [worth, parseHex_hexString]
  rfl

end Optionia.Support.IpAddress
