import Optionia.Engine.Pricing
import Optionia.Wire.Reading
/-!
# What the plugin reads of a published value

The cloud writes a document with `JSON.stringify`, the plugin reads it with
`json_decode`. A number that is an integer is written in digits alone below
`10^21`, and arrives as an integer where the machine has one for it; every
other number arrives as a float. No member of a document is `undefined`; it
would be left out, and read as `null`.
-/

namespace Optionia.Wire

open Engine (Pricing.maxMinor)
open Engine.Pricing

def publishedNumber : Binary64 → Php.Value
  | .finite v =>
    if v.val.den = 1 ∧ |v.val| < 10 ^ 21 then Php.Value.ofNumber v.val.num else .float (.finite v)
  | _ => .null

mutual

def published : Js.Value → Php.Value
  | .undefined => .null
  | .null => .null
  | .bool b => .bool b
  | .num x => publishedNumber x
  | .str s => .str s
  | .arr vs => Php.Value.ofList (publishedList vs)
  | .obj es => .arr (publishedEntries es)

/-- The elements of a published array, decoded. -/
def publishedList : List Js.Value → List Php.Value
  | [] => []
  | v :: vs => published v :: publishedList vs

/-- The members of a published object, decoded. -/
def publishedEntries : List (String × Js.Value) → List (String × Php.Value)
  | [] => []
  | (k, v) :: es => (k, published v) :: publishedEntries es

end

theorem publishedList_eq_map (vs : List Js.Value) : publishedList vs = vs.map published := by
  induction vs with
  | nil => rfl
  | cons v vs ih => rw [publishedList, ih, List.map_cons]

theorem items_published_arr (vs : List Js.Value) :
    (published (.arr vs)).items = vs.map published := by
  rw [published, Php.Value.items_ofList, publishedList_eq_map]

/-- **A member of a published object reads as the published member.** -/
theorem field_published (es : List (String × Js.Value)) (k : String) :
    (published (.obj es)).field k = published ((Js.Value.obj es).field k) := by
  rw [published, Php.Value.field, Js.Value.field]
  induction es with
  | nil => rfl
  | cons p es ih =>
    obtain ⟨k', v⟩ := p
    rw [publishedEntries, List.lookup_cons, List.lookup_cons]
    cases k == k' with
    | true => rfl
    | false => exact ih

/-! ## Integers -/

/-- **The cloud reads a safe integer exactly where the plugin reads one that
a double holds.** -/
theorem safeInteger?_eq (v : Js.Value) :
    v.safeInteger? = (published v).int?.filter (|·| ≤ maxMinor) := by
  cases v with
  | num x =>
    cases x with
    | finite v =>
      change (if Js.isSafeInteger (.finite v) then some v.val.num else none) =
        (publishedNumber (.finite v)).int?.filter (|·| ≤ maxMinor)
      unfold Js.isSafeInteger publishedNumber
      simp only [decide_eq_true_eq]
      by_cases hint : v.val.den = 1
      · have hval : v.val = v.val.num := (Rat.coe_int_num_of_den_eq_one hint).symm
        have habs : |v.val| = ((|v.val.num| : ℤ) : ℚ) := by
          rw [Int.cast_abs, ← hval]
        by_cases hsafe : |v.val.num| ≤ maxMinor
        · have hq : |v.val| ≤ 2 ^ 53 - 1 := by
            rw [habs]
            unfold maxMinor at hsafe
            exact_mod_cast hsafe
          have hbounds := abs_le.1 hsafe
          unfold maxMinor at hbounds
          rw [if_pos ⟨hint, hq⟩, if_pos ⟨hint, hq.trans_lt (by norm_num)⟩]
          unfold Php.Value.ofNumber
          rw [if_pos (by omega)]
          simp [Php.Value.int?, Option.filter, hsafe]
        · have hq : ¬ |v.val| ≤ 2 ^ 53 - 1 := by
            rw [habs]
            unfold maxMinor at hsafe
            exact_mod_cast hsafe
          rw [if_neg fun h => hq h.2]
          split
          · rcases Php.Value.ofNumber_cases v.val.num with h | h <;>
              simp [h, Php.Value.int?, Option.filter, hsafe]
          · rfl
      · rw [if_neg fun h => hint h.1, if_neg fun h => hint h.1]
        rfl
    | inf s => rfl
    | nan => rfl
  | _ => rfl

theorem int?_of_safeInteger? {v : Js.Value} {n : ℤ} (h : v.safeInteger? = some n) :
    (published v).int? = some n ∧ |n| ≤ maxMinor := by
  rw [safeInteger?_eq] at h
  obtain ⟨hint, hguard⟩ := Option.filter_eq_some_iff.1 h
  exact ⟨hint, of_decide_eq_true hguard⟩

/-! ## Types

The name of a price type is a string, and the plugin reads one in any scalar:
a published number or `true` has a name for it, and none for the cloud. No
such name is that of a price type, since those are spelled with an `e`. -/

/-- The characters a number is spelled with. -/
def numberChar (c : Char) : Bool :=
  c.isDigit || c == '.' || c == '-' || c == '+' || c == 'E'

theorem numberChar_natString {n : ℕ} : ∀ c ∈ (toString n).toList, numberChar c = true := by
  intro c hc
  rw [Nat.toString_eq_repr, Nat.toList_repr] at hc
  have hdigit := Nat.isDigit_of_mem_toDigits (by decide) (by decide) hc
  unfold numberChar
  rw [hdigit]
  rfl

theorem numberChar_intString {n : ℤ} : ∀ c ∈ (toString n).toList, numberChar c = true := by
  intro c hc
  by_cases hn : n < 0
  · rw [← toString_neg hn, String.toList_ofList] at hc
    rcases List.mem_cons.1 hc with rfl | hc
    · rfl
    · exact numberChar_natString c hc
  · obtain ⟨m, rfl⟩ := Int.eq_ofNat_of_zero_le (not_lt.1 hn)
    exact numberChar_natString c hc

theorem numberChar_significant {precision : ℕ} {q : ℚ} :
    ∀ c ∈ (Decimal.significant precision q).1, numberChar c = true := by
  intro c hc
  unfold Decimal.significant at hc
  dsimp only at hc
  split at hc
  · obtain rfl := List.mem_singleton.1 hc
    rfl
  · exact numberChar_intString c ((List.rdropWhile_prefix _ _).subset hc)

/-- A run of digits, with or without its point, an exponent or a sign. -/
theorem numberChar_floatString {v : Binary64.Finite} :
    ∀ c ∈ (Php.Value.floatString (.finite v)).toList, numberChar c = true := by
  have hdigits : ∀ c ∈ (Decimal.significant 14 v.val).1, numberChar c = true :=
    numberChar_significant
  have hzeros : ∀ n, ∀ c ∈ List.replicate n '0', numberChar c = true := by
    intro n c hc
    obtain rfl := List.eq_of_mem_replicate hc
    rfl
  have hpoint : ∀ (ds : List Char) (place : ℤ), (∀ c ∈ ds, numberChar c = true) →
      ∀ c ∈ Php.Value.pointAt ds place, numberChar c = true := by
    intro ds place hds c hc
    unfold Php.Value.pointAt at hc
    dsimp only at hc
    split at hc
    · rcases List.mem_cons.1 hc with rfl | hc
      · rfl
      rcases List.mem_cons.1 hc with rfl | hc
      · rfl
      exact (List.mem_append.1 hc).elim (hzeros _ c) (hds c)
    · have hwhole : ∀ n m, ∀ c ∈ ds.take n ++ List.replicate m '0', numberChar c = true :=
        fun n m c hc => (List.mem_append.1 hc).elim (fun h => hds c (List.mem_of_mem_take h))
          (hzeros m c)
      split at hc
      · exact hwhole _ _ c hc
      · rcases List.mem_append.1 hc with hc | hc
        · exact hwhole _ _ c hc
        · rcases List.mem_cons.1 hc with rfl | hc
          · rfl
          · exact hds c (List.mem_of_mem_drop hc)
  have hexponent : ∀ (ds : List Char) (place : ℤ), (∀ c ∈ ds, numberChar c = true) →
      ∀ c ∈ Php.Value.withExponent ds place, numberChar c = true := by
    intro ds place hds c hc
    unfold Php.Value.withExponent at hc
    dsimp only at hc
    rcases List.mem_append.1 hc with hc | hc
    · rcases List.mem_append.1 hc with hc | hc
      · exact hds c (List.mem_of_mem_take hc)
      · rcases List.mem_cons.1 hc with rfl | hc
        · rfl
        · split at hc
          · obtain rfl := List.mem_singleton.1 hc
            rfl
          · exact hds c (List.mem_of_mem_drop hc)
    · rcases List.mem_cons.1 hc with rfl | hc
      · rfl
      rcases List.mem_cons.1 hc with rfl | hc
      · split <;> rfl
      · exact numberChar_natString c hc
  intro c hc
  unfold Php.Value.floatString at hc
  dsimp only at hc
  split at hc
  · obtain rfl := List.mem_singleton.1 hc
    rfl
  · have hbody : ∀ c ∈ (if (Decimal.significant 14 v.val).2 < -3 ∨
        14 < (Decimal.significant 14 v.val).2 then
        Php.Value.withExponent (Decimal.significant 14 v.val).1 (Decimal.significant 14 v.val).2
      else Php.Value.pointAt (Decimal.significant 14 v.val).1 (Decimal.significant 14 v.val).2),
        numberChar c = true := by
      intro c hc
      split at hc
      · exact hexponent _ _ hdigits c hc
      · exact hpoint _ _ hdigits c hc
    rw [String.toList_ofList] at hc
    split at hc
    · rcases List.mem_cons.1 hc with rfl | hc
      · rfl
      · exact hbody c hc
    · exact hbody c hc

theorem intString_ne_empty (n : ℤ) : toString n ≠ "" := by
  intro h
  have hlist := congrArg String.toList h
  by_cases hn : n < 0
  · rw [← toString_neg hn, String.toList_ofList] at hlist
    exact absurd hlist (List.cons_ne_nil _ _)
  · obtain ⟨m, rfl⟩ := Int.eq_ofNat_of_zero_le (not_lt.1 hn)
    change (toString m).toList = _ at hlist
    rw [Nat.toString_eq_repr, Nat.toList_repr] at hlist
    exact Nat.toDigits_ne_nil hlist

theorem floatString_ne_empty (v : Binary64.Finite) :
    Php.Value.floatString (.finite v) ≠ "" := by
  intro h
  have hlist := congrArg String.toList h
  unfold Php.Value.floatString at hlist
  dsimp only at hlist
  split at hlist
  · exact absurd hlist (List.cons_ne_nil _ _)
  · rw [String.toList_ofList] at hlist
    split at hlist
    · exact absurd hlist (List.cons_ne_nil _ _)
    · split at hlist
      · have hpart := (List.append_eq_nil_iff.1 hlist).2
        exact absurd hpart (List.cons_ne_nil _ _)
      · unfold Php.Value.pointAt at hlist
        dsimp only at hlist
        split at hlist
        · exact absurd hlist (List.cons_ne_nil _ _)
        · next hplace =>
          have hlength : ∀ ds : List Char, ∀ n, 0 < n →
              ds.take n ++ List.replicate (n - ds.length) '0' ≠ [] := by
            intro ds n hn hnil
            have := congrArg List.length hnil
            rw [List.length_append, List.length_take, List.length_replicate, List.length_nil] at this
            omega
          have hn : 0 < (Decimal.significant 14 v.val).2.toNat := by omega
          split at hlist
          · exact hlength _ _ hn hlist
          · exact hlength _ _ hn (List.append_eq_nil_iff.1 hlist).1

/-- **A published number has a name for the plugin**, spelled without the
letters of the price types. -/
theorem text_publishedNumber (v : Binary64.Finite) :
    (publishedNumber (.finite v)).isScalar = true ∧
      (publishedNumber (.finite v)).castString ≠ "" ∧
      'e' ∉ (publishedNumber (.finite v)).castString.toList := by
  have hnot : ∀ {s : String}, (∀ c ∈ s.toList, numberChar c = true) → 'e' ∉ s.toList :=
    fun h he => absurd (h 'e' he) (by decide)
  have hfloat : ∀ w : Binary64.Finite, Php.Value.isScalar (.float (.finite w)) = true ∧
      Php.Value.castString (.float (.finite w)) ≠ "" ∧
      'e' ∉ (Php.Value.castString (.float (.finite w))).toList :=
    fun w => ⟨rfl, floatString_ne_empty w, hnot numberChar_floatString⟩
  unfold publishedNumber
  dsimp only
  split
  · next h =>
    unfold Php.Value.ofNumber
    split
    · exact ⟨rfl, intString_ne_empty _, hnot numberChar_intString⟩
    · have hof : Binary64.ofInt v.val.num = .finite v := by
        unfold Binary64.ofInt
        rw [Rat.coe_int_num_of_den_eq_one h.1]
        rw [Binary64.ofRat_of_lt (by rw [v.nearest_val]; exact v.bounded)]
        simp only [v.nearest_val]
      rw [hof]
      exact hfloat v
  · exact hfloat v

/-- The type the plugin reads in published fields. -/
def typeRead (es : List (String × Js.Value)) : String := (published (.obj es)).text "type"

def typeNamed (es : List (String × Js.Value)) : String := (Js.Value.obj es).string "type"

/-- **The two read one type, or the plugin reads one that names nothing**: a
number or `true` where a name should stand. -/
theorem type_cases (es : List (String × Js.Value)) :
    typeRead es = typeNamed es ∨
      (typeNamed es = "" ∧ typeRead es ≠ "" ∧ 'e' ∉ (typeRead es).toList) := by
  unfold typeRead typeNamed Php.Value.text Js.Value.string
  rw [field_published]
  cases (Js.Value.obj es).field "type" with
  | num x =>
    cases x with
    | finite v =>
      obtain ⟨hscalar, hname, hspelled⟩ := text_publishedNumber v
      have htext : (if (published (.num (.finite v))).isScalar then
          (published (.num (.finite v))).castString else "") =
          (publishedNumber (.finite v)).castString := if_pos hscalar
      rw [htext]
      exact Or.inr ⟨rfl, hname, hspelled⟩
    | inf s => exact Or.inl rfl
    | nan => exact Or.inl rfl
  | bool b =>
    cases b with
    | true => exact Or.inr (by decide)
    | false => exact Or.inl rfl
  | _ => exact Or.inl rfl

end Optionia.Wire
