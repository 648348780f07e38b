import Optionia.Lib.Sorting
import Optionia.Php.Numbers
/-!
# The order of keys

`ksort` compares keys as the language compares values: two that read as
numbers by those, and others as text. So keys such as `10.0` and `1e1` tie,
and stay as they came; and keys of both kinds may go round in a circle. Keys
that are no numbers are in the order of their text.
-/

namespace Optionia.Php

/-- Whether an array keeps a key as an integer. -/
def isIntKey (key : String) : Bool := toString (stringToInt key) == key

/-- What a numeric string reads as. -/
inductive NumericString where
  | long (n : ℤ)
  /-- A float; the integer it writes is too large, too small, or neither. -/
  | double (x : Binary64) (overflow : ℤ)

/-- `is_numeric_string`: a numeral and nothing but white space after it. -/
def numericString? (s : String) : Option NumericString :=
  match numeral? s with
  | none => none
  | some numeral =>
    if !numeral.rest.all numeralSpace then none
    else if !numeral.integral then some (.double (.ofRat numeral.value) 0)
    else if numeral.value.num < -2 ^ 63 then some (.double (.ofRat numeral.value) (-1))
    else if 2 ^ 63 ≤ numeral.value.num then some (.double (.ofRat numeral.value) 1)
    else some (.long numeral.value.num)

/-- The comparison of two strings, or of integers that an array keeps in their
place: of numbers where both are numeric, unless two are too far out to tell;
of their text otherwise. A string that writes too large an integer lies beyond
every other string, and is a float to an integer. -/
def smartLe (aInt bInt : Bool) (a b : String) : Bool :=
  match numericString? a, numericString? b with
  | some (.long m), some (.long n) => decide (m ≤ n)
  | some (.long m), some (.double y overflow) =>
    if overflow = 0 ∨ aInt then (Binary64.ofInt m).le y else decide (0 < overflow)
  | some (.double x overflow), some (.long n) =>
    if overflow = 0 ∨ bInt then x.le (.ofInt n) else decide (overflow < 0)
  | some (.double x overflow), some (.double y overflow') =>
    if x = y ∧ (overflow ≠ 0 ∧ overflow = overflow' ∨ !x.isFinite) then decide (a ≤ b)
    else x.le y
  | _, _ => decide (a ≤ b)

/-- The comparison of `ksort`. -/
def keyLe (a b : String) : Bool := smartLe (isIntKey a) (isIntKey b) a b

/-- `sort`, of strings. -/
def sortTexts (l : List String) : List String :=
  l.insertionSort fun a b => smartLe false false a b = true

/-- The comparison of entries by their keys. -/
def entryLe {α : Type} (p q : String × α) : Prop := keyLe p.1 q.1 = true

instance {α : Type} : DecidableRel (entryLe (α := α)) := fun p q =>
  inferInstanceAs (Decidable (keyLe p.1 q.1 = true))

variable {α : Type}

/-- `ksort`, on the entries of an array. -/
def ksortEntries (es : List (String × α)) : List (String × α) := es.insertionSort entryLe

theorem ksortEntries_perm (es : List (String × α)) : (ksortEntries es).Perm es :=
  List.perm_insertionSort entryLe es

def ksort (m : OrderedMap String α) : OrderedMap String α :=
  ⟨ksortEntries m.entries, ((ksortEntries_perm m.entries).map Prod.fst).nodup_iff.2 m.nodup⟩

theorem entries_ksort (m : OrderedMap String α) : (ksort m).entries.Perm m.entries :=
  ksortEntries_perm m.entries

variable {m m' : OrderedMap String α}

theorem mem_keys_ksort {k : String} : k ∈ (ksort m).keys ↔ k ∈ m.keys :=
  ((entries_ksort m).map Prod.fst).mem_iff

theorem keys_ksort_congr {β : Type} {m' : OrderedMap String β} (h : m.keys = m'.keys) :
    (ksort m).keys = (ksort m').keys := by
  have hsorted : ∀ {γ : Type} (m : OrderedMap String γ),
      (ksort m).keys = m.keys.insertionSort fun a b => keyLe a b = true := fun m =>
    List.map_insertionSort _ _ Prod.fst m.entries fun _ _ _ _ => Iff.rfl
  rw [hsorted, hsorted, h]

@[simp] theorem get?_ksort (m : OrderedMap String α) (k : String) :
    (ksort m).get? k = m.get? k := by
  refine Option.ext fun a => ?_
  rw [OrderedMap.get?_eq_some, OrderedMap.get?_eq_some]
  exact (entries_ksort m).mem_iff

theorem entries_perm (h : ∀ k, m.get? k = m'.get? k) : m.entries.Perm m'.entries := by
  refine (List.perm_ext_iff_of_nodup ?_ ?_).2 fun p => ?_
  · exact List.Nodup.of_map Prod.fst m.nodup
  · exact List.Nodup.of_map Prod.fst m'.nodup
  · rw [← OrderedMap.get?_eq_some, ← OrderedMap.get?_eq_some, h]

/-- The keys of a map, where `ksort` orders them. -/
def KeysOrdered (m : OrderedMap String α) : Prop :=
  Sorting.Orders (fun a b => keyLe a b = true) {k | k ∈ m.keys}

/-- Where `ksort` orders the keys, it orders the entries. -/
theorem KeysOrdered.entries (h : KeysOrdered m) :
    Sorting.Orders (@entryLe α) {p | p ∈ m.entries} := by
  refine ⟨fun p hp q hq => ?_, fun p hp q hq hpq hqp => ?_, fun p hp q hq t ht => ?_⟩
  · exact h.total p.1 (List.mem_map_of_mem hp) q.1 (List.mem_map_of_mem hq)
  · have hkey := h.antisymm p.1 (List.mem_map_of_mem hp) q.1 (List.mem_map_of_mem hq) hpq hqp
    have hp' := OrderedMap.get?_eq_some.2 (show (p.1, p.2) ∈ m.entries from hp)
    have hq' := OrderedMap.get?_eq_some.2 (show (q.1, q.2) ∈ m.entries from hq)
    rw [hkey, hq'] at hp'
    exact Prod.ext hkey (Option.some.inj hp').symm
  · exact h.trans p.1 (List.mem_map_of_mem hp) q.1 (List.mem_map_of_mem hq) t.1
      (List.mem_map_of_mem ht)

/-- **Sorted maps are one map where they read alike**, if `ksort` orders the
keys. -/
theorem ksort_eq_of_get? (hkeys : KeysOrdered m) (h : ∀ k, m.get? k = m'.get? k) :
    ksort m = ksort m' :=
  OrderedMap.ext (Sorting.insertionSort_eq_of_perm hkeys.entries (fun _ hp => hp) (entries_perm h))

theorem pairwise_ksort (hkeys : KeysOrdered m) : (ksort m).entries.Pairwise entryLe :=
  Sorting.pairwise_insertionSort_of hkeys.entries fun _ hp => hp

/-- **Keys that read as no numbers are ordered**, by their text. -/
theorem keysOrdered_of_not_numeric (h : ∀ k ∈ m.keys, numericString? k = none) : KeysOrdered m := by
  have hle : ∀ a ∈ m.keys, ∀ b ∈ m.keys, keyLe a b = decide (a ≤ b) := by
    intro a ha b hb
    unfold keyLe smartLe
    rw [h a ha]
  refine ⟨fun a ha b hb => ?_, fun a ha b hb hab hba => ?_, fun a ha b hb c hc hab hbc => ?_⟩
  · rw [hle a ha b hb, hle b hb a ha, decide_eq_true_eq, decide_eq_true_eq]
    exact String.le_total a b
  · rw [hle a ha b hb, decide_eq_true_eq] at hab
    rw [hle b hb a ha, decide_eq_true_eq] at hba
    exact String.le_antisymm hab hba
  · rw [hle a ha b hb, decide_eq_true_eq] at hab
    rw [hle b hb c hc, decide_eq_true_eq] at hbc
    rw [hle a ha c hc, decide_eq_true_eq]
    exact String.le_trans hab hbc

/-! ## Sorting again -/

theorem le_or_le {x y : Binary64} (hx : x ≠ .nan) (hy : y ≠ .nan) :
    x.le y = true ∨ y.le x = true := by
  cases x with
  | nan => exact absurd rfl hx
  | finite a =>
    cases y with
    | nan => exact absurd rfl hy
    | finite b =>
      refine (le_total a.val b.val).imp ?_ ?_
      · exact decide_eq_true
      · exact decide_eq_true
    | inf t => cases t <;> simp [Binary64.le]
  | inf s =>
    cases y with
    | nan => exact absurd rfl hy
    | finite b => cases s <;> simp [Binary64.le]
    | inf t => cases s <;> simp [Binary64.le]

theorem ofRat_ne_nan (q : ℚ) : Binary64.ofRat q ≠ .nan := by
  unfold Binary64.ofRat
  split <;> simp

theorem double_ne_nan {s : String} {x : Binary64} {overflow : ℤ}
    (h : numericString? s = some (.double x overflow)) : x ≠ .nan := by
  unfold numericString? at h
  split at h
  · exact nomatch h
  · next numeral _ =>
    -- All its floats are read off the numeral; an integer is none.
    have hread : x = .ofRat numeral.value := by
      split_ifs at h <;> simp_all
    rw [hread]
    exact ofRat_ne_nan _

/-- **Any two keys compare.** -/
theorem keyLe_total (a b : String) : keyLe a b = true ∨ keyLe b a = true := by
  have htext : decide (a ≤ b) = true ∨ decide (b ≤ a) = true := by
    simpa using String.le_total a b
  have hint : ∀ n, Binary64.ofInt n ≠ .nan := fun n => ofRat_ne_nan n
  unfold keyLe smartLe
  rcases ha : numericString? a with _ | ⟨m⟩ | ⟨x, overflow⟩
  · rcases numericString? b with _ | ⟨n⟩ | ⟨y, overflow'⟩ <;> exact htext
  · rcases hb : numericString? b with _ | ⟨n⟩ | ⟨y, overflow'⟩
    · exact htext
    · simpa using le_total m n
    · dsimp only
      split_ifs with hplace
      · exact le_or_le (hint m) (double_ne_nan hb)
      · simp only [decide_eq_true_eq]
        omega
  · rcases hb : numericString? b with _ | ⟨n⟩ | ⟨y, overflow'⟩
    · exact htext
    · dsimp only
      split_ifs with hplace
      · exact le_or_le (double_ne_nan ha) (hint n)
      · simp only [decide_eq_true_eq]
        omega
    · dsimp only
      -- Two floats too far out to tell are so from either side.
      have hsymm : (x = y ∧ (overflow ≠ 0 ∧ overflow = overflow' ∨ (!x.isFinite) = true)) ↔
          (y = x ∧ (overflow' ≠ 0 ∧ overflow' = overflow ∨ (!y.isFinite) = true)) := by
        constructor
        · rintro ⟨rfl, ⟨hne, rfl⟩ | hinf⟩
          · exact ⟨rfl, Or.inl ⟨hne, rfl⟩⟩
          · exact ⟨rfl, Or.inr hinf⟩
        · rintro ⟨rfl, ⟨hne, rfl⟩ | hinf⟩
          · exact ⟨rfl, Or.inl ⟨hne, rfl⟩⟩
          · exact ⟨rfl, Or.inr hinf⟩
      by_cases hfar : x = y ∧ (overflow ≠ 0 ∧ overflow = overflow' ∨ (!x.isFinite) = true)
      · rw [if_pos hfar, if_pos (hsymm.1 hfar)]
        exact htext
      · rw [if_neg hfar, if_neg fun h => hfar (hsymm.2 h)]
        exact le_or_le (double_ne_nan ha) (double_ne_nan hb)

/-- **A sorted array is sorted**, whatever its keys. -/
theorem ksort_ksort (m : OrderedMap String α) : ksort (ksort m) = ksort m := by
  have htotal : ∀ p q : String × α, entryLe p q ∨ entryLe q p := fun p q => keyLe_total p.1 q.1
  refine OrderedMap.ext ?_
  change (m.entries.insertionSort entryLe).insertionSort entryLe = m.entries.insertionSort entryLe
  exact Sorting.insertionSort_insertionSort htotal m.entries

example : keyLe "1e1" "10.0" = true ∧ keyLe "10.0" "1e1" = true := by decide +kernel

example : keyLe "2" "10" = true ∧ keyLe "10" "1a" = true ∧ keyLe "1a" "2" = true := by
  decide +kernel

end Optionia.Php
