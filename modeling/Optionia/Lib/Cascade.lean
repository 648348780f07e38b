import Mathlib.Data.Finset.Card
import Mathlib.Data.Set.Lattice
/-!
# Cascades that only accumulate

A round fires some triggers, which take items out; what is out stays out, and
the next round fires on what is left. Nothing is assumed of what makes a
trigger fire: taking more out may stop one from firing again, and its items
stay out all the same.

`Complete n` says that the round after the `n`th takes out nothing more; it
then stays so. `exists_path` follows an item back to the first round: what
first goes out in round `n + 1` was touched by something that first went out
in round `n`, so a cascade of `n + 1` rounds carries a path of `n` steps.
-/

namespace Cascade

variable {T O : Type*}

/-- The items that a set of triggers takes out, of those there are. -/
def takenBy (items : Set O) (under : T → Set O) (triggers : Set T) : Set O :=
  {o | o ∈ items ∧ ∃ t ∈ triggers, o ∈ under t}

section

variable (items : Set O) (under : T → Set O) (fire : Set O → Set T)

/-- The triggers fired within the first `n` rounds. -/
def fired : ℕ → Set T
  | 0 => ∅
  | n + 1 => fired n ∪ fire (takenBy items under (fired n))

/-- The items taken out within the first `n` rounds. -/
def taken (n : ℕ) : Set O := takenBy items under (fired items under fire n)

/-- The round after the `n`th takes out nothing more. -/
def Complete (n : ℕ) : Prop := taken items under fire (n + 1) = taken items under fire n

end

variable {items : Set O} {under : T → Set O} {fire : Set O → Set T} {n m : ℕ} {o : O}

theorem takenBy_mono {a b : Set T} (h : a ⊆ b) :
    takenBy items under a ⊆ takenBy items under b := by
  rintro o ⟨ho, t, ht, hot⟩
  exact ⟨ho, t, h ht, hot⟩

theorem fired_subset_succ : fired items under fire n ⊆ fired items under fire (n + 1) :=
  Set.subset_union_left

theorem fired_mono (h : n ≤ m) : fired items under fire n ⊆ fired items under fire m := by
  induction h with
  | refl => exact subset_rfl
  | step _ ih => exact ih.trans fired_subset_succ

theorem mem_fired_iff {t : T} : t ∈ fired items under fire n ↔
    ∃ k < n, t ∈ fire (taken items under fire k) := by
  induction n with
  | zero => exact iff_of_false (Set.notMem_empty t) fun ⟨k, hk, _⟩ => absurd hk (Nat.not_lt_zero k)
  | succ n ih =>
    rw [fired, Set.mem_union, ih]
    constructor
    · rintro (⟨k, hk, hfire⟩ | hfire)
      · exact ⟨k, by omega, hfire⟩
      · exact ⟨n, by omega, hfire⟩
    · rintro ⟨k, hk, hfire⟩
      obtain hk | rfl := Nat.lt_succ_iff_lt_or_eq.1 hk
      · exact .inl ⟨k, hk, hfire⟩
      · exact .inr hfire

theorem taken_mono (h : n ≤ m) : taken items under fire n ⊆ taken items under fire m :=
  takenBy_mono (fired_mono h)

/-- **From a complete round on, nothing more fires**: the same items are out,
and they make the same triggers fire. -/
theorem fired_of_complete (h : Complete items under fire n) (hm : n + 1 ≤ m) :
    fired items under fire m = fired items under fire (n + 1) := by
  induction m, hm using Nat.le_induction with
  | base => rfl
  | succ m hm ih =>
    have hout : takenBy items under (fired items under fire (n + 1)) =
        takenBy items under (fired items under fire n) := h
    rw [fired, ih, hout, Set.union_eq_left]
    exact Set.subset_union_right

theorem Complete.mono (h : Complete items under fire n) (hm : n ≤ m) :
    Complete items under fire m := by
  rcases Nat.eq_or_lt_of_le hm with rfl | hlt
  · exact h
  · rw [Complete, taken, taken, fired_of_complete (m := m + 1) h (by omega),
      fired_of_complete (m := m) h (by omega)]

/-! ## A cascade that takes nothing out -/

/-- **While nothing is out, every round fires the same triggers.** -/
theorem fired_of_untouched {n : ℕ} (h : ∀ k ≤ n, taken items under fire k = ∅) :
    fired items under fire (n + 1) = fire ∅ := by
  have hround : ∀ k ≤ n, fired items under fire (k + 1) = fired items under fire k ∪ fire ∅ := by
    intro k hk
    have hk := h k hk
    unfold taken at hk
    rw [fired, hk]
  induction n with
  | zero => rw [hround 0 le_rfl, fired, Set.empty_union]
  | succ n ih =>
    have hn := ih (fun k hk => h k (by omega)) (fun k hk => hround k (by omega))
    rw [hround (n + 1) le_rfl, hn, Set.union_self]

/-! ## Two cascades that fire alike -/

/-- **Cascades that fire alike on what the one has taken out take out the
same**, round by round. -/
theorem fired_congr {fire' : Set O → Set T}
    (h : ∀ n, fire (taken items under fire n) = fire' (taken items under fire n)) (n : ℕ) :
    fired items under fire n = fired items under fire' n := by
  induction n with
  | zero => rfl
  | succ n ih =>
    have hn := h n
    unfold taken at hn
    rw [fired, fired, ← ih, hn]

/-! ## Following an item back -/

theorem exists_new (h : ¬ Complete items under fire n) :
    ∃ o ∈ taken items under fire (n + 1), o ∉ taken items under fire n := by
  by_contra hnone
  refine h (Set.Subset.antisymm (fun o ho => ?_) (taken_mono n.le_succ))
  by_contra hn
  exact hnone ⟨o, ho, hn⟩

/-- `edge a b`: taking `a` out can be what takes `b` out. A trigger that fires
on more items taken out and did not before was touched by one of them, and
carries it to whatever it takes out. -/
def Carries (under : T → Set O) (fire : Set O → Set T) (edge : O → O → Prop) : Prop :=
  ∀ {out out' : Set O} {t : T}, out ⊆ out' → t ∈ fire out' → t ∉ fire out →
    ∃ a ∈ out', a ∉ out ∧ ∀ b ∈ under t, edge a b

/-- **What first goes out in round `n + 1` hangs on a path through the rounds
before it**, one item a round. -/
theorem exists_path {edge : O → O → Prop} (hedge : Carries under fire edge)
    (ho : o ∈ taken items under fire (n + 1)) (hn : o ∉ taken items under fire n) :
    ∃ path : ℕ → O, path n = o ∧
      (∀ i ≤ n, path i ∈ taken items under fire (i + 1) ∧ path i ∉ taken items under fire i) ∧
      ∀ i < n, edge (path i) (path (i + 1)) := by
  induction n generalizing o with
  | zero =>
    refine ⟨fun _ => o, rfl, fun i hi => ?_, fun i hi => absurd hi (Nat.not_lt_zero i)⟩
    obtain rfl := Nat.le_zero.1 hi
    exact ⟨ho, hn⟩
  | succ n ih =>
    obtain ⟨hitem, t, ht, hot⟩ := ho
    have hnew : t ∉ fired items under fire (n + 1) := fun h => hn ⟨hitem, t, h, hot⟩
    have hfire : t ∈ fire (taken items under fire (n + 1)) := ht.resolve_left hnew
    have hold : t ∉ fire (taken items under fire n) := fun h => hnew (Or.inr h)
    obtain ⟨a, ha, han, hcarry⟩ := hedge (taken_mono n.le_succ) hfire hold
    obtain ⟨path, hpath, hfirst, hsteps⟩ := ih ha han
    refine ⟨Function.update path (n + 1) o, Function.update_self .., fun i hi => ?_,
      fun i hi => ?_⟩
    · by_cases h : i = n + 1
      · rw [h, Function.update_self]
        exact ⟨⟨hitem, t, ht, hot⟩, hn⟩
      · rw [Function.update_of_ne h]
        exact hfirst i (by omega)
    · rw [Function.update_of_ne (Nat.ne_of_lt hi)]
      by_cases h : i + 1 = n + 1
      · obtain rfl : i = n := by omega
        rw [Function.update_self, hpath]
        exact hcarry o hot
      · rw [Function.update_of_ne h]
        exact hsteps i (by omega)

theorem path_injective {path : ℕ → O}
    (h : ∀ i ≤ n, path i ∈ taken items under fire (i + 1) ∧ path i ∉ taken items under fire i)
    {i j : ℕ} (hi : i ≤ n) (hj : j ≤ n) (heq : path i = path j) : i = j := by
  by_contra hne
  rcases Nat.lt_or_gt_of_ne hne with hlt | hlt
  · exact (h j hj).2 (heq ▸ taken_mono hlt (h i hi).1)
  · exact (h i hi).2 (heq ▸ taken_mono hlt (h j hj).1)

/-! ## Items that matter -/

/-- What fires depends on which of these items are out, and on no others. -/
def Matters (fire : Set O → Set T) (core : Set O) : Prop := ∀ out, fire out = fire (out ∩ core)

variable {core items' : Set O}

/-- **Cascades over items of which the same matter fire alike**, round by
round. -/
theorem fired_eq_of_matters (hfire : Matters fire core) (h : items ∩ core = items' ∩ core) (n : ℕ) :
    fired items under fire n = fired items' under fire n := by
  have hsame : ∀ triggers, takenBy items under triggers ∩ core =
      takenBy items' under triggers ∩ core := by
    refine fun triggers => Set.ext fun o => ?_
    have ho : o ∈ items ∩ core ↔ o ∈ items' ∩ core := by rw [h]
    constructor
    · rintro ⟨⟨hitem, ht⟩, hcore⟩
      exact ⟨⟨(ho.1 ⟨hitem, hcore⟩).1, ht⟩, hcore⟩
    · rintro ⟨⟨hitem, ht⟩, hcore⟩
      exact ⟨⟨(ho.2 ⟨hitem, hcore⟩).1, ht⟩, hcore⟩
  induction n with
  | zero => rfl
  | succ n ih => rw [fired, fired, ih, hfire, hsame, ← hfire]

theorem carries_of_matters (hfire : Matters fire core) :
    Carries under fire fun a _ => a ∈ core := by
  intro out out' t hsub hnew hold
  by_contra hnone
  refine hold ?_
  have hsame : out' ∩ core = out ∩ core := by
    refine Set.Subset.antisymm (fun o ⟨ho, hcore⟩ => ⟨?_, hcore⟩)
      (Set.inter_subset_inter_left core hsub)
    by_contra hout
    exact hnone ⟨o, ho, hout, fun _ _ => hcore⟩
  rw [hfire, ← hsame, ← hfire]
  exact hnew

/-- **A cascade is complete after as many rounds as items matter, and one
more**: each round before takes one of them out. -/
theorem complete_of_card {s : Finset O} (hfire : Matters fire core)
    (hs : ∀ o ∈ items, o ∈ core → o ∈ s) (hn : s.card < n) : Complete items under fire n := by
  by_contra h
  obtain ⟨o, ho, hno⟩ := exists_new h
  obtain ⟨path, -, hnew, hsteps⟩ := exists_path (carries_of_matters hfire) ho hno
  have hmaps : ∀ i ∈ Finset.range n, path i ∈ s := by
    intro i hi
    have hin := Finset.mem_range.1 hi
    exact hs _ (hnew i hin.le).1.1 (hsteps i hin)
  obtain ⟨i, hi, j, hj, hne, heq⟩ := Finset.exists_ne_map_eq_of_card_lt_of_maps_to
    (by rw [Finset.card_range]; exact hn) hmaps
  exact hne (path_injective hnew (Finset.mem_range.1 hi).le (Finset.mem_range.1 hj).le heq)

/-- **A cascade is complete after as many rounds as there are triggers**: each
round before fires a new one. -/
theorem complete_of_triggers {s : Finset T} (hs : ∀ out, ∀ t ∈ fire out, t ∈ s) (hn : s.card ≤ n) :
    Complete items under fire n := by
  by_contra h
  have hnew : ∀ k ≤ n, ∃ t ∈ fired items under fire (k + 1), t ∉ fired items under fire k := by
    intro k hk
    by_contra hnone
    have hsame : fired items under fire (k + 1) = fired items under fire k := by
      refine Set.Subset.antisymm (fun t ht => ?_) fired_subset_succ
      by_contra hnot
      exact hnone ⟨t, ht, hnot⟩
    refine h (Complete.mono (n := k) ?_ hk)
    rw [Complete, taken, taken, hsame]
  obtain ⟨first, -, -⟩ := hnew 0 (Nat.zero_le n)
  have : Nonempty T := ⟨first⟩
  choose! trigger hfired hnot using hnew
  have hmaps : ∀ i ∈ Finset.range (n + 1), trigger i ∈ s := by
    intro i hi
    have hin : i ≤ n := Nat.lt_succ_iff.1 (Finset.mem_range.1 hi)
    obtain ⟨k, -, hk⟩ := mem_fired_iff.1 (hfired i hin)
    exact hs _ _ hk
  obtain ⟨i, hi, j, hj, hne, heq⟩ := Finset.exists_ne_map_eq_of_card_lt_of_maps_to
    (by rw [Finset.card_range]; omega) hmaps
  -- What fired in an earlier round is not new in a later one.
  have hlater : ∀ i j, i < j → j ≤ n → trigger i ≠ trigger j := by
    intro i j hij hj heq
    have hbefore : trigger i ∈ fired items under fire j := fired_mono hij (hfired i (by omega))
    exact hnot j hj (heq ▸ hbefore)
  have hi' : i ≤ n := Nat.lt_succ_iff.1 (Finset.mem_range.1 hi)
  have hj' : j ≤ n := Nat.lt_succ_iff.1 (Finset.mem_range.1 hj)
  obtain hlt | hlt := Nat.lt_or_gt_of_ne hne
  · exact hlater i j hlt hj' heq
  · exact hlater j i hlt hi' heq.symm

end Cascade
