import Mathlib.Data.List.Chain
import Mathlib.Data.List.Pairwise
import Mathlib.Data.List.Sort
/-!
# Sorting by a comparison that orders only some elements

A comparison may be a linear order on the elements at hand and none on
others: ties, or a circle, may lie elsewhere. On a list whose elements it
orders, insertion sort sorts (`pairwise_insertionSort_of`), and the order the
list came in is lost (`insertionSort_eq_of_perm`). On any list it does nothing
the second time (`insertionSort_insertionSort`).
-/

namespace Sorting

variable {α : Type*} (r : α → α → Prop)

/-- A comparison orders the elements of a set, as a linear order does. -/
structure Orders (s : Set α) : Prop where
  total : ∀ a ∈ s, ∀ b ∈ s, r a b ∨ r b a
  antisymm : ∀ a ∈ s, ∀ b ∈ s, r a b → r b a → a = b
  trans : ∀ a ∈ s, ∀ b ∈ s, ∀ c ∈ s, r a b → r b c → r a c

variable {r} {s : Set α}

theorem Orders.mono {t : Set α} (h : Orders r s) (hts : t ⊆ s) : Orders r t :=
  ⟨fun a ha b hb => h.total a (hts ha) b (hts hb),
    fun a ha b hb => h.antisymm a (hts ha) b (hts hb),
    fun a ha b hb c hc => h.trans a (hts ha) b (hts hb) c (hts hc)⟩

variable [DecidableRel r]

/-- An element inserted where it belongs leaves a sorted list sorted. -/
theorem pairwise_orderedInsert (h : Orders r s) {a : α} (ha : a ∈ s) {l : List α}
    (hl : ∀ b ∈ l, b ∈ s) (hsorted : l.Pairwise r) : (l.orderedInsert r a).Pairwise r := by
  induction l with
  | nil => exact List.pairwise_singleton r a
  | cons b l ih =>
    have hb := hl b List.mem_cons_self
    have hrest : ∀ c ∈ l, c ∈ s := fun c hc => hl c (List.mem_cons_of_mem b hc)
    obtain ⟨hbelow, htail⟩ := List.pairwise_cons.1 hsorted
    rw [List.orderedInsert_cons]
    by_cases hab : r a b
    · rw [if_pos hab]
      refine List.pairwise_cons.2 ⟨fun c hc => ?_, hsorted⟩
      rcases List.mem_cons.1 hc with rfl | hc
      · exact hab
      · exact h.trans a ha b hb c (hrest c hc) hab (hbelow c hc)
    · rw [if_neg hab]
      refine List.pairwise_cons.2 ⟨fun c hc => ?_, ih hrest htail⟩
      rcases (List.mem_orderedInsert r).1 hc with rfl | hc
      · exact (h.total c ha b hb).resolve_left hab
      · exact hbelow c hc

/-- **Insertion sort sorts what the comparison orders.** -/
theorem pairwise_insertionSort_of (h : Orders r s) {l : List α} (hl : ∀ a ∈ l, a ∈ s) :
    (l.insertionSort r).Pairwise r := by
  induction l with
  | nil => exact List.Pairwise.nil
  | cons a l ih =>
    have hrest : ∀ b ∈ l, b ∈ s := fun b hb => hl b (List.mem_cons_of_mem a hb)
    rw [List.insertionSort_cons]
    refine pairwise_orderedInsert h (hl a List.mem_cons_self) (fun b hb => ?_) (ih hrest)
    exact hrest b ((List.mem_insertionSort r).1 hb)

/-- **The order a list came in is lost.** -/
theorem insertionSort_eq_of_perm (h : Orders r s) {l m : List α} (hl : ∀ a ∈ l, a ∈ s)
    (hperm : l.Perm m) : l.insertionSort r = m.insertionSort r := by
  have hm : ∀ a ∈ m, a ∈ s := fun a ha => hl a (hperm.mem_iff.2 ha)
  refine List.Perm.eq_of_pairwise (fun a b ha hb => ?_) (pairwise_insertionSort_of h hl)
    (pairwise_insertionSort_of h hm) ?_
  · exact h.antisymm a (hl a ((List.mem_insertionSort r).1 ha)) b
      (hm b ((List.mem_insertionSort r).1 hb))
  · exact ((List.perm_insertionSort r l).trans hperm).trans (List.perm_insertionSort r m).symm

/-! ## Sorting again -/

/-- Neighbours stand in order where an element is inserted among neighbours
that do, if any two elements compare. -/
theorem isChain_orderedInsert (htotal : ∀ a b, r a b ∨ r b a) (a : α) {l : List α}
    (hl : l.IsChain r) : (l.orderedInsert r a).IsChain r := by
  induction l with
  | nil => exact List.isChain_singleton a
  | cons b l ih =>
    rw [List.orderedInsert_cons]
    by_cases hab : r a b
    · rw [if_pos hab]
      exact List.isChain_cons_cons.2 ⟨hab, hl⟩
    · rw [if_neg hab]
      have hba : r b a := (htotal a b).resolve_left hab
      have hrest := ih hl.tail
      cases l with
      | nil => exact List.isChain_cons_cons.2 ⟨hba, hrest⟩
      | cons c l =>
        -- What follows `b` now is `a` or what followed it before.
        rw [List.orderedInsert_cons] at hrest ⊢
        by_cases hac : r a c
        · rw [if_pos hac] at hrest ⊢
          exact List.isChain_cons_cons.2 ⟨hba, hrest⟩
        · rw [if_neg hac] at hrest ⊢
          exact List.isChain_cons_cons.2 ⟨(List.isChain_cons_cons.1 hl).1, hrest⟩

theorem isChain_insertionSort (htotal : ∀ a b, r a b ∨ r b a) (l : List α) :
    (l.insertionSort r).IsChain r := by
  induction l with
  | nil => exact List.isChain_nil
  | cons a l ih =>
    rw [List.insertionSort_cons]
    exact isChain_orderedInsert htotal a ih

theorem insertionSort_eq_self {l : List α} (h : l.IsChain r) : l.insertionSort r = l := by
  induction l with
  | nil => rfl
  | cons a l ih =>
    rw [List.insertionSort_cons, ih h.tail]
    cases l with
    | nil => rfl
    | cons b l => rw [List.orderedInsert_cons, if_pos (List.isChain_cons_cons.1 h).1]

/-- **Sorting again changes nothing**, ties and circles or not. -/
theorem insertionSort_insertionSort (htotal : ∀ a b, r a b ∨ r b a) (l : List α) :
    (l.insertionSort r).insertionSort r = l.insertionSort r :=
  insertionSort_eq_self (isChain_insertionSort htotal l)

/-! ## Merge sort -/

section MergeSort

variable {β : Type*} {le : α → α → Bool} {le' : β → β → Bool} {l m : List α}

/-- A comparison that any two elements stand in, and no three go round. -/
structure Compares (le : α → α → Bool) : Prop where
  trans : ∀ a b c, le a b = true → le b c = true → le a c = true
  total : ∀ a b, (le a b || le b a) = true

theorem Compares.pairwise (h : Compares le) (l : List α) :
    (l.mergeSort le).Pairwise fun a b => le a b = true :=
  List.pairwise_mergeSort h.trans h.total l

theorem pairwise_or {R : α → α → Prop} (h : l.Pairwise R) {a b : α} (ha : a ∈ l) (hb : b ∈ l)
    (hne : a ≠ b) : R a b ∨ R b a := by
  have hsymm : Std.Symm fun a b => R a b ∨ R b a := ⟨fun _ _ => Or.symm⟩
  exact (h.imp (S := fun a b => R a b ∨ R b a) Or.inl).forall ha hb hne

theorem mergeSort_eq_of_pairwise (h : Compares le)
    (hantisymm : ∀ a ∈ l, ∀ b ∈ l, le a b = true → le b a = true → a = b) (hperm : m.Perm l)
    (hsorted : m.Pairwise fun a b => le a b = true) : l.mergeSort le = m := by
  refine List.Perm.eq_of_pairwise (fun a b ha hb => ?_) (h.pairwise l) hsorted ?_
  · exact hantisymm a (List.mem_mergeSort.1 ha) b (hperm.mem_iff.1 hb)
  · exact (List.mergeSort_perm l le).trans hperm.symm

/-- **What is picked from a sorted list is the pick, sorted.** -/
theorem filter_mergeSort (h : Compares le)
    (hantisymm : ∀ a ∈ l, ∀ b ∈ l, le a b = true → le b a = true → a = b) (p : α → Bool) :
    (l.mergeSort le).filter p = (l.filter p).mergeSort le := by
  refine (mergeSort_eq_of_pairwise h (fun a ha b hb => ?_)
    ((List.mergeSort_perm l le).filter p) ((h.pairwise l).filter p)).symm
  exact hantisymm a (List.mem_of_mem_filter ha) b (List.mem_of_mem_filter hb)

/-- **A copy of a list sorts as the list does** exactly where it compares as the
list does. -/
theorem mergeSort_map_eq_iff (h : Compares le) (h' : Compares le') {f : α → β}
    (hantisymm : ∀ a ∈ l, ∀ b ∈ l, le a b = true → le b a = true → a = b)
    (hantisymm' : ∀ a ∈ l, ∀ b ∈ l, le' (f a) (f b) = true → le' (f b) (f a) = true → f a = f b)
    (hperm : m.Perm l) :
    (m.map f).mergeSort le' = (l.mergeSort le).map f ↔
      ∀ a ∈ l, ∀ b ∈ l, le a b = true → le' (f a) (f b) = true := by
  have hsorted := h.pairwise l
  have hmem : ∀ {a}, a ∈ l ↔ a ∈ l.mergeSort le := List.mem_mergeSort.symm
  constructor
  · intro heq a ha b hb hab
    have hcopy : ((l.mergeSort le).map f).Pairwise fun a b => le' a b = true :=
      heq ▸ h'.pairwise _
    rw [List.pairwise_map] at hcopy
    by_cases hne : a = b
    · subst hne
      simpa using h'.total (f a) (f a)
    · -- One of the two comes first, and it is `a`.
      obtain hfirst | hfirst := pairwise_or (hsorted.and hcopy) (hmem.1 ha) (hmem.1 hb) hne
      · exact hfirst.2
      · exact absurd (hantisymm a ha b hb hab hfirst.1) hne
  · intro hcopy
    refine mergeSort_eq_of_pairwise h' ?_
      (((List.mergeSort_perm l le).trans hperm.symm).map f) ?_
    · intro x hx y hy
      obtain ⟨a, ha, rfl⟩ := List.mem_map.1 hx
      obtain ⟨b, hb, rfl⟩ := List.mem_map.1 hy
      exact hantisymm' a (hperm.mem_iff.1 ha) b (hperm.mem_iff.1 hb)
    · rw [List.pairwise_map]
      exact hsorted.imp_of_mem fun ha hb => hcopy _ (hmem.2 ha) _ (hmem.2 hb)

end MergeSort

end Sorting
