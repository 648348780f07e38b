import Mathlib.Algebra.BigOperators.Group.Finset.Piecewise
import Mathlib.Data.List.Perm.Basic
/-!
# Queries over tables

The operators of a query, over tables as lists of rows: joins, groups, and an
order with a limit. A query that joins only rows of a part reads that part
alone: over the rows that are kept it gives what it gives over the whole
(`join_filter_left`, `join_filter_right`,
`leftJoin_filter`).
-/

namespace Query

variable {α β κ : Type*}

/-! ## Joins -/

/-- `JOIN … ON` -/
def join (on : α → β → Bool) (l : List α) (m : List β) : List (α × β) :=
  l.flatMap fun a => (m.filter (on a)).map (a, ·)

/-- `LEFT JOIN … ON` -/
def leftJoin (on : α → β → Bool) (l : List α) (m : List β) : List (α × Option β) :=
  l.flatMap fun a =>
    if m.filter (on a) = [] then [(a, none)] else (m.filter (on a)).map fun b => (a, some b)

variable {on : α → β → Bool} {l : List α} {m : List β} {p : α → Bool} {q : β → Bool}

theorem mem_join {r : α × β} : r ∈ join on l m ↔ r.1 ∈ l ∧ r.2 ∈ m ∧ on r.1 r.2 = true := by
  unfold join
  rw [List.mem_flatMap]
  constructor
  · rintro ⟨a, ha, hr⟩
    obtain ⟨b, hb, rfl⟩ := List.mem_map.1 hr
    exact ⟨ha, List.mem_filter.1 hb⟩
  · rintro ⟨ha, hb, hon⟩
    exact ⟨r.1, ha, List.mem_map.2 ⟨r.2, List.mem_filter.2 ⟨hb, hon⟩, rfl⟩⟩

theorem filter_filter_of {a : α} (h : ∀ b ∈ m, on a b = true → q b = true) :
    (m.filter q).filter (on a) = m.filter (on a) := by
  rw [List.filter_filter]
  refine List.filter_congr fun b hb => ?_
  cases hon : on a b with
  | false => rfl
  | true => rw [h b hb hon, Bool.true_and]

/-- **A join over the left rows that are kept is the join**, where all that meet
are kept. -/
theorem join_filter_left (h : ∀ a ∈ l, ∀ b ∈ m, on a b = true → p a = true) :
    join on (l.filter p) m = join on l m := by
  unfold join
  induction l with
  | nil => rfl
  | cons a l ih =>
    obtain ⟨ha, hrest⟩ := List.forall_mem_cons.1 h
    by_cases hp : p a = true
    · rw [List.filter_cons_of_pos hp, List.flatMap_cons, List.flatMap_cons, ih hrest]
    · -- A row that is lost met none.
      have hnone : m.filter (on a) = [] :=
        List.filter_eq_nil_iff.2 fun b hb hon => hp (ha b hb hon)
      rw [List.filter_cons_of_neg hp, List.flatMap_cons, hnone, List.map_nil, List.nil_append,
        ih hrest]

/-- **So is a join over the right rows that are kept.** -/
theorem join_filter_right (h : ∀ a ∈ l, ∀ b ∈ m, on a b = true → q b = true) :
    join on l (m.filter q) = join on l m := by
  unfold join
  refine List.flatMap_congr fun a ha => ?_
  rw [filter_filter_of (h a ha)]

/-- **And a left join.** -/
theorem leftJoin_filter (h : ∀ a ∈ l, ∀ b ∈ m, on a b = true → q b = true) :
    leftJoin on l (m.filter q) = leftJoin on l m := by
  unfold leftJoin
  refine List.flatMap_congr fun a ha => ?_
  rw [filter_filter_of (h a ha)]

/-- **A left join of unique keys** finds one row or none. -/
theorem leftJoin_eq_map {on : α → β → Bool} {l : List α} {m : List β} {key : β → κ} (k : α → κ)
    (hm : (m.map key).Nodup) (hon : ∀ a b, on a b = true → key b = k a) :
    leftJoin on l m = l.map fun a => (a, m.find? (on a)) := by
  rw [leftJoin, List.map_eq_flatMap]
  refine List.flatMap_congr fun a _ => ?_
  have hkeys : ((m.filter (on a)).map key).Nodup := hm.sublist (List.filter_sublist.map key)
  have hall : ∀ b ∈ m.filter (on a), key b = k a := fun b hb => hon a b (List.mem_filter.1 hb).2
  rw [← List.head?_filter]
  generalize m.filter (on a) = found at hkeys hall
  rcases found with _ | ⟨b, _ | ⟨c, rest⟩⟩
  · rfl
  · rfl
  · -- Two of them would be of one key.
    have hsame : key b = key c := by rw [hall b (by simp), hall c (by simp)]
    exact absurd hkeys (by simp [hsame])

/-! ## Groups -/

section Groups

variable [DecidableEq κ]

/-- `GROUP BY`, each group with its rows. -/
def groupBy (key : α → κ) (l : List α) : List (List α) :=
  (l.map key).dedup.map fun k => l.filter fun a => key a = k

def countDistinct (key : α → κ) (l : List α) : ℕ := (l.map key).dedup.length

theorem countDistinct_eq_card (key : α → κ) (l : List α) :
    countDistinct key l = (l.map key).toFinset.card :=
  (List.card_toFinset _).symm

/-- **A key more is counted once.** -/
theorem countDistinct_lt {key : α → κ} {l l' : List α} (hsub : ∀ a ∈ l, key a ∈ l'.map key) {b : α}
    (hb : b ∈ l') (hnew : key b ∉ l.map key) : countDistinct key l < countDistinct key l' := by
  rw [countDistinct_eq_card, countDistinct_eq_card]
  refine Finset.card_lt_card (Finset.ssubset_iff_subset_ne.2 ⟨fun k hk => ?_, fun heq => ?_⟩)
  · obtain ⟨a, ha, rfl⟩ := List.mem_map.1 (List.mem_toFinset.1 hk)
    exact List.mem_toFinset.2 (hsub a ha)
  · have hmem : key b ∈ (l'.map key).toFinset := List.mem_toFinset.2 (List.mem_map_of_mem hb)
    rw [← heq] at hmem
    exact hnew (List.mem_toFinset.1 hmem)

/-- **A left join counts no key twice**, and loses none. -/
theorem countDistinct_leftJoin (on : α → β → Bool) (key : α → κ) (l : List α) (m : List β) :
    countDistinct (fun r => key r.1) (leftJoin on l m) = countDistinct key l := by
  rw [countDistinct_eq_card, countDistinct_eq_card]
  refine congrArg Finset.card (Finset.ext fun k => ?_)
  rw [List.mem_toFinset, List.mem_toFinset, leftJoin, List.map_flatMap, List.mem_flatMap,
    List.mem_map]
  refine exists_congr fun a => and_congr_right fun _ => ?_
  by_cases hnone : m.filter (on a) = []
  · rw [if_pos hnone, List.map_singleton, List.mem_singleton, eq_comm]
  · rw [if_neg hnone, List.map_map]
    constructor
    · intro hk
      obtain ⟨b, -, rfl⟩ := List.mem_map.1 hk
      rfl
    · rintro rfl
      obtain ⟨b, hb⟩ := List.exists_mem_of_ne_nil _ hnone
      exact List.mem_map.2 ⟨b, hb, rfl⟩

/-- **A key that another decides adds none.** -/
theorem countDistinct_pair {μ : Type*} [DecidableEq μ] {f : α → κ} {g : α → μ} {l : List α}
    (h : ∀ a ∈ l, ∀ b ∈ l, f a = f b → g a = g b) :
    countDistinct (fun a => (f a, g a)) l = countDistinct f l := by
  have himage : (l.map f).toFinset = ((l.map fun a => (f a, g a)).toFinset).image Prod.fst := by
    ext k
    simp
  rw [countDistinct_eq_card, countDistinct_eq_card, himage]
  refine (Finset.card_image_of_injOn fun p hp q hq hpq => ?_).symm
  obtain ⟨a, ha, rfl⟩ := List.mem_map.1 (List.mem_toFinset.1 hp)
  obtain ⟨b, hb, rfl⟩ := List.mem_map.1 (List.mem_toFinset.1 hq)
  exact Prod.ext hpq (h a ha b hb hpq)

theorem groupBy_map (g : α → β) (key : β → κ) (l : List α) :
    groupBy key (l.map g) = (groupBy (key ∘ g) l).map (List.map g) := by
  simp only [groupBy, List.map_map, List.filter_map, Function.comp_def]

/-- **The groups of a table stand for its keys**, each where its rows do. -/
theorem forall₂_groupBy {key : α → κ} {l : List α} {R : β → κ → Prop} {f : List α → Option β}
    (h : ∀ k ∈ l.map key, ∃ b, f (l.filter fun a => key a = k) = some b ∧ R b k) :
    List.Forall₂ R ((groupBy key l).filterMap f) (l.map key).dedup := by
  have hkeys : ∀ k ∈ (l.map key).dedup, ∃ b, f (l.filter fun a => key a = k) = some b ∧ R b k :=
    fun k hk => h k (List.mem_dedup.1 hk)
  unfold groupBy
  generalize (l.map key).dedup = ks at hkeys
  induction ks with
  | nil => exact .nil
  | cons k ks ih =>
    obtain ⟨⟨b, hb, hR⟩, hrest⟩ := List.forall_mem_cons.1 hkeys
    rw [List.map_cons, List.filterMap_cons_some hb]
    exact .cons hR (ih hrest)

/-- So there are as many groups as keys. -/
theorem length_groups {key : α → κ} {f : List α → Option β} {l : List α}
    (h : ∀ rows, rows ≠ [] → (f rows).isSome = true) :
    ((groupBy key l).filterMap f).length = countDistinct key l := by
  refine (forall₂_groupBy (R := fun _ _ => True) fun k hk => ?_).length_eq
  obtain ⟨a, ha, hkey⟩ := List.mem_map.1 hk
  have hmem : a ∈ l.filter fun a => key a = k := List.mem_filter.2 ⟨ha, decide_eq_true hkey⟩
  obtain ⟨b, hb⟩ := Option.isSome_iff_exists.1 (h _ (List.ne_nil_of_mem hmem))
  exact ⟨b, hb, trivial⟩

/-- **Nothing is lost between groups.** -/
theorem sum_groups [AddCommMonoid M] (key : α → κ) (w : α → M) (l : List α) :
    ((l.map key).dedup.map fun k => ((l.filter fun a => key a = k).map w).sum).sum =
      (l.map w).sum := by
  have hmem : ∀ a ∈ l, key a ∈ (l.map key).dedup := fun a ha =>
    List.mem_dedup.2 (List.mem_map_of_mem ha)
  have hks := List.nodup_dedup (l.map key)
  generalize (l.map key).dedup = ks at hmem hks
  rw [← List.sum_toFinset _ hks]
  induction l with
  | nil => exact Finset.sum_const_zero
  | cons a l ih =>
    obtain ⟨ha, hl⟩ := List.forall_mem_cons.1 hmem
    have hsplit : ∀ k, (((a :: l).filter fun a => key a = k).map w).sum =
        (if key a = k then w a else 0) + ((l.filter fun a => key a = k).map w).sum := by
      intro k
      by_cases hk : key a = k
      · rw [List.filter_cons_of_pos (by simpa using hk), List.map_cons, List.sum_cons, if_pos hk]
      · rw [List.filter_cons_of_neg (by simpa using hk), if_neg hk, zero_add]
    rw [Finset.sum_congr rfl fun k _ => hsplit k, Finset.sum_add_distrib, ih hl,
      Finset.sum_ite_eq, if_pos (List.mem_toFinset.2 ha), List.map_cons, List.sum_cons]

/-- **A row is found under its key**, where one is. -/
theorem map_find? {L : List β} {ks : List κ} {keyOf : β → κ} {M : Type*} {val : β → M} {g : κ → M}
    (h : List.Forall₂ (fun b k => keyOf b = k ∧ val b = g k) L ks) (k : κ) :
    (L.find? fun b => decide (keyOf b = k)).map val = if k ∈ ks then some (g k) else none := by
  induction h with
  | nil => rfl
  | @cons b k' L ks hb _ ih =>
    by_cases hk : keyOf b = k
    · have hsame : k = k' := hk.symm.trans hb.1
      rw [List.find?_cons_of_pos (by simpa using hk), if_pos (hsame ▸ List.mem_cons_self), hsame]
      exact congrArg some hb.2
    · have hne : k ≠ k' := fun heq => hk (hb.1.trans heq.symm)
      rw [List.find?_cons_of_neg (by simpa using hk), ih]
      exact if_congr (by rw [List.mem_cons, or_iff_right hne]) rfl rfl

end Groups

/-! ## Order -/

/-- `ORDER BY … ASC` -/
def asc [Ord κ] (key : α → κ) (a b : α) : Ordering := compare (key a) (key b)

/-- `ORDER BY … DESC` -/
def desc [Ord κ] (key : α → κ) (a b : α) : Ordering := compare (key b) (key a)

/-- `ORDER BY`, which leaves ties as they come. -/
def orderBy (order : α → α → Ordering) (l : List α) : List α :=
  l.mergeSort fun a b => (order a b).isLE

/-- `MAX`, in an order. -/
def greatest? (order : α → α → Ordering) (l : List α) : Option α :=
  l.foldl (fun best a => match best with
    | none => some a
    | some b => if order b a = .lt then some a else some b) none

/-- **What is ordered and cut still stands for keys**, in some order of them. -/
theorem forall₂_orderBy {R : α → κ → Prop} {l : List α} {ks : List κ} (h : List.Forall₂ R l ks)
    (order : α → α → Ordering) : ∃ ks' : List κ, ks'.Perm ks ∧ List.Forall₂ R (orderBy order l) ks' := by
  obtain ⟨ks', hks, hperm⟩ := List.perm_comp_forall₂ (List.mergeSort_perm l _) h
  exact ⟨ks', hperm, hks⟩

/-- The greatest of equal ones is that one. -/
theorem greatest?_filterMap {order : β → β → Ordering} {f : α → Option β} {x : Option β}
    {l : List α} (hl : l ≠ []) (h : ∀ a ∈ l, f a = x) : greatest? order (l.filterMap f) = x := by
  have hstay : ∀ (b : β) (l : List α), (∀ a ∈ l, f a = some b) →
      greatest? order (b :: l.filterMap f) = some b := by
    intro b l
    induction l with
    | nil => exact fun _ => rfl
    | cons a l ih =>
      intro hall
      obtain ⟨ha, hrest⟩ := List.forall_mem_cons.1 hall
      rw [List.filterMap_cons_some ha]
      simpa only [greatest?, List.foldl_cons, ite_self] using ih hrest
  cases x with
  | none =>
    rw [List.filterMap_eq_nil_iff.2 h]
    rfl
  | some b =>
    obtain ⟨a, l, rfl⟩ := List.exists_cons_of_ne_nil hl
    obtain ⟨ha, hrest⟩ := List.forall_mem_cons.1 h
    rw [List.filterMap_cons_some ha]
    exact hstay b l hrest

end Query
