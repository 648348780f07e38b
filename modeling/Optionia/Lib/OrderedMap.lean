import Mathlib.Data.List.Basic
import Mathlib.Data.List.Nodup
import Mathlib.Data.Set.Defs
/-!
# Insertion-ordered maps

The associative array of a scripting language: entries in the order their
keys were first written, one entry a key. Writing a key that is present
replaces its value where it stands, writing a new one appends it, and
erasing leaves the others in their order. The invariant is a field, so a
map with a repeated key cannot be built.
-/

/-- A map whose entries keep the order their keys were first written in. -/
structure OrderedMap (κ α : Type*) where
  entries : List (κ × α)
  nodup : (entries.map Prod.fst).Nodup

namespace OrderedMap

variable {κ α β : Type*}

@[ext] theorem ext {m m' : OrderedMap κ α} (h : m.entries = m'.entries) : m = m' := by
  cases m; cases m'; cases h; rfl

instance [DecidableEq κ] [DecidableEq α] : DecidableEq (OrderedMap κ α) := fun m m' =>
  decidable_of_iff (m.entries = m'.entries) ⟨ext, congrArg entries⟩

def empty : OrderedMap κ α := ⟨[], List.nodup_nil⟩

instance : EmptyCollection (OrderedMap κ α) := ⟨empty⟩

instance : Inhabited (OrderedMap κ α) := ⟨empty⟩

@[simp] theorem entries_empty : (∅ : OrderedMap κ α).entries = [] := rfl

def keys (m : OrderedMap κ α) : List κ := m.entries.map Prod.fst

/-- The values, in the order of their keys. -/
def values (m : OrderedMap κ α) : List α := m.entries.map Prod.snd

@[simp] theorem keys_empty : (∅ : OrderedMap κ α).keys = [] := rfl

theorem keys_nodup (m : OrderedMap κ α) : m.keys.Nodup := m.nodup

variable [DecidableEq κ]

def get? (m : OrderedMap κ α) (k : κ) : Option α := m.entries.lookup k

@[simp] theorem get?_empty (k : κ) : (∅ : OrderedMap κ α).get? k = none := rfl

theorem isSome_get? {m : OrderedMap κ α} {k : κ} : (m.get? k).isSome ↔ k ∈ m.keys := by
  rw [get?, List.lookup_isSome_iff, keys, List.mem_map]
  constructor
  · rintro ⟨p, hp, hk⟩
    exact ⟨p, hp, (beq_iff_eq.1 hk).symm⟩
  · rintro ⟨p, hp, rfl⟩
    exact ⟨p, hp, beq_self_eq_true _⟩

theorem get?_eq_none {m : OrderedMap κ α} {k : κ} : m.get? k = none ↔ k ∉ m.keys := by
  rw [← isSome_get?, Option.not_isSome_iff_eq_none]

theorem mem_keys_of_get? {m : OrderedMap κ α} {k : κ} {a : α} (h : m.get? k = some a) :
    k ∈ m.keys := isSome_get?.1 (by rw [h]; rfl)

theorem lookup_of_mem : ∀ {l : List (κ × α)} {k : κ} {a : α}, (l.map Prod.fst).Nodup →
    (k, a) ∈ l → l.lookup k = some a := by
  intro l k a hnd hmem
  induction l with
  | nil => simp at hmem
  | cons p l ih =>
    obtain ⟨k', b⟩ := p
    rw [List.map_cons, List.nodup_cons] at hnd
    rcases List.mem_cons.1 hmem with h | h
    · obtain ⟨rfl, rfl⟩ := Prod.mk.inj h
      exact List.lookup_cons_self
    · have hne : k ≠ k' := fun he => hnd.1 (he ▸ List.mem_map.2 ⟨_, h, rfl⟩)
      rw [List.lookup_cons, beq_false_of_ne hne]
      exact ih hnd.2 h

/-- **A lookup is membership.** -/
theorem get?_eq_some {m : OrderedMap κ α} {k : κ} {a : α} :
    m.get? k = some a ↔ (k, a) ∈ m.entries := by
  refine ⟨fun h => ?_, lookup_of_mem m.nodup⟩
  obtain ⟨l₁, l₂, hl, -⟩ := List.lookup_eq_some_iff.1 h
  rw [hl]
  exact List.mem_append_right _ List.mem_cons_self

/-! ## Writing -/

/-- The entries after writing `a` under `k`. -/
def setEntries : List (κ × α) → κ → α → List (κ × α)
  | [], k, a => [(k, a)]
  | (k', b) :: l, k, a => if k' = k then (k, a) :: l else (k', b) :: setEntries l k a

theorem map_fst_setEntries (l : List (κ × α)) (k : κ) (a : α) :
    (setEntries l k a).map Prod.fst =
      if k ∈ l.map Prod.fst then l.map Prod.fst else l.map Prod.fst ++ [k] := by
  induction l with
  | nil => rfl
  | cons p l ih =>
    obtain ⟨k', b⟩ := p
    by_cases h : k' = k
    · subst h
      simp [setEntries]
    · simp only [setEntries, if_neg h, List.map_cons, ih, List.mem_cons]
      by_cases hm : k ∈ l.map Prod.fst
      · rw [if_pos hm, if_pos (Or.inr hm)]
      · rw [if_neg hm, if_neg (fun hk => hk.elim (fun he => h he.symm) hm)]
        rfl

theorem nodup_setEntries {l : List (κ × α)} {k : κ} {a : α} (h : (l.map Prod.fst).Nodup) :
    ((setEntries l k a).map Prod.fst).Nodup := by
  rw [map_fst_setEntries]
  split
  · exact h
  · rename_i hk
    exact h.append (List.nodup_singleton k) (by simpa using hk)

/-- The map after writing `a` under `k`. -/
def set (m : OrderedMap κ α) (k : κ) (a : α) : OrderedMap κ α :=
  ⟨setEntries m.entries k a, nodup_setEntries m.nodup⟩

theorem lookup_setEntries (l : List (κ × α)) (k : κ) (a : α) (k' : κ) :
    (setEntries l k a).lookup k' = if k' = k then some a else l.lookup k' := by
  induction l with
  | nil =>
    by_cases h : k' = k
    · simp [setEntries, h]
    · simp [setEntries, h]
  | cons p l ih =>
    obtain ⟨k₀, b⟩ := p
    by_cases h₀ : k₀ = k
    · subst h₀
      by_cases h : k' = k₀
      · simp [setEntries, h]
      · simp [setEntries, h, List.lookup_cons, beq_false_of_ne h]
    · simp only [setEntries, if_neg h₀, List.lookup_cons, ih]
      by_cases h : k' = k₀
      · simp [h, h₀]
      · simp [beq_false_of_ne h]

/-- **Reading after writing.** -/
theorem get?_set (m : OrderedMap κ α) (k : κ) (a : α) (k' : κ) :
    (m.set k a).get? k' = if k' = k then some a else m.get? k' :=
  lookup_setEntries m.entries k a k'

@[simp] theorem get?_set_self (m : OrderedMap κ α) (k : κ) (a : α) :
    (m.set k a).get? k = some a := by rw [get?_set, if_pos rfl]

variable {k' : κ} {ks : List κ}

theorem get?_set_ne (m : OrderedMap κ α) {k : κ} (a : α) (h : k' ≠ k) :
    (m.set k a).get? k' = m.get? k' := by rw [get?_set, if_neg h]

theorem get?_set_eq_some {m : OrderedMap κ α} {k : κ} {a b : α} :
    (m.set k a).get? k' = some b ↔ k' = k ∧ a = b ∨ k' ≠ k ∧ m.get? k' = some b := by
  rw [get?_set]
  by_cases h : k' = k
  · rw [if_pos h, Option.some_inj, and_iff_right h, or_iff_left fun h' => h'.1 h]
  · rw [if_neg h, and_iff_right h, or_iff_right fun h' => h h'.1]

theorem get?_set_empty_eq_some {k : κ} {a b : α} :
    ((∅ : OrderedMap κ α).set k a).get? k' = some b ↔ k' = k ∧ a = b := by
  rw [get?_set_eq_some, get?_empty]
  exact or_iff_left fun h => Option.some_ne_none _ h.2.symm

theorem keys_set (m : OrderedMap κ α) (k : κ) (a : α) :
    (m.set k a).keys = if k ∈ m.keys then m.keys else m.keys ++ [k] :=
  map_fst_setEntries m.entries k a

@[simp] theorem mem_keys_set {m : OrderedMap κ α} {k : κ} {a : α} :
    k' ∈ (m.set k a).keys ↔ k' = k ∨ k' ∈ m.keys := by
  rw [keys_set]
  split
  · rename_i hk
    exact ⟨Or.inr, fun h => h.elim (fun he => he ▸ hk) id⟩
  · simp [or_comm]

theorem entries_set_of_not_mem {m : OrderedMap κ α} {k : κ} {a : α} (h : k ∉ m.keys) :
    (m.set k a).entries = m.entries ++ [(k, a)] := by
  obtain ⟨l, hl⟩ := m
  change setEntries l k a = l ++ [(k, a)]
  change k ∉ l.map Prod.fst at h
  clear hl
  induction l with
  | nil => rfl
  | cons p l ih =>
    rw [List.map_cons, List.mem_cons, not_or] at h
    rw [setEntries, if_neg fun he => h.1 he.symm, ih h.2]
    rfl

theorem setEntries_setEntries (l : List (κ × α)) (k : κ) (a b : α) :
    setEntries (setEntries l k a) k b = setEntries l k b := by
  induction l with
  | nil =>
    change setEntries [(k, a)] k b = [(k, b)]
    rw [setEntries, if_pos rfl]
  | cons p l ih =>
    rw [setEntries, setEntries]
    by_cases h : p.1 = k
    · rw [if_pos h, if_pos h, setEntries, if_pos rfl]
    · rw [if_neg h, if_neg h, setEntries, if_neg h, ih]

@[simp] theorem set_set (m : OrderedMap κ α) (k : κ) (a b : α) : (m.set k a).set k b = m.set k b :=
  ext (setEntries_setEntries m.entries k a b)

/-- Writes under two keys commute, where the first is there. -/
theorem set_comm_of_mem {m : OrderedMap κ α} {k : κ} (hk : k ∈ m.keys) (h : k' ≠ k) (b c : α) :
    (m.set k' b).set k c = (m.set k c).set k' b := by
  refine ext ?_
  obtain ⟨l, hl⟩ := m
  change k ∈ l.map Prod.fst at hk
  change setEntries (setEntries l k' b) k c = setEntries (setEntries l k c) k' b
  clear hl
  induction l with
  | nil => simp at hk
  | cons p l ih =>
    rw [setEntries, setEntries]
    by_cases hp : p.1 = k
    · rw [if_pos hp, if_neg fun hp' => h (hp'.symm.trans hp), setEntries, if_pos hp, setEntries,
        if_neg h.symm]
    · rw [if_neg hp]
      by_cases hp' : p.1 = k'
      · rw [if_pos hp', setEntries, if_neg h, setEntries, if_pos hp']
      · rw [if_neg hp', setEntries, if_neg hp, setEntries, if_neg hp',
          ih ((List.mem_cons.1 hk).resolve_left (Ne.symm hp))]

/-- A key is written on the side where it stands. -/
theorem setEntries_append (l m : List (κ × α)) (k : κ) (a : α) :
    setEntries (l ++ m) k a =
      if k ∈ l.map Prod.fst then setEntries l k a ++ m else l ++ setEntries m k a := by
  induction l with
  | nil => rfl
  | cons p l ih =>
    rw [List.cons_append, setEntries, setEntries, ih, List.map_cons]
    by_cases h : p.1 = k
    · rw [if_pos h, if_pos h, if_pos (List.mem_cons.2 (Or.inl h.symm))]
      rfl
    · rw [if_neg h, if_neg h]
      by_cases hk : k ∈ l.map Prod.fst
      · rw [if_pos hk, if_pos (List.mem_cons_of_mem _ hk)]
        rfl
      · rw [if_neg hk, if_neg fun hmem => hk ((List.mem_cons.1 hmem).resolve_left (Ne.symm h))]
        rfl

theorem exists_entries_set (m : OrderedMap κ α) (k : κ) :
    ∃ before after, ∀ a, (m.set k a).entries = before ++ (k, a) :: after := by
  obtain ⟨l, hl⟩ := m
  change ∃ before after, ∀ a, setEntries l k a = before ++ (k, a) :: after
  clear hl
  induction l with
  | nil => exact ⟨[], [], fun _ => rfl⟩
  | cons p l ih =>
    by_cases h : p.1 = k
    · exact ⟨[], l, fun a => by rw [setEntries, if_pos h]; rfl⟩
    · obtain ⟨before, after, hset⟩ := ih
      exact ⟨p :: before, after, fun a => by rw [setEntries, if_neg h, hset]; rfl⟩

def setAll (m : OrderedMap κ α) (l : List (κ × α)) : OrderedMap κ α :=
  l.foldl (fun m p => m.set p.1 p.2) m

theorem entries_setAll_of_nodup {m : OrderedMap κ α} {l : List (κ × α)}
    (h : (m.keys ++ l.map Prod.fst).Nodup) : (m.setAll l).entries = m.entries ++ l := by
  induction l generalizing m with
  | nil => exact (List.append_nil _).symm
  | cons p l ih =>
    have hnew : p.1 ∉ m.keys := fun hmem =>
      List.disjoint_of_nodup_append h hmem List.mem_cons_self
    have hentries := entries_set_of_not_mem (a := p.2) hnew
    have hkeys : (m.set p.1 p.2).keys = m.keys ++ [p.1] := by
      unfold keys
      rw [hentries, List.map_append]
      rfl
    have hrest := @ih (m.set p.1 p.2) (by rwa [hkeys, List.append_assoc, List.singleton_append])
    exact hrest.trans (by rw [hentries, List.append_assoc, List.singleton_append])

/-- **Writes under other keys leave what is under one**, and it can as well be
written before them. -/
theorem setAll_of_get? {m : OrderedMap κ α} {k : κ} {a : α} (hm : m.get? k = some a) (c : α)
    {l : List (κ × α)} (hl : ∀ p ∈ l, p.1 ≠ k) :
    (m.setAll l).get? k = some a ∧ (m.setAll l).set k c = (m.set k c).setAll l := by
  induction l generalizing m with
  | nil => exact ⟨hm, rfl⟩
  | cons p l ih =>
    have hp := hl p List.mem_cons_self
    have hread : (m.set p.1 p.2).get? k = some a := by rw [get?_set_ne _ _ hp.symm, hm]
    obtain ⟨hget, hset⟩ := ih hread fun q hq => hl q (List.mem_cons_of_mem p hq)
    refine ⟨hget, hset.trans ?_⟩
    rw [set_comm_of_mem (mem_keys_of_get? hm) hp]
    rfl

/-- Writes under other keys leave the place of what is under one. -/
theorem exists_entries_setAll (m : OrderedMap κ α) (k : κ) {l : List (κ × α)}
    (hl : ∀ p ∈ l, p.1 ≠ k) :
    ∃ before after, ∀ a, ((m.set k a).setAll l).entries = before ++ (k, a) :: after := by
  obtain ⟨before, after, hentries⟩ := m.exists_entries_set k
  -- The place is followed from write to write, whatever stands in it.
  have hplace : ∀ (l : List (κ × α)), (∀ p ∈ l, p.1 ≠ k) → ∀ before after : List (κ × α),
      ∃ before' after', ∀ (a : α) (n : OrderedMap κ α), n.entries = before ++ (k, a) :: after →
        (n.setAll l).entries = before' ++ (k, a) :: after' := by
    intro l
    induction l with
    | nil => exact fun _ before after => ⟨before, after, fun _ _ h => h⟩
    | cons p l ih =>
      intro hl before after
      have hp := hl p List.mem_cons_self
      have hrest : ∀ q ∈ l, q.1 ≠ k := fun q hq => hl q (List.mem_cons_of_mem p hq)
      by_cases hmem : p.1 ∈ before.map Prod.fst
      · obtain ⟨before', after', hplace⟩ := ih hrest (setEntries before p.1 p.2) after
        refine ⟨before', after', fun a n hn => hplace a _ ?_⟩
        change setEntries n.entries p.1 p.2 = _
        rw [hn, setEntries_append, if_pos hmem]
      · obtain ⟨before', after', hplace⟩ := ih hrest before (setEntries after p.1 p.2)
        refine ⟨before', after', fun a n hn => hplace a _ ?_⟩
        change setEntries n.entries p.1 p.2 = _
        rw [hn, setEntries_append, if_neg hmem, setEntries, if_neg hp.symm]
  obtain ⟨before', after', hsame⟩ := hplace l hl before after
  exact ⟨before', after', fun a => hsame a _ (hentries a)⟩

/-! ## Accumulating under keys -/

/-- The value under a key, or a default. -/
def getD (m : OrderedMap κ α) (k : κ) (d : α) : α := (m.get? k).getD d

/-- The map with the value under `k`, or the default there, changed by `f`. -/
def update (m : OrderedMap κ α) (d : α) (k : κ) (f : α → α) : OrderedMap κ α :=
  m.set k (f (m.getD k d))

theorem getD_update (m : OrderedMap κ α) (d : α) (k k' : κ) (f : α → α) :
    (m.update d k f).getD k' d = if k' = k then f (m.getD k d) else m.getD k' d := by
  rw [getD, update, get?_set]
  split
  · rfl
  · rfl

/-- **Accumulating a list under its keys is accumulating, at each key, the
items that carry it.** -/
theorem getD_foldl_update (d : α) (key : β → κ) (f : β → α → α) (l : List β)
    (m : OrderedMap κ α) (k : κ) :
    (l.foldl (fun m b => m.update d (key b) (f b)) m).getD k d =
      (l.filter fun b => key b = k).foldl (fun a b => f b a) (m.getD k d) := by
  induction l generalizing m with
  | nil => rfl
  | cons b l ih =>
    rw [List.foldl_cons, ih, getD_update]
    by_cases hb : key b = k
    · rw [if_pos hb.symm, List.filter_cons_of_pos (by simpa using hb), List.foldl_cons, hb]
    · rw [if_neg (fun h => hb h.symm), List.filter_cons_of_neg (by simpa using hb)]

/-! ## Erasing -/

/-- The map without the key `k`. -/
def erase (m : OrderedMap κ α) (k : κ) : OrderedMap κ α :=
  ⟨m.entries.filter (fun p => p.1 ≠ k),
    m.nodup.sublist (List.Sublist.map _ List.filter_sublist)⟩

/-- The map without any of the keys `ks`, erased one after another. -/
def eraseAll (m : OrderedMap κ α) (ks : List κ) : OrderedMap κ α := ks.foldl erase m

/-- **Erasing keys one by one keeps the entries of the others**, in their
order: which keys are erased matters, and not in what order or how often. -/
theorem entries_eraseAll (m : OrderedMap κ α) (ks : List κ) :
    (m.eraseAll ks).entries = m.entries.filter (fun p => p.1 ∉ ks) := by
  induction ks generalizing m with
  | nil => simp [eraseAll]
  | cons k ks ih =>
    have hstep : (m.eraseAll (k :: ks)).entries = ((m.erase k).eraseAll ks).entries := rfl
    rw [hstep, ih, erase, List.filter_filter]
    refine List.filter_congr fun p _ => ?_
    simp [List.mem_cons, Bool.and_comm]

theorem get?_eraseAll (m : OrderedMap κ α) (ks : List κ) (k : κ) :
    (m.eraseAll ks).get? k = if k ∈ ks then none else m.get? k := by
  by_cases h : k ∈ ks
  · rw [if_pos h, get?_eq_none, keys, entries_eraseAll]
    simp only [List.mem_map, List.mem_filter, decide_eq_true_eq, not_exists, not_and]
    rintro p ⟨-, hp⟩ rfl
    exact hp h
  · rw [if_neg h]
    cases hm : m.get? k with
    | none =>
      rw [get?_eq_none, keys, entries_eraseAll] at *
      exact fun hk => hm (List.Sublist.subset (List.Sublist.map _ List.filter_sublist) hk)
    | some a =>
      rw [get?_eq_some, entries_eraseAll, List.mem_filter]
      exact ⟨get?_eq_some.1 hm, by simpa using h⟩

theorem get?_erase (m : OrderedMap κ α) (k k' : κ) :
    (m.erase k).get? k' = if k' = k then none else m.get? k' := by
  have h := get?_eraseAll m [k] k'
  simp only [List.mem_singleton] at h
  exact h

theorem mem_keys_eraseAll {m : OrderedMap κ α} {k : κ} :
    k ∈ (m.eraseAll ks).keys ↔ k ∈ m.keys ∧ k ∉ ks := by
  rw [← isSome_get?, get?_eraseAll, ← isSome_get?]
  by_cases h : k ∈ ks
  · simp [h]
  · simp [h]

theorem eraseAll_congr (m : OrderedMap κ α) {ks' : List κ} (h : ∀ k ∈ m.keys, k ∈ ks ↔ k ∈ ks') :
    m.eraseAll ks = m.eraseAll ks' := by
  refine ext ?_
  rw [entries_eraseAll, entries_eraseAll]
  refine List.filter_congr fun p hp => ?_
  have hk : p.1 ∈ m.keys := List.mem_map_of_mem hp
  simp [h p.1 hk]

/-- **Two erasures of one map agree exactly when they leave the same
keys.** -/
theorem eraseAll_eq_iff (m : OrderedMap κ α) (ks ks' : List κ) :
    m.eraseAll ks = m.eraseAll ks' ↔ ∀ k ∈ m.keys, k ∈ ks ↔ k ∈ ks' := by
  refine ⟨fun h k hk => ?_, m.eraseAll_congr⟩
  have hiff : (k ∈ (m.eraseAll ks).keys) ↔ k ∈ (m.eraseAll ks').keys := by rw [h]
  rw [mem_keys_eraseAll, mem_keys_eraseAll] at hiff
  constructor
  · intro hks
    by_contra hks'
    exact (hiff.2 ⟨hk, hks'⟩).2 hks
  · intro hks'
    by_contra hks
    exact (hiff.1 ⟨hk, hks⟩).2 hks'

/-! ## Leaving out a set of keys -/

open Classical in
/-- The map without the keys of a set. -/
noncomputable def without (m : OrderedMap κ α) (s : Set κ) : OrderedMap κ α :=
  ⟨m.entries.filter (fun p => p.1 ∉ s),
    m.nodup.sublist (List.Sublist.map _ List.filter_sublist)⟩

theorem eraseAll_eq_without (m : OrderedMap κ α) {s : Set κ} (h : ∀ k ∈ m.keys, k ∈ ks ↔ k ∈ s) :
    m.eraseAll ks = m.without s := by
  refine ext ?_
  rw [entries_eraseAll]
  exact List.filter_congr fun p hp =>
    decide_eq_decide.2 (not_congr (h p.1 (List.mem_map_of_mem hp)))

omit [DecidableEq κ] in
/-- Two sets left out of one map leave the same exactly when they hold the
same of its keys. -/
theorem without_eq_iff (m : OrderedMap κ α) {s t : Set κ} :
    m.without s = m.without t ↔ ∀ k ∈ m.keys, k ∈ s ↔ k ∈ t := by
  constructor
  · intro h k hk
    obtain ⟨p, hp, rfl⟩ := List.mem_map.1 hk
    have hiff : p ∈ (m.without s).entries ↔ p ∈ (m.without t).entries := by rw [h]
    simp only [without, List.mem_filter, hp, true_and, decide_eq_true_eq] at hiff
    exact not_iff_not.1 hiff
  · intro h
    exact ext (List.filter_congr fun p hp =>
      decide_eq_decide.2 (not_congr (h p.1 (List.mem_map_of_mem hp))))

@[simp] theorem without_empty (m : OrderedMap κ α) : m.without ∅ = m := by
  have hnone : m.eraseAll [] = m.without ∅ := m.eraseAll_eq_without fun k _ =>
    iff_of_false List.not_mem_nil id
  exact hnone.symm

open Classical in
theorem get?_without (m : OrderedMap κ α) (s : Set κ) (k : κ) :
    (m.without s).get? k = if k ∈ s then none else m.get? k := by
  have hmem : ∀ a, (k, a) ∈ (m.without s).entries ↔ (k, a) ∈ m.entries ∧ k ∉ s := by
    intro a
    simp only [without, List.mem_filter, decide_eq_true_eq]
  refine Option.ext fun a => ?_
  rw [get?_eq_some, hmem]
  by_cases hk : k ∈ s
  · simp [hk]
  · rw [if_neg hk, get?_eq_some]
    exact and_iff_left hk

/-! ## Keeping the keys that pass a test -/

/-- The map's entries under the keys that pass a test. -/
def restrict (m : OrderedMap κ α) (p : κ → Bool) : OrderedMap κ α :=
  ⟨m.entries.filter fun e => p e.1, m.nodup.sublist (List.filter_sublist.map _)⟩

omit [DecidableEq κ] in
theorem restrict_restrict (m : OrderedMap κ α) (p : κ → Bool) :
    (m.restrict p).restrict p = m.restrict p := by
  refine ext ?_
  change (m.entries.filter _).filter _ = m.entries.filter _
  rw [List.filter_filter]
  simp only [Bool.and_self]

/-- Only a key that passes is written. -/
theorem restrict_set (m : OrderedMap κ α) (p : κ → Bool) (k : κ) (a : α) :
    (m.set k a).restrict p = if p k = true then (m.restrict p).set k a else m.restrict p := by
  obtain ⟨l, hl⟩ := m
  have hentries : (setEntries l k a).filter (fun e => p e.1) =
      if p k = true then setEntries (l.filter fun e => p e.1) k a
        else l.filter fun e => p e.1 := by
    clear hl
    induction l with
    | nil => by_cases hk : p k = true <;> simp [setEntries, hk]
    | cons e l ih =>
      obtain ⟨k', b⟩ := e
      by_cases he : k' = k
      · subst he
        by_cases hk : p k' = true <;> simp [setEntries, hk]
      · rw [setEntries, if_neg he]
        by_cases hk : p k = true
        · rw [if_pos hk] at ih ⊢
          by_cases hk' : p k' = true
          · have hpos : ∀ l : List (κ × α), ((k', b) :: l).filter (fun e => p e.1) =
                (k', b) :: l.filter fun e => p e.1 := fun l => List.filter_cons_of_pos hk'
            rw [hpos, hpos, ih, setEntries, if_neg he]
          · have hneg : ∀ l : List (κ × α), ((k', b) :: l).filter (fun e => p e.1) =
                l.filter fun e => p e.1 := fun l => List.filter_cons_of_neg hk'
            rw [hneg, hneg, ih]
        · rw [if_neg hk] at ih ⊢
          rw [List.filter_cons, List.filter_cons, ih]
  refine ext ?_
  change (setEntries l k a).filter (fun e => p e.1) = _
  rw [hentries]
  split
  · rfl
  · rfl

theorem restrict_set_restrict (m : OrderedMap κ α) (p : κ → Bool) (k : κ) (a : α) :
    ((m.restrict p).set k a).restrict p = (m.set k a).restrict p := by
  rw [restrict_set, restrict_set, restrict_restrict]

theorem get?_restrict (m : OrderedMap κ α) {p : κ → Bool} {k : κ} (h : p k = true) :
    (m.restrict p).get? k = m.get? k := by
  refine Option.ext fun a => ?_
  rw [get?_eq_some, get?_eq_some]
  exact List.mem_filter.trans (and_iff_left h)

/-! ## Changing every value -/

/-- The map with `f` applied to every value. -/
def mapValues (f : α → β) (m : OrderedMap κ α) : OrderedMap κ β :=
  ⟨m.entries.map fun p => (p.1, f p.2), by
    rw [List.map_map]
    exact m.nodup⟩

omit [DecidableEq κ] in
@[simp] theorem keys_mapValues (f : α → β) (m : OrderedMap κ α) :
    (m.mapValues f).keys = m.keys := by
  rw [keys, keys, mapValues, List.map_map]
  rfl

theorem get?_mapValues (f : α → β) (m : OrderedMap κ α) (k : κ) :
    (m.mapValues f).get? k = (m.get? k).map f := by
  cases hm : m.get? k with
  | none =>
    rw [Option.map_none, get?_eq_none, keys_mapValues]
    exact get?_eq_none.1 hm
  | some a =>
    refine get?_eq_some.2 ?_
    exact List.mem_map.2 ⟨(k, a), get?_eq_some.1 hm, rfl⟩

theorem mapValues_eraseAll (f : α → β) (m : OrderedMap κ α) (ks : List κ) :
    (m.mapValues f).eraseAll ks = (m.eraseAll ks).mapValues f := by
  refine ext ?_
  rw [entries_eraseAll]
  change (m.entries.map _).filter _ = (m.eraseAll ks).entries.map _
  rw [entries_eraseAll, List.filter_map]
  rfl

omit [DecidableEq κ] in
theorem mapValues_without (f : α → β) (m : OrderedMap κ α) (s : Set κ) :
    (m.mapValues f).without s = (m.without s).mapValues f := by
  refine ext ?_
  change (m.entries.map _).filter _ = (m.entries.filter _).map _
  rw [List.filter_map]
  rfl

/-- The map with the values under some keys changed. -/
def mapAt (m : OrderedMap κ α) (ks : List κ) (f : α → α) : OrderedMap κ α :=
  ⟨m.entries.map fun p => (p.1, if p.1 ∈ ks then f p.2 else p.2), by
    rw [List.map_map]
    exact m.nodup⟩

theorem get?_mapAt (m : OrderedMap κ α) (ks : List κ) (f : α → α) (k : κ) :
    (m.mapAt ks f).get? k = (m.get? k).map fun a => if k ∈ ks then f a else a := by
  cases hm : m.get? k with
  | none =>
    have hkeys : (m.mapAt ks f).keys = m.keys := by
      rw [keys, keys, mapAt, List.map_map]
      rfl
    rw [Option.map_none, get?_eq_none, hkeys]
    exact get?_eq_none.1 hm
  | some a =>
    refine get?_eq_some.2 ?_
    exact List.mem_map.2 ⟨(k, a), get?_eq_some.1 hm, rfl⟩

theorem get?_mapAt_of_mem (m : OrderedMap κ α) (f : α → α) {k : κ} (h : k ∈ ks) :
    (m.mapAt ks f).get? k = (m.get? k).map f := by
  rw [get?_mapAt]
  exact Option.map_congr fun a _ => if_pos h

theorem get?_mapAt_of_not_mem (m : OrderedMap κ α) (f : α → α) {k : κ} (h : k ∉ ks) :
    (m.mapAt ks f).get? k = m.get? k := by
  rw [get?_mapAt]
  exact (Option.map_congr fun a _ => if_neg h).trans Option.map_id'

/-! ## Lists of entries -/

section Entries

variable {l m : List (κ × α)} {k : κ} {a : α}

theorem lookup_eq_some_iff (h : (l.map Prod.fst).Nodup) : l.lookup k = some a ↔ (k, a) ∈ l :=
  get?_eq_some (m := ⟨l, h⟩)

/-- **The order of entries is nothing to a lookup.** -/
theorem lookup_eq_of_perm (h : (l.map Prod.fst).Nodup) (hperm : l.Perm m) :
    l.lookup k = m.lookup k := by
  have hm : (m.map Prod.fst).Nodup := (hperm.map Prod.fst).nodup_iff.1 h
  refine Option.ext fun a => ?_
  rw [lookup_eq_some_iff h, lookup_eq_some_iff hm, hperm.mem_iff]

theorem lookup_filter_key {f : κ → Bool} (hk : f k = true) (l : List (κ × α)) :
    (l.filter fun p => f p.1).lookup k = l.lookup k := by
  induction l with
  | nil => rfl
  | cons p l ih =>
    by_cases hp : f p.1 = true
    · rw [List.filter_cons, if_pos hp, List.lookup_cons, List.lookup_cons, ih]
    · have hne : k ≠ p.1 := fun heq => hp (heq ▸ hk)
      rw [List.filter_cons, if_neg hp, ih, List.lookup_cons, beq_false_of_ne hne]

/-- **What is under a key can be taken to the front.** -/
theorem perm_cons_filter (h : (l.map Prod.fst).Nodup) (hk : l.lookup k = some a) :
    l.Perm ((k, a) :: l.filter fun p => p.1 ≠ k) := by
  induction l with
  | nil => exact nomatch hk
  | cons p l ih =>
    obtain ⟨k', b⟩ := p
    obtain ⟨hnew, hrest⟩ := List.nodup_cons.1 h
    rw [List.lookup_cons] at hk
    by_cases hkey : k = k'
    · subst hkey
      rw [beq_self_eq_true] at hk
      obtain rfl := Option.some.inj hk
      have hothers : (l.filter fun p => p.1 ≠ k) = l := by
        refine List.filter_eq_self.2 fun p hp => decide_eq_true fun heq => hnew ?_
        have hmem : p.1 ∈ l.map Prod.fst := List.mem_map_of_mem hp
        rwa [heq] at hmem
      rw [List.filter_cons_of_neg (by simp), hothers]
    · rw [beq_false_of_ne hkey] at hk
      rw [List.filter_cons_of_pos (by simpa using Ne.symm hkey)]
      exact ((ih hrest hk).cons _).trans (List.Perm.swap _ _ _)

end Entries

end OrderedMap
