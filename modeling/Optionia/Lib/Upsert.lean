import Mathlib.Data.Finset.Card
import Mathlib.Data.List.Basic
/-!
# Rows under a unique key

A table whose rows have a key, or none where the key does not count (a row
that is marked deleted), and in which no key is twice. A row is inserted unless
its key is there: a batch adds as many rows as it has keys that were missing
(`upsertAll_eq`), however often it names them, and as many as are found need no
row (`countP_key_mem`).
-/

namespace Upsert

variable {α κ : Type*} [DecidableEq κ] (key : α → Option κ)

def keys (rows : List α) : List κ := rows.filterMap key

def Unique (rows : List α) : Prop := (keys key rows).Nodup

instance : DecidablePred (Unique key) := fun rows =>
  inferInstanceAs (Decidable (keys key rows).Nodup)

/-- A row, unless its key is there. -/
def upsert (rows : List α) (a : α) : List α :=
  if ∃ k ∈ key a, k ∈ keys key rows then rows else rows ++ [a]

def upsertAll (rows batch : List α) : List α := batch.foldl (upsert key) rows

/-- Which of some keys are not there. -/
def missing (rows : List α) (ks : List κ) : Finset κ := ks.toFinset \ (keys key rows).toFinset

def found (rows : List α) (ks : List κ) : Finset κ := ks.toFinset ∩ (keys key rows).toFinset

variable {key} {rows : List α} {a : α} {k : κ}

omit [DecidableEq κ] in
theorem keys_append (rows rows' : List α) :
    keys key (rows ++ rows') = keys key rows ++ keys key rows' := List.filterMap_append

/-- **An insertion keeps the keys apart.** -/
theorem Unique.upsert (h : Unique key rows) (a : α) : Unique key (upsert key rows a) := by
  unfold Upsert.upsert
  split_ifs with hthere
  · exact h
  · unfold Unique
    rw [keys_append]
    refine List.nodup_append.2 ⟨h, ?_, fun k hk k' hk' heq => ?_⟩
    · unfold keys
      cases hkey : key a with
      | none => rw [List.filterMap_cons_none hkey]; exact List.nodup_nil
      | some k => rw [List.filterMap_cons_some hkey]; exact List.nodup_singleton k
    · obtain ⟨b, hb, hkey⟩ := List.mem_filterMap.1 hk'
      cases List.mem_singleton.1 hb
      exact hthere ⟨k', hkey, heq ▸ hk⟩

theorem Unique.upsertAll (h : Unique key rows) (batch : List α) :
    Unique key (upsertAll key rows batch) := by
  unfold Upsert.upsertAll
  induction batch generalizing rows with
  | nil => exact h
  | cons a batch ih => exact ih (h.upsert a)

omit [DecidableEq κ] in
/-- Rows that lose their key leave the others apart. -/
theorem Unique.map (h : Unique key rows) {f : α → α}
    (hf : ∀ a, key (f a) = key a ∨ key (f a) = none) : Unique key (rows.map f) := by
  have hsub : (keys key (rows.map f)).Sublist (keys key rows) := by
    unfold keys
    induction rows with
    | nil => exact List.Sublist.refl _
    | cons a rows ih =>
      have ih := ih (List.Nodup.sublist ((List.sublist_cons_self a rows).filterMap key) h)
      rw [List.map_cons, List.filterMap_cons, List.filterMap_cons]
      rcases hf a with heq | hnone
      · rw [heq]
        cases key a with
        | none => exact ih
        | some k => exact ih.cons_cons k
      · rw [hnone]
        cases key a with
        | none => exact ih
        | some k => exact ih.cons k
  exact List.Nodup.sublist hsub h

omit [DecidableEq κ] in
theorem Unique.filter (h : Unique key rows) (p : α → Bool) : Unique key (rows.filter p) :=
  List.Nodup.sublist (List.filter_sublist.filterMap key) h

/-- **A batch adds a row for each key that was missing**, and after the rows
that there were. -/
theorem upsertAll_eq (key : α → Option κ) (rows batch : List α) (hkey : ∀ a ∈ batch, (key a).isSome) :
    ∃ added, upsertAll key rows batch = rows ++ added ∧ (∀ a ∈ added, a ∈ batch) ∧
      added.length = (missing key rows (keys key batch)).card := by
  induction batch generalizing rows with
  | nil => exact ⟨[], (List.append_nil rows).symm, fun _ h => h, by simp [missing, keys]⟩
  | cons a batch ih =>
    obtain ⟨k, hk⟩ := Option.isSome_iff_exists.1 (hkey a List.mem_cons_self)
    have hkeys : keys key (a :: batch) = k :: keys key batch := List.filterMap_cons_some hk
    have hrest := fun b hb => hkey b (List.mem_cons_of_mem a hb)
    change ∃ added, upsertAll key (upsert key rows a) batch = _ ∧ _
    by_cases hthere : k ∈ keys key rows
    · -- The key is there: nothing is added for it.
      have hrows : upsert key rows a = rows := if_pos ⟨k, hk, hthere⟩
      obtain ⟨added, heq, hmem, hlength⟩ := ih rows hrest
      refine ⟨added, by rw [hrows, heq], fun b hb => List.mem_cons_of_mem a (hmem b hb), ?_⟩
      rw [hlength, hkeys]
      unfold missing
      rw [List.toFinset_cons, Finset.insert_sdiff_of_mem _ (List.mem_toFinset.2 hthere)]
    · -- It is not: from here on it is.
      have hrows : upsert key rows a = rows ++ [a] := if_neg fun ⟨k', hk', hmem⟩ =>
        hthere (Option.some_injective κ (hk'.symm.trans hk) ▸ hmem)
      obtain ⟨added, heq, hmem, hlength⟩ := ih (rows ++ [a]) hrest
      refine ⟨a :: added, by rw [hrows, heq, List.append_assoc, List.singleton_append], ?_, ?_⟩
      · intro b hb
        rcases List.mem_cons.1 hb with rfl | hb
        · exact List.mem_cons_self
        · exact List.mem_cons_of_mem a (hmem b hb)
      · have hsingle : keys key [a] = [k] := List.filterMap_cons_some hk
        have hnot : k ∉ (keys key rows).toFinset := fun h => hthere (List.mem_toFinset.1 h)
        rw [List.length_cons, hlength, hkeys]
        unfold missing
        rw [keys_append, hsingle, List.toFinset_append, List.toFinset_cons, List.toFinset_cons,
          List.toFinset_nil, Finset.insert_sdiff_of_notMem _ hnot,
          ← Finset.card_insert_of_notMem (a := k)]
        · congr 1
          ext k'
          simp only [Finset.mem_insert, Finset.mem_sdiff, Finset.mem_union, Finset.notMem_empty,
            or_false]
          tauto
        · simp

theorem card_found_add_card_missing (key : α → Option κ) (rows : List α) (ks : List κ) :
    (found key rows ks).card + (missing key rows ks).card = ks.toFinset.card := by
  unfold found missing
  exact Finset.card_inter_add_card_sdiff _ _

/-- **The rows of some keys are as many as are found.** -/
theorem countP_key_mem (h : Unique key rows) (ks : List κ) :
    (rows.countP fun a => (key a).any (· ∈ ks)) = (found key rows ks).card := by
  have hcount : (rows.countP fun a => (key a).any (· ∈ ks)) =
      ((keys key rows).filter (· ∈ ks)).length := by
    unfold keys
    rw [← List.countP_eq_length_filter, List.countP_filterMap]
    refine List.countP_congr fun a _ => ?_
    cases key a with
    | none => rfl
    | some k => rfl
  have hfound : found key rows ks = ((keys key rows).filter (· ∈ ks)).toFinset := by
    unfold found
    ext k
    simp only [Finset.mem_inter, List.mem_toFinset, List.mem_filter, decide_eq_true_eq, and_comm]
  rw [hcount, hfound, List.toFinset_card_of_nodup (List.Nodup.filter _ h)]

end Upsert
