import Mathlib.Algebra.BigOperators.Group.List.Basic
import Mathlib.Algebra.Order.Ring.Nat
import Mathlib.Data.Fintype.EquivFin
import Mathlib.Data.List.Nodup
/-!
# Tables with a primary key

Rows of which no two have one key. A row is added unless its key is taken, and
an update that leaves keys alone is an update of the table. Of a key there is
one row at most, so what an update of it does to a sum over the rows is what it
does to that row (`sum_modify`).
-/

namespace Keyed

variable {α κ : Type*}

/-- Rows of which no two have one key. -/
structure Table (key : α → κ) where
  rows : List α
  keyed : (rows.map key).Nodup

namespace Table

variable {key : α → κ} {t t' : Table key} {a b : α} {k : κ} {fits : α → Bool} {f : α → α}

/-- Rewrite the rows that fit, and leave their keys alone. -/
def modify (t : Table key) (fits : α → Bool) (f : α → α) (hf : ∀ a, key (f a) = key a) :
    Table key where
  rows := t.rows.map fun a => if fits a then f a else a
  keyed := by
    have hkey : ∀ a, key (if fits a then f a else a) = key a := by
      intro a
      split_ifs
      · exact hf a
      · rfl
    have hkeys : (t.rows.map fun a => if fits a then f a else a).map key = t.rows.map key := by
      rw [List.map_map]
      exact List.map_congr_left fun a _ => hkey a
    rw [hkeys]
    exact t.keyed

/-- Add a row, unless its key is taken. -/
def insert? [DecidableEq κ] (t : Table key) (a : α) : Option (Table key) :=
  if htaken : key a ∈ t.rows.map key then none
  else some
    { rows := t.rows ++ [a]
      keyed := by
        rw [List.map_append, List.map_singleton]
        refine t.keyed.append (List.nodup_singleton _) fun k hk ha => ?_
        rw [List.mem_singleton.1 ha] at hk
        exact htaken hk }

theorem rows_insert? [DecidableEq κ] (h : t.insert? a = some t') : t'.rows = t.rows ++ [a] := by
  unfold insert? at h
  split at h
  · simp at h
  · rw [← Option.some.inj h]

theorem eq_of_key (ha : a ∈ t.rows) (hb : b ∈ t.rows) (h : key a = key b) : a = b :=
  List.inj_on_of_nodup_map t.keyed ha hb h

theorem countP_key_le [DecidableEq κ] (t : Table key) (k : κ) :
    t.rows.countP (fun a => key a = k) ≤ 1 := by
  have hcount := List.nodup_iff_count_le_one.1 t.keyed k
  rw [List.count, List.countP_map] at hcount
  refine Nat.le_trans (List.countP_mono_left fun a _ hk => ?_) hcount
  simpa using hk

/-- **What an update of one key does to a sum** is what it does to its row. -/
theorem sum_modify [DecidableEq κ] (hf : ∀ a, key (f a) = key a) (v : α → ℕ) (ha : a ∈ t.rows)
    (hk : key a = k) :
    ((t.modify (fun a => key a = k) f hf).rows.map v).sum + v a =
      (t.rows.map v).sum + v (f a) := by
  obtain ⟨before, after, hsplit⟩ := List.append_of_mem ha
  have hnodup := t.keyed
  rw [hsplit, List.map_append, List.map_cons] at hnodup
  have hothers : ∀ b ∈ before ++ after, key b ≠ k := by
    intro b hb heq
    have hnot := (List.nodup_cons.1 (List.nodup_middle.1 hnodup)).1
    rw [← List.map_append] at hnot
    have hmem : key a ∈ (before ++ after).map key := by
      rw [hk, ← heq]
      exact List.mem_map_of_mem hb
    exact hnot hmem
  have hsame : ∀ rows : List α, (∀ b ∈ rows, key b ≠ k) →
      (rows.map fun b => if decide (key b = k) then f b else b).map v = rows.map v := by
    intro rows hrows
    rw [List.map_map]
    refine List.map_congr_left fun b hb => ?_
    have hne : ¬ key b = k := hrows b hb
    simp [hne]
  have hbefore := hsame before fun b hb => hothers b (List.mem_append_left _ hb)
  have hafter := hsame after fun b hb => hothers b (List.mem_append_right _ hb)
  unfold modify
  dsimp only
  rw [hsplit, List.map_append, List.map_append, List.map_cons, List.map_cons, hbefore, hafter,
    List.map_append, List.map_cons, if_pos (decide_eq_true hk)]
  simp only [List.sum_append, List.sum_cons]
  omega

end Table

theorem exists_fresh (ids : List ℕ) : ∃ id, id ∉ ids := by
  obtain ⟨id, hid⟩ := Infinite.exists_notMem_finset ids.toFinset
  exact ⟨id, fun hmem => hid (List.mem_toFinset.2 hmem)⟩

end Keyed
