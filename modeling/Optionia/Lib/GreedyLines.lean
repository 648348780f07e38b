import Mathlib.Data.List.Basic
import Mathlib.Tactic.SplitIfs
/-!
# Filling lines greedily

A list is cut into lines from its first element on: an element goes on the
line that is being filled, unless the line would be too long with it, and then
it opens the next line. Whether a line is too long is decided by its length
alone. The lines are the list again (`flatten_fill`), none of them is too long
but where it is a single element (`short_of_mem_fill`), and where lines are too
long earlier there are no fewer of them (`length_fill_le`).
-/

namespace GreedyLines

variable {α : Type*}

/-- The lines of what is left, from the line that is being filled. -/
def fill (long : ℕ → Bool) : List α → List α → List (List α)
  | line, [] => [line]
  | line, a :: rest =>
    if line ≠ [] ∧ long (line.length + 1) = true then line :: fill long [a] rest
    else fill long (line ++ [a]) rest

variable {long long' : ℕ → Bool}

/-- **No element is lost.** -/
theorem flatten_fill (line rest : List α) : (fill long line rest).flatten = line ++ rest := by
  induction rest generalizing line with
  | nil => rw [fill, List.flatten_singleton, List.append_nil]
  | cons a rest ih =>
    rw [fill]
    split_ifs
    · rw [List.flatten_cons, ih, List.singleton_append]
    · rw [ih, List.append_assoc, List.singleton_append]

/-- **No line of several elements is too long**, if the one that is being
filled is not. -/
theorem short_of_mem_fill {line rest : List α} (hline : line.length ≤ 1 ∨ long line.length = false) :
    ∀ l ∈ fill long line rest, l.length ≤ 1 ∨ long l.length = false := by
  induction rest generalizing line with
  | nil =>
    intro l hl
    rw [fill, List.mem_singleton] at hl
    rwa [hl]
  | cons a rest ih =>
    rw [fill]
    split_ifs with hbreak
    · intro l hl
      rcases List.mem_cons.1 hl with rfl | hl
      · exact hline
      · exact ih (Or.inl (Nat.le_refl _)) l hl
    · refine ih ?_
      rw [List.length_append, List.length_singleton]
      by_cases hnil : line = []
      · rw [hnil]
        exact Or.inl (Nat.le_refl _)
      · exact Or.inr (Bool.not_eq_true _ ▸ fun h => hbreak ⟨hnil, h⟩)

theorem fill_ne_nil (line rest : List α) : fill long line rest ≠ [] := by
  induction rest generalizing line with
  | nil => exact List.cons_ne_nil _ _
  | cons a rest ih =>
    rw [fill]
    split_ifs
    · exact List.cons_ne_nil _ _
    · exact ih _

/-- A line that was filled without breaking. -/
def Unbroken (long : ℕ → Bool) (line : List α) : Prop :=
  ∀ n, 0 < n → n < line.length → long (n + 1) = false

theorem Unbroken.append {line : List α} (h : Unbroken long line) (a : α)
    (hlong : long (line.length + 1) = false) : Unbroken long (line ++ [a]) := by
  intro n hpos hlt
  rw [List.length_append, List.length_singleton] at hlt
  rcases Nat.lt_succ_iff_lt_or_eq.1 hlt with hlt | rfl
  · exact h n hpos hlt
  · exact hlong

theorem unbroken_singleton (a : α) : Unbroken long [a] := by
  intro n hpos hlt
  rw [List.length_singleton] at hlt
  omega

/-- **Lines that are too long earlier are no fewer**, from lines of which the
one that breaks earlier is no shorter; and from any lines at most one fewer. -/
theorem length_fill_le_aux (hle : ∀ n, long n = true → long' n = true) (rest : List α) :
    ∀ line line' : List α, line ≠ [] → line' ≠ [] → Unbroken long' line' →
      (line.length ≤ line'.length →
        (fill long line rest).length ≤ (fill long' line' rest).length) ∧
      (fill long line rest).length ≤ (fill long' line' rest).length + 1 := by
  induction rest with
  | nil =>
    intro line line' _ _ _
    rw [fill, fill]
    exact ⟨fun _ => Nat.le_refl _, Nat.le_succ _⟩
  | cons a rest ih =>
    intro line line' hne hne' hline'
    have hone : [a] ≠ [] := List.cons_ne_nil a []
    have hmore : line ++ [a] ≠ [] := List.append_ne_nil_of_right_ne_nil _ hone
    have hmore' : line' ++ [a] ≠ [] := List.append_ne_nil_of_right_ne_nil _ hone
    have hpos : 0 < line.length := List.length_pos_iff.2 hne
    have hgrown : (line ++ [a]).length = line.length + 1 := by simp
    have hgrown' : (line' ++ [a]).length = line'.length + 1 := by simp
    rw [fill, fill]
    by_cases hbreak : long (line.length + 1) = true <;>
      by_cases hbreak' : long' (line'.length + 1) = true
    · -- Both open a line.
      rw [if_pos ⟨hne, hbreak⟩, if_pos ⟨hne', hbreak'⟩, List.length_cons, List.length_cons]
      have hrest := (ih [a] [a] hone hone (unbroken_singleton a)).1 (Nat.le_refl _)
      omega
    · -- Only the one that breaks later does: it was the longer.
      have hunbroken := hline'.append a (Bool.not_eq_true _ ▸ hbreak')
      have hrest := (ih [a] (line' ++ [a]) hone hmore' hunbroken).1 (by simp)
      rw [if_pos ⟨hne, hbreak⟩, if_neg fun h => hbreak' h.2, List.length_cons]
      refine ⟨fun hlength => ?_, by omega⟩
      have hlong := hle _ hbreak
      rcases Nat.lt_or_eq_of_le hlength with hlt | heq
      · exact absurd ((hline' _ hpos hlt).symm.trans hlong) Bool.false_ne_true
      · exact absurd (heq ▸ hlong) hbreak'
    · -- Only the one that breaks earlier does.
      have hrest := (ih (line ++ [a]) [a] hmore hone (unbroken_singleton a)).2
      rw [if_neg fun h => hbreak h.2, if_pos ⟨hne', hbreak'⟩, List.length_cons]
      exact ⟨fun _ => hrest, by omega⟩
    · -- Neither does.
      have hunbroken := hline'.append a (Bool.not_eq_true _ ▸ hbreak')
      have hrest := ih (line ++ [a]) (line' ++ [a]) hmore hmore' hunbroken
      rw [if_neg fun h => hbreak h.2, if_neg fun h => hbreak' h.2]
      exact ⟨fun hlength => hrest.1 (by omega), hrest.2⟩

/-- **Where lines are too long earlier, there are no fewer of them.** -/
theorem length_fill_le (hle : ∀ n, long n = true → long' n = true) (rest : List α) :
    (fill long [] rest).length ≤ (fill long' [] rest).length := by
  cases rest with
  | nil => exact Nat.le_refl _
  | cons a rest =>
    have hone : [a] ≠ [] := List.cons_ne_nil a []
    rw [fill, fill, if_neg fun h => h.1 rfl, if_neg fun h => h.1 rfl]
    exact (length_fill_le_aux hle rest [a] [a] hone hone (unbroken_singleton a)).1 (Nat.le_refl _)

end GreedyLines
