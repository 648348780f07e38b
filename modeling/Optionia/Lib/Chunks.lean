import Mathlib.Data.List.Basic
/-!
# A list in chunks

A list cut into chunks of one size, the last of which may be shorter. The
chunks are the list again (`flatten_chunks`); a list with more elements than
fit in one chunk, all distinct, does not have its first in its last chunk
(`head_notMem_last`).
-/

namespace Chunks

variable {α : Type*}

/-- The chunks of a list, of `size + 1` elements each. -/
def chunks (size : ℕ) : List α → List (List α)
  | [] => []
  | a :: l => (a :: l).take (size + 1) :: chunks size ((a :: l).drop (size + 1))
termination_by l => l.length
decreasing_by
  rw [List.length_drop, List.length_cons]
  omega

/-- The last chunk; none of an empty list. -/
def last (size : ℕ) (l : List α) : List α := (chunks size l).getLastD []

@[simp] theorem chunks_nil (size : ℕ) : chunks size ([] : List α) = [] := by rw [chunks]

theorem chunks_cons (size : ℕ) (a : α) (l : List α) :
    chunks size (a :: l) = (a :: l).take (size + 1) :: chunks size ((a :: l).drop (size + 1)) := by
  rw [chunks]

theorem chunks_eq_nil {size : ℕ} {l : List α} : chunks size l = [] ↔ l = [] := by
  cases l with
  | nil => exact iff_of_true (chunks_nil size) rfl
  | cons a l =>
    rw [chunks_cons]
    exact iff_of_false (List.cons_ne_nil _ _) (List.cons_ne_nil _ _)

/-- **The chunks are the list.** -/
theorem flatten_chunks (size : ℕ) (l : List α) : (chunks size l).flatten = l := by
  induction l using chunks.induct size with
  | case1 => rw [chunks_nil, List.flatten_nil]
  | case2 a l ih => rw [chunks_cons, List.flatten_cons, ih, List.take_append_drop]

theorem mem_of_mem_last {size : ℕ} {l : List α} {a : α} (h : a ∈ last size l) : a ∈ l := by
  unfold last at h
  cases hchunks : chunks size l with
  | nil =>
    rw [hchunks] at h
    simp at h
  | cons c cs =>
    rw [← flatten_chunks size l]
    refine List.mem_flatten.2 ⟨_, ?_, h⟩
    rw [hchunks, List.getLastD_cons]
    exact List.getLastD_mem_cons

/-- **The first of many is not in the last chunk.** -/
theorem head_notMem_last {size : ℕ} {a : α} {l : List α} (hnodup : (a :: l).Nodup)
    (h : size + 1 < (a :: l).length) : a ∉ last size (a :: l) := by
  intro hmem
  -- What follows the first chunk is not empty, and has the last chunk.
  have hrest : a ∈ (a :: l).drop (size + 1) := by
    suffices hlast : a ∈ last size ((a :: l).drop (size + 1)) from mem_of_mem_last hlast
    unfold last at hmem ⊢
    rw [chunks_cons] at hmem
    cases hchunks : chunks size ((a :: l).drop (size + 1)) with
    | nil =>
      have hlength := congrArg List.length (chunks_eq_nil.1 hchunks)
      rw [List.length_drop, List.length_nil] at hlength
      omega
    | cons c cs =>
      rw [hchunks] at hmem
      exact hmem
  have htail : a ∈ l := by
    rw [List.drop_succ_cons] at hrest
    exact List.mem_of_mem_drop hrest
  exact (List.nodup_cons.1 hnodup).1 htail

end Chunks
