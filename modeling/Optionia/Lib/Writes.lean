import Mathlib.Data.List.Basic
/-!
# Writes one after another, and a crash between two

A process makes its writes in order; each is atomic, and the process may die
after any prefix of them. `view_run_take` says what a reader who sees only
part of the state finds then: writes it does not see count for nothing, so
only how far the seen ones got matters.
-/

namespace Writes

variable {S W V : Type*} (apply : W → S → S)

/-- The state after a list of writes. -/
def run (ws : List W) (s : S) : S := ws.foldl (fun s w => apply w s) s

@[simp] theorem run_cons (w : W) (ws : List W) (s : S) :
    run apply (w :: ws) s = run apply ws (apply w s) := rfl

theorem run_append (ws ws' : List W) (s : S) :
    run apply (ws ++ ws') s = run apply ws' (run apply ws s) :=
  List.foldl_append

variable {apply}

theorem view_run {view : S → V} {ws : List W} (h : ∀ w ∈ ws, ∀ s, view (apply w s) = view s)
    (s : S) : view (run apply ws s) = view s := by
  induction ws generalizing s with
  | nil => rfl
  | cons w ws ih =>
    obtain ⟨hw, hws⟩ := List.forall_mem_cons.1 h
    rw [run_cons, ih hws, hw]

theorem view_run_congr {view : S → V}
    (hview : ∀ w s s', view s = view s' → view (apply w s) = view (apply w s'))
    (ws : List W) {s s' : S} (h : view s = view s') :
    view (run apply ws s) = view (run apply ws s') := by
  induction ws generalizing s s' with
  | nil => exact h
  | cons w ws ih =>
    rw [run_cons, run_cons]
    exact ih (hview w s s' h)

/-- **What a view finds after a crash**: the writes it sees, as far as the
process got with them. -/
theorem view_run_take {view : S → V}
    (hview : ∀ w s s', view s = view s' → view (apply w s) = view (apply w s'))
    {before seen after : List W} (hbefore : ∀ w ∈ before, ∀ s, view (apply w s) = view s)
    (hafter : ∀ w ∈ after, ∀ s, view (apply w s) = view s) (k : ℕ) (s : S) :
    view (run apply ((before ++ seen ++ after).take k) s) =
      view (run apply (seen.take (k - before.length)) s) := by
  have hb : ∀ w ∈ before.take k, ∀ s, view (apply w s) = view s :=
    fun w hw => hbefore w (List.mem_of_mem_take hw)
  have ha : ∀ w ∈ after.take (k - (before ++ seen).length), ∀ s, view (apply w s) = view s :=
    fun w hw => hafter w (List.mem_of_mem_take hw)
  have hsplit : (before ++ seen ++ after).take k = before.take k ++
      (seen.take (k - before.length) ++ after.take (k - (before ++ seen).length)) := by
    rw [List.take_append, List.take_append, List.append_assoc]
  rw [hsplit, run_append, run_append, view_run ha]
  exact view_run_congr hview _ (view_run hb s)

end Writes
