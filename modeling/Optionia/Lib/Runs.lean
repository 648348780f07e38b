import Mathlib.Data.List.Basic
import Mathlib.Data.List.Induction
import Mathlib.Order.Basic
import Mathlib.Order.Nat
/-!
# Runs of a system

A system is its states and what an action makes of one; an action that cannot
happen leaves the state as it is. A run is a list of actions, and the states
it reaches are those after each of its beginnings. `Throughout` asks something
of every action of a run, in the state it happens in, and is what an invariant
of a run that is not unconditional rests on.
-/

namespace Runs

variable {S A : Type*} (step : S → A → S) (ok : S → A → Prop)

def run (s : S) (actions : List A) : S := actions.foldl step s

/-- Every action of the run is as asked, in the state it happens in. -/
def Throughout : S → List A → Prop
  | _, [] => True
  | s, a :: actions => ok s a ∧ Throughout (step s a) actions

/-- Whether it is so can be computed, a state at a time. -/
instance decidableThroughout [∀ s a, Decidable (ok s a)] :
    ∀ s actions, Decidable (Throughout step ok s actions)
  | _, [] => inferInstanceAs (Decidable True)
  | s, a :: actions =>
    have := decidableThroughout (step s a) actions
    inferInstanceAs (Decidable (ok s a ∧ Throughout step ok (step s a) actions))

variable {step ok} {s : S} {a : A} {actions actions' : List A}

@[simp] theorem run_nil : run step s [] = s := rfl

@[simp] theorem run_cons : run step s (a :: actions) = run step (step s a) actions := rfl

theorem run_append : run step s (actions ++ actions') = run step (run step s actions) actions' :=
  List.foldl_append

@[simp] theorem run_concat : run step s (actions ++ [a]) = step (run step s actions) a := by
  rw [run_append, run_cons, run_nil]

theorem throughout_append :
    Throughout step ok s (actions ++ actions') ↔
      Throughout step ok s actions ∧ Throughout step ok (run step s actions) actions' := by
  induction actions generalizing s with
  | nil => rw [Throughout, List.nil_append, run_nil, true_and]
  | cons a actions ih =>
    rw [List.cons_append, Throughout, Throughout, ih, run_cons, and_assoc]

theorem Throughout.of_prefix (h : Throughout step ok s actions) (hp : actions' <+: actions) :
    Throughout step ok s actions' := by
  obtain ⟨rest, rfl⟩ := hp
  exact (throughout_append.1 h).1

theorem Throughout.at (h : Throughout step ok s (actions ++ a :: actions')) :
    ok (run step s actions) a :=
  (throughout_append.1 h).2.1

theorem throughout_of_prefix
    (h : ∀ before a after, actions = before ++ a :: after → ok (run step s before) a) :
    Throughout step ok s actions := by
  induction actions generalizing s with
  | nil => trivial
  | cons a actions ih =>
    refine ⟨h [] a actions rfl, ih fun before b after hsplit => ?_⟩
    exact h (a :: before) b after (congrArg (a :: ·) hsplit)

variable {ok' : S → A → Prop} {I : S → Prop}

theorem throughout_and : Throughout step (fun s a => ok s a ∧ ok' s a) s actions ↔
      Throughout step ok s actions ∧ Throughout step ok' s actions := by
  induction actions generalizing s with
  | nil => exact (and_self_iff).symm
  | cons a actions ih =>
    rw [Throughout, Throughout, Throughout, ih]
    exact and_and_and_comm

theorem throughout_of_forall (h : ∀ s a, ok s a) (s : S) (actions : List A) :
    Throughout step ok s actions := by
  induction actions generalizing s with
  | nil => trivial
  | cons a actions ih => exact ⟨h s a, ih _⟩

/-- **What every action, as asked, preserves, a run preserves.** -/
theorem invariant (hstep : ∀ s a, ok s a → I s → I (step s a)) (h : Throughout step ok s actions)
    (hs : I s) : I (run step s actions) := by
  induction actions generalizing s with
  | nil => exact hs
  | cons a actions ih => exact ih h.2 (hstep s a h.1 hs)

/-- **The same where nothing is asked.** -/
theorem invariant_of_forall (hstep : ∀ s a, I s → I (step s a)) (hs : I s) (actions : List A) :
    I (run step s actions) :=
  invariant (fun s a _ => hstep s a) (throughout_of_forall (fun _ _ => trivial) s actions) hs

/-- **What an event brings about stays so.** If the step at which `P` comes to
hold establishes `Q`, and every step keeps `Q`, then `Q` holds wherever a run
from a state without `P` has reached `P`. -/
theorem established {P Q : S → Prop} (hstep : ∀ s a, ok s a → I s → I (step s a))
    (hset : ∀ s a, ok s a → I s → ¬ P s → P (step s a) → Q (step s a))
    (hkeep : ∀ s a, ok s a → I s → Q s → Q (step s a)) (h : Throughout step ok s actions) (hs : I s)
    (hbefore : ¬ P s) (hafter : P (run step s actions)) : Q (run step s actions) := by
  induction actions generalizing s with
  | nil => exact absurd hafter hbefore
  | cons a actions ih =>
    by_cases hswitch : P (step s a)
    · have hboth : I (run step (step s a) actions) ∧ Q (run step (step s a) actions) :=
        invariant (I := fun s => I s ∧ Q s)
          (fun s a hok h => ⟨hstep s a hok h.1, hkeep s a hok h.1 h.2⟩) h.2
          ⟨hstep s a h.1 hs, hset s a h.1 hs hbefore hswitch⟩
      exact hboth.2
    · exact ih h.2 (hstep s a h.1 hs) hswitch hafter

/-- What is asked may be asked in other words, where an invariant that holds as
long as it is met makes them the same. -/
theorem throughout_congr_of_ok (hstep : ∀ s a, ok s a → I s → I (step s a))
    (h : ∀ s a, I s → (ok s a ↔ ok' s a)) (hs : I s) :
    Throughout step ok s actions ↔ Throughout step ok' s actions := by
  induction actions generalizing s with
  | nil => exact Iff.rfl
  | cons a actions ih =>
    refine (and_congr_right fun hok => ?_).trans (and_congr_left' (h s a hs))
    exact ih (hstep s a hok hs)

theorem throughout_congr (hstep : ∀ s a, I s → I (step s a)) (h : ∀ s a, I s → (ok s a ↔ ok' s a))
    (hs : I s) : Throughout step ok s actions ↔ Throughout step ok' s actions :=
  throughout_congr_of_ok (fun s a _ => hstep s a) h hs

/-- **What holds in every state a run reaches, and what is asked of its
actions.** If an action, where it may happen, leads to a state as wanted just
when it is as asked, then every state of a run is as wanted just when every
action is as asked. -/
theorem forall_prefix_iff {P : S → Prop} {may : S → A → Prop}
    (hstep : ∀ s a, may s a → ok s a → I s → I (step s a))
    (hok : ∀ s a, may s a → I s → (ok s a ↔ P (step s a))) (hmay : Throughout step may s actions)
    (hs : I s) (hP : P s) :
    (∀ before, before <+: actions → P (run step s before)) ↔ Throughout step ok s actions := by
  induction actions generalizing s with
  | nil =>
    refine ⟨fun _ => trivial, fun _ before hbefore => ?_⟩
    rw [List.prefix_nil.1 hbefore]
    exact hP
  | cons a actions ih =>
    constructor
    · intro h
      have hwanted : P (step s a) := h [a] (List.prefix_append [a] actions)
      have hasked : ok s a := (hok s a hmay.1 hs).2 hwanted
      refine ⟨hasked, (ih hmay.2 (hstep s a hmay.1 hasked hs) hwanted).1 ?_⟩
      exact fun before hbefore => h (a :: before) ((List.prefix_cons_inj a).2 hbefore)
    · rintro ⟨hasked, hrest⟩ before hbefore
      have hwanted : P (step s a) := (hok s a hmay.1 hs).1 hasked
      obtain rfl | ⟨before', rfl, hbefore'⟩ := List.prefix_cons_iff.1 hbefore
      · exact hP
      · exact (ih hmay.2 (hstep s a hmay.1 hasked hs) hwanted).2 hrest before' hbefore'

/-! ## Where a run can get -/

variable (step ok) in
/-- Some run, every action of which is as asked, gets from one state to
another. -/
def CanReach (s s' : S) : Prop := ∃ actions, Throughout step ok s actions ∧ run step s actions = s'

theorem CanReach.refl (s : S) : CanReach step ok s s := ⟨[], trivial, rfl⟩

theorem CanReach.head {s' : S} (hok : ok s a) (h : CanReach step ok (step s a) s') :
    CanReach step ok s s' := by
  obtain ⟨actions, hactions, hrun⟩ := h
  exact ⟨a :: actions, ⟨hok, hactions⟩, hrun⟩

/-- **What every action, as asked, preserves holds wherever a run can get.** -/
theorem CanReach.invariant {s' : S} (h : CanReach step ok s s')
    (hstep : ∀ s a, ok s a → I s → I (step s a)) (hs : I s) : I s' := by
  obtain ⟨actions, hactions, rfl⟩ := h
  exact Runs.invariant hstep hactions hs

end Runs

/-! ## A content with a revision number

A state has a content and a number that says which revision of it this is. A
step tells of what it changes when it leaves the content as it is or raises the
number. Then what was once read of the content under the number read before it
stays right for as long as the number is what it was: a number that stands
still vouches for the content.
-/

namespace Revision

variable {S V : Type*} (number : S → ℕ) (content : S → V)

/-- From one state to the next, the number rises or nothing moves. -/
def Tells (s s' : S) : Prop :=
  number s < number s' ∨ number s = number s' ∧ content s = content s'

/-- A reading under a number: not ahead of the state, and right for it if the
number is still the state's. -/
def Reading (s : S) (n : ℕ) (right : V → Prop) : Prop :=
  n ≤ number s ∧ (n = number s → right (content s))

variable {number content} {s s' : S} {n : ℕ} {right right' : V → Prop}

theorem Tells.of_eq (hn : number s = number s') (hc : content s = content s') :
    Tells number content s s' := .inr ⟨hn, hc⟩

theorem Tells.of_lt (h : number s < number s') : Tells number content s s' := .inl h

/-- **A reading stays a reading** across a step that tells. -/
theorem Reading.tells (hr : Reading number content s n right) (h : Tells number content s s') :
    Reading number content s' n right := by
  obtain ⟨hle, hright⟩ := hr
  obtain hlt | ⟨hn, hc⟩ := h
  · exact ⟨by omega, fun heq => absurd heq (by omega)⟩
  · exact ⟨hn ▸ hle, fun heq => hc ▸ hright (heq.trans hn.symm)⟩

/-- The next thing read under the same number: it is right for the state it is
read in. -/
theorem Reading.next (hr : Reading number content s n right)
    (h : right (content s) → right' (content s)) : Reading number content s n right' :=
  ⟨hr.1, fun heq => h (hr.2 heq)⟩

theorem Reading.right_of_eq (hr : Reading number content s n right) (h : n = number s) :
    right (content s) := hr.2 h

end Revision
