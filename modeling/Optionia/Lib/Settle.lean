import Mathlib.Data.Option.Basic
import Mathlib.Logic.Function.Iterate
import Mathlib.Tactic.Common
/-!
# Bounded fixed-point loops

A loop that evaluates, adds what it found to what it carries, rebuilds its
input from that, and stops when the next input is the one it has just read.
The number of passes is capped, and reaching the cap is a refusal rather
than an answer.

`Loop.runFrom` is the loop as a program with a pass counter; `Loop.after` is
its unbounded trajectory. `runFrom_eq_some_iff` and `runFrom_eq_none_iff`
read one off the other, and `Loop.Sim.run` carries a step-wise simulation of
two loops to their results.
-/

namespace Settle

/-- The parts of a loop: what a pass computes from its input and what is
carried, how the result is added to what is carried, and how the next input
is rebuilt from that. `same` decides whether two inputs are one. -/
structure Loop (A H S : Type*) where
  resolve : A → H → S
  grow : H → S → H
  clear : H → A
  same : A → A → Bool

namespace Loop

variable {A H S A' H' S' : Type*} (L : Loop A H S)

/-- The loop with `fuel` passes left, entering pass `pass`. The result is the
state of the pass that settled, with its number. -/
def runFrom : ℕ → ℕ → H → A → Option (S × ℕ)
  | 0, _, _, _ => none
  | fuel + 1, pass, hidden, current =>
    let states := L.resolve current hidden
    let next := L.clear (L.grow hidden states)
    if L.same next current then some (states, pass)
    else runFrom fuel (pass + 1) (L.grow hidden states) next

/-- One pass of the unbounded loop. -/
def step (p : H × A) : H × A :=
  (L.grow p.1 (L.resolve p.2 p.1), L.clear (L.grow p.1 (L.resolve p.2 p.1)))

/-- What is carried, and what is read next, after `n` passes. -/
def after (p : H × A) (n : ℕ) : H × A := L.step^[n] p

theorem after_succ (p : H × A) (n : ℕ) : L.after p (n + 1) = L.step (L.after p n) :=
  Function.iterate_succ_apply' L.step n p

theorem after_step (p : H × A) (n : ℕ) : L.after (L.step p) n = L.after p (n + 1) :=
  (Function.iterate_succ_apply L.step n p).symm

/-- Pass `n + 1` leaves its own input unchanged. -/
def SettlesAt (p : H × A) (n : ℕ) : Prop :=
  L.same (L.after p (n + 1)).2 (L.after p n).2 = true

instance (p : H × A) (n : ℕ) : Decidable (L.SettlesAt p n) :=
  inferInstanceAs (Decidable (_ = true))

theorem settlesAt_step (p : H × A) (n : ℕ) :
    L.SettlesAt (L.step p) n ↔ L.SettlesAt p (n + 1) := by
  rw [SettlesAt, SettlesAt, after_step, after_step]

theorem runFrom_succ (fuel pass : ℕ) (p : H × A) :
    L.runFrom (fuel + 1) pass p.1 p.2 =
      if L.SettlesAt p 0 then some (L.resolve p.2 p.1, pass)
      else L.runFrom fuel (pass + 1) (L.step p).1 (L.step p).2 := rfl

/-- **The loop is refused exactly when no pass it may take settles.** -/
theorem runFrom_eq_none_iff (fuel pass : ℕ) (p : H × A) :
    L.runFrom fuel pass p.1 p.2 = none ↔ ∀ n < fuel, ¬ L.SettlesAt p n := by
  induction fuel generalizing pass p with
  | zero => exact ⟨fun _ n hn => absurd hn (Nat.not_lt_zero n), fun _ => rfl⟩
  | succ fuel ih =>
    rw [runFrom_succ]
    by_cases h0 : L.SettlesAt p 0
    · rw [if_pos h0]
      exact ⟨fun h => absurd h (Option.some_ne_none _), fun h => absurd h0 (h 0 fuel.succ_pos)⟩
    · rw [if_neg h0, ih]
      constructor
      · intro h n hn
        cases n with
        | zero => exact h0
        | succ n => exact fun hs => h n (by omega) ((L.settlesAt_step p n).2 hs)
      · intro h n hn hs
        exact h (n + 1) (by omega) ((L.settlesAt_step p n).1 hs)

/-- **The loop answers with the first pass that settles**, and with what that
pass computed. -/
theorem runFrom_eq_some_iff (fuel pass : ℕ) (p : H × A) (s : S) (q : ℕ) :
    L.runFrom fuel pass p.1 p.2 = some (s, q) ↔
      ∃ n < fuel, L.SettlesAt p n ∧ (∀ m < n, ¬ L.SettlesAt p m) ∧
        s = L.resolve (L.after p n).2 (L.after p n).1 ∧ q = pass + n := by
  induction fuel generalizing pass p with
  | zero =>
    refine ⟨fun h => absurd h.symm (Option.some_ne_none _), ?_⟩
    rintro ⟨n, hn, -⟩
    exact absurd hn (Nat.not_lt_zero n)
  | succ fuel ih =>
    rw [runFrom_succ]
    by_cases h0 : L.SettlesAt p 0
    · rw [if_pos h0]
      constructor
      · intro h
        obtain ⟨rfl, rfl⟩ := Prod.mk.inj (Option.some.inj h)
        exact ⟨0, fuel.succ_pos, h0, fun m hm => absurd hm (Nat.not_lt_zero m), rfl, rfl⟩
      · rintro ⟨n, -, -, hmin, rfl, rfl⟩
        cases n with
        | zero => rfl
        | succ n => exact absurd h0 (hmin 0 n.succ_pos)
    · rw [if_neg h0, ih]
      constructor
      · rintro ⟨n, hn, hs, hmin, rfl, rfl⟩
        refine ⟨n + 1, by omega, (L.settlesAt_step p n).1 hs, fun m hm => ?_, ?_, by omega⟩
        · cases m with
          | zero => exact h0
          | succ m => exact fun h => hmin m (by omega) ((L.settlesAt_step p m).2 h)
        · rw [after_step]
      · rintro ⟨n, hn, hs, hmin, rfl, rfl⟩
        cases n with
        | zero => exact absurd hs h0
        | succ n =>
          refine ⟨n, by omega, (L.settlesAt_step p n).2 hs, fun m hm h => ?_, ?_, by omega⟩
          · exact hmin (m + 1) (by omega) ((L.settlesAt_step p m).1 h)
          · rw [after_step]

/-! ## Simulation -/

/-- **A step-wise simulation of two loops.** Related inputs and related
carried values give related results, and related inputs are told apart
alike. -/
structure Sim (L : Loop A H S) (L' : Loop A' H' S')
    (RA : A → A' → Prop) (RH : H → H' → Prop) (RS : S → S' → Prop) : Prop where
  resolve : ∀ {a a' h h'}, RA a a' → RH h h' → RS (L.resolve a h) (L'.resolve a' h')
  grow : ∀ {h h' s s'}, RH h h' → RS s s' → RH (L.grow h s) (L'.grow h' s')
  clear : ∀ {h h'}, RH h h' → RA (L.clear h) (L'.clear h')
  same : ∀ {a a' b b'}, RA a a' → RA b b' → L.same a b = L'.same a' b'

/-- **Simulating loops end alike**: both are refused, or both settle on the
same pass with related results. -/
theorem Sim.run {L : Loop A H S} {L' : Loop A' H' S'} {RA : A → A' → Prop}
    {RH : H → H' → Prop} {RS : S → S' → Prop} (sim : Sim L L' RA RH RS) :
    ∀ (fuel pass : ℕ) {h h' a a'}, RH h h' → RA a a' →
      Option.Rel (fun r r' => RS r.1 r'.1 ∧ r.2 = r'.2)
        (L.runFrom fuel pass h a) (L'.runFrom fuel pass h' a') := by
  intro fuel
  induction fuel with
  | zero => intro pass h h' a a' _ _; exact Option.Rel.none
  | succ fuel ih =>
    intro pass h h' a a' hh ha
    have hs := sim.resolve ha hh
    have hg := sim.grow hh hs
    have hc := sim.clear hg
    have hsame := sim.same hc ha
    rw [runFrom, runFrom]
    simp only [hsame]
    split
    · exact Option.Rel.some ⟨hs, rfl⟩
    · exact ih (pass + 1) hg hc

end Loop

end Settle
