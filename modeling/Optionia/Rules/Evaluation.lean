import Optionia.Rules.States
import Mathlib.Data.List.Perm.Basic
/-!
# Evaluating rules until they settle

One pass resolves the rules that fire on the answers into states; the
targets it hides join those already hidden, their options are taken out of
the answers, and the next pass reads what is left, until a pass takes out
nothing more or the pass limit is reached.

The three evaluators are `evaluate` at their own rule type, their own answer
type and their own reading of when a rule fires.
-/

namespace Optionia.Rules

/-- What an evaluation returns. -/
structure Outcome where
  /-- What the rules say of each target they spoke of. -/
  states : States
  passes : ℕ
  /-- Why there is no answer, where there is none. -/
  refused : Option String

/-- The refusal of an evaluation that reached the pass limit. -/
def unsettled : String := "Rules did not settle within the pass limit."

/-- An evaluator, as far as its own types go: what a rule does on the answers
it fires on, and when two answers maps count as the same. -/
structure Evaluator (R α : Type) where
  fired : R → OrderedMap String α → Option Effect
  same : OrderedMap String α → OrderedMap String α → Bool
  maxPasses : ℕ

variable {R α : Type}

namespace Evaluator

variable (E : Evaluator R α)

def resolve (rules : List R) (answers : OrderedMap String α) (alreadyHidden : List String) :
    States :=
  markHidden alreadyHidden (accumulate (rules.filterMap fun rule => E.fired rule answers))

def loop (rules : List R) (answers : OrderedMap String α) (optionsUnder : Containment) :
    Settle.Loop (OrderedMap String α) (List String) States where
  resolve := E.resolve rules
  grow := collect
  clear := clearHidden answers optionsUnder
  same := E.same

/-- The evaluation: from no hidden target and the answers as given. -/
def evaluate (rules : List R) (answers : OrderedMap String α) (optionsUnder : Containment) :
    Outcome :=
  match (E.loop rules answers optionsUnder).runFrom E.maxPasses 1 [] answers with
  | some (states, passes) => ⟨states, passes, none⟩
  | none => ⟨∅, E.maxPasses, some unsettled⟩

end Evaluator

/-- Two outcomes agree, on what `rel` compares of a target's state. -/
structure Outcome.AgreeOn (rel : TargetState → TargetState → Prop) (o o' : Outcome) : Prop where
  refused : o.refused = o'.refused
  passes : o.passes = o'.passes
  states : ∀ t, rel (stateAt o.states t) (stateAt o'.states t)

/-- Two outcomes say the same of every target. -/
abbrev Outcome.Agree : Outcome → Outcome → Prop := Outcome.AgreeOn Eq

/-- A comparison of states an evaluation can be carried along: it holds of
untouched states, it sees what is hidden, and it survives hiding. -/
structure Compares (rel : TargetState → TargetState → Prop) : Prop where
  seed : rel seed seed
  hidden : ∀ {s s'}, rel s s' → s.hidden = s'.hidden
  hide : ∀ {s s'}, rel s s' → rel (hide s) (hide s')

theorem compares_eq : Compares Eq :=
  ⟨rfl, fun h => h ▸ rfl, fun h => h ▸ rfl⟩

/-! ## One pass -/

/-- Tests that agree on a list agree on whether any, and whether all, of it
passes. -/
theorem any_all_congr {β : Type} {l : List β} {p q : β → Bool} (h : ∀ b ∈ l, p b = q b) :
    l.any p = l.any q ∧ l.all p = l.all q := by
  induction l with
  | nil => exact ⟨rfl, rfl⟩
  | cons b l ih =>
    obtain ⟨h1, h2⟩ := List.forall_mem_cons.1 h
    obtain ⟨hany, hall⟩ := ih h2
    exact ⟨by rw [List.any_cons, List.any_cons, h1, hany],
      by rw [List.all_cons, List.all_cons, h1, hall]⟩

theorem stateAt_resolve (E : Evaluator R α) (rules : List R) (answers : OrderedMap String α)
    (hidden : List String) (t : String) :
    stateAt (E.resolve rules answers hidden) t =
      if t ∈ hidden then
        hide (stateAt (accumulate (rules.filterMap fun rule => E.fired rule answers)) t)
      else stateAt (accumulate (rules.filterMap fun rule => E.fired rule answers)) t :=
  stateAt_markHidden hidden _ t

/-- A rule hides a target on the answers. -/
def Evaluator.Hides (E : Evaluator R α) (rules : List R) (answers : OrderedMap String α)
    (t : String) : Prop :=
  ∃ rule ∈ rules, ∃ e, E.fired rule answers = some e ∧ e.target = t ∧ e.action = "hide"

variable {rules : List R} {answers : OrderedMap String α} {hidden : List String}
  {optionsUnder : Containment} {rel : TargetState → TargetState → Prop}

/-- **A pass leaves hidden what was hidden and what a firing rule hides.** -/
theorem hidden_resolve {E : Evaluator R α} {t : String} :
    (stateAt (E.resolve rules answers hidden) t).hidden = true ↔
      t ∈ hidden ∨ E.Hides rules answers t := by
  have hfired : (stateAt (accumulate (rules.filterMap fun rule => E.fired rule answers)) t).hidden
      = true ↔ E.Hides rules answers t := by
    rw [hidden_stateAt_accumulate]
    constructor
    · rintro ⟨e, he, ht, ha⟩
      obtain ⟨rule, hrule, hfires⟩ := List.mem_filterMap.1 he
      exact ⟨rule, hrule, e, hfires, ht, ha⟩
    · rintro ⟨rule, hrule, e, hfires, ht, ha⟩
      exact ⟨e, List.mem_filterMap.2 ⟨rule, hrule, hfires⟩, ht, ha⟩
  rw [stateAt_resolve]
  by_cases ht : t ∈ hidden
  · rw [if_pos ht]
    exact ⟨fun _ => Or.inl ht, fun _ => rfl⟩
  · rw [if_neg ht, hfired]
    exact ⟨Or.inr, fun h => h.resolve_left ht⟩

theorem mem_grow {E : Evaluator R α} {t : String} :
    t ∈ collect hidden (E.resolve rules answers hidden) ↔
      t ∈ hidden ∨ E.Hides rules answers t := by
  rw [mem_collect, hidden_resolve, ← or_assoc, or_self]

/-! ## Which options are taken out -/

theorem mem_clearHidden_keys {o : String} : o ∈ (clearHidden answers optionsUnder hidden).keys ↔
      o ∈ answers.keys ∧ ∀ t ∈ hidden, o ∉ under optionsUnder t := by
  rw [clearHidden, OrderedMap.mem_keys_eraseAll, List.mem_flatMap]
  simp only [not_exists, not_and]

/-- **Only which targets are hidden matters**, not in what order they were
met. -/
theorem clearHidden_congr (answers : OrderedMap String α) (optionsUnder : Containment)
    {hidden' : List String} (h : ∀ t, t ∈ hidden ↔ t ∈ hidden') :
    clearHidden answers optionsUnder hidden = clearHidden answers optionsUnder hidden' := by
  refine answers.eraseAll_congr fun o _ => ?_
  simp only [List.mem_flatMap, h]

/-! ## Evaluators that agree pass by pass -/

theorem agree_of_rel {R' α' : Type} {E : Evaluator R α} {E' : Evaluator R' α'} (hrel : Compares rel)
    {rules' : List R'} {answers' : OrderedMap String α'} (hmax : E.maxPasses = E'.maxPasses)
    (h : Option.Rel (fun r r' => (∀ t, rel (stateAt r.1 t) (stateAt r'.1 t)) ∧ r.2 = r'.2)
      ((E.loop rules answers optionsUnder).runFrom E.maxPasses 1 [] answers)
      ((E'.loop rules' answers' optionsUnder).runFrom E.maxPasses 1 [] answers')) :
    (E.evaluate rules answers optionsUnder).AgreeOn rel
      (E'.evaluate rules' answers' optionsUnder) := by
  rw [Evaluator.evaluate, Evaluator.evaluate, ← hmax]
  generalize (E.loop rules answers optionsUnder).runFrom E.maxPasses 1 [] answers = r at h
  generalize (E'.loop rules' answers' optionsUnder).runFrom E.maxPasses 1 [] answers' = r' at h
  cases h with
  | none => exact ⟨rfl, rfl, fun t => hrel.seed⟩
  | some hr => exact ⟨rfl, hr.2, hr.1⟩

/-- **Evaluators that read every answers map alike give the same outcome.**
At every map left by taking options out, the effects that fire must agree
target by target, and so must the test for having settled. -/
theorem agree_of_fired {R' α' : Type} {E : Evaluator R α} {E' : Evaluator R' α'}
    (hrel : Compares rel) {rules' : List R'} {answers' : OrderedMap String α'}
    (hmax : E.maxPasses = E'.maxPasses)
    (hfired : ∀ ks t, rel (stateAt (accumulate (rules.filterMap fun rule =>
        E.fired rule (answers.eraseAll ks))) t)
      (stateAt (accumulate (rules'.filterMap fun rule =>
        E'.fired rule (answers'.eraseAll ks))) t))
    (hsame : ∀ ks ks', E.same (answers.eraseAll ks) (answers.eraseAll ks') =
      E'.same (answers'.eraseAll ks) (answers'.eraseAll ks')) :
    (E.evaluate rules answers optionsUnder).AgreeOn rel
      (E'.evaluate rules' answers' optionsUnder) := by
  have sim : Settle.Loop.Sim (E.loop rules answers optionsUnder)
      (E'.loop rules' answers' optionsUnder)
      (fun a a' => ∃ ks, a = answers.eraseAll ks ∧ a' = answers'.eraseAll ks)
      (fun h h' => ∀ t, t ∈ h ↔ t ∈ h')
      (fun s s' => ∀ t, rel (stateAt s t) (stateAt s' t)) := by
    refine ⟨?_, ?_, ?_, ?_⟩
    · rintro _ _ h h' ⟨ks, rfl, rfl⟩ hh t
      change rel (stateAt (E.resolve rules _ h) t) (stateAt (E'.resolve rules' _ h') t)
      rw [stateAt_resolve, stateAt_resolve]
      simp only [hh t]
      split
      · exact hrel.hide (hfired ks t)
      · exact hfired ks t
    · intro h h' s s' hh hs t
      change t ∈ collect h s ↔ t ∈ collect h' s'
      rw [mem_collect, mem_collect, hh t, hrel.hidden (hs t)]
    · intro h h' hh
      exact ⟨h'.flatMap (under optionsUnder), clearHidden_congr answers optionsUnder hh, rfl⟩
    · rintro _ _ _ _ ⟨ks, rfl, rfl⟩ ⟨ks', rfl, rfl⟩
      exact hsame ks ks'
  exact agree_of_rel hrel hmax (sim.run E.maxPasses 1 (fun _ => Iff.rfl) ⟨[], rfl, rfl⟩)

end Optionia.Rules
