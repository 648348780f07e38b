import Mathlib.Data.Int.Notation
import Optionia.Lib.OrderedMap
import Optionia.Lib.Settle
import Mathlib.Tactic.SplitIfs
/-!
# What fired rules do to their targets

The plugin's evaluator, the cloud's and the page's read rules and answers in
their own types and share the rest: a switch on the rule's action, a map of
states by target, a set of hidden targets that only grows, and answers with
everything under a hidden target taken out. That shared part is here.

A fired rule is an `Effect`. The order of effects does not matter to any
target's state (`stateAt_accumulate_perm`), which rests on one fact about
the switch: two effects on one state commute (`act_comm`).
-/

namespace Optionia.Rules

/-- What rules say of one target. -/
structure TargetState where
  hidden : Bool
  /-- Whether rules make it required, where they say so. -/
  required : Option Bool
  /-- The price rules set, where they agree on one. -/
  priceMinor : Option ℤ
  priceConflict : Bool
  deriving DecidableEq

/-- The state of a target no rule has spoken of. -/
def seed : TargetState := ⟨false, none, none, false⟩

def hide (s : TargetState) : TargetState := { s with hidden := true }

/-- What a fired rule does, and to which target. `amount` is the price of a
`set_price` rule, where it carries a readable one. -/
structure Effect where
  target : String
  action : String
  amount : Option ℤ

/-- Whether setting a price meets a conflict, or makes one. -/
def conflicts (state : TargetState) (amount : ℤ) : Bool :=
  state.priceConflict || (state.priceMinor.isSome && state.priceMinor != some amount)

/-- Setting a price: a second, different price is a conflict, and a conflict
stays. -/
def setPrice (state : TargetState) (amount : ℤ) : TargetState :=
  if conflicts state amount then
    { state with priceMinor := none, priceConflict := true }
  else { state with priceMinor := some amount }

/-- The switch on a fired rule's action. -/
def Effect.act (e : Effect) (state : TargetState) : TargetState :=
  if e.action = "hide" then hide state
  else if e.action = "require" then { state with required := some true }
  else if e.action = "unrequire" then
    { state with required := some (state.required == some true) }
  else if e.action = "set_price" then
    match e.amount with
    | some amount => setPrice state amount
    | none => state
  else state

/-- The states of the targets spoken of. -/
abbrev States := OrderedMap String TargetState

/-- The state of a target, spoken of or not. -/
def stateAt (states : States) (target : String) : TargetState := states.getD target seed

/-- The states after the fired rules, in their order. -/
def accumulate (es : List Effect) : States :=
  es.foldl (fun states e => states.update seed e.target e.act) ∅

/-- The states with every target of `hidden` marked. -/
def markHidden (hidden : List String) (states : States) : States :=
  hidden.foldl (fun states t => states.update seed t hide) states

/-- The hidden targets, with those the states hide. -/
def collect (hidden : List String) (states : States) : List String :=
  states.entries.foldl
    (fun hidden p => if p.2.hidden && !hidden.contains p.1 then hidden ++ [p.1] else hidden) hidden

abbrev Containment := OrderedMap String (List String)

def under (optionsUnder : Containment) (target : String) : List String :=
  optionsUnder.getD target []

/-- The answers without those under a hidden target. -/
def clearHidden {α : Type} (answers : OrderedMap String α) (optionsUnder : Containment)
    (hidden : List String) : OrderedMap String α :=
  answers.eraseAll (hidden.flatMap (under optionsUnder))

/-! ## One effect -/

theorem act_cases (e : Effect) :
    (e.action = "hide" ∧ ∀ s, e.act s = hide s) ∨
    e.action ≠ "hide" ∧
      ((∀ s, e.act s = { s with required := some true }) ∨
      (∀ s, e.act s = { s with required := some (s.required == some true) }) ∨
      (∃ a, ∀ s, e.act s = setPrice s a) ∨
      ∀ s, e.act s = s) := by
  by_cases h1 : e.action = "hide"
  · exact Or.inl ⟨h1, fun s => by rw [Effect.act, if_pos h1]⟩
  refine Or.inr ⟨h1, ?_⟩
  by_cases h2 : e.action = "require"
  · exact Or.inl fun s => by rw [Effect.act, if_neg h1, if_pos h2]
  by_cases h3 : e.action = "unrequire"
  · exact Or.inr (Or.inl fun s => by rw [Effect.act, if_neg h1, if_neg h2, if_pos h3])
  by_cases h4 : e.action = "set_price"
  · cases ha : e.amount with
    | none =>
      exact Or.inr (Or.inr (Or.inr fun s => by
        rw [Effect.act, if_neg h1, if_neg h2, if_neg h3, if_pos h4, ha]))
    | some a =>
      exact Or.inr (Or.inr (Or.inl ⟨a, fun s => by
        rw [Effect.act, if_neg h1, if_neg h2, if_neg h3, if_pos h4, ha]⟩))
  · exact Or.inr (Or.inr (Or.inr fun s => by
      rw [Effect.act, if_neg h1, if_neg h2, if_neg h3, if_neg h4]))

@[simp] theorem hidden_setPrice (s : TargetState) (a : ℤ) : (setPrice s a).hidden = s.hidden := by
  rw [setPrice]
  split <;> rfl

@[simp] theorem required_setPrice (s : TargetState) (a : ℤ) :
    (setPrice s a).required = s.required := by
  rw [setPrice]
  split <;> rfl

theorem hidden_act (e : Effect) (s : TargetState) :
    (e.act s).hidden = (decide (e.action = "hide") || s.hidden) := by
  rcases act_cases e with ⟨ha, h⟩ | ⟨ha, h | h | ⟨a, h⟩ | h⟩
  · rw [h, ha]
    rfl
  all_goals rw [h, decide_eq_false ha, Bool.false_or]
  rw [hidden_setPrice]

@[simp] theorem conflicts_hide (s : TargetState) (a : ℤ) :
    conflicts (hide s) a = conflicts s a := rfl

@[simp] theorem conflicts_required (s : TargetState) (r : Option Bool) (a : ℤ) :
    conflicts { s with required := r } a = conflicts s a := rfl

theorem setPrice_hide (s : TargetState) (a : ℤ) :
    setPrice (hide s) a = hide (setPrice s a) := by
  cases h : conflicts s a
  · rw [setPrice, setPrice, conflicts_hide, h]
    rfl
  · rw [setPrice, setPrice, conflicts_hide, h]
    rfl

theorem setPrice_required (s : TargetState) (r : Option Bool) (a : ℤ) :
    setPrice { s with required := r } a = { setPrice s a with required := r } := by
  cases h : conflicts s a
  · rw [setPrice, setPrice, conflicts_required, h]
    rfl
  · rw [setPrice, setPrice, conflicts_required, h]
    rfl

/-- Setting two prices, in either order, keeps them where they agree and
conflicts where they do not. -/
theorem setPrice_comm (s : TargetState) (a b : ℤ) :
    setPrice (setPrice s a) b = setPrice (setPrice s b) a := by
  obtain ⟨h, r, p, c⟩ := s
  by_cases hab : a = b
  · rw [hab]
  cases c with
  | true => simp [setPrice, conflicts]
  | false =>
    cases p with
    | none => simp [setPrice, conflicts, hab, Ne.symm hab]
    | some q =>
      by_cases ha : q = a
      · have hb : q ≠ b := fun h => hab (ha.symm.trans h)
        subst ha
        simp [setPrice, conflicts, hb]
      · by_cases hb : q = b
        · subst hb
          simp [setPrice, conflicts, ha]
        · simp [setPrice, conflicts, ha, hb]

/-- **Two effects on one state commute.** Hiding and requiring only ever
raise a field, and of prices only whether they all agree is kept. -/
theorem act_comm (e e' : Effect) (s : TargetState) : e'.act (e.act s) = e.act (e'.act s) := by
  rcases act_cases e with ⟨-, h⟩ | ⟨-, h | h | ⟨a, h⟩ | h⟩ <;>
    rcases act_cases e' with ⟨-, h'⟩ | ⟨-, h' | h' | ⟨b, h'⟩ | h'⟩ <;>
    simp only [h, h', setPrice_comm s, setPrice_hide, setPrice_required, required_setPrice]
  all_goals simp [hide]

/-! ## Hiding and requiring alone -/

/-- Two states hide and require alike, whatever they say of the price. -/
structure SameRuling (s s' : TargetState) : Prop where
  hidden : s.hidden = s'.hidden
  required : s.required = s'.required

theorem SameRuling.refl (s : TargetState) : SameRuling s s := ⟨rfl, rfl⟩

theorem SameRuling.act {e e' : Effect} {s s' : TargetState} (haction : e.action = e'.action)
    (h : SameRuling s s') : SameRuling (e.act s) (e'.act s') := by
  have hprice : ∀ (s : TargetState) (a : Option ℤ),
      SameRuling (match a with | some amount => setPrice s amount | none => s) s := by
    intro s a
    cases a with
    | none => exact SameRuling.refl s
    | some a => exact ⟨hidden_setPrice s a, required_setPrice s a⟩
  have h1 := hprice s e.amount
  have h2 := hprice s' e'.amount
  rw [Effect.act, Effect.act, haction]
  split_ifs
  · exact ⟨rfl, h.required⟩
  · exact ⟨h.hidden, rfl⟩
  · exact ⟨h.hidden, by rw [h.required]⟩
  · exact ⟨h1.hidden.trans (h.hidden.trans h2.hidden.symm),
      h1.required.trans (h.required.trans h2.required.symm)⟩
  · exact h

/-! ## All effects -/

/-- What an effect that may be absent, or another target's, does to the state
of `t`. -/
def actAt (t : String) (e : Option Effect) (s : TargetState) : TargetState :=
  match e with
  | some e => if e.target = t then e.act s else s
  | none => s

/-- **A target's state is what its own effects make of it.** -/
theorem stateAt_accumulate (es : List Effect) (t : String) :
    stateAt (accumulate es) t =
      (es.filter fun e => e.target = t).foldl (fun s e => e.act s) seed :=
  OrderedMap.getD_foldl_update seed Effect.target Effect.act es ∅ t

theorem stateAt_accumulate_filterMap {R : Type} (f : R → Option Effect) (l : List R)
    (t : String) :
    stateAt (accumulate (l.filterMap f)) t = l.foldl (fun s r => actAt t (f r) s) seed := by
  rw [stateAt_accumulate]
  generalize seed = s
  induction l generalizing s with
  | nil => rfl
  | cons r l ih =>
    rw [List.foldl_cons, ← ih]
    cases hf : f r with
    | none => rw [List.filterMap_cons_none hf, actAt]
    | some e =>
      rw [List.filterMap_cons_some hf, actAt]
      by_cases ht : e.target = t
      · rw [List.filter_cons_of_pos (by simpa using ht), List.foldl_cons, if_pos ht]
      · rw [List.filter_cons_of_neg (by simpa using ht), if_neg ht]

/-- **The order of effects is no matter.** -/
theorem stateAt_accumulate_perm {es es' : List Effect} (h : es.Perm es') (t : String) :
    stateAt (accumulate es) t = stateAt (accumulate es') t := by
  rw [stateAt_accumulate, stateAt_accumulate]
  exact (h.filter _).foldl_eq' (fun e _ e' _ s => act_comm e e' s) seed

/-- **A target is hidden exactly when one of its rules hides it.** -/
theorem hidden_stateAt_accumulate {es : List Effect} {t : String} :
    (stateAt (accumulate es) t).hidden = true ↔
      ∃ e ∈ es, e.target = t ∧ e.action = "hide" := by
  rw [stateAt_accumulate]
  have hfold : ∀ (l : List Effect) (s : TargetState),
      (l.foldl (fun s e => e.act s) s).hidden = true ↔
        s.hidden = true ∨ ∃ e ∈ l, e.action = "hide" := by
    intro l
    induction l with
    | nil => intro s; simp
    | cons e l ih =>
      intro s
      rw [List.foldl_cons, ih, hidden_act, Bool.or_eq_true, decide_eq_true_eq]
      simp only [List.mem_cons, exists_eq_or_imp]
      tauto
  rw [hfold]
  simp [seed, and_assoc]

theorem stateAt_markHidden (hidden : List String) (states : States) (t : String) :
    stateAt (markHidden hidden states) t =
      if t ∈ hidden then hide (stateAt states t) else stateAt states t := by
  rw [stateAt, markHidden,
    OrderedMap.getD_foldl_update seed (fun t => t) (fun _ => hide) hidden states t]
  rw [stateAt]
  generalize states.getD t seed = s
  induction hidden generalizing s with
  | nil => rfl
  | cons t' l ih =>
    by_cases ht : t' = t
    · rw [List.filter_cons_of_pos (by simpa using ht), List.foldl_cons, ih,
        if_pos (List.mem_cons.2 (Or.inl ht.symm))]
      split <;> rfl
    · rw [List.filter_cons_of_neg (by simpa using ht), ih]
      simp only [List.mem_cons, Ne.symm ht, false_or]

/-- **What a pass adds to the hidden targets is what its states hide.** -/
theorem mem_collect {hidden : List String} {states : States} {t : String} :
    t ∈ collect hidden states ↔ t ∈ hidden ∨ (stateAt states t).hidden = true := by
  have hfold : ∀ (l : List (String × TargetState)) (hidden : List String),
      t ∈ l.foldl (fun hidden p =>
          if p.2.hidden && !hidden.contains p.1 then hidden ++ [p.1] else hidden) hidden ↔
        t ∈ hidden ∨ ∃ p ∈ l, p.2.hidden = true ∧ p.1 = t := by
    intro l
    induction l with
    | nil => intro hidden; simp
    | cons p l ih =>
      intro hidden
      rw [List.foldl_cons, ih]
      simp only [List.mem_cons, exists_eq_or_imp]
      by_cases hp : p.2.hidden = true
      · by_cases hm : p.1 ∈ hidden
        · rw [if_neg (by simp [hm])]
          constructor
          · exact fun h => h.imp_right Or.inr
          · rintro (h | ⟨-, rfl⟩ | h)
            · exact Or.inl h
            · exact Or.inl hm
            · exact Or.inr h
        · rw [if_pos (by simp [hp, hm]), List.mem_append, List.mem_singleton, or_assoc]
          simp only [hp, true_and, eq_comm]
      · rw [if_neg (by simp [hp])]
        simp [hp]
  rw [collect, hfold]
  refine or_congr_right ?_
  constructor
  · rintro ⟨⟨k, s⟩, hmem, hs, rfl⟩
    rw [stateAt, OrderedMap.getD, OrderedMap.get?_eq_some.2 hmem]
    exact hs
  · intro h
    rw [stateAt, OrderedMap.getD] at h
    cases hget : OrderedMap.get? states t with
    | none =>
      rw [hget] at h
      exact absurd h (by decide)
    | some s =>
      rw [hget] at h
      exact ⟨(t, s), OrderedMap.get?_eq_some.1 hget, h, rfl⟩

end Optionia.Rules
