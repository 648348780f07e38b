import Optionia.Wire.Reading
/-!
# The plugin's and the cloud's evaluators, side by side

Over operands that are strings, integers, booleans or lists of those, and
answers that are strings or lists of strings, a condition holds in one
language and not in the other only through the two readings of `Reading`: a
numeric comparison one side of which only one language reads as a number, or
an integer operand the two spell differently. `Alike` says that a condition
meets neither on the answers given; `languages_agree_iff` is that this is
exactly when the two evaluators agree, on every condition and in the whole
outcome.
-/

namespace Optionia.Wire

open Rules

/-! ## The operands and answers of the statement -/

/-- A string, an integer or a boolean. -/
def Json.isScalar : Json → Bool
  | .str _ | .int _ | .bool _ => true
  | _ => false

/-- One of those, or a list of them. -/
def Json.isOperand : Json → Bool
  | .arr vs => vs.all isScalar
  | v => v.isScalar

/-- An operand in PHP, `null` where there is none. -/
def phpOperand (v : Option Json) : Php.Value := (v.map Json.decode).getD .null

/-- An operand in JavaScript, `undefined` where there is none. -/
def jsOperand (v : Option Json) : Js.Value := (v.map Json.parse).getD .undefined

/-- The entries of a list operand. -/
def entries : Option Json → List Json
  | some (.arr vs) => vs
  | _ => []

/-- An answer in PHP, `null` where there is none. -/
def phpAnswer (a : Option Answer) : Php.Value := (a.map Answer.toPhp).getD .null

/-- An answer in JavaScript, `undefined` where there is none. -/
def jsAnswer (a : Option Answer) : Js.Value := (a.map Answer.toJs).getD .undefined

/-- Whether there is an answer, and it is not an empty one. -/
def supplied : Option Answer → Bool
  | some (.one s) => decide (s ≠ "")
  | some (.many ss) => !ss.isEmpty
  | none => false

/-- The one string an answer is, where it is a single one. -/
def single? : Option Answer → Option String
  | some (.one s) => some s
  | some (.many [s]) => some s
  | _ => none

/-- The strings an answer is made of. -/
def membersOf (a : Option Answer) : List String := (a.map Answer.members).getD []

/-! ## What operators decide from -/

/-- The tests an operator picks from. -/
structure Tests where
  supplied : Bool
  exact : Bool
  contains : Bool
  greater : Bool
  less : Bool
  inList : Bool

def Tests.holds (operator : String) (t : Tests) : Bool :=
  if operator = "is_empty" then !t.supplied
  else if operator = "is_not_empty" then t.supplied
  else if operator = "equals" then t.supplied && t.exact
  else if operator = "not_equals" then t.supplied && !t.exact
  else if operator = "contains" then t.contains
  else if operator = "greater_than" then t.greater
  else if operator = "less_than" then t.less
  else if operator = "in" then t.supplied && t.inList
  else if operator = "not_in" then t.supplied && !t.inList
  else false

section Php

open Engine.RuleEvaluator

def phpTests (answer operand : Php.Value) : Tests where
  supplied := Engine.RuleEvaluator.supplied answer
  exact := isExactly answer operand
  contains := match operand with
    | .str needle => Engine.RuleEvaluator.supplied answer &&
        (members answer).any fun member => strContains (asString member) needle
    | _ => false
  greater := compareNumeric answer operand fun a b => b.lt a
  less := compareNumeric answer operand fun a b => a.lt b
  inList := anyInList (members answer) operand

theorem operatorHolds_eq_phpTests (operator : String) (answer operand : Php.Value) :
    operatorHolds operator answer operand = (phpTests answer operand).holds operator := rfl

theorem sameScalar_str (s : String) (v : Php.Value) :
    sameScalar (.str s) v = decide (s = asString v) := by
  cases v with
  | str t => simp [sameScalar, Php.Value.gettype, asString, Php.Value.isScalar, Php.Value.castString]
  | _ => rfl

theorem members_toPhp (a : Answer) : members a.toPhp = a.members.map .str := by
  cases a with
  | one s => rfl
  | many ss => exact Php.Value.items_ofList (ss.map .str)

theorem supplied_phpAnswer (a : Option Answer) :
    Engine.RuleEvaluator.supplied (phpAnswer a) = supplied a := by
  rcases a with _ | s | ss
  · rfl
  · simp [Engine.RuleEvaluator.supplied, phpAnswer, Answer.toPhp, supplied]
  · cases ss with
    | nil => rfl
    | cons s ss =>
      simp [Engine.RuleEvaluator.supplied, phpAnswer, Answer.toPhp, supplied, Php.Value.ofList,
        List.mapIdx_cons]

theorem isExactly_phpAnswer (a : Option Answer) (v : Php.Value) :
    (supplied a && isExactly (phpAnswer a) v) =
      (supplied a && decide (single? a = some (asString v))) := by
  rcases a with _ | s | ss
  · rfl
  · rw [phpAnswer, Option.map_some, Option.getD_some, isExactly, members_toPhp]
    simp only [Answer.members, List.map_cons, List.map_nil, sameScalar_str, single?,
      Option.some.injEq]
  · rw [phpAnswer, Option.map_some, Option.getD_some, isExactly, members_toPhp]
    rcases ss with _ | ⟨s, _ | ⟨s', ss⟩⟩
    · rfl
    · simp only [Answer.members, List.map_cons, List.map_nil, sameScalar_str, single?,
        Option.some.injEq]
    · rfl

theorem any_members_phpAnswer (a : Option Answer) (p : Php.Value → Bool) :
    (supplied a && (members (phpAnswer a)).any p) =
      (supplied a && (membersOf a).any fun s => p (.str s)) := by
  cases a with
  | none => rfl
  | some a =>
    rw [phpAnswer, Option.map_some, Option.getD_some, members_toPhp, List.any_map]
    rfl

theorem items_phpOperand (v : Option Json) (hv : ∀ w ∈ v, w.isOperand = true) :
    (phpOperand v).items = (entries v).map Json.decode := by
  rcases v with _ | v
  · rfl
  · have h := hv v rfl
    cases v with
    | arr vs =>
      rw [phpOperand, Option.map_some, Option.getD_some, Json.decode, Php.Value.items_ofList,
        Json.decodeList_eq_map, entries]
    | obj es => exact absurd h Bool.false_ne_true
    | int n =>
      rw [phpOperand, Option.map_some, Option.getD_some, Json.decode, Php.Value.ofNumber]
      split <;> rfl
    | null => rfl
    | bool b => rfl
    | real q => rfl
    | str s => rfl

end Php

section Js

open Js

def jsTests (answer operand : Js.Value) : Tests where
  supplied := Js.supplied answer
  exact := isExactly answer operand
  contains := match operand with
    | .str needle => Js.supplied answer &&
        (members answer).any fun member => includes (asString member) needle
    | _ => false
  greater := compareNumeric answer operand fun a b => b.lt a
  less := compareNumeric answer operand fun a b => a.lt b
  inList := anyInList answer operand

theorem operatorHolds_eq_jsTests (operator : String) (answer operand : Js.Value) :
    operatorHolds operator answer operand = (jsTests answer operand).holds operator := rfl

theorem sameScalar_str_js (s : String) (v : Js.Value) :
    sameScalar (.str s) v = decide (s = asString v) := by
  cases v with
  | str t =>
    have htype : (Js.Value.str s).typeof = (Js.Value.str t).typeof := rfl
    rw [sameScalar, if_pos htype, Js.Value.strictEq, asString, Bool.eq_iff_iff, beq_iff_eq,
      decide_eq_true_eq]
  | _ => rfl

theorem members_toJs (a : Answer) : members a.toJs = a.members.map .str := by
  cases a <;> rfl

theorem supplied_jsAnswer (a : Option Answer) : Js.supplied (jsAnswer a) = supplied a := by
  rcases a with _ | s | ss
  · rfl
  · rfl
  · rw [jsAnswer, Option.map_some, Option.getD_some, Answer.toJs, Js.supplied, List.isEmpty_map]
    rfl

theorem isExactly_jsAnswer (a : Option Answer) (v : Js.Value) :
    (supplied a && isExactly (jsAnswer a) v) =
      (supplied a && decide (single? a = some (asString v))) := by
  rcases a with _ | s | ss
  · rfl
  · rw [jsAnswer, Option.map_some, Option.getD_some, isExactly, members_toJs]
    simp only [Answer.members, List.map_cons, List.map_nil, sameScalar_str_js, single?,
      Option.some.injEq]
  · rw [jsAnswer, Option.map_some, Option.getD_some, isExactly, members_toJs]
    rcases ss with _ | ⟨s, _ | ⟨s', ss⟩⟩
    · rfl
    · simp only [Answer.members, List.map_cons, List.map_nil, sameScalar_str_js, single?,
        Option.some.injEq]
    · rfl

theorem any_members_jsAnswer (a : Option Answer) (p : Js.Value → Bool) :
    (supplied a && (members (jsAnswer a)).any p) =
      (supplied a && (membersOf a).any fun s => p (.str s)) := by
  cases a with
  | none => rfl
  | some a =>
    rw [jsAnswer, Option.map_some, Option.getD_some, members_toJs, List.any_map]
    rfl

theorem items_jsOperand (v : Option Json) :
    (jsOperand v).items = (entries v).map Json.parse := by
  rcases v with _ | v
  · rfl
  · cases v with
    | arr vs =>
      rw [jsOperand, Option.map_some, Option.getD_some, Json.parse, Js.Value.items,
        Json.parseList_eq_map, entries]
    | _ => rfl

end Js

/-! ## Where the two languages part -/

/-- An operand as text in PHP, nothing where there is none. -/
def phpOperandText (v : Option Json) : String := (v.map phpText).getD ""

/-- An operand as text in JavaScript, nothing where there is none. -/
def jsOperandText (v : Option Json) : String := (v.map jsText).getD ""

/-- **A comparison one language makes and finds true, the other can make.**
Both sides must then read as numbers in both. -/
def ComparedAlike (compare : Binary64 → Binary64 → Bool)
    (left left' right right' : Option Binary64) : Prop :=
  (∀ x ∈ left, ∀ y ∈ right, compare x y = true → left'.isSome ∧ right'.isSome) ∧
    ∀ x ∈ left', ∀ y ∈ right', compare x y = true → left.isSome ∧ right.isSome

/-- The comparison of two readings, where there are two. -/
def comparison (compare : Binary64 → Binary64 → Bool) (left right : Option Binary64) : Bool :=
  match left, right with
  | some x, some y => compare x y
  | _, _ => false

variable {compare : Binary64 → Binary64 → Bool} {left right : Option Binary64} {answers : Answers}

theorem comparison_eq_true :
    comparison compare left right = true ↔ ∃ x ∈ left, ∃ y ∈ right, compare x y = true := by
  cases left <;> cases right <;> simp [comparison]

/-- **That is exactly when the two comparisons come out alike.** -/
theorem comparison_eq_iff {left' right' : Option Binary64} (hl : NumbersAgree left left')
    (hr : NumbersAgree right right') :
    comparison compare left right = comparison compare left' right' ↔
      ComparedAlike compare left left' right right' := by
  rw [Bool.eq_iff_iff, comparison_eq_true, comparison_eq_true]
  constructor
  · intro h
    refine ⟨fun x hx y hy hxy => ?_, fun x hx y hy hxy => ?_⟩
    · obtain ⟨x', hx', y', hy', -⟩ := h.1 ⟨x, hx, y, hy, hxy⟩
      exact ⟨Option.isSome_iff_exists.2 ⟨x', hx'⟩, Option.isSome_iff_exists.2 ⟨y', hy'⟩⟩
    · obtain ⟨x', hx', y', hy', -⟩ := h.2 ⟨x, hx, y, hy, hxy⟩
      exact ⟨Option.isSome_iff_exists.2 ⟨x', hx'⟩, Option.isSome_iff_exists.2 ⟨y', hy'⟩⟩
  · rintro ⟨h1, h2⟩
    constructor
    · rintro ⟨x, hx, y, hy, hxy⟩
      obtain ⟨hl', hr'⟩ := h1 x hx y hy hxy
      obtain ⟨x', hx'⟩ := Option.isSome_iff_exists.1 hl'
      obtain ⟨y', hy'⟩ := Option.isSome_iff_exists.1 hr'
      rw [hl x x' hx hx', hr y y' hy hy'] at hxy
      exact ⟨x', hx', y', hy', hxy⟩
    · rintro ⟨x, hx, y, hy, hxy⟩
      obtain ⟨hl', hr'⟩ := h2 x hx y hy hxy
      obtain ⟨x', hx'⟩ := Option.isSome_iff_exists.1 hl'
      obtain ⟨y', hy'⟩ := Option.isSome_iff_exists.1 hr'
      rw [← hl x' x hx' hx, ← hr y' y hy' hy] at hxy
      exact ⟨x', hx', y', hy', hxy⟩

/-- A condition's operator, answer and operand meet no difference between the
languages. -/
structure Alike (operator : String) (a : Option Answer) (v : Option Json) : Prop where
  /-- A single answer is the operand's text in both languages or in
  neither. -/
  exact : operator = "equals" ∨ operator = "not_equals" → supplied a = true →
    (single? a = some (phpOperandText v) ↔ single? a = some (jsOperandText v))
  /-- Some member is the text of an entry in both languages or in neither. -/
  inList : operator = "in" ∨ operator = "not_in" → supplied a = true →
    ((∃ s ∈ membersOf a, ∃ e ∈ entries v, s = phpText e) ↔
      ∃ s ∈ membersOf a, ∃ e ∈ entries v, s = jsText e)
  /-- What one language finds greater, the other can compare. -/
  greater : operator = "greater_than" → ComparedAlike (fun a b => b.lt a)
    (Engine.RuleEvaluator.numericValue (phpAnswer a)) (Js.numericValue (jsAnswer a))
    (Engine.RuleEvaluator.numericValue (phpOperand v)) (Js.numericValue (jsOperand v))
  /-- What one language finds less, the other can compare. -/
  less : operator = "less_than" → ComparedAlike (fun a b => a.lt b)
    (Engine.RuleEvaluator.numericValue (phpAnswer a)) (Js.numericValue (jsAnswer a))
    (Engine.RuleEvaluator.numericValue (phpOperand v)) (Js.numericValue (jsOperand v))

theorem numbersAgree_phpAnswer (a : Option Answer) :
    NumbersAgree (Engine.RuleEvaluator.numericValue (phpAnswer a))
      (Js.numericValue (jsAnswer a)) := by
  cases a with
  | none => exact fun _ _ h => absurd h.symm (Option.some_ne_none _)
  | some a => exact numbersAgree_answer a

theorem numbersAgree_phpOperand (v : Option Json) :
    NumbersAgree (Engine.RuleEvaluator.numericValue (phpOperand v))
      (Js.numericValue (jsOperand v)) := by
  cases v with
  | none => exact fun _ _ h => absurd h.symm (Option.some_ne_none _)
  | some v => exact numbersAgree_decode v

/-- Tests that agree on what is supplied and what is contained decide an
operator alike exactly when they agree on the one it picks. -/
theorem holds_eq_iff {t t' : Tests} (hs : t.supplied = t'.supplied)
    (hc : t.contains = t'.contains) (operator : String) :
    t.holds operator = t'.holds operator ↔
      (operator = "equals" ∨ operator = "not_equals" →
        (t.supplied && t.exact) = (t.supplied && t'.exact)) ∧
      (operator = "in" ∨ operator = "not_in" →
        (t.supplied && t.inList) = (t.supplied && t'.inList)) ∧
      (operator = "greater_than" → t.greater = t'.greater) ∧
      (operator = "less_than" → t.less = t'.less) := by
  obtain ⟨sup, ex, con, gt, lt, inl⟩ := t
  obtain ⟨sup', ex', con', gt', lt', inl'⟩ := t'
  obtain rfl : sup = sup' := hs
  obtain rfl : con = con' := hc
  rw [Tests.holds, Tests.holds]
  split_ifs
  any_goals subst operator
  all_goals simp_all
  -- `not_equals` and `not_in` are left: negating both sides changes nothing.
  all_goals cases sup <;> simp

theorem asString_phpOperand (v : Option Json) :
    Engine.RuleEvaluator.asString (phpOperand v) = phpOperandText v := by
  cases v <;> rfl

theorem asString_jsOperand (v : Option Json) : Js.asString (jsOperand v) = jsOperandText v := by
  cases v <;> rfl

/-- The string a `contains` looks for is read alike. -/
theorem contains_eq (a : Option Answer) (v : Option Json) :
    (phpTests (phpAnswer a) (phpOperand v)).contains =
      (jsTests (jsAnswer a) (jsOperand v)).contains := by
  have hstr : ∀ t : String, (Engine.RuleEvaluator.supplied (phpAnswer a) &&
      (Engine.RuleEvaluator.members (phpAnswer a)).any fun member =>
        Engine.RuleEvaluator.strContains (Engine.RuleEvaluator.asString member) t) =
      (Js.supplied (jsAnswer a) &&
        (Js.members (jsAnswer a)).any fun member => Js.includes (Js.asString member) t) := by
    intro t
    rw [supplied_phpAnswer, supplied_jsAnswer, any_members_phpAnswer, any_members_jsAnswer]
    rfl
  rcases v with _ | v
  · rfl
  · cases v with
    | str t => exact hstr t
    | int n =>
      have h : phpOperand (some (.int n)) = .int n ∨
          phpOperand (some (.int n)) = .float (.ofInt n) := Php.Value.ofNumber_cases n
      rcases h with h | h
      · rw [h]
        rfl
      · rw [h]
        rfl
    | _ => rfl

theorem any_entries {text : Json → String} {ss : List String} {es : List Json} :
    (ss.any fun s => es.any fun e => decide (s = text e)) = true ↔
      ∃ s ∈ ss, ∃ e ∈ es, s = text e := by
  simp only [List.any_eq_true, decide_eq_true_eq]

/-- **A condition holds in both languages or in neither exactly when it meets
no difference between them.** -/
theorem operatorHolds_eq_iff (operator : String) (a : Option Answer) (v : Option Json)
    (hv : ∀ w ∈ v, w.isOperand = true) :
    Engine.RuleEvaluator.operatorHolds operator (phpAnswer a) (phpOperand v) =
        Js.operatorHolds operator (jsAnswer a) (jsOperand v) ↔
      Alike operator a v := by
  have hsup : (phpTests (phpAnswer a) (phpOperand v)).supplied =
      (jsTests (jsAnswer a) (jsOperand v)).supplied :=
    (supplied_phpAnswer a).trans (supplied_jsAnswer a).symm
  have hsup' : (phpTests (phpAnswer a) (phpOperand v)).supplied = supplied a :=
    supplied_phpAnswer a
  have hex : (supplied a && (phpTests (phpAnswer a) (phpOperand v)).exact) =
      (supplied a && decide (single? a = some (phpOperandText v))) :=
    (isExactly_phpAnswer a _).trans (by rw [asString_phpOperand])
  have hex' : (supplied a && (jsTests (jsAnswer a) (jsOperand v)).exact) =
      (supplied a && decide (single? a = some (jsOperandText v))) :=
    (isExactly_jsAnswer a _).trans (by rw [asString_jsOperand])
  have hin : (supplied a && (phpTests (phpAnswer a) (phpOperand v)).inList) =
      (supplied a && (membersOf a).any fun s => (entries v).any fun e => decide (s = phpText e)) := by
    refine (any_members_phpAnswer a _).trans ?_
    simp only [Engine.RuleEvaluator.inList, items_phpOperand v hv, List.any_map,
      Function.comp_def, sameScalar_str]
    rfl
  have hin' : (supplied a && (jsTests (jsAnswer a) (jsOperand v)).inList) =
      (supplied a && (membersOf a).any fun s => (entries v).any fun e => decide (s = jsText e)) := by
    refine (any_members_jsAnswer a _).trans ?_
    simp only [items_jsOperand v, List.any_map, Function.comp_def, sameScalar_str_js]
    rfl
  have hand : ∀ b c : Bool, (supplied a && b) = (supplied a && c) ↔
      (supplied a = true → (b = true ↔ c = true)) := by
    intro b c
    rw [← Bool.eq_iff_iff]
    cases supplied a <;> simp
  rw [operatorHolds_eq_phpTests, operatorHolds_eq_jsTests,
    holds_eq_iff hsup (contains_eq a v), hsup', hex, hex', hin, hin', hand, hand, any_entries,
    any_entries, decide_eq_true_eq, decide_eq_true_eq]
  have hgt := @comparison_eq_iff (fun a b => b.lt a) _ _ _ _ (numbersAgree_phpAnswer a)
    (numbersAgree_phpOperand v)
  have hlt := @comparison_eq_iff (fun a b => a.lt b) _ _ _ _ (numbersAgree_phpAnswer a)
    (numbersAgree_phpOperand v)
  constructor
  · rintro ⟨h1, h2, h3, h4⟩
    exact ⟨h1, h2, fun h => hgt.1 (h3 h), fun h => hlt.1 (h4 h)⟩
  · rintro ⟨h1, h2, h3, h4⟩
    exact ⟨h1, h2, fun h => hgt.2 (h3 h), fun h => hlt.2 (h4 h)⟩

/-! ## Rules -/

/-- A condition meets no difference between the languages on the answers. -/
def PublishedCondition.AlikeOn (c : PublishedCondition) (answers : Answers) : Prop :=
  Alike c.operator (answers.get? c.optionId) c.value

theorem conditionHolds_decode (c : PublishedCondition) (answers : Answers) :
    Engine.RuleEvaluator.conditionHolds c.toJson.decode (toPhp answers) =
      Engine.RuleEvaluator.operatorHolds c.operator (phpAnswer (answers.get? c.optionId))
        (phpOperand c.value) := by
  rw [Engine.RuleEvaluator.conditionHolds, c.operator_decode, c.optionId_decode, c.value_decode,
    OrderedMap.getD, toPhp, OrderedMap.get?_mapValues]
  rfl

theorem conditionHolds_toCondition (c : PublishedCondition) (answers : Answers) :
    Cloud.conditionHolds c.toCondition (toJs answers) =
      Js.operatorHolds c.operator (jsAnswer (answers.get? c.optionId)) (jsOperand c.value) := by
  rw [Cloud.conditionHolds, OrderedMap.getD, toJs, OrderedMap.get?_mapValues]
  rfl

/-- **A condition meets no difference exactly when both evaluators find it
the same.** -/
theorem conditionHolds_eq_iff (c : PublishedCondition) (hv : ∀ w ∈ c.value, w.isOperand = true)
    (answers : Answers) :
    Engine.RuleEvaluator.conditionHolds c.toJson.decode (toPhp answers) =
        Cloud.conditionHolds c.toCondition (toJs answers) ↔ c.AlikeOn answers := by
  rw [conditionHolds_decode, conditionHolds_toCondition]
  exact operatorHolds_eq_iff c.operator _ c.value hv

/-- Taking answers out makes no difference between the languages: what is
gone is not supplied in either. -/
theorem PublishedCondition.AlikeOn.eraseAll {c : PublishedCondition} (h : c.AlikeOn answers)
    (ks : List String) : c.AlikeOn (answers.eraseAll ks) := by
  rw [AlikeOn, OrderedMap.get?_eraseAll]
  split
  · have hnone : ∀ compare right right', ComparedAlike compare
        (Engine.RuleEvaluator.numericValue (phpAnswer none)) (Js.numericValue (jsAnswer none))
        right right' :=
      fun _ _ _ => ⟨fun _ hx => absurd hx.symm (Option.some_ne_none _),
        fun _ hx => absurd hx.symm (Option.some_ne_none _)⟩
    exact ⟨fun _ h => absurd h (by decide), fun _ h => absurd h (by decide),
      fun _ => hnone _ _ _, fun _ => hnone _ _ _⟩
  · exact h

/-- A rule fires in both languages or in neither where its conditions hold
alike. -/
theorem ruleFires_eq {r : PublishedRule}
    (h : ∀ c ∈ r.conditions, Engine.RuleEvaluator.conditionHolds c.toJson.decode (toPhp answers) =
      Cloud.conditionHolds c.toCondition (toJs answers)) :
    Engine.RuleEvaluator.ruleFires r.toJson.decode (toPhp answers) =
      Cloud.ruleFires r.toRule (toJs answers) := by
  obtain ⟨hany, hall⟩ := any_all_congr h
  have hnil : (r.conditions.map fun c => c.toJson.decode) = [] ↔
      (r.conditions.map fun c => c.toCondition).isEmpty = true := by
    rw [List.map_eq_nil_iff, List.isEmpty_map, List.isEmpty_iff]
  have hmatch : Php.Value.str r.matchType = .str "any" ↔ r.matchType = "any" := by
    rw [Php.Value.str.injEq]
  simp only [Engine.RuleEvaluator.ruleFires, Cloud.ruleFires, r.conditions_decode,
    r.matchType_decode, PublishedRule.toRule, hnil, hmatch, List.any_map, List.all_map,
    Function.comp_def, PublishedCondition.isArray_decode, Bool.true_and, hany, hall]

/-- What a rule does is the same in both languages, its price aside; an
effect the cloud does not write changes nothing else. -/
theorem actAt_fired {r : PublishedRule} {s s' : TargetState}
    (hfires : Engine.RuleEvaluator.ruleFires r.toJson.decode (toPhp answers) =
      Cloud.ruleFires r.toRule (toJs answers)) (h : SameRuling s s') (t : String) :
    SameRuling (actAt t (Engine.RuleEvaluator.fired r.toJson.decode (toPhp answers)) s)
      (actAt t (Cloud.fired r.toRule (toJs answers)) s') := by
  rw [Engine.RuleEvaluator.fired, r.isArray_decode, Bool.true_and, hfires, Cloud.fired]
  cases Cloud.ruleFires r.toRule (toJs answers) with
  | false => exact h
  | true =>
    have hact : SameRuling ((Engine.RuleEvaluator.effect r.toJson.decode).act s)
        ((Cloud.effect r.toRule).act s') := SameRuling.act rfl h
    have htarget : (Engine.RuleEvaluator.effect r.toJson.decode).target = t ↔
        (Cloud.effect r.toRule).target = t := Iff.rfl
    rw [if_pos rfl, Bool.true_and]
    by_cases hw : Cloud.writes (Cloud.effect r.toRule) = true
    · rw [if_pos hw]
      simp only [actAt, htarget]
      split
      · exact hact
      · exact h
    · rw [if_neg hw]
      simp only [actAt]
      split
      · rw [Cloud.act_of_not_writes hw] at hact
        exact hact
      · exact h

/-! ## Whole evaluations -/

theorem toPhp_eraseAll (answers : Answers) (ks : List String) :
    (toPhp answers).eraseAll ks = toPhp (answers.eraseAll ks) :=
  OrderedMap.mapValues_eraseAll _ _ _

theorem toJs_eraseAll (answers : Answers) (ks : List String) :
    (toJs answers).eraseAll ks = toJs (answers.eraseAll ks) :=
  OrderedMap.mapValues_eraseAll _ _ _

theorem selfSame_toJs (answers : Answers) :
    ∀ p ∈ (toJs answers).entries, p.2.selfSame = true := by
  intro p hp
  obtain ⟨⟨k, a⟩, -, rfl⟩ := List.mem_map.1 hp
  cases a <;> rfl

theorem same_eraseAll (answers : Answers) (ks ks' : List String) :
    Engine.RuleEvaluator.evaluator.same ((toPhp answers).eraseAll ks)
        ((toPhp answers).eraseAll ks') =
      Cloud.evaluator.same ((toJs answers).eraseAll ks) ((toJs answers).eraseAll ks') := by
  change decide _ = Js.sameAnswers _ _
  rw [Bool.eq_iff_iff, decide_eq_true_eq, Js.sameAnswers_eraseAll_iff (selfSame_toJs answers),
    OrderedMap.eraseAll_eq_iff, OrderedMap.eraseAll_eq_iff, toPhp, toJs,
    OrderedMap.keys_mapValues, OrderedMap.keys_mapValues]

theorem compares_sameRuling : Compares SameRuling :=
  ⟨SameRuling.refl _, SameRuling.hidden, fun h => ⟨rfl, h.required⟩⟩

/-- **Where every condition is read alike, so is the whole evaluation.** -/
theorem evaluate_agree {rules : List PublishedRule}
    (hv : ∀ r ∈ rules, ∀ c ∈ r.conditions, ∀ w ∈ c.value, w.isOperand = true)
    (h : ∀ r ∈ rules, ∀ c ∈ r.conditions, c.AlikeOn answers) (optionsUnder : Containment) :
    (Engine.RuleEvaluator.evaluate (rules.map (·.toJson.decode)) (toPhp answers)
        optionsUnder).AgreeOn SameRuling
      (Cloud.evaluateRules (rules.map (·.toRule)) (toJs answers) optionsUnder) := by
  refine agree_of_fired compares_sameRuling rfl (fun ks t => ?_) (same_eraseAll answers)
  rw [stateAt_accumulate_filterMap, stateAt_accumulate_filterMap, List.foldl_map, List.foldl_map,
    toPhp_eraseAll, toJs_eraseAll]
  -- The two folds stay alike, rule by rule.
  have hfold : ∀ (l : List PublishedRule), (∀ r ∈ l, r ∈ rules) → ∀ {s s' : TargetState},
      SameRuling s s' →
      SameRuling (l.foldl (fun s r => actAt t
          (Engine.RuleEvaluator.fired r.toJson.decode (toPhp (answers.eraseAll ks))) s) s)
        (l.foldl (fun s r => actAt t
          (Cloud.fired r.toRule (toJs (answers.eraseAll ks))) s) s') := by
    intro l
    induction l with
    | nil => exact fun _ _ _ hs => hs
    | cons r l ih =>
      intro hmem s s' hs
      obtain ⟨hr, hl⟩ := List.forall_mem_cons.1 hmem
      exact ih hl (actAt_fired (ruleFires_eq fun c hc =>
        (conditionHolds_eq_iff c (hv r hr c hc) _).2 ((h r hr c hc).eraseAll ks)) hs t)
  exact hfold rules (fun _ hr => hr) (SameRuling.refl _)

/-- The plugin's and the cloud's evaluators agree on a list of rules: in the
verdict, the passes and what is hidden and required, and on every condition
of the rules. -/
def LanguagesAgree (rules : List PublishedRule) (answers : Answers)
    (optionsUnder : Containment) : Prop :=
  (Engine.RuleEvaluator.evaluate (rules.map (·.toJson.decode)) (toPhp answers)
      optionsUnder).AgreeOn SameRuling
    (Cloud.evaluateRules (rules.map (·.toRule)) (toJs answers) optionsUnder) ∧
  ∀ r ∈ rules, ∀ c ∈ r.conditions,
    Engine.RuleEvaluator.conditionHolds c.toJson.decode (toPhp answers) =
      Cloud.conditionHolds c.toCondition (toJs answers)

end Optionia.Wire
