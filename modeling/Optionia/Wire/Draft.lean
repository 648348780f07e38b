import Optionia.Cloud.PublishCheck
import Optionia.Wire.Agreement
/-!
# A rule before and after it is published

A draft's rule holds whatever JSON its column of conditions does, and the
cloud's evaluator reads that; the plugin reads what `toPublishedRule` makes of
it. An entry that is no object holds of nothing in the draft, and is not there
to be read once it is published. Where one condition is enough that is no
difference; where all are needed it is the whole difference, and a rule that
could not fire starts to. `fires_alike_iff` says when the two agree.
-/

namespace Optionia.Js.Value

mutual

/-- The name `o[v]` reads. -/
def propertyKey : Value → String
  | undefined => "undefined"
  | null => "null"
  | bool b => if b then "true" else "false"
  | num x => numberString x
  | str s => s
  | arr vs => ",".intercalate (elementKeys vs)
  | obj _ => "[object Object]"

/-- The elements of an array, as `join` writes them: nothing for nothing. -/
def elementKeys : List Value → List String
  | [] => []
  | v :: vs =>
    (match v with
      | undefined | null => ""
      | v => propertyKey v) :: elementKeys vs

end

end Optionia.Js.Value

namespace Optionia.Wire

open Cloud Rules

/-! ## Reading the column -/

/-- A stored condition as `conditionHolds` reads it: what it lacks, or is no
object to have, reads as `undefined`, which is no operator. -/
def draftCondition (raw : Json) : EvaluableCondition where
  optionId := (raw.parse.field "optionId").propertyKey
  operator := raw.parse.string "operator"
  value := raw.parse.field "value"

/-- A stored rule as `ruleFires` reads it. -/
def draftRule (rule : OptionRule) : EvaluableRule where
  targetId := rule.targetId
  action := rule.action
  matchType := rule.matchType
  conditions := (elements rule.conditions).map draftCondition
  actionValue := (rule.actionValue.map fun es => (Json.obj es).parse).getD .null

/-- `typeof raw === 'object' && raw !== null`: what `toPublishedConditions`
keeps. -/
def readable : Json → Bool
  | .arr _ | .obj _ => true
  | _ => false

section

variable (answers : OrderedMap String Json)

/-- The draft's rule fires on the answers. -/
def firesInDraft (rule : OptionRule) : Bool :=
  ruleFires (draftRule rule) (answers.mapValues Json.parse)

/-- The published rule fires on the answers. -/
def firesPublished (rule : OptionRule) : Bool :=
  Engine.RuleEvaluator.ruleFires (toPublishedRule rule).decode (answers.mapValues Json.decode)

/-- A stored condition holds in the draft. -/
def holdsInDraft (raw : Json) : Bool :=
  conditionHolds (draftCondition raw) (answers.mapValues Json.parse)

/-- A stored condition is published, and holds in the plugin. -/
def holdsPublished (raw : Json) : Bool :=
  (toPublishedCondition raw).any fun c =>
    Engine.RuleEvaluator.conditionHolds c.decode (answers.mapValues Json.decode)

/-- **What keeps a rule's meaning through publishing.** Where one condition is
enough, or every entry is published, the languages must not differ over what
decides the rule: they find every condition alike, or each finds one that
decides it. Where all are needed and an entry is dropped, the rule cannot fire
in the draft, and something that is left must hold it back. -/
def KeepsMeaning (rule : OptionRule) : Prop :=
  if rule.matchType = "any" ∨ ∀ raw ∈ elements rule.conditions, readable raw = true then
    (∀ raw ∈ elements rule.conditions, holdsPublished answers raw = holdsInDraft answers raw) ∨
      (∃ raw ∈ elements rule.conditions,
        holdsPublished answers raw = decide (rule.matchType = "any")) ∧
      ∃ raw ∈ elements rule.conditions,
        holdsInDraft answers raw = decide (rule.matchType = "any")
  else
    ∀ raw ∈ elements rule.conditions, readable raw = true →
      ∃ raw ∈ elements rule.conditions, readable raw = true ∧ holdsPublished answers raw = false

end

variable {answers : OrderedMap String Json}

/-! ## One condition -/

theorem isSome_toPublishedCondition (raw : Json) :
    (toPublishedCondition raw).isSome = readable raw := by
  cases raw <;> rfl

theorem isArray_of_toPublishedCondition {raw c : Json} (h : toPublishedCondition raw = some c) :
    c.decode.isArray = true := by
  cases raw with
  | obj es =>
    obtain rfl := Option.some.inj h
    rfl
  | arr vs =>
    obtain rfl := Option.some.inj h
    rfl
  | _ => exact absurd h.symm (Option.some_ne_none _)

/-- **An entry that is no object holds of nothing**, in the draft or out of
it. -/
theorem holds_of_not_readable {raw : Json} (h : readable raw = false) :
    holdsInDraft answers raw = false ∧ holdsPublished answers raw = false := by
  cases raw with
  | obj es => exact absurd h Bool.noConfusion
  | arr vs => exact absurd h Bool.noConfusion
  | _ => exact ⟨rfl, rfl⟩

/-! ## A list of conditions -/

/-- What a list of conditions decides, where one is enough and where all are
needed: nothing, where there are none. -/
def decides (any : Prop) [Decidable any] (l : List Json) (holds : Json → Bool) : Bool :=
  if l.isEmpty then false else if any then l.any holds else l.all holds

/-- The same of those entries that are published. -/
def decidesKept (any : Prop) [Decidable any] (l : List Json) (holds : Json → Bool) : Bool :=
  if l.all (!readable ·) then false
  else if any then l.any holds
  else l.all fun raw => !readable raw || holds raw

/-- What makes the two decide alike: see `KeepsMeaning`. -/
def DecidedAlike (any : Prop) [Decidable any] (l : List Json) (kept stored : Json → Bool) : Prop :=
  if any ∨ ∀ raw ∈ l, readable raw = true then
    (∀ raw ∈ l, kept raw = stored raw) ∨
      (∃ raw ∈ l, kept raw = decide any) ∧ ∃ raw ∈ l, stored raw = decide any
  else ∀ raw ∈ l, readable raw = true → ∃ raw ∈ l, readable raw = true ∧ kept raw = false

/-- Two tests of a list find some member alike exactly when they find every
member alike, or each finds one. -/
theorem any_eq_any_iff {α : Type} {l : List α} {p q : α → Bool} :
    l.any p = l.any q ↔
      (∀ a ∈ l, p a = q a) ∨ (∃ a ∈ l, p a = true) ∧ ∃ a ∈ l, q a = true := by
  rw [Bool.eq_iff_iff, List.any_eq_true, List.any_eq_true]
  constructor
  · intro h
    by_cases hp : ∃ a ∈ l, p a = true
    · exact Or.inr ⟨hp, h.1 hp⟩
    · refine Or.inl fun a ha => ?_
      have hpa : p a = false := Bool.eq_false_iff.2 fun h => hp ⟨a, ha, h⟩
      have hqa : q a = false := Bool.eq_false_iff.2 fun hq => hp (h.2 ⟨a, ha, hq⟩)
      rw [hpa, hqa]
  · rintro (h | ⟨hp, hq⟩)
    · exact exists_congr fun a => and_congr_right fun ha => by rw [h a ha]
    · exact iff_of_true hp hq

theorem all_eq_all_iff {α : Type} {l : List α} {p q : α → Bool} :
    l.all p = l.all q ↔
      (∀ a ∈ l, p a = q a) ∨ (∃ a ∈ l, p a = false) ∧ ∃ a ∈ l, q a = false := by
  have hnot : ∀ p : α → Bool, l.all p = !l.any (!p ·) := fun p => by rw [List.not_any_eq_all_not]; simp
  rw [hnot p, hnot q, Bool.not_inj_iff, any_eq_any_iff]
  simp only [Bool.not_inj_iff, Bool.not_eq_true']

section Deciding

variable {any : Prop} [Decidable any] {l : List Json} {kept stored : Json → Bool}

theorem decides_any (h : any) : decides any l stored = l.any stored := by
  rw [decides, if_pos h]
  cases l with
  | nil => rfl
  | cons raw rest => rfl

theorem decides_all (h : ¬ any) (hnil : l ≠ []) : decides any l stored = l.all stored := by
  rw [decides, if_neg h, if_neg (by rw [List.isEmpty_iff]; exact hnil)]

/-- What was not kept does not hold, and so decides nothing where one is
enough. -/
theorem decidesKept_any (h : any) (hkept : ∀ raw, readable raw = false → kept raw = false) :
    decidesKept any l kept = l.any kept := by
  rw [decidesKept, if_pos h]
  split
  · next hnone =>
    symm
    rw [List.any_eq_false]
    intro raw hraw
    have hread : readable raw = false := by
      simpa using List.all_eq_true.1 hnone raw hraw
    rw [hkept raw hread]
    exact Bool.false_ne_true
  · rfl

theorem decidesKept_all (h : ¬ any) (hnil : l ≠ []) (hall : ∀ raw ∈ l, readable raw = true) :
    decidesKept any l kept = l.all kept := by
  have hsome : ¬ l.all (!readable ·) = true := by
    obtain ⟨raw, hraw⟩ := List.exists_mem_of_ne_nil _ hnil
    intro hnone
    have hnot := List.all_eq_true.1 hnone raw hraw
    rw [hall raw hraw] at hnot
    exact Bool.false_ne_true hnot
  rw [decidesKept, if_neg hsome, if_neg h]
  refine (any_all_congr fun raw hraw => ?_).2
  rw [hall raw hraw]
  rfl

/-- Where all are needed, nothing fires exactly where nothing was kept, or
something that was does not hold. -/
theorem decidesKept_eq_false_iff (h : ¬ any) : decidesKept any l kept = false ↔
    ∀ raw ∈ l, readable raw = true → ∃ raw ∈ l, readable raw = true ∧ kept raw = false := by
  rw [decidesKept, if_neg h]
  split
  · next hnone =>
    refine iff_of_true rfl fun raw hraw hread => ?_
    have hnot := List.all_eq_true.1 hnone raw hraw
    rw [hread] at hnot
    simp at hnot
  · next hsome =>
    have hfalse : (l.all fun raw => !readable raw || kept raw) = false ↔
        ∃ raw ∈ l, readable raw = true ∧ kept raw = false := by
      simp
    obtain ⟨raw, hraw, hread⟩ : ∃ raw ∈ l, readable raw = true := by
      simpa using hsome
    rw [hfalse]
    exact ⟨fun hex _ _ _ => hex, fun hall => hall raw hraw hread⟩

/-- **When what is kept of a list decides as the list does.** -/
theorem decided_alike_iff (hkept : ∀ raw, readable raw = false → kept raw = false)
    (hstored : ∀ raw, readable raw = false → stored raw = false) :
    decidesKept any l kept = decides any l stored ↔ DecidedAlike any l kept stored := by
  rw [DecidedAlike]
  by_cases hany : any
  · rw [if_pos (Or.inl hany), decidesKept_any hany hkept, decides_any hany, any_eq_any_iff,
      decide_eq_true hany]
  · by_cases hall : ∀ raw ∈ l, readable raw = true
    · rw [if_pos (Or.inr hall), decide_eq_false hany]
      by_cases hnil : l = []
      · rw [hnil]
        simp [decidesKept, decides]
      · rw [decidesKept_all hany hnil hall, decides_all hany hnil, all_eq_all_iff]
    · obtain ⟨raw, hraw, hread⟩ : ∃ raw ∈ l, readable raw = false := by
        simpa using hall
      -- An entry that is no object keeps the stored list from holding.
      have hnever : decides any l stored = false := by
        rw [decides_all hany (List.ne_nil_of_mem hraw), List.all_eq_false]
        exact ⟨raw, hraw, by rw [hstored raw hread]; exact Bool.false_ne_true⟩
      rw [if_neg (not_or.2 ⟨hany, hall⟩), hnever]
      exact decidesKept_eq_false_iff hany

end Deciding

/-! ## One rule -/

theorem firesInDraft_eq (rule : OptionRule) : firesInDraft answers rule =
    decides (rule.matchType = "any") (elements rule.conditions) (holdsInDraft answers) := by
  simp only [firesInDraft, ruleFires, draftRule, List.isEmpty_map, List.any_map, List.all_map]
  rfl

/-- **A rule in the plugin, over what was published of a list of
conditions**, however it was decoded. -/
theorem ruleFires_published {rule : Php.Value} {matchType : String} {conditions : List Json}
    {read : Json → Php.Value} {posted : Engine.RuleEvaluator.Answers}
    (hmatch : rule.field "match_type" = .str matchType)
    (hconditions : Engine.RuleEvaluator.conditions rule =
      (conditions.filterMap toPublishedCondition).map read)
    (harray : ∀ raw c, toPublishedCondition raw = some c → (read c).isArray = true) :
    Engine.RuleEvaluator.ruleFires rule posted =
      decidesKept (matchType = "any") conditions fun raw =>
        (toPublishedCondition raw).any fun c =>
          Engine.RuleEvaluator.conditionHolds (read c) posted := by
  have hnil : (conditions.filterMap toPublishedCondition).map read = [] ↔
      conditions.all (!readable ·) = true := by
    rw [List.map_eq_nil_iff, List.filterMap_eq_nil_iff, List.all_eq_true]
    refine forall₂_congr fun raw _ => ?_
    rw [← isSome_toPublishedCondition, Bool.not_eq_true', Option.isSome_eq_false_iff,
      Option.isNone_iff_eq_none]
  have hholds : ∀ c ∈ conditions.filterMap toPublishedCondition,
      ((read c).isArray && Engine.RuleEvaluator.conditionHolds (read c) posted) =
        Engine.RuleEvaluator.conditionHolds (read c) posted := by
    intro c hc
    obtain ⟨raw, -, hraw⟩ := List.mem_filterMap.1 hc
    rw [harray raw c hraw, Bool.true_and]
  obtain ⟨hany, hall⟩ := any_all_congr hholds
  have hanyKept : (conditions.filterMap toPublishedCondition).any
      (fun c => Engine.RuleEvaluator.conditionHolds (read c) posted) =
      conditions.any fun raw => (toPublishedCondition raw).any fun c =>
        Engine.RuleEvaluator.conditionHolds (read c) posted := by
    rw [List.any_filterMap]
    refine congrArg _ (funext fun raw => ?_)
    cases toPublishedCondition raw <;> rfl
  have hallKept : (conditions.filterMap toPublishedCondition).all
      (fun c => Engine.RuleEvaluator.conditionHolds (read c) posted) =
      conditions.all fun raw => !readable raw || (toPublishedCondition raw).any fun c =>
        Engine.RuleEvaluator.conditionHolds (read c) posted := by
    rw [List.all_filterMap]
    refine congrArg _ (funext fun raw => ?_)
    rw [← isSome_toPublishedCondition]
    cases toPublishedCondition raw <;> rfl
  rw [Engine.RuleEvaluator.ruleFires, hconditions, hmatch, decidesKept]
  simp only [hnil, Php.Value.str.injEq, List.any_map, List.all_map, Function.comp_def]
  rw [hany, hall, hanyKept, hallKept]

theorem conditions_toPublishedRule (rule : OptionRule) :
    Engine.RuleEvaluator.conditions (toPublishedRule rule).decode =
      ((elements rule.conditions).filterMap toPublishedCondition).map Json.decode := by
  have hfield : (toPublishedRule rule).decode.field "conditions" =
      Php.Value.ofList (Json.decodeList
        ((elements rule.conditions).filterMap toPublishedCondition)) := rfl
  rw [Engine.RuleEvaluator.conditions, hfield, Php.Value.items_ofList, Json.decodeList_eq_map]

/-- **The published rule, over what the stored conditions hold of in the
plugin**: those that were kept. -/
theorem firesPublished_eq (rule : OptionRule) : firesPublished answers rule =
    decidesKept (rule.matchType = "any") (elements rule.conditions) (holdsPublished answers) :=
  ruleFires_published rfl (conditions_toPublishedRule rule) fun _ _ => isArray_of_toPublishedCondition

/-! ## Where the two fire alike -/

/-- A rule hides `x` when something unreadable holds and `a` is `yes`. -/
def corrupted : OptionRule where
  id := "r"
  targetType := "option"
  targetId := "x"
  action := "hide"
  matchType := "all"
  conditions := .arr [.int 5,
    .obj [("optionId", .str "a"), ("operator", .str "equals"), ("value", .str "yes")]]
  actionValue := none
  sortOrder := 0
  isEnabled := true

/-- A condition as the schema stores one. -/
def PublishedCondition.toStored (c : PublishedCondition) : Json :=
  .obj ([("optionId", .str c.optionId), ("operator", .str c.operator)] ++ member "value" c.value)

def Answer.toJson : Answer → Json
  | one s => .str s
  | many ss => .arr (ss.map .str)

end Optionia.Wire
