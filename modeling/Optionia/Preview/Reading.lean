import Optionia.Preview.Document
import Optionia.Rules.Rounds
import Optionia.Wire.Prices
/-!
# The rules of a set, in the preview and on the storefront

The preview evaluates the rules as they are authored, the storefront those of
the document. A rule reads alike on some answers where what is left of its
conditions decides as they do, and where the price it sets is one that both
can hold (`ReadsAlike`). Where every round of the preview reads them alike,
the two come to one outcome (`outcomes_agree`).
-/

namespace Optionia.Preview

open Engine.Pricing (maxMinor)
open Rules Sets Wire

/-! ## One rule -/

section Rule

variable (answers : OrderedMap String Json)

/-- A stored condition is published, and holds on the storefront. -/
def holdsSent (raw : Json) : Bool :=
  (Cloud.toPublishedCondition raw).any fun c =>
    Engine.RuleEvaluator.conditionHolds (sent c) (answers.mapValues sent)

/-- The published rule fires on the storefront. -/
def firesSent (rule : Cloud.OptionRule) : Bool :=
  Engine.RuleEvaluator.ruleFires (sent (Cloud.toPublishedRule rule)) (answers.mapValues sent)

/-- The amount that a rule names is none, or no integer that a double does not
hold. -/
def NamesPrice (rule : Cloud.OptionRule) : Prop :=
  ∀ es ∈ rule.actionValue, ∀ n ∈ carried (Json.parseEntries es) "amountMinor", |n| ≤ maxMinor

/-- **A rule reads alike in the preview and on the storefront.** What was
published of its conditions decides as they do; and where it fires to set a
price, both can hold it. -/
structure ReadsAlike (rule : Cloud.OptionRule) : Prop where
  conditions : DecidedAlike (rule.matchType = "any") (Cloud.elements rule.conditions)
    (holdsSent answers) (holdsInDraft answers)
  price : rule.action = "set_price" → firesInDraft answers rule = true → NamesPrice rule

end Rule

variable {answers : OrderedMap String Json} {rule : Cloud.OptionRule}

theorem conditions_sent (rule : Cloud.OptionRule) :
    Engine.RuleEvaluator.conditions (sent (Cloud.toPublishedRule rule)) =
      ((Cloud.elements rule.conditions).filterMap Cloud.toPublishedCondition).map sent := by
  have hfield : (sent (Cloud.toPublishedRule rule)).field "conditions" =
      sent (.arr ((Cloud.elements rule.conditions).filterMap Cloud.toPublishedCondition)) := by
    rw [Cloud.toPublishedRule, field_sent]
    rfl
  rw [Engine.RuleEvaluator.conditions, hfield, items_sent]

/-- **It fires alike exactly where what is left of its conditions decides as
they do.** -/
theorem fires_alike_iff_decided : firesSent answers rule = firesInDraft answers rule ↔
    DecidedAlike (rule.matchType = "any") (Cloud.elements rule.conditions)
      (holdsSent answers) (holdsInDraft answers) := by
  have hmatch : (sent (Cloud.toPublishedRule rule)).field "match_type" = .str rule.matchType := by
    rw [Cloud.toPublishedRule, field_sent]
    rfl
  have harray : ∀ raw c, Cloud.toPublishedCondition raw = some c → (sent c).isArray = true := by
    intro raw c h
    cases raw with
    | obj es =>
      obtain rfl := Option.some.inj h
      rfl
    | arr vs =>
      obtain rfl := Option.some.inj h
      rfl
    | _ => exact absurd h.symm (Option.some_ne_none _)
  have hnone : ∀ raw, readable raw = false → holdsSent answers raw = false := by
    intro raw h
    have hdropped : Cloud.toPublishedCondition raw = none := by
      rw [← isSome_toPublishedCondition] at h
      exact Option.not_isSome_iff_eq_none.1 (by rw [h]; exact Bool.false_ne_true)
    rw [holdsSent, hdropped]
    rfl
  rw [firesInDraft_eq, firesSent, ruleFires_published hmatch (conditions_sent rule) harray]
  exact decided_alike_iff hnone fun _ h => (holds_of_not_readable h).1

/-! ## What it does -/

/-- The rule of the document acts on the target of the stored one, as it
does. -/
theorem effect_sent (rule : Cloud.OptionRule) :
    (Engine.RuleEvaluator.effect (sent (Cloud.toPublishedRule rule))).target = rule.targetId ∧
      (Engine.RuleEvaluator.effect (sent (Cloud.toPublishedRule rule))).action = rule.action := by
  unfold Engine.RuleEvaluator.effect Php.Value.string
  dsimp only
  rw [Cloud.toPublishedRule, field_sent, field_sent]
  exact ⟨rfl, rfl⟩

/-- The amount of a `set_price` rule is the one it was stored with. -/
theorem amount_sent (h : rule.action = "set_price") :
    (Engine.RuleEvaluator.effect (sent (Cloud.toPublishedRule rule))).amount =
      rule.actionValue.bind fun es => carried (Json.parseEntries es) "amountMinor" := by
  have hlookup : ∀ es : Record, (sent (.obj (member "amount_minor" (es.lookup "amountMinor")))).field
      "amount_minor" = (published (.obj (Json.parseEntries es))).field "amountMinor" := by
    intro es
    have hobj : published (.obj (Json.parseEntries es)) = sent (.obj es) := rfl
    rw [hobj, field_sent, field_sent, lookup_member, if_pos rfl]
  have hvalue : (sent (Cloud.toPublishedRule rule)).field "action_value" =
      ((Cloud.toPublishedActionValue rule.action rule.actionValue).map
        fun es => sent (.obj es)).getD .null := by
    have hmember := lookup_member "action_value" "action_value"
      ((Cloud.toPublishedActionValue rule.action rule.actionValue).map Json.obj)
    rw [if_pos rfl] at hmember
    rw [Cloud.toPublishedRule, field_sent, List.lookup_append]
    simp only [List.lookup_cons, List.lookup_nil]
    change (Option.map sent ((none : Option Json).or _)).getD .null = _
    rw [hmember, Option.none_or, Option.map_map]
    rfl
  unfold Engine.RuleEvaluator.effect
  dsimp only
  rw [hvalue, h]
  cases rule.actionValue with
  | none => rfl
  | some es => exact congrArg Php.Value.int? (hlookup es)

theorem amount_draft (h : NamesPrice rule) : (Cloud.effect (draftRule rule)).amount =
    rule.actionValue.bind fun es => carried (Json.parseEntries es) "amountMinor" := by
  unfold Cloud.effect draftRule
  dsimp only
  cases hvalue : rule.actionValue with
  | none => rfl
  | some es =>
    show ((Js.Value.obj (Json.parseEntries es)).field "amountMinor").safeInteger? = _
    rw [safeInteger?_field, Option.bind_some]
    cases hcarried : carried (Json.parseEntries es) "amountMinor" with
    | none => exact carriedSafe_of_none hcarried
    | some n => exact carriedSafe_eq_some.2 ⟨hcarried, h es hvalue n hcarried⟩

theorem act_congr {e e' : Effect} (haction : e.action = e'.action)
    (hamount : e.action = "set_price" → e.amount = e'.amount) (s : TargetState) :
    e.act s = e'.act s := by
  unfold Effect.act
  rw [← haction]
  by_cases hprice : e.action = "set_price"
  · rw [hamount hprice]
  · rw [if_neg hprice, if_neg hprice]

/-- **A rule that reads alike does the same to every target.** -/
theorem actAt_alike (h : ReadsAlike answers rule) (t : String) (s : TargetState) :
    actAt t (Cloud.evaluator.fired (draftRule rule) (answers.mapValues Json.parse)) s =
      actAt t (Engine.RuleEvaluator.evaluator.fired (sent (Cloud.toPublishedRule rule))
        (answers.mapValues sent)) s := by
  have hfires := fires_alike_iff_decided.2 h.conditions
  have hsent : Engine.RuleEvaluator.evaluator.fired (sent (Cloud.toPublishedRule rule))
      (answers.mapValues sent) = if firesSent answers rule then
        some (Engine.RuleEvaluator.effect (sent (Cloud.toPublishedRule rule))) else none := rfl
  have hdraft : Cloud.evaluator.fired (draftRule rule) (answers.mapValues Json.parse) =
      if firesInDraft answers rule && Cloud.writes (Cloud.effect (draftRule rule)) then
        some (Cloud.effect (draftRule rule)) else none := rfl
  rw [hsent, hdraft, hfires]
  cases hfired : firesInDraft answers rule with
  | false => rfl
  | true =>
    obtain ⟨htarget, haction⟩ := effect_sent rule
    have hact : ∀ s, (Cloud.effect (draftRule rule)).act s =
        (Engine.RuleEvaluator.effect (sent (Cloud.toPublishedRule rule))).act s := by
      refine act_congr haction.symm fun hprice => ?_
      rw [amount_sent hprice, amount_draft (h.price hprice hfired)]
    rw [Bool.true_and, if_pos rfl]
    show _ = if (Engine.RuleEvaluator.effect (sent (Cloud.toPublishedRule rule))).target = t then
      (Engine.RuleEvaluator.effect (sent (Cloud.toPublishedRule rule))).act s else s
    rw [htarget, ← hact]
    by_cases hwrites : Cloud.writes (Cloud.effect (draftRule rule)) = true
    · rw [if_pos hwrites]
      rfl
    · rw [if_neg hwrites, Cloud.act_of_not_writes hwrites, ite_self]
      rfl

/-! ## The rules of a set -/

section Set

variable (tree : OptionSetTree) (posted : OrderedMap String Json)

/-- The rules that a set publishes, as they are stored. -/
def enabledRules : List Cloud.OptionRule := (tree.rules.filter (·.columns.isEnabled)).map (·.toRule)

def previewOutcome : Outcome := outcome (drawn tree) (posted.mapValues Json.parse)

/-- What the storefront evaluates, on the document. -/
def storefrontOutcome : Outcome :=
  Engine.RuleEvaluator.evaluate (Engine.indexRules [document tree]) (posted.mapValues sent)
    (Engine.indexContainment [document tree])

/-- The options that are out after so many rounds of the preview. -/
def outAfter (n : ℕ) : Set String :=
  takenOut Cloud.evaluator ((enabledRules tree).map draftRule) (posted.mapValues Json.parse)
    (optionsUnder (drawn tree)) n

/-- **The rules of a set read alike**, on what every round of the preview
leaves. -/
def ReadAlike : Prop :=
  ∀ n, ∀ rule ∈ enabledRules tree, ReadsAlike (posted.without (outAfter tree posted n)) rule

end Set

variable {tree : OptionSetTree} {posted : OrderedMap String Json}

theorem rules_drawn : ((drawn tree).rules.map fun rule => draftRule rule.toRule) =
    (enabledRules tree).map draftRule := by
  show ((((tree.rules.map ruleToAuthoring).filter _).map _)) = _
  rw [enabledRules, List.filter_map, List.map_map, List.map_map]
  rfl

theorem indexRules_eq : Engine.indexRules [document tree] =
    (enabledRules tree).map fun rule => sent (Cloud.toPublishedRule rule) := by
  rw [indexRules_document, enabledRules, List.map_map]
  rfl

/-- **Of what each round of the preview leaves, the storefront says the
same.** -/
theorem saidAlike (hids : (drawn tree).ids.Nodup) (hnamed : "" ∉ (drawn tree).ids)
    (h : ReadAlike tree posted) :
    SaidAlike Cloud.evaluator ((enabledRules tree).map draftRule) (posted.mapValues Json.parse)
      (optionsUnder (drawn tree)) Engine.RuleEvaluator.evaluator
      (Engine.indexRules [document tree]) (posted.mapValues sent)
      (Engine.indexContainment [document tree]) where
  keys := by rw [OrderedMap.keys_mapValues, OrderedMap.keys_mapValues]
  under := underSet_document hids hnamed
  said n t := by
    rw [indexRules_eq, OrderedMap.mapValues_without, OrderedMap.mapValues_without, saidOf, saidOf,
      stateAt_accumulate_filterMap, stateAt_accumulate_filterMap, List.foldl_map, List.foldl_map]
    exact List.foldl_ext _ _ _ fun s rule hrule => actAt_alike (h n rule hrule) t s

/-- **The storefront comes to the outcome that the preview comes to.** -/
theorem outcomes_agree (hids : (drawn tree).ids.Nodup) (hnamed : "" ∉ (drawn tree).ids)
    (h : ReadAlike tree posted) :
    (previewOutcome tree posted).Agree (storefrontOutcome tree posted) := by
  unfold previewOutcome storefrontOutcome outcome
  rw [rules_drawn]
  exact (saidAlike hids hnamed h).agree (tellsApart_cloud (selfSame_mapValues_parse posted))
    (tellsApart_plugin _) rfl

end Optionia.Preview
