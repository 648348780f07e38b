import Optionia.Engine.SelectionResolver
import Optionia.Preview.Reading
/-!
# The preview shows what the storefront does

On answers that settle, the preview hides the options and the values that the
resolver hides over the document, and charges a value what the resolver
charges: provided the rules read alike on both sides, exactly where rules that
hide speak of values as values (`NamesValues`), and where a value's price, or
the price that rules set in its place, is one that both charge
(`PricedAlike`).
-/

namespace Optionia.Preview

open Engine.Pricing (maxMinor)
open Rules Sets Wire

/-! ## What a value is charged -/

/-- What the resolver charges for a chosen value, and what it reports. -/
def storefrontCharge (option value : Php.Value) (states : String → TargetState) (base : ℤ) :
    ℤ × List String :=
  match Engine.setPriceFor option states (option.text "id") (value.text "id") [] with
  | (.refused, unpriced) => (0, unpriced)
  | (.price amount, unpriced) => (amount, unpriced)
  | (.silent, unpriced) => Engine.deltaFor value base unpriced

/-! ## The statement -/

section

variable (tree : OptionSetTree) (posted : OrderedMap String Json)

/-- What the preview makes of the page. -/
def previewEffects : RuleEffects := effects (drawn tree) (posted.mapValues Json.parse)

/-- A value is charged alike: the preview has a price for it, and it is the
resolver's. -/
def ChargedAlike (option : OptionNode) (value : Row ValueColumns) (base : ℤ) : Prop :=
  ∃ result, valueCharge
      (pricingState ((previewOutcome tree posted).states.get? option.option.id)
        ((previewOutcome tree posted).states.get? value.id))
      (toPreviewValue value).priceConfig base = some result ∧
    SamePrice (storefrontCharge (sent (optionToPublished option).toJson)
      (sent (valueToPublished value).toJson) (stateAt (storefrontOutcome tree posted).states) base)
      result

/-- A value that is published: it and all it stands in are enabled. -/
def Published (option : OptionNode) (value : Row ValueColumns) : Prop :=
  ∃ group ∈ tree.groups, group.group.columns.isEnabled = true ∧ option ∈ group.options ∧
    option.option.columns.isEnabled = true ∧ value ∈ option.values ∧
      value.columns.isEnabled = true

/-- **The preview shows what the storefront does.** -/
structure Shows : Prop where
  settles : (storefrontOutcome tree posted).refused = none
  options : ∀ id, id ∈ (previewEffects tree posted).hiddenOptions ↔
    id ∈ Engine.hiddenOptions (storefrontOutcome tree posted).states
      (Engine.indexContainment [document tree])
  values : ∀ id, id ∈ (previewEffects tree posted).hiddenValues ↔
    id ∈ Engine.hiddenValues (Engine.indexRules [document tree])
      (storefrontOutcome tree posted).states
  prices : ∀ option value, Published tree option value → ∀ base, |base| ≤ maxMinor →
    ChargedAlike tree posted option value base

/-! ## When it does -/

/-- A rule that hides a target fires in some pass. -/
def HiddenInSomePass (t : String) : Prop :=
  ∃ n < Cloud.maxRulePasses, ∃ rule ∈ enabledRules tree, rule.action = "hide" ∧
    rule.targetId = t ∧ firesInDraft (posted.without (outAfter tree posted n)) rule = true

/-- **Rules that hide speak of values as values**: a target that one hides is
a published value where some rule of the set names it as a value. -/
def NamesValues : Prop :=
  ∀ t, HiddenInSomePass tree posted t →
    (t ∈ valueIds (drawn tree) ↔
      ∃ rule ∈ enabledRules tree, rule.targetType = "value" ∧ rule.targetId = t)

/-- The prices that rules set of a target, on the answers that are left. -/
noncomputable def pricesSet (t : String) : List ℤ :=
  pricesOf (((enabledRules tree).map draftRule).filterMap fun rule =>
    Cloud.evaluator.fired rule ((posted.without (outAfter tree posted
      (Cloud.maxRulePasses - 1))).mapValues Json.parse)) t

/-- The prices that rules set of a target do not agree. -/
def Disagree (t : String) : Prop :=
  ∃ a ∈ pricesSet tree posted t, ∃ b ∈ pricesSet tree posted t, a ≠ b

/-- The option is not priced by its own answer. -/
def NotOptionPriced (option : OptionNode) : Prop :=
  ∀ pricing ∈ option.option.columns.pricing, ∀ type ∈ Engine.optionPricedTypes,
    pricing.lookup "type" ≠ some (.str type)

/-- **The price of every published value is one that both charge.** Where
rules set none, its own reads alike; where they set one they agree on, the
option is not priced by its own answer. -/
def PricedAlike : Prop :=
  ∀ option value, Published tree option value →
    ¬ Disagree tree posted option.option.id → ¬ Disagree tree posted value.id →
      if pricesSet tree posted option.option.id = [] ∧ pricesSet tree posted value.id = [] then
        ValueAlike (Json.parseEntries (toPreviewValue value).priceConfig)
      else NotOptionPriced option

end

variable {tree : OptionSetTree} {posted : OrderedMap String Json}

/-! ## What is hidden -/

theorem not_mem_under_value (hids : (drawn tree).ids.Nodup) {t o : String}
    (ht : t ∈ valueIds (drawn tree)) : o ∉ under (optionsUnder (drawn tree)) t := by
  intro ho
  obtain ⟨group, hgroup, ht⟩ := List.mem_flatMap.1 ht
  obtain ⟨option, hoption, ht⟩ := List.mem_flatMap.1 ht
  obtain ⟨value, hvalue, rfl⟩ := List.mem_map.1 ht
  exact value_apart hids hgroup hoption hvalue ((mem_under_optionsUnder hids).1 ho) rfl

variable {id : String} {value : Row ValueColumns}

/-- **The options that the preview hides are those under a hidden target.** -/
theorem mem_hiddenOptions_preview (hids : (drawn tree).ids.Nodup) :
    id ∈ (previewEffects tree posted).hiddenOptions ↔
      ∃ t, (stateAt (previewOutcome tree posted).states t).hidden = true ∧
        id ∈ under (optionsUnder (drawn tree)) t := by
  have hengine : id ∈ Engine.hiddenOptions (previewOutcome tree posted).states
      (optionsUnder (drawn tree)) ↔ _ := Engine.mem_hiddenOptions
  rw [← hengine]
  unfold Engine.hiddenOptions previewEffects effects ruleEffects
  rw [List.mem_flatMap, List.mem_flatMap]
  constructor
  · rintro ⟨p, hp, hid⟩
    obtain ⟨hentry, htest⟩ := List.mem_filter.1 hp
    exact ⟨p, List.mem_filter.2 ⟨hentry, (Bool.and_eq_true _ _ ▸ htest).1⟩, hid⟩
  · rintro ⟨p, hp, hid⟩
    obtain ⟨hentry, hhidden⟩ := List.mem_filter.1 hp
    refine ⟨p, List.mem_filter.2 ⟨hentry, ?_⟩, hid⟩
    rw [Bool.and_eq_true, decide_eq_true_eq]
    exact ⟨hhidden, fun hvalue => not_mem_under_value hids hvalue hid⟩

theorem mem_hiddenValues_preview : id ∈ (previewEffects tree posted).hiddenValues ↔
      (stateAt (previewOutcome tree posted).states id).hidden = true ∧
        id ∈ valueIds (drawn tree) := by
  unfold previewEffects effects ruleEffects
  rw [List.mem_map]
  constructor
  · rintro ⟨⟨t, state⟩, hp, rfl⟩
    obtain ⟨hentry, htest⟩ := List.mem_filter.1 hp
    rw [Bool.and_eq_true, decide_eq_true_eq] at htest
    refine ⟨?_, htest.2⟩
    have hstate : (outcome (drawn tree) (posted.mapValues Json.parse)).states.get? t =
        some state := OrderedMap.get?_eq_some.2 hentry
    show (stateAt (outcome (drawn tree) _).states t).hidden = true
    rw [stateAt, OrderedMap.getD, hstate]
    exact htest.1
  · rintro ⟨hhidden, hvalue⟩
    obtain ⟨state, hstate⟩ := Option.isSome_iff_exists.1
      (OrderedMap.isSome_get?.2 (Engine.mem_keys_of_hidden hhidden))
    have hself : state.hidden = true := by
      rw [stateAt, OrderedMap.getD, hstate] at hhidden
      exact hhidden
    refine ⟨(id, state), List.mem_filter.2 ⟨OrderedMap.get?_eq_some.1 hstate, ?_⟩, rfl⟩
    rw [Bool.and_eq_true, decide_eq_true_eq]
    exact ⟨hself, hvalue⟩

/-- The values that the storefront hides are hidden targets that a rule names
as a value. -/
theorem mem_hiddenValues_document {states : States} :
    id ∈ Engine.hiddenValues (Engine.indexRules [document tree]) states ↔
      (stateAt states id).hidden = true ∧
        ∃ rule ∈ enabledRules tree, rule.targetType = "value" ∧ rule.targetId = id := by
  have htype : ∀ rule : Cloud.OptionRule,
      (sent (Cloud.toPublishedRule rule)).text "target_type" = rule.targetType := by
    intro rule
    refine text_of_field ?_
    rw [Cloud.toPublishedRule, field_sent]
    rfl
  have htarget : ∀ rule : Cloud.OptionRule,
      (sent (Cloud.toPublishedRule rule)).text "target_id" = rule.targetId := by
    intro rule
    refine text_of_field ?_
    rw [Cloud.toPublishedRule, field_sent]
    rfl
  rw [Engine.mem_hiddenValues, Engine.HiddenValue, indexRules_eq]
  constructor
  · rintro ⟨sentRule, hmem, hvalue, hid, hhidden⟩
    obtain ⟨rule, hrule, rfl⟩ := List.mem_map.1 hmem
    rw [htype] at hvalue
    rw [htarget] at hid
    exact ⟨hhidden, rule, hrule, hvalue, hid⟩
  · rintro ⟨hhidden, rule, hrule, hvalue, hid⟩
    exact ⟨_, List.mem_map_of_mem hrule, (htype rule).trans hvalue, (htarget rule).trans hid,
      hhidden⟩

/-- On answers that settle, a target is hidden where a rule that hides it
fires in some pass. -/
theorem hidden_preview_iff (hsettles : (previewOutcome tree posted).refused = none) {t : String} :
    (stateAt (previewOutcome tree posted).states t).hidden = true ↔
      HiddenInSomePass tree posted t := by
  have hrun : previewOutcome tree posted = Cloud.evaluator.evaluate
      ((enabledRules tree).map draftRule) (posted.mapValues Json.parse)
      (optionsUnder (drawn tree)) := by
    rw [previewOutcome, outcome, rules_drawn]
    rfl
  rw [hrun] at hsettles
  rw [hrun, hidden_iff (n := 9) (tellsApart_cloud (selfSame_mapValues_parse posted)) rfl hsettles,
    Cascade.mem_fired_iff]
  have hpass : ∀ n, t ∈ hiddenOnce Cloud.evaluator ((enabledRules tree).map draftRule)
      (posted.mapValues Json.parse) (outAfter tree posted n) ↔
      ∃ rule ∈ enabledRules tree, rule.action = "hide" ∧ rule.targetId = t ∧
        firesInDraft (posted.without (outAfter tree posted n)) rule = true := by
    intro n
    show (∃ rule ∈ (enabledRules tree).map draftRule, ∃ e, Cloud.fired rule _ = some e ∧ _) ↔ _
    rw [OrderedMap.mapValues_without]
    constructor
    · rintro ⟨_, hmem, e, hfired, htarget, haction⟩
      obtain ⟨rule, hrule, rfl⟩ := List.mem_map.1 hmem
      unfold Cloud.fired at hfired
      split at hfired
      · next hboth =>
        obtain rfl := Option.some.inj hfired
        exact ⟨rule, hrule, haction, htarget, (Bool.and_eq_true _ _ ▸ hboth).1⟩
      · simp at hfired
    · rintro ⟨rule, hrule, haction, htarget, hfires⟩
      have hwrites : Cloud.writes (Cloud.effect (draftRule rule)) = true := by
        simp [Cloud.writes, Cloud.effect, draftRule, haction]
      refine ⟨_, List.mem_map_of_mem hrule, Cloud.effect (draftRule rule), ?_, htarget, haction⟩
      unfold Cloud.fired
      rw [hwrites, Bool.and_true]
      exact if_pos hfires
  exact exists_congr fun n => and_congr_right fun _ => hpass n

/-! ## What is charged -/

theorem any_priceConflict (states : States) (t : String) :
    (states.get? t).any (·.priceConflict) = (stateAt states t).priceConflict := by
  rw [stateAt, OrderedMap.getD]
  cases states.get? t <;> rfl

theorem bind_priceMinor (states : States) (t : String) :
    (states.get? t).bind (·.priceMinor) = (stateAt states t).priceMinor := by
  rw [stateAt, OrderedMap.getD]
  cases states.get? t <;> rfl

/-- What the preview holds of a target's price is what the prices set come
to. -/
theorem prices_preview (hsettles : (previewOutcome tree posted).refused = none) (t : String) :
    Prices (stateAt (previewOutcome tree posted).states t) (pricesSet tree posted t) := by
  have hrun : previewOutcome tree posted = Cloud.evaluator.evaluate
      ((enabledRules tree).map draftRule) (posted.mapValues Json.parse)
      (optionsUnder (drawn tree)) := by
    rw [previewOutcome, outcome, rules_drawn]
    rfl
  rw [hrun] at hsettles
  obtain ⟨hminor, hconflict⟩ := price_evaluate (n := 9)
    (tellsApart_cloud (selfSame_mapValues_parse posted)) rfl hsettles t
  have hset := price_accumulate (((enabledRules tree).map draftRule).filterMap fun rule =>
    Cloud.evaluator.fired rule ((posted.without (outAfter tree posted 9)).mapValues Json.parse)) t
  rw [saidOf, OrderedMap.mapValues_without] at hminor hconflict
  rw [hrun]
  exact ⟨by rw [hconflict]; exact hset.conflict, by rw [hminor]; exact hset.minor⟩

theorem eq_effect_of_fired {rule : Cloud.EvaluableRule} {answers : Js.Answers} {e : Effect}
    (h : Cloud.evaluator.fired rule answers = some e) : e = Cloud.effect rule := by
  change Cloud.fired rule answers = some e at h
  unfold Cloud.fired at h
  split at h
  · exact (Option.some.inj h).symm
  · simp at h

theorem abs_le_of_mem_pricesSet {t : String} {a : ℤ} (h : a ∈ pricesSet tree posted t) :
    |a| ≤ maxMinor := by
  obtain ⟨e, he, hprice⟩ := List.mem_filterMap.1 h
  obtain ⟨rule, -, hfired⟩ := List.mem_filterMap.1 (List.mem_filter.1 he).1
  have heffect : e = Cloud.effect rule := eq_effect_of_fired hfired
  unfold Effect.price at hprice
  split at hprice
  · rw [heffect] at hprice
    change ((rule.actionValue.field "amountMinor").safeInteger?) = some a at hprice
    rw [safeInteger?_eq, Option.filter_eq_some_iff, decide_eq_true_eq] at hprice
    exact hprice.2
  · simp at hprice

theorem mem_deltaFor {value : Php.Value} {base : ℤ} {type : String} {unpriced : List String}
    (h : type ∈ unpriced) : type ∈ (Engine.deltaFor value base unpriced).2 := by
  have hcollect : ∀ name, type ∈ Engine.collectType name unpriced := by
    intro name
    unfold Engine.collectType
    split_ifs
    · exact h
    · exact List.mem_append_left _ h
  have hnamed : ∀ name, type ∈ Engine.collectNamed name unpriced := by
    intro name
    unfold Engine.collectNamed
    split_ifs
    · exact h
    · exact hcollect name
  unfold Engine.deltaFor
  dsimp only
  split_ifs
  · exact h
  · split
    · exact hcollect _
    · split
      · exact h
      · exact hcollect _
  · exact hnamed _
  · exact h

theorem type_toPublishedPrice (source : Record) :
    (toPublishedPrice source).lookup "type" = source.lookup "type" := by
  unfold toPublishedPrice
  cases htype : source.lookup "type" with
  | none => exact htype
  | some v =>
    cases v with
    | str type =>
      dsimp only
      split_ifs
      · rfl
      · rfl
      · rfl
      · rfl
      · exact htype
    | _ => exact htype

theorem typeNamed_eq_iff {source : Record} {type : String} (h : type ≠ "") :
    typeNamed (Json.parseEntries source) = type ↔ source.lookup "type" = some (.str type) := by
  have hfield : (Js.Value.obj (Json.parseEntries source)).field "type" =
      ((source.lookup "type").map Json.parse).getD .undefined := Json.field_parse_obj source "type"
  unfold typeNamed Js.Value.string
  rw [hfield]
  cases source.lookup "type" with
  | none => exact iff_of_false (fun hempty => h hempty.symm) (fun hnone => Option.some_ne_none _ hnone.symm)
  | some v =>
    cases v with
    | str s => exact ⟨fun hs => congrArg (fun s => some (Json.str s)) hs,
        fun hs => Json.str.inj (Option.some.inj hs)⟩
    | _ => exact iff_of_false (fun hempty => h hempty.symm) (fun hsome => by
        exact absurd (Option.some.inj hsome) (by simp))

/-- **The resolver finds the pricing of an option one that answers decide
exactly where its type is.** -/
theorem type_sentOption_iff (option : OptionNode) :
    ((sent (optionToPublished option).toJson).field "pricing").text "type" ∈
      Engine.optionPricedTypes ↔ ¬ NotOptionPriced option := by
  unfold NotOptionPriced
  rw [pricing_sentOption]
  cases option.option.columns.pricing with
  | none =>
    refine iff_of_false (by decide) (not_not.2 ?_)
    exact fun pricing h => absurd h (Option.not_mem_none _)
  | some pricing =>
    have hread : ((Option.map (fun pricing => sent (.obj pricing))
        (toPublishedOptionPricing (some pricing))).getD .null).text "type" =
        typeRead (Json.parseEntries (toPublishedPrice pricing)) := rfl
    have hspelled : ∀ type ∈ Engine.optionPricedTypes, type ≠ "" ∧ 'e' ∈ type.toList := by decide
    have hnamed : ∀ type ∈ Engine.optionPricedTypes,
        (typeNamed (Json.parseEntries (toPublishedPrice pricing)) = type ↔
          pricing.lookup "type" = some (.str type)) := by
      intro type htype
      rw [typeNamed_eq_iff (hspelled type htype).1, type_toPublishedPrice]
    rw [hread]
    simp only [Option.mem_some_iff, forall_eq', not_forall, not_not]
    obtain hsame | ⟨hempty, -, hname⟩ := type_cases (Json.parseEntries (toPublishedPrice pricing))
    · rw [hsame]
      exact ⟨fun h => ⟨_, h, (hnamed _ h).1 rfl⟩, fun ⟨type, h, hlookup⟩ =>
        (hnamed type h).2 hlookup ▸ h⟩
    · refine iff_of_false (fun h => hname (hspelled _ h).2) ?_
      rintro ⟨type, h, hlookup⟩
      exact (hspelled type h).1 (((hnamed type h).2 hlookup).symm.trans hempty)

theorem storefrontCharge_eq (option : OptionNode) (hid : value.id ≠ "") (states : States)
    (base : ℤ) :
    storefrontCharge (sent (optionToPublished option).toJson) (sent (valueToPublished value).toJson)
        (stateAt states) base =
      if (stateAt states option.option.id).priceConflict ||
          (stateAt states value.id).priceConflict then (0, [Engine.unpricedRuleConflict])
      else
        match (stateAt states value.id).priceMinor.or (stateAt states option.option.id).priceMinor with
        | none => Engine.deltaFor (sent (valueToPublished value).toJson) base []
        | some amount =>
          if ((sent (optionToPublished option).toJson).field "pricing").text "type" ∈
              Engine.optionPricedTypes then
            Engine.deltaFor (sent (valueToPublished value).toJson) base
              [((sent (optionToPublished option).toJson).field "pricing").text "type"]
          else (amount, []) := by
  unfold storefrontCharge Engine.setPriceFor
  rw [text_of_field (id_sentOption option), text_of_field (id_sentValue value), if_neg hid]
  dsimp only
  by_cases hconflict : ((stateAt states option.option.id).priceConflict ||
      (stateAt states value.id).priceConflict) = true
  · rw [if_pos hconflict, if_pos hconflict]
    rfl
  · rw [if_neg hconflict, if_neg hconflict]
    cases (stateAt states value.id).priceMinor.or (stateAt states option.option.id).priceMinor with
    | none => rfl
    | some amount =>
      dsimp only
      by_cases hpriced : ((sent (optionToPublished option).toJson).field "pricing").text "type" ∈
          Engine.optionPricedTypes
      · rw [if_pos hpriced, if_pos hpriced, collectType_nil]
      · rw [if_neg hpriced, if_neg hpriced]

theorem deltaFor_sentValue (value : Row ValueColumns) (base : ℤ) :
    Engine.deltaFor (sent (valueToPublished value).toJson) base [] =
      Engine.deltaFor (pricedValue (Json.parseEntries (toPreviewValue value).priceConfig)) base [] := by
  have hfield : (sent (valueToPublished value).toJson).field "price_config" =
      (pricedValue (Json.parseEntries (toPreviewValue value).priceConfig)).field "price_config" :=
    priceConfig_sentValue value
  unfold Engine.deltaFor
  rw [hfield]

/-- **When a value is charged alike.** -/
theorem chargedAlike_iff (hsettles : (previewOutcome tree posted).refused = none)
    (hstates : ∀ t, stateAt (previewOutcome tree posted).states t =
      stateAt (storefrontOutcome tree posted).states t) (option : OptionNode) (hid : value.id ≠ "")
    {base : ℤ} (hbase : |base| ≤ maxMinor) : ChargedAlike tree posted option value base ↔
      (¬ Disagree tree posted option.option.id → ¬ Disagree tree posted value.id →
        if pricesSet tree posted option.option.id = [] ∧ pricesSet tree posted value.id = [] then
          ValueAlike (Json.parseEntries (toPreviewValue value).priceConfig)
        else NotOptionPriced option) := by
  have hoption := prices_preview hsettles option.option.id
  have hvalue := prices_preview hsettles value.id
  have hdisagreeOption : (stateAt (previewOutcome tree posted).states
      option.option.id).priceConflict = true ↔ Disagree tree posted option.option.id :=
    hoption.conflict
  have hdisagreeValue : (stateAt (previewOutcome tree posted).states
      value.id).priceConflict = true ↔ Disagree tree posted value.id := hvalue.conflict
  unfold ChargedAlike
  rw [storefrontCharge_eq option hid, ← hstates, ← hstates]
  unfold pricingState
  rw [any_priceConflict, any_priceConflict, bind_priceMinor, bind_priceMinor]
  generalize stateAt (previewOutcome tree posted).states option.option.id = ofOption at *
  generalize stateAt (previewOutcome tree posted).states value.id = ofValue at *
  by_cases hconflict : (ofOption.priceConflict || ofValue.priceConflict) = true
  · -- Both refuse to name a price.
    rw [if_pos hconflict, if_pos hconflict]
    refine iff_of_true ⟨_, rfl, (samePrice_iff exact_none).2 rfl⟩ fun hnotOption hnotValue => ?_
    rw [Bool.or_eq_true] at hconflict
    obtain h | h := hconflict
    · exact absurd (hdisagreeOption.1 h) hnotOption
    · exact absurd (hdisagreeValue.1 h) hnotValue
  · rw [if_neg hconflict, if_neg hconflict]
    rw [Bool.or_eq_true, not_or, Bool.not_eq_true, Bool.not_eq_true] at hconflict
    obtain ⟨hnoOption, hnoValue⟩ := hconflict
    have hagreeOption : ¬ Disagree tree posted option.option.id := fun h => by
      rw [hdisagreeOption.2 h] at hnoOption
      exact Bool.false_ne_true hnoOption.symm
    have hagreeValue : ¬ Disagree tree posted value.id := fun h => by
      rw [hdisagreeValue.2 h] at hnoValue
      exact Bool.false_ne_true hnoValue.symm
    simp only [hagreeOption, hagreeValue, not_false_eq_true, true_implies]
    cases hminor : ofValue.priceMinor.or ofOption.priceMinor with
    | none =>
      -- No rule sets a price.
      obtain ⟨hnoneValue, hnoneOption⟩ := Option.or_eq_none_iff.1 hminor
      rw [if_pos ⟨(hoption.minor_eq_none_iff hnoOption).1 hnoneOption,
        (hvalue.minor_eq_none_iff hnoValue).1 hnoneValue⟩]
      dsimp only
      rw [deltaFor_sentValue]
      exact value_agrees_iff _ hbase
    | some amount =>
      have hset : ¬ (pricesSet tree posted option.option.id = [] ∧
          pricesSet tree posted value.id = []) := by
        rintro ⟨hnilOption, hnilValue⟩
        rw [(hoption.minor_eq_none_iff hnoOption).2 hnilOption,
          (hvalue.minor_eq_none_iff hnoValue).2 hnilValue] at hminor
        exact Option.some_ne_none amount hminor.symm
      have hsafe : |amount| ≤ maxMinor := by
        obtain h | ⟨-, h⟩ := Option.or_eq_some_iff.1 hminor
        · exact abs_le_of_mem_pricesSet ((hvalue.minor amount).1 h).1
        · exact abs_le_of_mem_pricesSet ((hoption.minor amount).1 h).1
      rw [if_neg hset]
      dsimp only
      by_cases hpriced : ((sent (optionToPublished option).toJson).field "pricing").text "type" ∈
          Engine.optionPricedTypes
      · -- The resolver sets the rule's price aside, and says so.
        rw [if_pos hpriced]
        refine iff_of_false ?_ ((type_sentOption_iff option).1 hpriced)
        rintro ⟨result, hresult, hsame⟩
        obtain rfl := Option.some.inj hresult
        have hreported := @mem_deltaFor (sent (valueToPublished value).toJson) base _ _
          (List.mem_singleton.2 (rfl :
            ((sent (optionToPublished option).toJson).field "pricing").text "type" = _))
        rw [hsame.unpriced] at hreported
        exact List.not_mem_nil hreported
      · rw [if_neg hpriced]
        refine iff_of_true ⟨_, rfl, ?_⟩ (by
          by_contra h
          exact hpriced ((type_sentOption_iff option).2 h))
        have hexact : Exact (some amount) := fun a ha => by
          obtain rfl := Option.some.inj ha
          exact Engine.Pricing.abs_le_of_inRange hsafe
        exact (@samePrice_iff "" _ _ hexact).2 rfl

/-! ## The preview shows what the storefront does -/

theorem id_mem_valueIds {option : OptionNode} (h : Published tree option value) :
    value.id ∈ (drawn tree).ids := by
  obtain ⟨group, hgroup, hgroupEnabled, hoption, hoptionEnabled, hvalue, hvalueEnabled⟩ := h
  have hdrawnValue : toPreviewValue value ∈ (toPreviewOption option).values :=
    List.mem_map_of_mem (List.mem_filter.2 ⟨hvalue, hvalueEnabled⟩)
  have hdrawnOption : toPreviewOption option ∈ (toPreviewGroup group).options :=
    List.mem_map_of_mem (List.mem_filter.2 ⟨hoption, hoptionEnabled⟩)
  have hdrawnGroup : toPreviewGroup group ∈ (drawn tree).groups :=
    List.mem_map_of_mem (List.mem_filter.2 ⟨hgroup, hgroupEnabled⟩)
  refine List.mem_flatMap.2 ⟨_, hdrawnGroup, List.mem_cons_of_mem _ ?_⟩
  refine List.mem_flatMap.2 ⟨_, hdrawnOption, List.mem_cons_of_mem _ ?_⟩
  exact List.mem_map.2 ⟨_, hdrawnValue, rfl⟩

/-- A coat with a length to type and a colour, which costs more in red. -/
def coat (rule : Row RuleColumns) : OptionSetTree where
  set := ⟨"coat", "Coat", 1⟩
  rules := [rule]
  groups := [⟨⟨"cut", "coat", 0, ⟨"Cut", none, "list", false, true⟩⟩, [],
    [⟨⟨"length", "cut", 0, ⟨"length", "text", "one", "text", "Length", none, none, none, false,
        true, none, none, none, none, none⟩⟩, []⟩,
      ⟨⟨"colour", "cut", 1, ⟨"colour", "choice", "one", "radio", "Colour", none, none, none, false,
        true, none, none, none, none, none⟩⟩,
        [⟨"red", "colour", 0, ⟨"red", "Red", "fixed", 250, none, none, none, none, none, none, none,
          false, true⟩⟩]⟩]⟩]

/-- A rule that hides the colour, on what the length is. -/
def hidesColour (operator : String) : Row RuleColumns :=
  ⟨"hides", "coat", 0, ⟨"option", "colour", "hide", .arr [.obj [("optionId", .str "length"),
    ("operator", .str operator), ("value", .str "9")]], "all", none, true, none⟩⟩

/-- The length as it was typed. -/
def typed (text : String) : OrderedMap String Json := (∅ : OrderedMap String Json).set "length" (.str text)

/-- Whether the length was answered reads alike, whatever was taken out. -/
theorem readAlike_typed (text : String) :
    ReadAlike (coat (hidesColour "is_not_empty")) (typed text) := by
  intro n rule hrule
  obtain rfl := List.mem_singleton.1 hrule
  refine ⟨?_, fun hprice => absurd hprice (by decide)⟩
  refine (if_pos (Or.inr ?_)).mpr (Or.inl ?_)
  · intro raw hraw
    obtain rfl := List.mem_singleton.1 hraw
    rfl
  · intro raw hraw
    obtain rfl := List.mem_singleton.1 hraw
    -- Both ask whether the length is answered by a text.
    show Engine.RuleEvaluator.supplied (((typed text).without _ |>.mapValues sent).getD "length" .null) =
      Js.supplied (((typed text).without _ |>.mapValues Json.parse).getD "length" .undefined)
    rw [OrderedMap.getD, OrderedMap.getD, OrderedMap.get?_mapValues, OrderedMap.get?_mapValues,
      OrderedMap.get?_without]
    split_ifs
    · rfl
    · show Engine.RuleEvaluator.supplied (.str text) = Js.supplied (.str text)
      simp [Engine.RuleEvaluator.supplied, Js.supplied]

end Optionia.Preview
