import Optionia.Cloud.Pricing
import Optionia.Engine.Indexes
import Optionia.Sets.SameSet
import Optionia.Wire.Draft
/-!
# The dashboard's preview of an option set

`previewTree` reduces the editor's set to what a storefront would receive:
what is disabled is dropped, prices and keys are written in the document's
convention, rules stay as they are authored. `optionsUnder` says whose answers
go with a target, `ruleEffects` what a renderer must not draw, `pricingState`
which state decides a price.
-/

namespace Optionia.Preview

open Rules Sets Wire

/-! ## What the editor holds -/

/-- `ruleToAuthoring`: conditions that are no list are an empty one. -/
def ruleToAuthoring (rule : Row RuleColumns) : Row RuleColumns :=
  { rule with
    columns :=
      { rule.columns with conditions := .arr (Cloud.elements rule.columns.conditions) } }

/-- `toAuthoring`, of the rows of a set. -/
def toAuthoring (tree : OptionSetTree) : OptionSetTree :=
  { tree with rules := tree.rules.map ruleToAuthoring }

/-! ## `previewTree` -/

/-- `DISPLAY_KEYS`, of the preview. -/
def displayKeys : List (String × String) :=
  [("characterCounter", "character_counter"), ("priceDisplay", "price_display"),
    ("swatchSize", "swatch_size"), ("collapsedByDefault", "collapsed_by_default"),
    ("tooltip", "tooltip"), ("columns", "columns")]

structure PreviewValue where
  value : Row ValueColumns
  priceConfig : Record

structure PreviewOption where
  option : Row OptionColumns
  /-- `validation`, in the document's convention. -/
  validation : Option Record
  pricing : Option Record
  display : Option Record
  values : List PreviewValue

structure PreviewGroup where
  group : Row GroupColumns
  items : List (Row ItemColumns)
  options : List PreviewOption

structure PreviewTree where
  groups : List PreviewGroup
  rules : List (Row RuleColumns)

def toPreviewValue (value : Row ValueColumns) : PreviewValue where
  value := value
  priceConfig := toPublishedPriceConfig value.columns.priceConfig value.columns.priceType
    value.columns.priceAmountMinor

def toPreviewOption (node : OptionNode) : PreviewOption where
  option := node.option
  validation := toPublishedValidation node.option.columns.validation
  pricing := toPublishedOptionPricing node.option.columns.pricing
  display := node.option.columns.display.map fun display => rename display displayKeys
  values := (node.values.filter (·.columns.isEnabled)).map toPreviewValue

def toPreviewGroup (node : GroupNode) : PreviewGroup where
  group := node.group
  items := node.items
  options := (node.options.filter (·.option.columns.isEnabled)).map toPreviewOption

def previewTree (set : OptionSetTree) : PreviewTree where
  groups := (set.groups.filter (·.group.columns.isEnabled)).map toPreviewGroup
  rules := set.rules.filter (·.columns.isEnabled)

/-! ## `optionsUnder` -/

def addOption (groupId : String) (under : Containment) (option : PreviewOption) : Containment :=
  option.values.foldl (fun under value => under.set value.value.id [])
    ((under.update [] groupId (· ++ [option.option.id])).set option.option.id [option.option.id])

def addGroup (under : Containment) (group : PreviewGroup) : Containment :=
  group.options.foldl (addOption group.group.id) (under.set group.group.id [])

def optionsUnder (tree : PreviewTree) : Containment := tree.groups.foldl addGroup ∅

/-! ## `ruleEffects` and `pricingState` -/

def valueIds (tree : PreviewTree) : List String :=
  tree.groups.flatMap fun group => group.options.flatMap fun option =>
    option.values.map (·.value.id)

structure RuleEffects where
  hiddenOptions : List String
  hiddenValues : List String

def ruleEffects (outcome : Outcome) (under : Containment) (valueIds : List String) :
    RuleEffects where
  hiddenOptions := (outcome.states.entries.filter fun p => p.2.hidden && p.1 ∉ valueIds).flatMap
    fun p => Rules.under under p.1
  hiddenValues := (outcome.states.entries.filter fun p => p.2.hidden && p.1 ∈ valueIds).map
    Prod.fst

/-- What `pricingState` returns. -/
structure PricingState where
  priceMinor : Option ℤ
  priceConflict : Bool

def pricingState (optionState valueState : Option TargetState) : PricingState :=
  if optionState.any (·.priceConflict) || valueState.any (·.priceConflict) then ⟨none, true⟩
  else ⟨(valueState.bind (·.priceMinor)).or (optionState.bind (·.priceMinor)), false⟩

/-- What a preview says a value costs: nothing that can be told where rules
disagree, what they set where they agree, and its own price where they say
nothing. `none` is a `RangeError`. -/
def valueCharge (pricing : PricingState) (priceConfig : Record) (base : ℤ) :
    Option Cloud.PriceConfigDelta :=
  if pricing.priceConflict then some (Cloud.unpriced Engine.unpricedRuleConflict)
  else match pricing.priceMinor with
    | some amount => some ⟨.ofInt amount, none⟩
    | none => Cloud.priceConfigDelta (Json.obj priceConfig).parse (.ofInt base)

/-- The rules of the tree, evaluated on some answers. -/
def outcome (tree : PreviewTree) (answers : Js.Answers) : Outcome :=
  Cloud.evaluateRules (tree.rules.map fun rule => draftRule rule.toRule) answers
    (optionsUnder tree)

/-- What they make of the page. -/
def effects (tree : PreviewTree) (answers : Js.Answers) : RuleEffects :=
  ruleEffects (outcome tree answers) (optionsUnder tree) (valueIds tree)

/-! ## What stands under a target -/

/-- The ids of an option and its values. -/
def PreviewOption.ids (option : PreviewOption) : List String :=
  option.option.id :: option.values.map (·.value.id)

/-- The ids of a group and what is in it. -/
def PreviewGroup.ids (group : PreviewGroup) : List String :=
  group.group.id :: group.options.flatMap (·.ids)

def PreviewTree.ids (tree : PreviewTree) : List String := tree.groups.flatMap (·.ids)

section Under

variable {groupId t o : String} {u : Containment}

theorem under_set (k : String) (os : List String) :
    under (u.set k os) t = if t = k then os else under u t := by
  unfold Rules.under OrderedMap.getD
  rw [OrderedMap.get?_set]
  split_ifs <;> rfl

theorem under_setValues (values : List PreviewValue) :
    under (values.foldl (fun under value => under.set value.value.id []) u) t =
      if t ∈ values.map (·.value.id) then [] else under u t := by
  induction values generalizing u with
  | nil => simp
  | cons value values ih =>
    rw [List.foldl_cons, ih, under_set, List.map_cons]
    simp only [List.mem_cons]
    by_cases hrest : t ∈ values.map (·.value.id)
    · rw [if_pos hrest, if_pos (.inr hrest)]
    · by_cases hhead : t = value.value.id
      · rw [if_neg hrest, if_pos hhead, if_pos (.inl hhead)]
      · rw [if_neg hrest, if_neg hhead, if_neg (not_or.2 ⟨hhead, hrest⟩)]

/-- **One option more**: it stands under its group and under itself. -/
theorem mem_under_addOption {option : PreviewOption} (hgroup : groupId ∉ option.ids)
    (hids : option.ids.Nodup) :
    o ∈ under (addOption groupId u option) t ↔
      (t = groupId ∧ (o ∈ under u groupId ∨ o = option.option.id)) ∨
        (t = option.option.id ∧ o = option.option.id) ∨
          (t ≠ groupId ∧ t ∉ option.ids ∧ o ∈ under u t) := by
  unfold PreviewOption.ids at hgroup hids ⊢
  rw [List.mem_cons, not_or] at hgroup
  rw [List.nodup_cons] at hids
  unfold addOption
  rw [under_setValues, under_set]
  have hupdate : under (u.update [] groupId (· ++ [option.option.id])) t =
      if t = groupId then under u groupId ++ [option.option.id] else under u t :=
    OrderedMap.getD_update u [] groupId t _
  by_cases hvalue : t ∈ option.values.map (·.value.id)
  · have hne : t ≠ groupId := fun h => hgroup.2 (h ▸ hvalue)
    have hneOption : t ≠ option.option.id := fun h => hids.1 (h ▸ hvalue)
    rw [if_pos hvalue]
    simp [hne, hneOption, hvalue]
  · rw [if_neg hvalue]
    by_cases hoption : t = option.option.id
    · rw [if_pos hoption]
      simp [hoption, Ne.symm hgroup.1]
    · rw [if_neg hoption, hupdate]
      by_cases hself : t = groupId
      · rw [if_pos hself]
        simp [hself, hgroup.1]
      · rw [if_neg hself]
        simp [hself, hoption, hvalue]

theorem mem_under_addOptions {options : List PreviewOption}
    (hgroup : groupId ∉ options.flatMap (·.ids)) (hids : (options.flatMap (·.ids)).Nodup) :
    o ∈ under (options.foldl (addOption groupId) u) t ↔
      (t = groupId ∧ (o ∈ under u groupId ∨ ∃ option ∈ options, o = option.option.id)) ∨
        (∃ option ∈ options, t = option.option.id ∧ o = option.option.id) ∨
          (t ≠ groupId ∧ t ∉ options.flatMap (·.ids) ∧ o ∈ under u t) := by
  induction options generalizing u with
  | nil =>
    rw [List.foldl_nil]
    by_cases hself : t = groupId
    · simp [hself]
    · simp [hself]
  | cons option options ih =>
    rw [List.flatMap_cons, List.mem_append, not_or] at hgroup
    rw [List.flatMap_cons, List.nodup_append'] at hids
    obtain ⟨hfirst, hrest, hdisjoint⟩ := hids
    have hoption : option.option.id ∈ option.ids := List.mem_cons_self
    have hapart : option.option.id ∉ options.flatMap (·.ids) := hdisjoint hoption
    rw [List.foldl_cons, ih hgroup.2 hrest, mem_under_addOption hgroup.1 hfirst,
      mem_under_addOption hgroup.1 hfirst, List.flatMap_cons, List.mem_append]
    simp only [List.mem_cons, exists_eq_or_imp]
    have hne : groupId ≠ option.option.id := fun h => hgroup.1 (h ▸ hoption)
    by_cases hself : t = groupId
    · subst hself
      simp [hne, or_assoc]
    · by_cases hthis : t = option.option.id
      · subst hthis
        simp [hself, hapart, hoption]
        grind
      · simp [hself, hthis]
        grind

/-- **A group stands over its options, an option over itself.** -/
def Stands (groups : List PreviewGroup) (t o : String) : Prop :=
  ∃ group ∈ groups, ∃ option ∈ group.options,
    o = option.option.id ∧ (t = option.option.id ∨ t = group.group.id)

variable {group : PreviewGroup} {groups : List PreviewGroup}

theorem stands_cons : Stands (group :: groups) t o ↔ Stands [group] t o ∨ Stands groups t o := by
  simp [Stands]

theorem Stands.mem_ids (h : Stands [group] t o) : t ∈ group.ids := by
  obtain ⟨other, hother, option, hoption, -, ht⟩ := h
  obtain rfl := List.mem_singleton.1 hother
  obtain rfl | rfl := ht
  · exact List.mem_cons_of_mem _ (List.mem_flatMap.2 ⟨option, hoption, List.mem_cons_self⟩)
  · exact List.mem_cons_self

theorem mem_under_addGroup (hids : group.ids.Nodup) : o ∈ under (addGroup u group) t ↔
      Stands [group] t o ∨ (t ∉ group.ids ∧ o ∈ under u t) := by
  unfold PreviewGroup.ids at hids ⊢
  rw [List.nodup_cons] at hids
  unfold addGroup Stands
  rw [mem_under_addOptions hids.1 hids.2, under_set, under_set, if_pos rfl]
  simp only [List.mem_cons, List.not_mem_nil, or_false, exists_eq_left, not_or]
  by_cases hself : t = group.group.id
  · subst hself
    simp
    grind
  · simp [hself]
    grind

theorem mem_under_addGroups (hids : (groups.flatMap (·.ids)).Nodup) :
    o ∈ under (groups.foldl addGroup u) t ↔
      Stands groups t o ∨ (t ∉ groups.flatMap (·.ids) ∧ o ∈ under u t) := by
  induction groups generalizing u with
  | nil => simp [Stands]
  | cons group groups ih =>
    rw [List.flatMap_cons, List.nodup_append'] at hids
    obtain ⟨hfirst, hrest, hdisjoint⟩ := hids
    rw [List.foldl_cons, ih hrest, mem_under_addGroup hfirst, List.flatMap_cons, List.mem_append]
    have hcons : Stands (group :: groups) t o ↔ Stands [group] t o ∨ Stands groups t o :=
      stands_cons
    have hapart : Stands [group] t o → t ∉ groups.flatMap (·.ids) := fun h =>
      hdisjoint h.mem_ids
    tauto

/-- **What stands under a target**: of a group its options, of an option
itself, of a value nothing. -/
theorem mem_under_optionsUnder {tree : PreviewTree} (hids : tree.ids.Nodup) :
    o ∈ under (optionsUnder tree) t ↔ Stands tree.groups t o := by
  have hempty : ¬ o ∈ under ∅ t := List.not_mem_nil
  unfold optionsUnder
  rw [mem_under_addGroups hids]
  simp [hempty]

end Under

end Optionia.Preview
