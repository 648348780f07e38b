import Optionia.Sets.Published
/-!
# Duplicating an option set

`OptionSetsService.duplicate` copies a set row by row: its groups, the options
and values and items of each (`copyOptionsInto`), and its rules
(`copyRulesInto`), whose ids it maps through what was copied. Where a row has
siblings of its own sort order, the storage says in which order a query that
sorts by `sortOrder` alone returns them.
-/

namespace Optionia.Sets

open Wire

/-- What a duplicate is given beside its request. -/
structure Environment where
  /-- Where the storage has a row, among those of one sort order. -/
  rank : String → ℕ
  /-- The id that the copy of a row is given. -/
  newId : String → String

variable (env : Environment)

/-- `order: { sortOrder: 'ASC' }` -/
def bySortOrder {C : Type} (a b : Row C) : Bool :=
  decide (a.sortOrder < b.sortOrder) ||
    a.sortOrder == b.sortOrder && decide (env.rank a.id ≤ env.rank b.id)

/-- `manager.find`, ordered so. -/
def findBySortOrder {C : Type} (rows : List (Row C)) (parents : List String) : List (Row C) :=
  (childrenOf rows parents).mergeSort (bySortOrder env)

/-! ## Rows -/

def copyGroup (toSetId : String) (group : Row GroupColumns) : Row GroupColumns where
  id := env.newId group.id
  parentId := toSetId
  sortOrder := group.sortOrder
  columns :=
    { label := group.columns.label
      description := group.columns.description
      displayType := group.columns.displayType
      isCollapsible := group.columns.isCollapsible
      isEnabled := group.columns.isEnabled }

/-- The copy of an option. Its `textDesign` is not one of the fields listed. -/
def copyOption (toGroupId : String) (option : Row OptionColumns) : Row OptionColumns where
  id := env.newId option.id
  parentId := toGroupId
  sortOrder := option.sortOrder
  columns :=
    { key := option.columns.key
      valueKind := option.columns.valueKind
      cardinality := option.columns.cardinality
      presentation := option.columns.presentation
      label := option.columns.label
      description := option.columns.description
      placeholder := option.columns.placeholder
      helpText := option.columns.helpText
      isRequired := option.columns.isRequired
      isEnabled := option.columns.isEnabled
      defaultValue := option.columns.defaultValue
      validation := option.columns.validation
      pricing := option.columns.pricing
      display := option.columns.display
      textDesign := none }

/-- The copy of a value, with `copyableValueFields`. -/
def copyValue (toOptionId : String) (value : Row ValueColumns) : Row ValueColumns where
  id := env.newId value.id
  parentId := toOptionId
  sortOrder := value.sortOrder
  columns :=
    { valueKey := value.columns.valueKey
      label := value.columns.label
      priceType := value.columns.priceType
      priceAmountMinor := value.columns.priceAmountMinor
      priceConfig := value.columns.priceConfig
      imageUrl := value.columns.imageUrl
      design := value.columns.design
      colorHex := value.columns.colorHex
      groupLabel := value.columns.groupLabel
      skuSuffix := value.columns.skuSuffix
      weightDeltaGrams := value.columns.weightDeltaGrams
      isDefault := value.columns.isDefault
      isEnabled := value.columns.isEnabled }

/-- The copy of an item, with `copyableItemFields`. -/
def copyItem (toGroupId : String) (item : Row ItemColumns) : Row ItemColumns where
  id := env.newId item.id
  parentId := toGroupId
  sortOrder := item.sortOrder
  columns :=
    { kind := item.columns.kind
      content := item.columns.content
      display := item.columns.display }

/-! ## `copyOptionsInto` -/

/-- Source row id → copied row id. -/
abbrev IdMap := OrderedMap String String

/-- The ids of rows that were copied. -/
def record {C : Type} (idMap : IdMap) (rows : List (Row C)) : IdMap :=
  rows.foldl (fun idMap row => idMap.set row.id (env.newId row.id)) idMap

/-- One option and its values, of those that were read. -/
def copyOptionInto (toGroupId : String) (values : List (Row ValueColumns))
    (state : Tables × IdMap) (option : Row OptionColumns) : Tables × IdMap :=
  let (tables, idMap) := state
  let optionCopy := copyOption env toGroupId option
  let optionValues := bucket values option.id
  ({ tables with
      options := tables.options ++ [optionCopy]
      values := tables.values ++ optionValues.map (copyValue env optionCopy.id) },
    record env (idMap.set option.id optionCopy.id) optionValues)

def copyOptionsInto (fromGroupId toGroupId : String) (tables : Tables) : Tables × IdMap :=
  let options := findBySortOrder env tables.options [fromGroupId]
  if options.isEmpty then (tables, ∅)
  else
    let values := findBySortOrder env tables.values (options.map (·.id))
    let (tables, idMap) := options.foldl (copyOptionInto env toGroupId values) (tables, ∅)
    let items := findBySortOrder env tables.items [fromGroupId]
    ({ tables with items := tables.items ++ items.map (copyItem env toGroupId) }, idMap)

/-! ## `copyRulesInto` -/

/-- One condition of `remapConditions`. -/
def remapCondition (idMap : IdMap) : Json → Option Json
  | .obj source =>
    match source.lookup "optionId" with
    | some (.str optionId) =>
      (idMap.get? optionId).map fun mapped =>
        .obj (OrderedMap.setEntries source "optionId" (.str mapped))
    | _ => none
  | _ => none

def remapConditions (conditions : Json) (idMap : IdMap) : Option Json :=
  match conditions with
  | .arr conditions => (conditions.mapM (remapCondition idMap)).map .arr
  | _ => none

def targetDeleted : String := "target_deleted"

/-- The copy of a rule, with `copyableRuleFields`. -/
def copyRule (toSetId : String) (idMap : IdMap) (rule : Row RuleColumns) : Row RuleColumns :=
  let remapped := remapConditions rule.columns.conditions idMap
  let target := idMap.get? rule.columns.targetId
  let intact := target.isSome && remapped.isSome
  { id := env.newId rule.id
    parentId := toSetId
    sortOrder := rule.sortOrder
    columns :=
      { targetType := rule.columns.targetType
        targetId := target.getD rule.columns.targetId
        action := rule.columns.action
        conditions := remapped.getD rule.columns.conditions
        matchType := rule.columns.matchType
        actionValue := rule.columns.actionValue
        isEnabled := if intact then rule.columns.isEnabled else false
        disabledReason := if intact then rule.columns.disabledReason else some targetDeleted } }

def copyRulesInto (fromSetId toSetId : String) (idMap : IdMap) (tables : Tables) : Tables :=
  let rules := findBySortOrder env tables.rules [fromSetId]
  { tables with rules := tables.rules ++ rules.map (copyRule env toSetId idMap) }

/-! ## `OptionSetsService.duplicate` -/

/-- The map with all entries of another. -/
def merge (idMap copied : IdMap) : IdMap :=
  copied.entries.foldl (fun idMap entry => idMap.set entry.1 entry.2) idMap

/-- One group and what is in it. -/
def copyGroupInto (toSetId : String) (state : Tables × IdMap) (group : Row GroupColumns) :
    Tables × IdMap :=
  let (tables, idMap) := state
  let groupCopy := copyGroup env toSetId group
  let tables := { tables with groups := tables.groups ++ [groupCopy] }
  let (tables, copied) := copyOptionsInto env group.id groupCopy.id tables
  (tables, merge (idMap.set group.id groupCopy.id) copied)

/-- The set that a duplicate makes. -/
def createdSet (name : Option String) (source : OptionSet) : OptionSet where
  id := env.newId source.id
  name :=
    let trimmed := Js.trim (name.getD "")
    if trimmed ≠ "" then trimmed else source.name ++ " (copy)"
  version := 0

/-- `duplicate`, of a set that was found. -/
def duplicate (name : Option String) (source : OptionSet) (tables : Tables) : Tables :=
  let created := createdSet env name source
  let tables := { tables with sets := tables.sets ++ [created] }
  let groups := findBySortOrder env tables.groups [source.id]
  let (tables, idMap) := groups.foldl (copyGroupInto env created.id) (tables, ∅)
  copyRulesInto env source.id created.id idMap tables

end Optionia.Sets
