import Optionia.Lib.OrderedMap
import Optionia.Lib.Runs
/-!
# Authoring, and what a deletion takes along

The tables of a tenant's option sets, and the requests that write them. A row
is found where it and all above it are live. `CascadeService` marks what is
under a deleted group, option or set as deleted; of the rules that target any
of it, those of a deleted set are deleted with it, and those of a group or an
option are disabled. A value that an enabled rule targets is not deleted.
-/

namespace Optionia.Authoring

inductive RuleTargetType where
  | option
  | group
  | value
  deriving DecidableEq

inductive RuleDisabledReason where
  | targetDeleted
  deriving DecidableEq

/-! ## The tables -/

/-- A row of `option_sets`. -/
structure OptionSet where
  isLive : Bool
  deriving DecidableEq

/-- A row of `option_groups`, `options` or `option_values`. -/
structure Row where
  parentId : String
  isLive : Bool
  deriving DecidableEq

/-- A row of `option_rules`. -/
structure OptionRule where
  optionSetId : String
  targetType : RuleTargetType
  targetId : String
  conditions : List String
  isEnabled : Bool
  disabledReason : Option RuleDisabledReason
  isLive : Bool
  deriving DecidableEq

/-- The tables. -/
structure Tables where
  optionSets : OrderedMap String OptionSet
  groups : OrderedMap String Row
  options : OrderedMap String Row
  values : OrderedMap String Row
  rules : OrderedMap String OptionRule

def Tables.empty : Tables := ⟨∅, ∅, ∅, ∅, ∅⟩

namespace Tables

variable (db : Tables)

/-! ## What is found -/

/-- `OptionSetsRepository.findById` -/
def findSet (id : String) : Option OptionSet := (db.optionSets.get? id).filter (·.isLive)

/-- `OptionGroupsRepository.findById` -/
def findGroup (id : String) : Option Row :=
  (db.groups.get? id).filter fun row => row.isLive && (db.findSet row.parentId).isSome

/-- `OptionsRepository.findById` -/
def findOption (id : String) : Option Row :=
  (db.options.get? id).filter fun row => row.isLive && (db.findGroup row.parentId).isSome

/-- `OptionValuesRepository.findById` -/
def findValue (id : String) : Option Row :=
  (db.values.get? id).filter fun row => row.isLive && (db.findOption row.parentId).isSome

/-- `OptionRulesRepository.findById` -/
def findRule (id : String) : Option OptionRule :=
  (db.rules.get? id).filter fun rule => rule.isLive && (db.findSet rule.optionSetId).isSome

def targetExists : RuleTargetType → String → Bool
  | .group, id => (db.findGroup id).isSome
  | .option, id => (db.findOption id).isSome
  | .value, id => (db.findValue id).isSome

/-! ## The cascade -/

/-- `liveIds`: the live rows of some parents. -/
def liveIds (rows : OrderedMap String Row) (parents : List String) : List String :=
  (rows.entries.filter fun entry => entry.2.isLive ∧ entry.2.parentId ∈ parents).map Prod.fst

def softDelete (rows : OrderedMap String Row) (ids : List String) : OrderedMap String Row :=
  rows.mapAt ids fun row => { row with isLive := false }

/-- A rule is one that is disabled with its target. -/
def targets (type : RuleTargetType) (ids : List String) (rule : OptionRule) : Bool :=
  rule.targetType = type && decide (rule.targetId ∈ ids) && rule.isEnabled && rule.isLive

/-- One `UPDATE` of `disableRulesTargeting`. -/
def disable (rules : OrderedMap String OptionRule) (type : RuleTargetType) (ids : List String) :
    OrderedMap String OptionRule :=
  rules.mapValues fun rule =>
    if targets type ids rule then
      { rule with isEnabled := false, disabledReason := some .targetDeleted }
    else rule

def disableRulesTargeting (rules : OrderedMap String OptionRule)
    (targets : List (RuleTargetType × List String)) : OrderedMap String OptionRule :=
  targets.foldl (fun rules target => disable rules target.1 target.2) rules

def onOptionDeleted (id : String) : Tables :=
  let valueIds := liveIds db.values [id]
  { db with
    options := softDelete db.options [id]
    values := softDelete db.values valueIds
    rules := disableRulesTargeting db.rules [(.option, [id]), (.value, valueIds)] }

def onGroupDeleted (id : String) : Tables :=
  let optionIds := liveIds db.options [id]
  let valueIds := liveIds db.values optionIds
  { db with
    groups := softDelete db.groups [id]
    options := softDelete db.options optionIds
    values := softDelete db.values valueIds
    rules := disableRulesTargeting db.rules
      [(.group, [id]), (.option, optionIds), (.value, valueIds)] }

def onOptionSetDeleted (id : String) : Tables :=
  let groupIds := liveIds db.groups [id]
  let optionIds := liveIds db.options groupIds
  let valueIds := liveIds db.values optionIds
  { optionSets := db.optionSets.mapAt [id] fun set => { set with isLive := false }
    groups := softDelete db.groups groupIds
    options := softDelete db.options optionIds
    values := softDelete db.values valueIds
    rules := db.rules.mapValues fun rule =>
      if rule.optionSetId = id then { rule with isLive := false } else rule }

/-- `allIds`: the rows of some parents, deleted rows included. -/
def allIds (rows : OrderedMap String Row) (parents : List String) : List String :=
  (rows.entries.filter fun entry => entry.2.parentId ∈ parents).map Prod.fst

/-- `HardDeleteService.purge`, of a set that no order names. -/
def purge (id : String) : Tables :=
  let groupIds := allIds db.groups [id]
  let optionIds := allIds db.options groupIds
  { optionSets := db.optionSets.erase id
    groups := db.groups.eraseAll groupIds
    options := db.options.eraseAll optionIds
    values := db.values.eraseAll (allIds db.values optionIds)
    rules := db.rules.eraseAll
      ((db.rules.entries.filter fun entry => entry.2.optionSetId = id).map Prod.fst) }

/-- `assertValueIsNotRuleTarget`: how many rules block. -/
def blocking (id : String) : ℕ := db.rules.values.countP (targets .value [id])

/-! ## The requests -/

/-- A row is inserted; the primary key stands against a second one. -/
def insert (rows : OrderedMap String Row) (id parentId : String) : OrderedMap String Row :=
  if id ∈ rows.keys then rows else rows.set id ⟨parentId, true⟩

/-- `OptionRulesService.create` -/
def createRule (optionSetId id : String) (targetType : RuleTargetType) (targetId : String)
    (conditions : List String) : Option Tables := do
  let _ ← db.findSet optionSetId
  if db.targetExists targetType targetId = true ∧ id ∉ db.rules.keys then
    some { db with
      rules := db.rules.set id
        ⟨optionSetId, targetType, targetId, conditions, true, none, true⟩ }
  else none

/-- `OptionRulesService.update` -/
def updateRule (id : String) (targetType : Option RuleTargetType) (targetId : Option String)
    (conditions : Option (List String)) : Option Tables := do
  let before ← db.findRule id
  let after :=
    { before with
      targetType := targetType.getD before.targetType
      targetId := targetId.getD before.targetId
      conditions := conditions.getD before.conditions }
  -- The target is checked where either half of it is given.
  if targetType = none ∧ targetId = none ∨
      db.targetExists after.targetType after.targetId = true then
    some { db with rules := db.rules.set id after }
  else none

/-- `OptionValuesService.remove` -/
def removeValue (id : String) : Option Tables := do
  let _ ← db.findValue id
  if db.blocking id = 0 then some { db with values := softDelete db.values [id] } else none

end Tables

/-- A request. -/
inductive Request where
  | createSet (id : String)
  | createGroup (optionSetId id : String)
  | createOption (optionGroupId id : String)
  | createValue (optionId id : String)
  | createRule (optionSetId id : String) (targetType : RuleTargetType) (targetId : String)
      (conditions : List String)
  | updateRule (id : String) (targetType : Option RuleTargetType) (targetId : Option String)
      (conditions : Option (List String))
  | removeRule (id : String)
  | removeValue (id : String)
  | removeOption (id : String)
  | removeGroup (id : String)
  | removeSet (id : String)
  | purgeSet (id : String)

namespace Tables

/-- What a request leaves; none is a refusal. -/
def outcome (db : Tables) : Request → Option Tables
  | .createSet id =>
    if id ∈ db.optionSets.keys then none
    else some { db with optionSets := db.optionSets.set id ⟨true⟩ }
  | .createGroup optionSetId id =>
    (db.findSet optionSetId).map fun _ => { db with groups := insert db.groups id optionSetId }
  | .createOption groupId id =>
    (db.findGroup groupId).map fun _ => { db with options := insert db.options id groupId }
  | .createValue optionId id =>
    (db.findOption optionId).map fun _ => { db with values := insert db.values id optionId }
  | .createRule optionSetId id targetType targetId conditions =>
    db.createRule optionSetId id targetType targetId conditions
  | .updateRule id targetType targetId conditions =>
    db.updateRule id targetType targetId conditions
  | .removeRule id =>
    (db.findRule id).map fun _ =>
      { db with rules := db.rules.mapAt [id] fun rule => { rule with isLive := false } }
  | .removeValue id => db.removeValue id
  | .removeOption id => (db.findOption id).map fun _ => db.onOptionDeleted id
  | .removeGroup id => (db.findGroup id).map fun _ => db.onGroupDeleted id
  | .removeSet id => (db.findSet id).map fun _ => db.onOptionSetDeleted id
  | .purgeSet id => (db.optionSets.get? id).map fun _ => db.purge id

/-- One request; a refused one changes nothing. -/
def serve (db : Tables) (request : Request) : Tables := (db.outcome request).getD db

end Tables

end Optionia.Authoring
