import Optionia.Authoring.Tables
/-!
# What a rule refers to

An enabled rule targets a row and names options in its conditions. A cascade
disables the rules whose target it takes along, and looks at no condition; the
deletion of a set disables no rule of another set; and conditions are never
looked up when a rule is written. So every enabled rule refers to live rows
exactly in the runs whose requests see to the rest (`rules_hold_iff`).
-/

namespace Optionia.Authoring

open Runs

namespace Tables

variable (db : Tables)

/-! ## What is asked of every state -/

/-- **A rule refers to what is there**: its target, and the options of its
conditions. -/
structure Holds (rule : OptionRule) : Prop where
  target : db.targetExists rule.targetType rule.targetId = true
  conditions : ∀ id ∈ rule.conditions, db.targetExists .option id = true

/-- A rule that is live and enabled. -/
def Active (id : String) (rule : OptionRule) : Prop :=
  db.rules.get? id = some rule ∧ rule.isLive = true ∧ rule.isEnabled = true

/-- **No enabled rule refers to something deleted.** -/
def RulesHold : Prop := ∀ id rule, db.Active id rule → db.Holds rule

/-- **What a request does to the rules that it concerns**: a value that an
enabled rule needs is not deleted, and a rule that would lose what it refers to
is disabled, and says why, or goes with its own set. -/
structure Settles (request : Request) : Prop where
  refused : ∀ value, request = .removeValue value →
    (∃ id rule, db.Active id rule ∧
        ¬ Holds { db with values := softDelete db.values [value] } rule) →
      db.outcome request = none
  disabled : ∀ id rule, db.Active id rule → ¬ (db.serve request).Holds rule →
    (∃ after, (db.serve request).rules.get? id = some after ∧ after.isEnabled = false ∧
        after.disabledReason = some .targetDeleted) ∨
      (request = .removeSet rule.optionSetId ∨ request = .purgeSet rule.optionSetId) ∧
        ∀ after, (db.serve request).rules.get? id = some after → after.isLive = false

/-- **A request keeps the rules.** -/
structure Keeps (request : Request) : Prop where
  rulesHold : (db.serve request).RulesHold
  settles : db.Settles request

/-! ## What is asked of a request -/

/-- A row of some that are children of others. -/
def ChildOf (rows : OrderedMap String Row) (parent : String → Prop) (id : String) : Prop :=
  ∃ row, rows.get? id = some row ∧ parent row.parentId

def BelowOption (option : String) : RuleTargetType → String → Prop
  | .group => fun _ => False
  | .option => (· = option)
  | .value => ChildOf db.values (· = option)

def BelowGroup (group : String) : RuleTargetType → String → Prop
  | .group => (· = group)
  | .option => ChildOf db.options (· = group)
  | .value => ChildOf db.values (ChildOf db.options (· = group))

def BelowSet (optionSet : String) : RuleTargetType → String → Prop
  | .group => ChildOf db.groups (· = optionSet)
  | .option => ChildOf db.options (ChildOf db.groups (· = optionSet))
  | .value => ChildOf db.values (ChildOf db.options (ChildOf db.groups (· = optionSet)))

/-- Every enabled rule with a condition on what goes has its target there too. -/
def Spares (below : RuleTargetType → String → Prop) : Prop :=
  ∀ id rule, db.Active id rule → (∃ option ∈ rule.conditions, below .option option) →
    below rule.targetType rule.targetId

/-- No enabled rule of another set refers to what goes. -/
def SparesOthers (optionSet : String) : Prop :=
  ∀ id rule, db.Active id rule → rule.optionSetId ≠ optionSet →
    ¬ db.BelowSet optionSet rule.targetType rule.targetId ∧
      ∀ option ∈ rule.conditions, ¬ db.BelowSet optionSet .option option

/-- **A request sees to what the code does not**: a rule that is written names
options that are there; an option or a group goes only where a rule with a
condition on it targets it, or what is of it, as well; and a set goes only
where no enabled rule of another set refers to it. -/
def Heeds : Request → Prop
  | .createRule optionSetId id targetType targetId conditions =>
    (db.createRule optionSetId id targetType targetId conditions).isSome →
      ∀ option ∈ conditions, db.targetExists .option option = true
  | .updateRule id targetType targetId conditions =>
    (db.updateRule id targetType targetId conditions).isSome →
      ∀ rule ∈ db.findRule id, rule.isEnabled = true →
        ∀ options ∈ conditions, ∀ option ∈ options, db.targetExists .option option = true
  | .removeOption id => (db.findOption id).isSome → db.Spares (db.BelowOption id)
  | .removeGroup id => (db.findGroup id).isSome → db.Spares (db.BelowGroup id)
  | .removeSet id => (db.findSet id).isSome → db.SparesOthers id
  | .purgeSet id => (db.optionSets.get? id).isSome → db.SparesOthers id
  | .createSet _ | .createGroup .. | .createOption .. | .createValue .. | .removeRule _
  | .removeValue _ => True

/-! ## What is found -/

/-- A row is found: it is live, and so is what it belongs to. -/
def Found (rows : OrderedMap String Row) (parent : String → Prop) (id : String) : Prop :=
  ∃ row, rows.get? id = some row ∧ row.isLive = true ∧ parent row.parentId

section Found

variable {rows : OrderedMap String Row} {parent parent' gone : String → Prop} {id : String}
  {ids parents : List String}

theorem isSome_filter_iff {α : Type} {o : Option α} {p : α → Bool} :
    (o.filter p).isSome = true ↔ ∃ a, o = some a ∧ p a = true := by
  cases o with
  | none => exact iff_of_false (by simp) (by simp)
  | some a => simp [Option.filter]

theorem findGroup_iff : (db.findGroup id).isSome = true ↔
    Found db.groups (fun parent => (db.findSet parent).isSome = true) id := by
  unfold findGroup Found
  simp only [isSome_filter_iff, Bool.and_eq_true]

theorem findOption_iff : (db.findOption id).isSome = true ↔
    Found db.options (fun parent => (db.findGroup parent).isSome = true) id := by
  unfold findOption Found
  simp only [isSome_filter_iff, Bool.and_eq_true]

theorem findValue_iff : (db.findValue id).isSome = true ↔
    Found db.values (fun parent => (db.findOption parent).isSome = true) id := by
  unfold findValue Found
  simp only [isSome_filter_iff, Bool.and_eq_true]

theorem found_softDelete :
    Found (softDelete rows ids) parent id ↔ Found rows parent id ∧ id ∉ ids := by
  unfold Found softDelete
  by_cases hid : id ∈ ids
  · rw [OrderedMap.get?_mapAt_of_mem rows _ hid]
    refine iff_of_false ?_ fun h => h.2 hid
    rintro ⟨row, hrow, hlive, -⟩
    obtain ⟨before, -, rfl⟩ := Option.map_eq_some_iff.1 hrow
    simp at hlive
  · rw [OrderedMap.get?_mapAt_of_not_mem rows _ hid]
    exact ⟨fun h => ⟨h, hid⟩, fun h => h.1⟩

theorem mem_liveIds : id ∈ liveIds rows parents ↔
    ∃ row, rows.get? id = some row ∧ row.isLive = true ∧ row.parentId ∈ parents := by
  unfold liveIds
  rw [List.mem_map]
  constructor
  · rintro ⟨⟨i, row⟩, hentry, rfl⟩
    rw [List.mem_filter, decide_eq_true_eq] at hentry
    exact ⟨row, OrderedMap.get?_eq_some.2 hentry.1, hentry.2⟩
  · rintro ⟨row, hrow, hlive⟩
    exact ⟨(id, row), List.mem_filter.2 ⟨OrderedMap.get?_eq_some.1 hrow, decide_eq_true hlive⟩, rfl⟩

/-- **Below what is not found, nothing is**: marking it as deleted changes
nothing. -/
theorem found_cascade (hgone : ∀ p ∈ parents, ¬ parent p) :
    Found (softDelete rows (liveIds rows parents)) parent id ↔ Found rows parent id := by
  rw [found_softDelete]
  refine and_iff_left_of_imp ?_
  rintro ⟨row, hrow, -, hparent⟩ hmem
  obtain ⟨row', hrow', -, hin⟩ := mem_liveIds.1 hmem
  obtain rfl := Option.some.inj (hrow.symm.trans hrow')
  exact hgone _ hin hparent

/-- **What goes with its parent** is what its parent took along. -/
theorem found_congr (h : ∀ p, parent' p ↔ parent p ∧ ¬ gone p) :
    Found rows parent' id ↔ Found rows parent id ∧ ¬ ChildOf rows gone id := by
  unfold Found ChildOf
  constructor
  · rintro ⟨row, hrow, hlive, hparent⟩
    refine ⟨⟨row, hrow, hlive, ((h _).1 hparent).1⟩, ?_⟩
    rintro ⟨row', hrow', hgone⟩
    obtain rfl := Option.some.inj (hrow.symm.trans hrow')
    exact ((h _).1 hparent).2 hgone
  · rintro ⟨⟨row, hrow, hlive, hparent⟩, hnot⟩
    exact ⟨row, hrow, hlive, (h _).2 ⟨hparent, fun hgone => hnot ⟨row, hrow, hgone⟩⟩⟩

theorem found_eraseAll :
    Found (rows.eraseAll ids) parent id ↔ Found rows parent id ∧ id ∉ ids := by
  unfold Found
  rw [OrderedMap.get?_eraseAll]
  split_ifs with hid
  · exact iff_of_false (by simp) fun h => h.2 hid
  · exact ⟨fun h => ⟨h, hid⟩, fun h => h.1⟩

theorem found_purge (hgone : ∀ p ∈ parents, ¬ parent p) :
    Found (rows.eraseAll (allIds rows parents)) parent id ↔ Found rows parent id := by
  rw [found_eraseAll]
  refine and_iff_left_of_imp ?_
  rintro ⟨row, hrow, -, hparent⟩ hmem
  obtain ⟨⟨i, row'⟩, hentry, rfl⟩ := List.mem_map.1 hmem
  rw [List.mem_filter, decide_eq_true_eq] at hentry
  obtain rfl := Option.some.inj (hrow.symm.trans (OrderedMap.get?_eq_some.2 hentry.1))
  exact hgone _ hentry.2 hparent

theorem mem_allIds : id ∈ allIds rows parents ↔ ChildOf rows (· ∈ parents) id := by
  unfold allIds ChildOf
  rw [List.mem_map]
  constructor
  · rintro ⟨⟨i, row⟩, hentry, rfl⟩
    rw [List.mem_filter, decide_eq_true_eq] at hentry
    exact ⟨row, OrderedMap.get?_eq_some.2 hentry.1, hentry.2⟩
  · rintro ⟨row, hrow, hin⟩
    exact ⟨(id, row), List.mem_filter.2 ⟨OrderedMap.get?_eq_some.1 hrow, decide_eq_true hin⟩, rfl⟩

theorem childOf_of_mem_liveIds {p : String → Prop} (hp : ∀ parent ∈ parents, p parent)
    (h : id ∈ liveIds rows parents) : ChildOf rows p id := by
  obtain ⟨row, hrow, -, hin⟩ := mem_liveIds.1 h
  exact ⟨row, hrow, hp _ hin⟩

end Found

/-! ## What a deletion takes along -/

variable {db}

/-- **A deleted option goes with its values.** -/
theorem targetExists_onOptionDeleted (option : String) (type : RuleTargetType) (id : String) :
    (db.onOptionDeleted option).targetExists type id = true ↔
      db.targetExists type id = true ∧ ¬ db.BelowOption option type id := by
  have hoption : ∀ id, ((db.onOptionDeleted option).findOption id).isSome = true ↔
      (db.findOption id).isSome = true ∧ ¬ id = option := fun id => by
    rw [findOption_iff, findOption_iff db, ← List.mem_singleton (a := id)]
    exact found_softDelete
  cases type with
  | group => exact (and_iff_left fun h => h).symm
  | option => exact hoption id
  | value =>
    show ((db.onOptionDeleted option).findValue id).isSome = true ↔ _
    rw [findValue_iff]
    refine (found_cascade fun p hp h => ?_).trans ((found_congr hoption).trans ?_)
    · exact ((hoption p).1 h).2 (List.mem_singleton.1 hp)
    · rw [← findValue_iff db]
      rfl

/-- **A deleted group goes with its options and their values.** -/
theorem targetExists_onGroupDeleted (group : String) (type : RuleTargetType) (id : String) :
    (db.onGroupDeleted group).targetExists type id = true ↔
      db.targetExists type id = true ∧ ¬ db.BelowGroup group type id := by
  have hgroup : ∀ id, ((db.onGroupDeleted group).findGroup id).isSome = true ↔
      (db.findGroup id).isSome = true ∧ ¬ id = group := fun id => by
    rw [findGroup_iff, findGroup_iff db, ← List.mem_singleton (a := id)]
    exact found_softDelete
  have hoption : ∀ id, ((db.onGroupDeleted group).findOption id).isSome = true ↔
      (db.findOption id).isSome = true ∧ ¬ ChildOf db.options (· = group) id := fun id => by
    rw [findOption_iff, findOption_iff db]
    refine (found_cascade fun p hp h => ?_).trans (found_congr hgroup)
    exact ((hgroup p).1 h).2 (List.mem_singleton.1 hp)
  cases type with
  | group => exact hgroup id
  | option => exact hoption id
  | value =>
    show ((db.onGroupDeleted group).findValue id).isSome = true ↔ _
    rw [findValue_iff]
    refine (found_cascade fun p hp h => ?_).trans ((found_congr hoption).trans ?_)
    · exact ((hoption p).1 h).2
        (childOf_of_mem_liveIds (fun parent hparent => List.mem_singleton.1 hparent) hp)
    · rw [← findValue_iff db]
      rfl

/-- **A deleted set goes with all that is of it**, however it is deleted: what
matters is that it is not found, and that what is marked or erased was of it. -/
theorem targetExists_setDeleted {db' : Tables} {optionSet : String}
    {groupIds optionIds : List String}
    (hset : ∀ id, (db'.findSet id).isSome = true ↔ (db.findSet id).isSome = true ∧ ¬ id = optionSet)
    (hgroups : ∀ id, ∀ parent : String → Prop, (∀ p ∈ [optionSet], ¬ parent p) →
      (Found db'.groups parent id ↔ Found db.groups parent id))
    (hoptions : ∀ id, ∀ parent : String → Prop, (∀ p ∈ groupIds, ¬ parent p) →
      (Found db'.options parent id ↔ Found db.options parent id))
    (hvalues : ∀ id, ∀ parent : String → Prop, (∀ p ∈ optionIds, ¬ parent p) →
      (Found db'.values parent id ↔ Found db.values parent id))
    (hgroupIds : ∀ id ∈ groupIds, ChildOf db.groups (· = optionSet) id)
    (hoptionIds : ∀ id ∈ optionIds, ChildOf db.options (ChildOf db.groups (· = optionSet)) id)
    (type : RuleTargetType) (id : String) :
    db'.targetExists type id = true ↔
      db.targetExists type id = true ∧ ¬ db.BelowSet optionSet type id := by
  have hgroup : ∀ id, (db'.findGroup id).isSome = true ↔
      (db.findGroup id).isSome = true ∧ ¬ ChildOf db.groups (· = optionSet) id := fun id => by
    rw [findGroup_iff, findGroup_iff db]
    refine (hgroups id _ fun p hp h => ?_).trans (found_congr hset)
    exact ((hset p).1 h).2 (List.mem_singleton.1 hp)
  have hoption : ∀ id, (db'.findOption id).isSome = true ↔ (db.findOption id).isSome = true ∧
      ¬ ChildOf db.options (ChildOf db.groups (· = optionSet)) id := fun id => by
    rw [findOption_iff, findOption_iff db]
    refine (hoptions id _ fun p hp h => ?_).trans (found_congr hgroup)
    exact ((hgroup p).1 h).2 (hgroupIds p hp)
  cases type with
  | group => exact hgroup id
  | option => exact hoption id
  | value =>
    show (db'.findValue id).isSome = true ↔ _
    rw [findValue_iff]
    refine (hvalues id _ fun p hp h => ?_).trans ((found_congr hoption).trans ?_)
    · exact ((hoption p).1 h).2 (hoptionIds p hp)
    · rw [← findValue_iff db]
      rfl

theorem targetExists_onOptionSetDeleted (optionSet : String) (type : RuleTargetType) (id : String) :
    (db.onOptionSetDeleted optionSet).targetExists type id = true ↔
      db.targetExists type id = true ∧ ¬ db.BelowSet optionSet type id := by
  have hgroupIds : ∀ id ∈ liveIds db.groups [optionSet], ChildOf db.groups (· = optionSet) id :=
    fun id hid => childOf_of_mem_liveIds (fun parent hparent => List.mem_singleton.1 hparent) hid
  refine targetExists_setDeleted (fun id => ?_) (fun id parent hgone => found_cascade hgone)
    (fun id parent hgone => found_cascade hgone) (fun id parent hgone => found_cascade hgone)
    hgroupIds (fun id hid => childOf_of_mem_liveIds hgroupIds hid) type id
  unfold findSet onOptionSetDeleted
  rw [OrderedMap.get?_mapAt]
  cases hset : db.optionSets.get? id with
  | none => simp
  | some set => by_cases hid : id = optionSet <;> simp [Option.filter, hid]

theorem targetExists_purge (optionSet : String) (type : RuleTargetType) (id : String) :
    (db.purge optionSet).targetExists type id = true ↔
      db.targetExists type id = true ∧ ¬ db.BelowSet optionSet type id := by
  have hgroupIds : ∀ id ∈ allIds db.groups [optionSet], ChildOf db.groups (· = optionSet) id := by
    intro id hid
    obtain ⟨row, hrow, hin⟩ := mem_allIds.1 hid
    exact ⟨row, hrow, List.mem_singleton.1 hin⟩
  have hoptionIds : ∀ id ∈ allIds db.options (allIds db.groups [optionSet]),
      ChildOf db.options (ChildOf db.groups (· = optionSet)) id := by
    intro id hid
    obtain ⟨row, hrow, hin⟩ := mem_allIds.1 hid
    exact ⟨row, hrow, hgroupIds _ hin⟩
  refine targetExists_setDeleted (fun id => ?_) (fun id parent hgone => found_purge hgone)
    (fun id parent hgone => found_purge hgone) (fun id parent hgone => found_purge hgone)
    hgroupIds hoptionIds type id
  unfold findSet
  show (((db.optionSets.eraseAll [optionSet]).get? id).filter _).isSome = true ↔ _
  rw [OrderedMap.get?_eraseAll]
  by_cases hid : id = optionSet
  · simp [hid]
  · simp [hid]

/-! ## Which rules are disabled -/

section Rules

variable {rules : OrderedMap String OptionRule} {type : RuleTargetType} {ids : List String}
  {id : String} {rule : OptionRule}

/-- A rule that was disabled for its target. -/
def Disabled (rules : OrderedMap String OptionRule) (id : String) : Prop :=
  ∃ after, rules.get? id = some after ∧ after.isEnabled = false ∧
    after.disabledReason = some .targetDeleted

/-- Which rules are enabled after an `UPDATE`: those that were and do not target
any of the rows. -/
theorem active_disable :
    ((disable rules type ids).get? id = some rule ∧ rule.isLive = true ∧ rule.isEnabled = true) ↔
      (rules.get? id = some rule ∧ rule.isLive = true ∧ rule.isEnabled = true) ∧
        ¬ (rule.targetType = type ∧ rule.targetId ∈ ids) := by
  unfold disable
  rw [OrderedMap.get?_mapValues, Option.map_eq_some_iff]
  constructor
  · rintro ⟨⟨before, hbefore, hrule⟩, hlive, henabled⟩
    split_ifs at hrule with htargets
    · rw [← hrule] at henabled
      simp at henabled
    · subst hrule
      refine ⟨⟨hbefore, hlive, henabled⟩, fun h => htargets ?_⟩
      simp [targets, h.1, h.2, hlive, henabled]
  · rintro ⟨⟨hrule, hlive, henabled⟩, hnot⟩
    refine ⟨⟨rule, hrule, if_neg fun htargets => hnot ?_⟩, hlive, henabled⟩
    simp only [targets, Bool.and_eq_true, decide_eq_true_eq] at htargets
    exact htargets.1.1

theorem disabled_disable (hrule : rules.get? id = some rule) (hlive : rule.isLive = true)
    (henabled : rule.isEnabled = true) (htype : rule.targetType = type)
    (hmem : rule.targetId ∈ ids) : Disabled (disable rules type ids) id := by
  unfold disable Disabled
  rw [OrderedMap.get?_mapValues, hrule]
  refine ⟨_, rfl, ?_⟩
  dsimp only
  rw [if_pos (by simp [targets, htype, hmem, hlive, henabled])]
  exact ⟨rfl, rfl⟩

theorem Disabled.disable (h : Disabled rules id) : Disabled (disable rules type ids) id := by
  obtain ⟨after, hafter, henabled, hreason⟩ := h
  unfold Tables.disable Disabled
  rw [OrderedMap.get?_mapValues, hafter]
  refine ⟨_, rfl, ?_⟩
  dsimp only
  rw [if_neg (by simp [targets, henabled])]
  exact ⟨henabled, hreason⟩

/-- A rule targets one of the rows of a list of types and ids. -/
def TargetsAny (targets : List (RuleTargetType × List String)) (rule : OptionRule) : Prop :=
  ∃ target ∈ targets, rule.targetType = target.1 ∧ rule.targetId ∈ target.2

/-- **The rules that target none of the rows stay enabled.** -/
theorem active_disableRulesTargeting (targets : List (RuleTargetType × List String)) :
    ((disableRulesTargeting rules targets).get? id = some rule ∧ rule.isLive = true ∧
        rule.isEnabled = true) ↔
      (rules.get? id = some rule ∧ rule.isLive = true ∧ rule.isEnabled = true) ∧
        ¬ TargetsAny targets rule := by
  unfold disableRulesTargeting TargetsAny
  induction targets generalizing rules with
  | nil => simp
  | cons target targets ih =>
    rw [List.foldl_cons, ih, active_disable, and_assoc, List.exists_mem_cons_iff, not_or]

/-- **The rules that target one of them are disabled**, and say why. -/
theorem disabled_disableRulesTargeting {targets : List (RuleTargetType × List String)}
    (hrule : rules.get? id = some rule) (hlive : rule.isLive = true)
    (henabled : rule.isEnabled = true) (htargets : TargetsAny targets rule) :
    Disabled (disableRulesTargeting rules targets) id := by
  have hstays : ∀ (targets : List (RuleTargetType × List String))
      (rules : OrderedMap String OptionRule), Disabled rules id →
        Disabled (disableRulesTargeting rules targets) id := by
    intro targets
    induction targets with
    | nil => exact fun _ h => h
    | cons target targets ih => exact fun _ h => ih _ h.disable
  unfold disableRulesTargeting
  induction targets generalizing rules with
  | nil =>
    obtain ⟨target, htarget, -⟩ := htargets
    simp at htarget
  | cons target targets ih =>
    rw [List.foldl_cons]
    by_cases hfirst : rule.targetType = target.1 ∧ rule.targetId ∈ target.2
    · exact hstays targets _ (disabled_disable hrule hlive henabled hfirst.1 hfirst.2)
    · -- It is not this one: it is enabled as before for those that follow.
      obtain ⟨hget, -, -⟩ := active_disable.2 ⟨⟨hrule, hlive, henabled⟩, hfirst⟩
      exact ih hget ((List.exists_mem_cons_iff ..).1 htargets |>.resolve_left hfirst)

end Rules

theorem mem_liveIds_of_found {rows : OrderedMap String Row} {parent p : String → Prop}
    {parents : List String} {id : String} (hfound : Found rows parent id)
    (hp : ∀ other, parent other → (other ∈ parents ↔ p other)) :
    id ∈ liveIds rows parents ↔ ChildOf rows p id := by
  obtain ⟨row, hrow, hlive, hparent⟩ := hfound
  rw [mem_liveIds]
  constructor
  · rintro ⟨row', hrow', -, hin⟩
    obtain rfl := Option.some.inj (hrow.symm.trans hrow')
    exact ⟨row, hrow, (hp _ hparent).1 hin⟩
  · rintro ⟨row', hrow', hin⟩
    obtain rfl := Option.some.inj (hrow.symm.trans hrow')
    exact ⟨row, hrow, hlive, (hp _ hparent).2 hin⟩

/-- A rule whose target is there targets one of the rows that an option's
deletion sweeps where its target is of the option. -/
theorem targetsAny_option {rule : OptionRule} (option : String)
    (hexists : db.targetExists rule.targetType rule.targetId = true) :
    TargetsAny [(.option, [option]), (.value, liveIds db.values [option])] rule ↔
      db.BelowOption option rule.targetType rule.targetId := by
  unfold TargetsAny
  cases htype : rule.targetType with
  | group => simp [BelowOption]
  | option => simp [BelowOption]
  | value =>
    rw [htype] at hexists
    have hmem := mem_liveIds_of_found (p := (· = option)) ((findValue_iff db).1 hexists)
      fun other _ => List.mem_singleton (a := other) (b := option)
    simp [hmem, BelowOption]

theorem targetsAny_group {rule : OptionRule} (group : String)
    (hexists : db.targetExists rule.targetType rule.targetId = true) :
    TargetsAny [(.group, [group]), (.option, liveIds db.options [group]),
        (.value, liveIds db.values (liveIds db.options [group]))] rule ↔
      db.BelowGroup group rule.targetType rule.targetId := by
  have hoption : ∀ id, (db.findOption id).isSome = true →
      (id ∈ liveIds db.options [group] ↔ ChildOf db.options (· = group) id) := fun id hfound =>
    mem_liveIds_of_found ((findOption_iff db).1 hfound) fun other _ =>
      List.mem_singleton (a := other) (b := group)
  unfold TargetsAny
  cases htype : rule.targetType with
  | group => simp [BelowGroup]
  | option =>
    rw [htype] at hexists
    simp [hoption rule.targetId hexists, BelowGroup]
  | value =>
    rw [htype] at hexists
    have hmem := mem_liveIds_of_found ((findValue_iff db).1 hexists) hoption
    simp [hmem, BelowGroup]

/-! ## What each request does -/

variable {db' : Tables} {optionSet : String}

/-- A cascade that disables the rules with their target in it keeps the rules
where it spares the others. -/
theorem rulesHold_iff_spares {below : RuleTargetType → String → Prop}
    {swept : List (RuleTargetType × List String)} (h : db.RulesHold)
    (hexists : ∀ type id, db'.targetExists type id = true ↔
      db.targetExists type id = true ∧ ¬ below type id)
    (hrules : db'.rules = disableRulesTargeting db.rules swept)
    (hswept : ∀ rule, db.targetExists rule.targetType rule.targetId = true →
      (TargetsAny swept rule ↔ below rule.targetType rule.targetId)) :
    (db'.RulesHold ↔ db.Spares below) ∧
      ∀ id rule, db.Active id rule → below rule.targetType rule.targetId →
        Disabled db'.rules id := by
  have hactive : ∀ id rule, db'.Active id rule ↔
      db.Active id rule ∧ ¬ below rule.targetType rule.targetId := by
    intro id rule
    unfold Active
    rw [hrules, active_disableRulesTargeting]
    exact and_congr_right fun hrule => not_congr (hswept rule (h id rule hrule).target)
  constructor
  · constructor
    · rintro h' id rule hrule ⟨option, hoption, hbelow⟩
      by_contra hnot
      have hholds := h' id rule ((hactive id rule).2 ⟨hrule, hnot⟩)
      exact ((hexists _ _).1 (hholds.conditions option hoption)).2 hbelow
    · intro hspares id rule hrule
      obtain ⟨hwas, hnot⟩ := (hactive id rule).1 hrule
      have hholds := h id rule hwas
      exact
        { target := (hexists _ _).2 ⟨hholds.target, hnot⟩
          conditions := fun option hoption => (hexists _ _).2
            ⟨hholds.conditions option hoption, fun hbelow =>
              hnot (hspares id rule hwas ⟨option, hoption, hbelow⟩)⟩ }
  · intro id rule hrule hbelow
    rw [hrules]
    exact disabled_disableRulesTargeting hrule.1 hrule.2.1 hrule.2.2
      ((hswept rule (h id rule hrule).target).2 hbelow)

/-- **The deletion of a set keeps the rules** where it spares those of the
others. -/
theorem rulesHold_iff_sparesOthers (h : db.RulesHold)
    (hexists : ∀ type id, db'.targetExists type id = true ↔
      db.targetExists type id = true ∧ ¬ db.BelowSet optionSet type id)
    (hactive : ∀ id rule, db'.Active id rule ↔ db.Active id rule ∧ rule.optionSetId ≠ optionSet) :
    db'.RulesHold ↔ db.SparesOthers optionSet := by
  constructor
  · intro h' id rule hrule hother
    have hholds := h' id rule ((hactive id rule).2 ⟨hrule, hother⟩)
    exact ⟨((hexists _ _).1 hholds.target).2, fun option hoption =>
      ((hexists _ _).1 (hholds.conditions option hoption)).2⟩
  · intro hspares id rule hrule
    obtain ⟨hwas, hother⟩ := (hactive id rule).1 hrule
    obtain ⟨htarget, hconditions⟩ := hspares id rule hwas hother
    have hholds := h id rule hwas
    exact
      { target := (hexists _ _).2 ⟨hholds.target, htarget⟩
        conditions := fun option hoption =>
          (hexists _ _).2 ⟨hholds.conditions option hoption, hconditions option hoption⟩ }

theorem active_onOptionSetDeleted (optionSet id : String) (rule : OptionRule) :
    (db.onOptionSetDeleted optionSet).Active id rule ↔
      db.Active id rule ∧ rule.optionSetId ≠ optionSet := by
  unfold Active onOptionSetDeleted
  rw [OrderedMap.get?_mapValues, Option.map_eq_some_iff]
  constructor
  · rintro ⟨⟨before, hbefore, hrule⟩, hlive, henabled⟩
    split_ifs at hrule with hset
    · rw [← hrule] at hlive
      simp at hlive
    · subst hrule
      exact ⟨⟨hbefore, hlive, henabled⟩, hset⟩
  · rintro ⟨⟨hrule, hlive, henabled⟩, hset⟩
    exact ⟨⟨rule, hrule, if_neg hset⟩, hlive, henabled⟩

theorem isLive_onOptionSetDeleted {id : String} {rule after : OptionRule}
    (hrule : db.rules.get? id = some rule) (hset : rule.optionSetId = optionSet)
    (hafter : (db.onOptionSetDeleted optionSet).rules.get? id = some after) :
    after.isLive = false := by
  unfold onOptionSetDeleted at hafter
  rw [OrderedMap.get?_mapValues, hrule, Option.map_some, if_pos hset] at hafter
  rw [← Option.some.inj hafter]

theorem get?_rules_purge (optionSet id : String) :
    (db.purge optionSet).rules.get? id =
      (db.rules.get? id).filter fun rule => rule.optionSetId ≠ optionSet := by
  have hmem : id ∈ (db.rules.entries.filter fun entry => entry.2.optionSetId = optionSet).map
      Prod.fst ↔ ∃ rule, db.rules.get? id = some rule ∧ rule.optionSetId = optionSet := by
    rw [List.mem_map]
    constructor
    · rintro ⟨⟨i, rule⟩, hentry, rfl⟩
      rw [List.mem_filter, decide_eq_true_eq] at hentry
      exact ⟨rule, OrderedMap.get?_eq_some.2 hentry.1, hentry.2⟩
    · rintro ⟨rule, hrule, hset⟩
      exact ⟨(id, rule),
        List.mem_filter.2 ⟨OrderedMap.get?_eq_some.1 hrule, decide_eq_true hset⟩, rfl⟩
  show (db.rules.eraseAll _).get? id = _
  rw [OrderedMap.get?_eraseAll, ite_congr (propext hmem) (fun _ => rfl) fun _ => rfl]
  cases db.rules.get? id with
  | none => simp
  | some rule => by_cases hset : rule.optionSetId = optionSet <;> simp [Option.filter, hset]

theorem active_purge (optionSet id : String) (rule : OptionRule) :
    (db.purge optionSet).Active id rule ↔ db.Active id rule ∧ rule.optionSetId ≠ optionSet := by
  unfold Active
  rw [get?_rules_purge, Option.filter_eq_some_iff, decide_eq_true_eq]
  exact ⟨fun ⟨⟨hrule, hset⟩, hrest⟩ => ⟨⟨hrule, hrest⟩, hset⟩,
    fun ⟨⟨hrule, hrest⟩, hset⟩ => ⟨⟨hrule, hset⟩, hrest⟩⟩

/-! ## Requests that take nothing along -/

theorem Found.mono {rows rows' : OrderedMap String Row} {parent parent' : String → Prop}
    {id : String} (h : Found rows parent id)
    (hrows : ∀ row, rows.get? id = some row → rows'.get? id = some row)
    (hparent : ∀ p, parent p → parent' p) : Found rows' parent' id := by
  obtain ⟨row, hrow, hlive, hp⟩ := h
  exact ⟨row, hrows row hrow, hlive, hparent _ hp⟩

theorem targetExists_mono
    (hsets : ∀ id set, db.optionSets.get? id = some set → db'.optionSets.get? id = some set)
    (hgroups : ∀ id row, db.groups.get? id = some row → db'.groups.get? id = some row)
    (hoptions : ∀ id row, db.options.get? id = some row → db'.options.get? id = some row)
    (hvalues : ∀ id row, db.values.get? id = some row → db'.values.get? id = some row)
    (type : RuleTargetType) (id : String) (h : db.targetExists type id = true) :
    db'.targetExists type id = true := by
  have hset : ∀ id, (db.findSet id).isSome = true → (db'.findSet id).isSome = true := by
    intro id hfound
    obtain ⟨set, hget, hlive⟩ := isSome_filter_iff.1 hfound
    exact isSome_filter_iff.2 ⟨set, hsets id set hget, hlive⟩
  have hgroup : ∀ id, (db.findGroup id).isSome = true → (db'.findGroup id).isSome = true :=
    fun id hfound => (findGroup_iff db').2 (((findGroup_iff db).1 hfound).mono (hgroups id) hset)
  have hoption : ∀ id, (db.findOption id).isSome = true → (db'.findOption id).isSome = true :=
    fun id hfound =>
      (findOption_iff db').2 (((findOption_iff db).1 hfound).mono (hoptions id) hgroup)
  cases type with
  | group => exact hgroup id h
  | option => exact hoption id h
  | value => exact (findValue_iff db').2 (((findValue_iff db).1 h).mono (hvalues id) hoption)

theorem get?_set_of_not_mem {α : Type} {m : OrderedMap String α} {new : String} (a : α)
    (hnew : new ∉ m.keys) {id : String} {b : α} (h : m.get? id = some b) :
    (m.set new a).get? id = some b := by
  rw [OrderedMap.get?_set_ne m a, h]
  rintro rfl
  exact hnew (OrderedMap.mem_keys_of_get? h)

theorem get?_insert {rows : OrderedMap String Row} (new parentId : String) {id : String} {row : Row}
    (h : rows.get? id = some row) : (insert rows new parentId).get? id = some row := by
  unfold insert
  split_ifs with hnew
  · exact h
  · exact get?_set_of_not_mem _ hnew h

/-- **A created row takes nothing from the rules.** -/
theorem rulesHold_of_mono (h : db.RulesHold)
    (hexists : ∀ type id, db.targetExists type id = true → db'.targetExists type id = true)
    (hrules : db'.rules = db.rules) : db'.RulesHold := by
  intro id rule hrule
  have hholds := h id rule (by rwa [Active, hrules] at hrule)
  exact
    { target := hexists _ _ hholds.target
      conditions := fun option hoption => hexists _ _ (hholds.conditions option hoption) }

theorem holds_rules {rules : OrderedMap String OptionRule} {rule : OptionRule} :
    Holds { db with rules := rules } rule ↔ db.Holds rule := by
  have hexists : ∀ type id, targetExists { db with rules := rules } type id =
      db.targetExists type id := by
    intro type id
    cases type <;> rfl
  constructor
  · exact fun h => ⟨(hexists _ _).symm.trans h.target, fun option hoption =>
      (hexists _ _).symm.trans (h.conditions option hoption)⟩
  · exact fun h => ⟨(hexists _ _).trans h.target, fun option hoption =>
      (hexists _ _).trans (h.conditions option hoption)⟩

/-- **A rule that is written** is held to what is asked of all. -/
theorem rulesHold_set {new : OptionRule} {newId : String} (h : db.RulesHold) :
    RulesHold { db with rules := db.rules.set newId new } ↔
      (new.isLive = true → new.isEnabled = true → db.Holds new) := by
  constructor
  · intro h' hlive henabled
    exact holds_rules.1 (h' newId new ⟨OrderedMap.get?_set_self .., hlive, henabled⟩)
  · rintro hnew id rule ⟨hget, hlive, henabled⟩
    obtain ⟨-, rfl⟩ | ⟨-, hget⟩ := OrderedMap.get?_set_eq_some.1 hget
    · exact holds_rules.2 (hnew hlive henabled)
    · exact holds_rules.2 (h id rule ⟨hget, hlive, henabled⟩)

theorem targetExists_removeValue (value : String) (type : RuleTargetType) (id : String) :
    targetExists { db with values := softDelete db.values [value] } type id = true ↔
      db.targetExists type id = true ∧ ¬ (type = .value ∧ id = value) := by
  cases type with
  | group => simp [targetExists]; rfl
  | option => simp [targetExists]; rfl
  | value =>
    show (findValue { db with values := softDelete db.values [value] } id).isSome = true ↔ _
    rw [findValue_iff, found_softDelete, List.mem_singleton]
    exact and_congr (findValue_iff db).symm (by simp)

/-- How many rules block a value's deletion is zero where no enabled rule
targets it. -/
theorem blocking_eq_zero (value : String) :
    db.blocking value = 0 ↔
      ∀ id rule, db.Active id rule → ¬ (rule.targetType = .value ∧ rule.targetId = value) := by
  unfold blocking OrderedMap.values
  rw [List.countP_eq_zero]
  constructor
  · rintro hnone id rule ⟨hget, hlive, henabled⟩ ⟨htype, htarget⟩
    refine hnone rule (List.mem_map.2 ⟨(id, rule), OrderedMap.get?_eq_some.1 hget, rfl⟩) ?_
    simp [targets, htype, htarget, hlive, henabled]
  · intro hnone rule hrule htargets
    obtain ⟨⟨id, rule⟩, hentry, rfl⟩ := List.mem_map.1 hrule
    simp only [targets, List.mem_singleton, Bool.and_eq_true, decide_eq_true_eq] at htargets
    obtain ⟨⟨⟨htype, htarget⟩, henabled⟩, hlive⟩ := htargets
    exact hnone id rule ⟨OrderedMap.get?_eq_some.2 hentry, hlive, henabled⟩ ⟨htype, htarget⟩

/-! ## When a request is served -/

theorem createRule_eq_some {optionSetId newId targetId : String} {targetType : RuleTargetType}
    {conditions : List String} :
    db.createRule optionSetId newId targetType targetId conditions = some db' ↔
      (∃ set, db.findSet optionSetId = some set) ∧
        (db.targetExists targetType targetId = true ∧ newId ∉ db.rules.keys) ∧
          { db with
            rules := db.rules.set newId
              ⟨optionSetId, targetType, targetId, conditions, true, none, true⟩ } = db' := by
  unfold createRule
  simp only [Option.bind_eq_bind, Option.bind_eq_some_iff, Option.ite_none_right_eq_some,
    Option.some.injEq, exists_and_right]

theorem updateRule_eq_some {ruleId : String} {targetType : Option RuleTargetType}
    {targetId : Option String} {conditions : Option (List String)} :
    db.updateRule ruleId targetType targetId conditions = some db' ↔
      ∃ before, db.findRule ruleId = some before ∧
        (targetType = none ∧ targetId = none ∨ db.targetExists (targetType.getD before.targetType)
          (targetId.getD before.targetId) = true) ∧
          { db with
            rules := db.rules.set ruleId
              { before with
                targetType := targetType.getD before.targetType
                targetId := targetId.getD before.targetId
                conditions := conditions.getD before.conditions } } = db' := by
  unfold updateRule
  simp only [Option.bind_eq_bind, Option.bind_eq_some_iff, Option.ite_none_right_eq_some,
    Option.some.injEq]

theorem removeValue_eq_some {value : String} : db.removeValue value = some db' ↔
      (∃ row, db.findValue value = some row) ∧ db.blocking value = 0 ∧
        { db with values := softDelete db.values [value] } = db' := by
  unfold removeValue
  simp only [Option.bind_eq_bind, Option.bind_eq_some_iff, Option.ite_none_right_eq_some,
    Option.some.injEq, exists_and_right]

/-! ## What a request keeps -/

section Keeps

variable {request : Request}

theorem keeps_of_refused (h : db.RulesHold) (hrefused : db.outcome request = none) :
    db.Keeps request := by
  have hserve : db.serve request = db := by rw [serve, hrefused, Option.getD_none]
  refine ⟨by rwa [hserve], fun _ _ _ => hrefused, fun id rule hrule hnot => ?_⟩
  rw [hserve] at hnot
  exact absurd (h id rule hrule) hnot

/-- **One that is served keeps them where they hold afterwards**, when each rule
stays as it was, keeps what it refers to, or is settled. -/
theorem keeps_iff_rulesHold {db' : Tables} (houtcome : db.outcome request = some db')
    (hvalue : ∀ value, request ≠ .removeValue value)
    (hsettled : ∀ id rule, db.Active id rule → db'.Active id rule ∨ db'.Holds rule ∨
      Disabled db'.rules id ∨
        (request = .removeSet rule.optionSetId ∨ request = .purgeSet rule.optionSetId) ∧
          ∀ after, db'.rules.get? id = some after → after.isLive = false) :
    db.Keeps request ↔ db'.RulesHold := by
  have hserve : db.serve request = db' := by rw [serve, houtcome, Option.getD_some]
  refine ⟨fun h => hserve ▸ h.rulesHold, fun h => ⟨by rwa [hserve], ?_, ?_⟩⟩
  · exact fun value hrequest => absurd hrequest (hvalue value)
  · intro id rule hrule hnot
    rw [hserve] at hnot ⊢
    obtain hactive | hholds | hdisabled | hdeleted := hsettled id rule hrule
    · exact absurd (h id rule hactive) hnot
    · exact absurd hholds hnot
    · exact .inl hdisabled
    · exact .inr hdeleted

theorem keeps_iff_of_found {α : Type} {found : Option α} {db' : Tables} {P : Prop}
    (h : db.RulesHold) (houtcome : db.outcome request = found.map fun _ => db')
    (hserved : db.outcome request = some db' → (db.Keeps request ↔ P)) :
    db.Keeps request ↔ (found.isSome = true → P) := by
  cases found with
  | none => exact iff_of_true (keeps_of_refused h houtcome) fun hsome => by simp at hsome
  | some row => simp [hserved houtcome]

theorem keeps_of_mono {α : Type} {found : Option α} {db' : Tables} (h : db.RulesHold)
    (houtcome : db.outcome request = found.map fun _ => db')
    (hvalue : ∀ value, request ≠ .removeValue value)
    (hexists : ∀ type id, db.targetExists type id = true → db'.targetExists type id = true)
    (hrules : db'.rules = db.rules) : db.Keeps request := by
  refine (keeps_iff_of_found h houtcome fun hserved => ?_).2 fun _ => rulesHold_of_mono h hexists hrules
  exact keeps_iff_rulesHold hserved hvalue fun id rule hrule => .inl (by rwa [Active, hrules])

theorem keeps_set_iff {newId : String} {new : OptionRule} (h : db.RulesHold)
    (houtcome : db.outcome request = some { db with rules := db.rules.set newId new })
    (hvalue : ∀ value, request ≠ .removeValue value) :
    db.Keeps request ↔ (new.isLive = true → new.isEnabled = true → db.Holds new) :=
  (keeps_iff_rulesHold houtcome hvalue fun id rule hrule =>
    .inr (.inl (holds_rules.2 (h id rule hrule)))).trans (rulesHold_set h)

theorem keeps_iff_spares {db' : Tables} {below : RuleTargetType → String → Prop}
    {swept : List (RuleTargetType × List String)} (h : db.RulesHold)
    (houtcome : db.outcome request = some db') (hvalue : ∀ value, request ≠ .removeValue value)
    (hexists : ∀ type id, db'.targetExists type id = true ↔
      db.targetExists type id = true ∧ ¬ below type id)
    (hrules : db'.rules = disableRulesTargeting db.rules swept)
    (hswept : ∀ rule, db.targetExists rule.targetType rule.targetId = true →
      (TargetsAny swept rule ↔ below rule.targetType rule.targetId)) :
    db.Keeps request ↔ db.Spares below := by
  obtain ⟨hiff, hdisabled⟩ := rulesHold_iff_spares h hexists hrules hswept
  refine (keeps_iff_rulesHold houtcome hvalue fun id rule hrule => ?_).trans hiff
  by_cases hbelow : below rule.targetType rule.targetId
  · exact .inr (.inr (.inl (hdisabled id rule hrule hbelow)))
  · -- Not swept: it stays enabled.
    refine .inl ?_
    unfold Active
    rw [hrules, active_disableRulesTargeting]
    exact ⟨hrule, fun htargets => hbelow ((hswept rule (h id rule hrule).target).1 htargets)⟩

theorem keeps_iff_sparesOthers {db' : Tables} {optionSet : String} (h : db.RulesHold)
    (houtcome : db.outcome request = some db')
    (hrequest : request = .removeSet optionSet ∨ request = .purgeSet optionSet)
    (hexists : ∀ type id, db'.targetExists type id = true ↔
      db.targetExists type id = true ∧ ¬ db.BelowSet optionSet type id)
    (hactive : ∀ id rule, db'.Active id rule ↔ db.Active id rule ∧ rule.optionSetId ≠ optionSet)
    (hdeleted : ∀ id rule after, db.rules.get? id = some rule → rule.optionSetId = optionSet →
      db'.rules.get? id = some after → after.isLive = false) :
    db.Keeps request ↔ db.SparesOthers optionSet := by
  refine (keeps_iff_rulesHold houtcome ?_ fun id rule hrule => ?_).trans
    (rulesHold_iff_sparesOthers h hexists hactive)
  · obtain rfl | rfl := hrequest <;> simp
  · by_cases hset : rule.optionSetId = optionSet
    · subst hset
      exact .inr (.inr (.inr ⟨hrequest, fun after => hdeleted id rule after hrule.1 rfl⟩))
    · exact .inl ((hactive id rule).2 ⟨hrule, hset⟩)

theorem keeps_removeValue (h : db.RulesHold) (value : String) : db.Keeps (.removeValue value) := by
  cases houtcome : db.outcome (.removeValue value) with
  | none => exact keeps_of_refused h houtcome
  | some db' =>
    obtain ⟨-, hblocking, rfl⟩ :=
      removeValue_eq_some.1 (show db.removeValue value = _ from houtcome)
    have hfree := (blocking_eq_zero value).1 hblocking
    have hholds : ∀ id rule, db.Active id rule →
        Holds { db with values := softDelete db.values [value] } rule := fun id rule hrule =>
      { target := (targetExists_removeValue ..).2 ⟨(h id rule hrule).target, hfree id rule hrule⟩
        conditions := fun option hoption => (targetExists_removeValue ..).2
          ⟨(h id rule hrule).conditions option hoption, by simp⟩ }
    have hserve : db.serve (.removeValue value) =
        { db with values := softDelete db.values [value] } := by
      rw [serve, houtcome, Option.getD_some]
    refine ⟨hserve ▸ hholds, ?_, fun id rule hrule hnot => ?_⟩
    · rintro value' hvalue ⟨id, rule, hrule, hnot⟩
      obtain rfl := Request.removeValue.inj hvalue
      exact absurd (hholds id rule hrule) hnot
    · exact absurd (hserve ▸ hholds id rule hrule) hnot

end Keeps

/-- **What a request that is served keeps**, kind by kind. -/
theorem keeps_iff_heeds (h : db.RulesHold) (request : Request) :
    db.Keeps request ↔ db.Heeds request := by
  cases request with
  | createSet newId =>
    refine iff_of_true ?_ trivial
    by_cases hnew : newId ∈ db.optionSets.keys
    · exact keeps_of_refused h (if_pos hnew)
    · refine keeps_of_mono h (show _ = (some ()).map fun _ => _ from if_neg hnew) (by simp) ?_ rfl
      exact targetExists_mono (fun _ _ => get?_set_of_not_mem _ hnew) (fun _ _ hget => hget)
        (fun _ _ hget => hget) fun _ _ hget => hget
  | createGroup optionSetId newId =>
    refine iff_of_true (keeps_of_mono h rfl (by simp) ?_ rfl) trivial
    exact targetExists_mono (fun _ _ hget => hget) (fun _ _ hget => get?_insert _ _ hget)
      (fun _ _ hget => hget) fun _ _ hget => hget
  | createOption groupId newId =>
    refine iff_of_true (keeps_of_mono h rfl (by simp) ?_ rfl) trivial
    exact targetExists_mono (fun _ _ hget => hget) (fun _ _ hget => hget)
      (fun _ _ hget => get?_insert _ _ hget) fun _ _ hget => hget
  | createValue optionId newId =>
    refine iff_of_true (keeps_of_mono h rfl (by simp) ?_ rfl) trivial
    exact targetExists_mono (fun _ _ hget => hget) (fun _ _ hget => hget)
      (fun _ _ hget => hget) fun _ _ hget => get?_insert _ _ hget
  | createRule optionSetId newId targetType targetId conditions =>
    cases hcreate : db.createRule optionSetId newId targetType targetId conditions with
    | none => exact iff_of_true (keeps_of_refused h hcreate) fun hsome => by simp [hcreate] at hsome
    | some db' =>
      obtain ⟨-, ⟨htarget, -⟩, rfl⟩ := createRule_eq_some.1 hcreate
      have houtcome : db.outcome
          (.createRule optionSetId newId targetType targetId conditions) = some _ := hcreate
      refine (keeps_set_iff h houtcome (by simp)).trans ?_
      constructor
      · exact fun hnew _ => (hnew rfl rfl).conditions
      · exact fun hheeds _ _ => ⟨htarget, hheeds (by rw [hcreate]; rfl)⟩
  | updateRule ruleId targetType targetId conditions =>
    cases hupdate : db.updateRule ruleId targetType targetId conditions with
    | none => exact iff_of_true (keeps_of_refused h hupdate) fun hsome => by simp [hupdate] at hsome
    | some db' =>
      obtain ⟨before, hfind, htarget, rfl⟩ := updateRule_eq_some.1 hupdate
      obtain ⟨hget, hlive⟩ : db.rules.get? ruleId = some before ∧ before.isLive = true := by
        obtain ⟨hget, hfound⟩ := Option.filter_eq_some_iff.1 hfind
        exact ⟨hget, (Bool.and_eq_true_iff.1 hfound).1⟩
      have houtcome : db.outcome (.updateRule ruleId targetType targetId conditions) = some _ :=
        hupdate
      refine (keeps_set_iff h houtcome (by simp)).trans ?_
      constructor
      · rintro hnew - rule hrule henabled options hoptions
        obtain rfl := Option.some.inj (hfind.symm.trans hrule)
        have hholds := (hnew hlive henabled).conditions
        rwa [show conditions = some options from hoptions, Option.getD_some] at hholds
      · intro hheeds _ henabled
        have hbefore := h ruleId before ⟨hget, hlive, henabled⟩
        refine ⟨?_, ?_⟩
        · -- Not given, the target is the one that the rule had.
          obtain ⟨rfl, rfl⟩ | htarget := htarget
          · exact hbefore.target
          · exact htarget
        · cases conditions with
          | none => exact hbefore.conditions
          | some options =>
            exact hheeds (by rw [hupdate]; rfl) before hfind henabled options rfl
  | removeRule ruleId =>
    refine iff_of_true ((keeps_iff_of_found h rfl fun hserved => keeps_iff_rulesHold hserved
      (by simp) fun id rule hrule => .inr (.inl (holds_rules.2 (h id rule hrule)))).2 fun _ => ?_)
      trivial
    rintro id rule ⟨hget, hlive, henabled⟩
    refine holds_rules.2 (h id rule ⟨?_, hlive, henabled⟩)
    by_cases hid : id ∈ [ruleId]
    · rw [OrderedMap.get?_mapAt_of_mem _ _ hid] at hget
      obtain ⟨was, -, rfl⟩ := Option.map_eq_some_iff.1 hget
      simp at hlive
    · rwa [OrderedMap.get?_mapAt_of_not_mem _ _ hid] at hget
  | removeValue value => exact iff_of_true (keeps_removeValue h value) trivial
  | removeOption option =>
    exact keeps_iff_of_found h rfl fun hserved => keeps_iff_spares h hserved (by simp)
      (targetExists_onOptionDeleted option) rfl fun _ => targetsAny_option option
  | removeGroup group =>
    exact keeps_iff_of_found h rfl fun hserved => keeps_iff_spares h hserved (by simp)
      (targetExists_onGroupDeleted group) rfl fun _ => targetsAny_group group
  | removeSet optionSet =>
    exact keeps_iff_of_found h rfl fun hserved => keeps_iff_sparesOthers h hserved (.inl rfl)
      (targetExists_onOptionSetDeleted optionSet) (active_onOptionSetDeleted optionSet)
      fun _ _ _ => isLive_onOptionSetDeleted
  | purgeSet optionSet =>
    refine keeps_iff_of_found h rfl fun hserved => keeps_iff_sparesOthers h hserved (.inr rfl)
      (targetExists_purge optionSet) (active_purge optionSet) fun id rule after hrule hset hafter => ?_
    rw [get?_rules_purge, hrule] at hafter
    simp [Option.filter, hset] at hafter

/-! ## Runs -/

variable (db) in
/-- **Every request of a run keeps the rules**, in the state it finds. -/
def AllKeep (requests : List Request) : Prop :=
  ∀ before request after, requests = before ++ request :: after →
    (run serve db before).Keeps request

/-- **No enabled rule refers to something deleted, in any state that a run
reaches, exactly in the runs whose requests see to the conditions and to the
other sets.** -/
theorem rules_hold_iff (h : db.RulesHold) (requests : List Request) :
    db.AllKeep requests ↔ Throughout serve Heeds db requests := by
  have hiff : db.AllKeep requests ↔ Throughout serve Keeps db requests :=
    ⟨fun hall => throughout_of_prefix hall, fun hall before request after hsplit => by
      subst hsplit
      exact hall.at⟩
  refine hiff.trans (throughout_congr_of_ok (fun s a hkeeps _ => hkeeps.rulesHold)
    (fun s a hs => keeps_iff_heeds hs a) h)

/-- A rule that shows one option by another goes with the one it shows. -/
theorem rules_hold_shown : Tables.empty.AllKeep
    [.createSet "shirt", .createGroup "shirt" "print", .createOption "print" "size",
      .createOption "print" "text", .createRule "shirt" "show" .option "text" ["size"],
      .removeOption "text"] := by
  refine (rules_hold_iff (fun id rule hrule => absurd hrule.1 (by simp [Tables.empty])) _).2 ?_
  refine ⟨trivial, trivial, trivial, trivial, fun _ => by decide, fun _ id rule hrule => ?_,
    trivial⟩
  rintro ⟨option, hoption, hbelow⟩
  have hentry := OrderedMap.get?_eq_some.1 hrule.1
  obtain ⟨-, rfl⟩ := Prod.mk.inj (List.mem_singleton.1 hentry)
  obtain rfl := List.mem_singleton.1 hoption
  exact absurd hbelow (show ¬ "size" = "text" by decide)

/-- The option that it is shown by goes without it. -/
theorem condition_outlives_option : ¬ Tables.empty.AllKeep
    [.createSet "shirt", .createGroup "shirt" "print", .createOption "print" "size",
      .createOption "print" "text", .createRule "shirt" "show" .option "text" ["size"],
      .removeOption "size"] := by
  intro hall
  have hkeeps := hall [.createSet "shirt", .createGroup "shirt" "print",
    .createOption "print" "size", .createOption "print" "text",
    .createRule "shirt" "show" .option "text" ["size"]] (.removeOption "size") [] rfl
  have hholds := hkeeps.rulesHold "show" ⟨"shirt", .option, "text", ["size"], true, none, true⟩
    ⟨by decide, rfl, rfl⟩
  exact absurd (hholds.conditions "size" (List.mem_singleton.2 rfl)) (by decide)

end Tables

end Optionia.Authoring
