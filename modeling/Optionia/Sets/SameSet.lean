import Optionia.Sets.Copies
/-!
# A duplicate is the same set

What it is for a set to be a duplicate of another (`SameSet`): the rows of the
one are those of the other under other ids, in the same order, its rules name
the rows of its own, and so is what it publishes. It rests on its rows and its
rules alone (`sameSet_of_rows`).
-/

namespace Optionia.Sets

open Wire

/-! ## Ids for ids -/

section Renamed

variable (rename : String → String)

/-- A row under another id and another parent. -/
def Row.moved {C : Type} (parentId : String) (row : Row C) : Row C :=
  { row with id := rename row.id, parentId := parentId }

/-- An option and its values; the artwork of a text is not published. -/
def OptionNode.moved (groupId : String) (node : OptionNode) : OptionNode where
  option :=
    { node.option.moved rename groupId with
      columns := { node.option.columns with textDesign := none } }
  values := node.values.map (·.moved rename (rename node.option.id))

/-- A group and what is in it. -/
def GroupNode.moved (setId : String) (node : GroupNode) : GroupNode where
  group := node.group.moved rename setId
  items := node.items.map (·.moved rename (rename node.group.id))
  options := node.options.map (·.moved rename (rename node.group.id))

/-- A published value under another id. -/
def PublishedValue.renamed (value : PublishedValue) : PublishedValue :=
  { value with id := rename value.id }

def PublishedOption.renamed (option : PublishedOption) : PublishedOption :=
  { option with id := rename option.id, values := option.values.map (·.renamed rename) }

def PublishedGroup.renamed (group : PublishedGroup) : PublishedGroup :=
  { group with id := rename group.id, options := group.options.map (·.renamed rename) }

/-- A condition that names another option. -/
def renamedCondition : Json → Json
  | .obj source =>
    match source.lookup "optionId" with
    | some (.str optionId) =>
      .obj (OrderedMap.setEntries source "optionId" (.str (rename optionId)))
    | _ => .obj source
  | condition => condition

def renamedConditions : Json → Json
  | .arr conditions => .arr (conditions.map (renamedCondition rename))
  | conditions => conditions

/-- A rule that names other rows. -/
def Row.renamedRule (setId : String) (rule : Row RuleColumns) : Row RuleColumns :=
  { rule.moved rename setId with
    columns :=
      { rule.columns with
        targetId := rename rule.columns.targetId
        conditions := renamedConditions rename rule.columns.conditions } }

end Renamed

/-! ## What a rule names -/

/-- The ids that a rule may name. -/
def OptionSetTree.ids (tree : OptionSetTree) : List String :=
  tree.groups.flatMap fun node => node.group.id :: node.options.flatMap fun child =>
    child.option.id :: child.values.map (·.id)

def OptionSetTree.owned (tree : OptionSetTree) : List String :=
  tree.set.id :: tree.ids ++ (tree.groups.flatMap fun node => node.items.map (·.id)) ++
    tree.rules.map (·.id)

/-- A condition that names one of some rows. -/
def namesOne (ids : List String) : Json → Bool
  | .obj source =>
    match source.lookup "optionId" with
    | some (.str optionId) => optionId ∈ ids
    | _ => false
  | _ => false

/-- A rule whose target and conditions all name rows of a set. -/
def intact (ids : List String) (rule : Row RuleColumns) : Bool :=
  decide (rule.columns.targetId ∈ ids) &&
    match rule.columns.conditions with
    | .arr conditions => conditions.all (namesOne ids)
    | _ => false

def Row.named (rule : Row RuleColumns) : List String :=
  rule.columns.targetId :: Cloud.conditionOptionIds rule.columns.conditions

/-- **A rule is copied**: it names the copies, or is disabled where one of the
rows it names is gone. -/
structure RuleCopied (rename : String → String) (source : OptionSetTree) (setId : String)
    (rule copy : Row RuleColumns) : Prop where
  id : copy.id = rename rule.id
  /-- It names the copies, where they are all there. -/
  renamed : intact source.ids rule = true → copy = rule.renamedRule rename setId
  disabled : intact source.ids rule = false →
    copy.columns.isEnabled = false ∧ copy.columns.disabledReason = some targetDeleted

/-- **A set is the same as another, under other ids.** -/
structure SameSet (rename : String → String) (source copy : OptionSetTree) : Prop where
  bijection : Set.BijOn rename {id | id ∈ source.ids} {id | id ∈ copy.ids}
  /-- Every row once, with its columns, in the order of its siblings. -/
  groups : copy.groups = source.groups.map (·.moved rename copy.set.id)
  rules : List.Forall₂ (RuleCopied rename source copy.set.id) source.rules copy.rules
  published : toPublished copy =
    { id := copy.set.id
      version := copy.set.version
      groups := (toPublished source).groups.map (·.renamed rename)
      rules := ((source.rules.filter fun rule =>
        rule.columns.isEnabled && intact source.ids rule).map
          (·.renamedRule rename copy.set.id)).map fun rule => Cloud.toPublishedRule rule.toRule }
  /-- No rule that is enabled names a row of the other. -/
  foreign : ∀ rule ∈ copy.rules, rule.columns.isEnabled = true →
    ∀ id ∈ rule.named, id ∉ source.owned

section Proofs

variable {rename : String → String} {source copy : OptionSetTree} {setId : String}

/-! ## What follows from the rows -/

theorem ids_moved (h : copy.groups = source.groups.map (·.moved rename setId)) :
    copy.ids = source.ids.map rename := by
  unfold OptionSetTree.ids
  rw [h, List.map_flatMap, List.flatMap_map]
  refine List.flatMap_congr fun node _ => ?_
  rw [List.map_cons, List.map_flatMap]
  refine congrArg₂ List.cons rfl ?_
  unfold GroupNode.moved
  dsimp only
  rw [List.flatMap_map]
  refine List.flatMap_congr fun child _ => ?_
  rw [List.map_cons]
  refine congrArg₂ List.cons rfl ?_
  unfold OptionNode.moved
  dsimp only
  rw [List.map_map, List.map_map]
  rfl

theorem optionToPublished_moved (groupId : String) (node : OptionNode) :
    optionToPublished (node.moved rename groupId) = (optionToPublished node).renamed rename := by
  refine congrArg (PublishedOption.mk _ _) ?_
  show ((node.values.map (·.moved rename (rename node.option.id))).filter _).map _ =
    ((node.values.filter _).map _).map _
  rw [List.filter_map, List.map_map, List.map_map]
  rfl

theorem groupToPublished_moved (node : GroupNode) :
    groupToPublished (node.moved rename setId) = (groupToPublished node).renamed rename := by
  refine congrArg₂ (PublishedGroup.mk _ _) ?_ ?_
  · show ((node.options.map (·.moved rename (rename node.group.id))).filter _).map _ =
      ((node.options.filter _).map _).map _
    rw [List.filter_map, List.map_map, List.map_map]
    exact List.map_congr_left fun child _ => optionToPublished_moved _ child
  · show (node.items.map (·.moved rename (rename node.group.id))).map _ = node.items.map _
    rw [List.map_map]
    rfl

theorem published_rules {rules copies : List (Row RuleColumns)}
    (h : List.Forall₂ (RuleCopied rename source setId) rules copies) :
    copies.filter (·.columns.isEnabled) =
      (rules.filter fun rule => rule.columns.isEnabled && intact source.ids rule).map
        (·.renamedRule rename setId) := by
  induction h with
  | nil => rfl
  | @cons rule copy rules copies hcopied _ ih =>
    rw [List.filter_cons, List.filter_cons, ih]
    cases hintact : intact source.ids rule with
    | true =>
      obtain rfl := hcopied.renamed hintact
      rw [Bool.and_true]
      have hsame : (rule.renamedRule rename setId).columns.isEnabled = rule.columns.isEnabled := rfl
      rw [hsame]
      split_ifs <;> rfl
    | false =>
      rw [(hcopied.disabled hintact).1, Bool.and_false]
      rfl

theorem namesOne_iff {ids : List String} {condition : Json} :
    namesOne ids condition = true ↔ ∃ fields optionId, condition = .obj fields ∧
      fields.lookup "optionId" = some (.str optionId) ∧ optionId ∈ ids := by
  constructor
  · intro h
    cases condition with
    | obj fields =>
      unfold namesOne at h
      cases hlookup : fields.lookup "optionId" with
      | none => simp [hlookup] at h
      | some value =>
        cases value with
        | str optionId => exact ⟨fields, optionId, rfl, hlookup, by simpa [hlookup] using h⟩
        | _ => simp [hlookup] at h
    | _ => exact absurd h Bool.false_ne_true
  · rintro ⟨fields, optionId, rfl, hlookup, hmem⟩
    simp [namesOne, hlookup, hmem]

theorem renamedCondition_of_lookup {fields : Record} {optionId : String}
    (h : fields.lookup "optionId" = some (.str optionId)) :
    renamedCondition rename (.obj fields) =
      .obj (OrderedMap.setEntries fields "optionId" (.str (rename optionId))) := by
  simp [renamedCondition, h]

theorem conditionOptionIds_renamed {ids : List String} {conditions : List Json}
    (h : conditions.all (namesOne ids) = true) {id : String}
    (hid : id ∈ Cloud.conditionOptionIds (renamedConditions rename (.arr conditions))) :
    ∃ other, id = rename other := by
  obtain ⟨condition, hmem, hget⟩ := List.mem_filterMap.1 hid
  obtain ⟨given, hgiven, rfl⟩ := List.mem_map.1 hmem
  obtain ⟨fields, optionId, rfl, hlookup, -⟩ := namesOne_iff.1 (List.all_eq_true.1 h given hgiven)
  have hset : (OrderedMap.setEntries fields "optionId" (.str (rename optionId))).lookup
      "optionId" = some (.str (rename optionId)) := by
    rw [OrderedMap.lookup_setEntries, if_pos rfl]
  rw [renamedCondition_of_lookup hlookup] at hget
  simp only [Json.get?, hset, Option.some.injEq] at hget
  exact ⟨optionId, hget.symm⟩

theorem exists_of_mem_right {α β : Type} {R : α → β → Prop} {l : List α} {m : List β}
    (h : List.Forall₂ R l m) {b : β} (hb : b ∈ m) : ∃ a ∈ l, R a b := by
  induction h with
  | nil => simp at hb
  | cons hab _ ih =>
    obtain rfl | hb := List.mem_cons.1 hb
    · exact ⟨_, List.mem_cons_self, hab⟩
    · obtain ⟨a, ha, hR⟩ := ih hb
      exact ⟨a, List.mem_cons_of_mem _ ha, hR⟩

/-- **It rests on the rows and the rules.** -/
theorem sameSet_of_rows (hinj : Function.Injective rename)
    (hnew : ∀ id ∈ source.owned, ∀ other, id ≠ rename other)
    (hgroups : copy.groups = source.groups.map (·.moved rename copy.set.id))
    (hrules : List.Forall₂ (RuleCopied rename source copy.set.id) source.rules copy.rules) :
    SameSet rename source copy where
  bijection := by
    rw [ids_moved hgroups]
    refine ⟨fun id hid => List.mem_map_of_mem hid, hinj.injOn, fun id hid => ?_⟩
    obtain ⟨other, hother, rfl⟩ := List.mem_map.1 hid
    exact ⟨other, hother, rfl⟩
  groups := hgroups
  rules := hrules
  published := by
    unfold toPublished
    dsimp only
    rw [published_rules hrules, hgroups, List.filter_map, List.map_map, List.map_map]
    refine congrArg (fun groups => PublishedOptionSet.mk _ _ groups _) ?_
    rw [List.map_map]
    exact List.map_congr_left fun node _ => groupToPublished_moved node
  foreign := by
    intro rule hrule henabled id hid hmem
    obtain ⟨given, -, hcopied⟩ := exists_of_mem_right hrules hrule
    cases hintact : intact source.ids given with
    | false => exact absurd henabled (by rw [(hcopied.disabled hintact).1]; simp)
    | true =>
      obtain rfl := hcopied.renamed hintact
      obtain rfl | hid := List.mem_cons.1 hid
      · exact hnew _ hmem _ rfl
      · obtain ⟨-, hconditions⟩ := Bool.and_eq_true_iff.1 hintact
        cases hgiven : given.columns.conditions with
        | arr conditions =>
          rw [hgiven] at hconditions
          have hlist : id ∈ Cloud.conditionOptionIds
              (renamedConditions rename given.columns.conditions) := hid
          rw [hgiven] at hlist
          obtain ⟨other, rfl⟩ := conditionOptionIds_renamed hconditions hlist
          exact hnew _ hmem _ rfl
        | _ =>
          rw [hgiven] at hconditions
          simp at hconditions

end Proofs

end Optionia.Sets
