import Optionia.Sets.SameSet
/-!
# Which sets are duplicated as they are

A duplicate is the same set exactly where no group has items and no options,
since `copyOptionsInto` returns before it comes to the items, and where the
copies of siblings of one sort order are given ids in the order of theirs
(`sameSet_iff_duplicable`).
-/

namespace Optionia.Sets

open Wire

/-- **A set that is duplicated as it is.** -/
structure Duplicable (env : Environment) (tables : Tables) (source : OptionSet) : Prop where
  /-- Groups that stand alike are copied in their order. -/
  groups : InOrder env (childrenOf tables.groups [source.id])
  rules : InOrder env (childrenOf tables.rules [source.id])
  options : ∀ group ∈ childrenOf tables.groups [source.id],
    InOrder env (childrenOf tables.options [group.id])
  items : ∀ group ∈ childrenOf tables.groups [source.id],
    InOrder env (childrenOf tables.items [group.id])
  values : ∀ group ∈ childrenOf tables.groups [source.id],
    ∀ option ∈ childrenOf tables.options [group.id],
      InOrder env (childrenOf tables.values [option.id])
  hasOptions : ∀ group ∈ childrenOf tables.groups [source.id],
    childrenOf tables.items [group.id] ≠ [] → childrenOf tables.options [group.id] ≠ []

section Written

variable {env : Environment} {tables : Tables} {source : OptionSet}

section Rows

variable {C : Type} {rows copies : List (Row C)} {copy : Row C → Row C}

theorem childrenOf_withCopies (hold : ∀ row ∈ rows, Old env row.id ∧ Old env row.parentId)
    {ids : List String} (hids : ∀ id ∈ ids, ∃ other, id = env.newId other) :
    childrenOf (rows ++ copies) ids = childrenOf copies ids := by
  have hnone : childrenOf rows ids = [] := childrenOf_eq_nil fun row hrow hmem => by
    obtain ⟨other, hother⟩ := hids _ hmem
    exact (hold row hrow).2 other hother
  rw [childrenOf_append, hnone, List.nil_append]

theorem Keyed.nodup_newIds (h : Keyed rows) (hinj : Function.Injective env.newId) :
    (rows.map fun row => env.newId row.id).Nodup := by
  have hmap := List.Nodup.map hinj h
  rwa [List.map_map] at hmap

theorem Keyed.copied (h : Keyed rows) (hinj : Function.Injective env.newId)
    (hid : ∀ row, (copy row).id = env.newId row.id) : Keyed (rows.map copy) := by
  unfold Keyed
  rw [List.map_map]
  exact (congrArg List.Nodup (List.map_congr_left fun row _ => hid row)).mpr (h.nodup_newIds hinj)

end Rows

variable (env tables source)

/-- The groups that a duplicate reads. -/
def readGroups : List (Row GroupColumns) := findBySortOrder env tables.groups [source.id]

def readOptions : List (Row OptionColumns) :=
  (readGroups env tables source).flatMap fun group => foundOptions env tables group.id

variable {env tables source}

theorem mem_readGroups {group : Row GroupColumns} :
    group ∈ readGroups env tables source ↔ group ∈ childrenOf tables.groups [source.id] :=
  findBySortOrder_perm.mem_iff

theorem foundOptions_perm {groupId : String} :
    (foundOptions env tables groupId).Perm (childrenOf tables.options [groupId]) :=
  findBySortOrder_perm

theorem keyed_readGroups (hkeyed : tables.Keyed) : Keyed (readGroups env tables source) :=
  (hkeyed.groups.childrenOf [source.id]).perm findBySortOrder_perm

theorem keyed_readOptions (hkeyed : tables.Keyed) : Keyed (readOptions env tables source) :=
  (hkeyed.options.childrenOf _).perm
    (flatMap_children_perm (keyed_readGroups hkeyed) fun _ _ => foundOptions_perm)

theorem foundValues_perm {groupId : String} {option : Row OptionColumns}
    (h : option ∈ foundOptions env tables groupId) :
    (foundValues env tables option).Perm (childrenOf tables.values [option.id]) := by
  have hmem : option.id ∈ (foundOptions env tables option.parentId).map (·.id) := by
    rw [parentId_of_mem_foundOptions h]
    exact List.mem_map_of_mem h
  refine (findBySortOrder_perm.filter _).trans (.of_eq ?_)
  exact bucket_childrenOf hmem

theorem keyed_readValues (hkeyed : tables.Keyed) :
    Keyed ((readOptions env tables source).flatMap (foundValues env tables)) := by
  refine (hkeyed.values.childrenOf _).perm
    (flatMap_children_perm (keyed_readOptions hkeyed) fun option hoption => ?_)
  obtain ⟨group, -, hfound⟩ := List.mem_flatMap.1 hoption
  exact foundValues_perm hfound

/-! ## Of every table -/

theorem flatMap_writtenOptions :
    ((readGroups env tables source).flatMap fun group => writtenOptions env tables group.id) =
      (readOptions env tables source).map
        fun option => copyOption env (env.newId option.parentId) option := by
  rw [readOptions, List.map_flatMap]
  refine List.flatMap_congr fun group _ => List.map_congr_left fun option hoption => ?_
  rw [parentId_of_mem_foundOptions hoption]

theorem flatMap_writtenValues :
    ((readGroups env tables source).flatMap fun group =>
        (foundOptions env tables group.id).flatMap (writtenValues env tables)) =
      (readOptions env tables source).flatMap (writtenValues env tables) :=
  List.flatMap_assoc.symm

theorem keyed_writtenItems (hinj : Function.Injective env.newId) (hkeyed : tables.Keyed) :
    Keyed ((readGroups env tables source).flatMap fun group => writtenItems env tables group.id) := by
  have hsublist : ∀ groups : List (Row GroupColumns),
      (groups.flatMap fun group => foundItems env tables group.id).Sublist
        (groups.flatMap fun group => findBySortOrder env tables.items [group.id]) := by
    intro groups
    induction groups with
    | nil => exact .slnil
    | cons group groups ih =>
      rw [List.flatMap_cons, List.flatMap_cons]
      refine List.Sublist.append ?_ ih
      unfold foundItems
      split_ifs
      · exact List.nil_sublist _
      · exact .refl _
  have hfound : Keyed ((readGroups env tables source).flatMap
      fun group => foundItems env tables group.id) := by
    have hall : Keyed ((readGroups env tables source).flatMap
        fun group => findBySortOrder env tables.items [group.id]) :=
      (hkeyed.items.childrenOf _).perm
        (flatMap_children_perm (keyed_readGroups hkeyed) fun _ _ => findBySortOrder_perm)
    exact hall.sublist ((hsublist _).map _)
  have hwritten : ((readGroups env tables source).flatMap
      fun group => writtenItems env tables group.id) =
        ((readGroups env tables source).flatMap fun group => foundItems env tables group.id).map
          fun item => copyItem env (env.newId item.parentId) item := by
    rw [List.map_flatMap]
    refine List.flatMap_congr fun group _ => List.map_congr_left fun item hitem => ?_
    have hparent : item.parentId = group.id := by
      unfold foundItems at hitem
      split_ifs at hitem
      · simp at hitem
      · exact List.mem_singleton.1 (mem_childrenOf.1 (findBySortOrder_perm.mem_iff.1 hitem)).2
    rw [hparent]
  rw [hwritten]
  exact hfound.copied hinj fun _ => rfl

theorem keyed_writtenValues (hinj : Function.Injective env.newId) (hkeyed : tables.Keyed) :
    Keyed ((readOptions env tables source).flatMap (writtenValues env tables)) := by
  have hwritten : (readOptions env tables source).flatMap (writtenValues env tables) =
      ((readOptions env tables source).flatMap (foundValues env tables)).map
        fun value => copyValue env (env.newId value.parentId) value := by
    rw [List.map_flatMap]
    refine List.flatMap_congr fun option _ => List.map_congr_left fun value hvalue => ?_
    have hparent : value.parentId = option.id :=
      List.mem_singleton.1 (mem_childrenOf.1 hvalue).2
    rw [hparent]
  rw [hwritten]
  exact (keyed_readValues hkeyed).copied hinj fun _ => rfl

variable (env tables source)

/-- The rows of a duplicate, of what it reads. -/
structure Duplicated (idMap : IdMap) (after : Tables) : Prop where
  groups : after.groups = tables.groups ++
    (readGroups env tables source).map (copyGroup env (env.newId source.id))
  options : after.options = tables.options ++
    (readGroups env tables source).flatMap fun group => writtenOptions env tables group.id
  values : after.values = tables.values ++
    (readOptions env tables source).flatMap (writtenValues env tables)
  items : after.items = tables.items ++
    (readGroups env tables source).flatMap fun group => writtenItems env tables group.id
  rules : after.rules = tables.rules ++ (findBySortOrder env tables.rules [source.id]).map
    (copyRule env (env.newId source.id) idMap)

variable {env tables source} {idMap : IdMap} {after : Tables}

section Children

variable (hfresh : env.Fresh tables) (hdup : Duplicated env tables source idMap after)
  (hkeyed : tables.Keyed)

include hfresh hdup

theorem childrenOf_groups_after : childrenOf after.groups [env.newId source.id] =
    (readGroups env tables source).map (copyGroup env (env.newId source.id)) := by
  rw [hdup.groups, childrenOf_withCopies hfresh.groups fun id hid => ⟨_, List.mem_singleton.1 hid⟩]
  refine childrenOf_eq_self fun row hrow => ?_
  obtain ⟨group, -, rfl⟩ := List.mem_map.1 hrow
  exact List.mem_singleton.2 rfl

theorem childrenOf_rules_after : childrenOf after.rules [env.newId source.id] =
    (findBySortOrder env tables.rules [source.id]).map
      (copyRule env (env.newId source.id) idMap) := by
  rw [hdup.rules, childrenOf_withCopies hfresh.rules fun id hid => ⟨_, List.mem_singleton.1 hid⟩]
  refine childrenOf_eq_self fun row hrow => ?_
  obtain ⟨rule, -, rfl⟩ := List.mem_map.1 hrow
  exact List.mem_singleton.2 rfl

include hkeyed

theorem childrenOf_options_after {group : Row GroupColumns}
    (hgroup : group ∈ readGroups env tables source) :
    childrenOf after.options [env.newId group.id] = writtenOptions env tables group.id := by
  rw [hdup.options, childrenOf_withCopies hfresh.options fun id hid => ⟨_, List.mem_singleton.1 hid⟩]
  refine childrenOf_flatMap ((keyed_readGroups hkeyed).nodup_newIds hfresh.injective)
    (fun group _ row hrow => ?_) hgroup
  obtain ⟨option, -, rfl⟩ := List.mem_map.1 hrow
  rfl

theorem childrenOf_items_after {group : Row GroupColumns}
    (hgroup : group ∈ readGroups env tables source) :
    childrenOf after.items [env.newId group.id] = writtenItems env tables group.id := by
  rw [hdup.items, childrenOf_withCopies hfresh.items fun id hid => ⟨_, List.mem_singleton.1 hid⟩]
  refine childrenOf_flatMap ((keyed_readGroups hkeyed).nodup_newIds hfresh.injective)
    (fun group _ row hrow => ?_) hgroup
  obtain ⟨item, -, rfl⟩ := List.mem_map.1 hrow
  rfl

theorem childrenOf_values_after {option : Row OptionColumns}
    (hoption : option ∈ readOptions env tables source) :
    childrenOf after.values [env.newId option.id] = writtenValues env tables option := by
  rw [hdup.values, childrenOf_withCopies hfresh.values fun id hid => ⟨_, List.mem_singleton.1 hid⟩]
  refine childrenOf_flatMap ((keyed_readOptions hkeyed).nodup_newIds hfresh.injective)
    (fun option _ row hrow => ?_) hoption
  obtain ⟨value, -, rfl⟩ := List.mem_map.1 hrow
  rfl

/-! ## A load of the copy -/

/-- **A load of the copy, parent by parent.** -/
theorem load_after (name : Option String) :
    load after (createdSet env name source) =
      { set := createdSet env name source
        rules := find after.rules [env.newId source.id]
        groups := (find after.groups [env.newId source.id]).map (groupNode after) } := by
  have hgroupIds : ∀ id ∈ (find after.groups [env.newId source.id]).map (·.id),
      ∃ other, id = env.newId other := by
    intro id hid
    obtain ⟨group, hgroup, rfl⟩ := List.mem_map.1 hid
    have hmem := find_perm.mem_iff.1 hgroup
    rw [childrenOf_groups_after hfresh hdup] at hmem
    obtain ⟨given, -, rfl⟩ := List.mem_map.1 hmem
    exact ⟨given.id, rfl⟩
  refine load_eq ?_ ?_ ?_
  · show Keyed (childrenOf after.options ((find after.groups [env.newId source.id]).map (·.id)))
    rw [hdup.options, childrenOf_withCopies hfresh.options hgroupIds, flatMap_writtenOptions]
    exact ((keyed_readOptions hkeyed).copied hfresh.injective fun _ => rfl).childrenOf _
  · show Keyed (childrenOf after.items ((find after.groups [env.newId source.id]).map (·.id)))
    rw [hdup.items, childrenOf_withCopies hfresh.items hgroupIds]
    exact (keyed_writtenItems hfresh.injective hkeyed).childrenOf _
  · show Keyed (childrenOf after.values
      ((find after.options ((find after.groups [env.newId source.id]).map (·.id))).map (·.id)))
    rw [hdup.values, childrenOf_withCopies hfresh.values]
    · exact (keyed_writtenValues hfresh.injective hkeyed).childrenOf _
    · intro id hid
      obtain ⟨option, hoption, rfl⟩ := List.mem_map.1 hid
      have hmem := find_perm.mem_iff.1 hoption
      rw [hdup.options, childrenOf_withCopies hfresh.options hgroupIds, flatMap_writtenOptions]
        at hmem
      obtain ⟨given, -, rfl⟩ := List.mem_map.1 (mem_childrenOf.1 hmem).1
      exact ⟨given.id, rfl⟩

end Children

theorem exists_duplicated (hfresh : env.Fresh tables) (name : Option String) :
    ∃ idMap, Records env idMap (copiedIds env tables source) ∧
      Duplicated env tables source idMap (duplicate env name source tables) := by
  obtain ⟨idMap, hrecords, hafter⟩ := duplicate_spec hfresh name source
  refine ⟨idMap, hrecords, ?_⟩
  rw [hafter]
  exact ⟨rfl, rfl, congrArg (tables.values ++ ·) flatMap_writtenValues, rfl, rfl⟩

/-! ## The rows of the copy -/

/-- Two lists of nodes are one where their rows are and what is under them. -/
theorem map_nodes_iff {α β γ : Type} {l : List α} {m : List β} {f : α → γ} {g : β → γ}
    (row : γ → α) (copy : β → α) (hf : ∀ a, row (f a) = a) (hg : ∀ b, row (g b) = copy b) :
    l.map f = m.map g ↔ l = m.map copy ∧ ∀ b ∈ m, f (copy b) = g b := by
  constructor
  · intro h
    have hrows : l = m.map copy := by
      have hmap := congrArg (List.map row) h
      rw [List.map_map, List.map_map] at hmap
      rw [← List.map_congr_left fun b _ => hg b]
      exact (List.map_id'' hf l).symm.trans hmap
    refine ⟨hrows, ?_⟩
    rw [hrows, List.map_map] at h
    exact List.map_inj_left.1 h
  · rintro ⟨rfl, h⟩
    rw [List.map_map]
    exact List.map_inj_left.2 h

variable (hfresh : env.Fresh tables) (hdup : Duplicated env tables source idMap after)
  (hkeyed : tables.Keyed)

include hfresh hdup hkeyed

theorem optionNode_after {option : Row OptionColumns} {groupId : String}
    (hoption : option ∈ readOptions env tables source) :
    optionNode after (copyOption env groupId option) =
        (optionNode tables option).moved env.newId groupId ↔
      InOrder env (childrenOf tables.values [option.id]) := by
  have hfound : (foundValues env tables option).Perm (childrenOf tables.values [option.id]) := by
    obtain ⟨group, -, hmem⟩ := List.mem_flatMap.1 hoption
    exact foundValues_perm hmem
  rw [← find_copies_iff (copyValue env (env.newId option.id)) hfresh.injective hkeyed.values
    (fun _ => rfl) (fun _ => rfl) hfound (childrenOf_values_after hfresh hdup hkeyed hoption)]
  constructor
  · exact fun h => congrArg OptionNode.values h
  · exact fun h => congrArg (OptionNode.mk _) h

theorem find_items_after {group : Row GroupColumns} (hgroup : group ∈ readGroups env tables source) :
    find after.items [env.newId group.id] =
        (find tables.items [group.id]).map (copyItem env (env.newId group.id)) ↔
      InOrder env (childrenOf tables.items [group.id]) ∧
        (childrenOf tables.items [group.id] ≠ [] → childrenOf tables.options [group.id] ≠ []) := by
  have hwritten := childrenOf_items_after hfresh hdup hkeyed hgroup
  have hread : (foundOptions env tables group.id).Perm (childrenOf tables.options [group.id]) :=
    foundOptions_perm
  have hfound : (find tables.items [group.id]).Perm (childrenOf tables.items [group.id]) :=
    find_perm
  unfold writtenItems foundItems at hwritten
  by_cases hempty : foundOptions env tables group.id = []
  · have hoptions : childrenOf tables.options [group.id] = [] := by
      rw [hempty] at hread
      exact hread.nil_eq.symm
    rw [if_pos (List.isEmpty_iff.2 hempty), List.map_nil] at hwritten
    have hnone : find after.items [env.newId group.id] = [] := by
      unfold Sets.find
      rw [hwritten, List.mergeSort_nil]
    rw [hnone, hoptions, eq_comm, List.map_eq_nil_iff]
    constructor
    · intro hitems
      have hnil : childrenOf tables.items [group.id] = [] := by
        rw [hitems] at hfound
        exact hfound.nil_eq.symm
      rw [hnil]
      exact ⟨fun a ha => absurd ha List.not_mem_nil, fun h => absurd rfl h⟩
    · rintro ⟨-, himp⟩
      have hnil : childrenOf tables.items [group.id] = [] := by
        by_contra hne
        exact himp hne rfl
      rw [hnil] at hfound
      exact hfound.eq_nil
  · have hoptions : childrenOf tables.options [group.id] ≠ [] := by
      intro hnil
      rw [hnil] at hread
      exact hempty hread.eq_nil
    rw [if_neg (fun h => hempty (List.isEmpty_iff.1 h))] at hwritten
    rw [find_copies_iff (copyItem env (env.newId group.id)) hfresh.injective hkeyed.items (fun _ => rfl) (fun _ => rfl)
      findBySortOrder_perm hwritten]
    exact ⟨fun h => ⟨h, fun _ => hoptions⟩, fun h => h.1⟩

theorem groupNode_after {group : Row GroupColumns} {setId : String}
    (hgroup : group ∈ readGroups env tables source) :
    groupNode after (copyGroup env setId group) = (groupNode tables group).moved env.newId setId ↔
      (InOrder env (childrenOf tables.items [group.id]) ∧
          (childrenOf tables.items [group.id] ≠ [] →
            childrenOf tables.options [group.id] ≠ [])) ∧
        InOrder env (childrenOf tables.options [group.id]) ∧
          ∀ option ∈ childrenOf tables.options [group.id],
            InOrder env (childrenOf tables.values [option.id]) := by
  have hoptions : (find after.options [env.newId group.id]).map (optionNode after) =
        ((find tables.options [group.id]).map (optionNode tables)).map
          (·.moved env.newId (env.newId group.id)) ↔
      InOrder env (childrenOf tables.options [group.id]) ∧
        ∀ option ∈ childrenOf tables.options [group.id],
          InOrder env (childrenOf tables.values [option.id]) := by
    rw [List.map_map, map_nodes_iff OptionNode.option
      (copyOption env (env.newId group.id)) (fun _ => rfl) fun _ => rfl]
    refine and_congr ?_ (forall_congr' fun option => ?_)
    · exact find_copies_iff _ hfresh.injective hkeyed.options (fun _ => rfl) (fun _ => rfl)
        foundOptions_perm (childrenOf_options_after hfresh hdup hkeyed hgroup)
    · rw [find_perm.mem_iff]
      refine imp_congr_right fun hoption => optionNode_after hfresh hdup hkeyed ?_
      exact List.mem_flatMap.2 ⟨group, hgroup, foundOptions_perm.mem_iff.2 hoption⟩
  rw [← find_items_after hfresh hdup hkeyed hgroup, ← hoptions]
  constructor
  · exact fun h => ⟨congrArg GroupNode.items h, congrArg GroupNode.options h⟩
  · exact fun h => congrArg₂ (GroupNode.mk _) h.1 h.2

/-- **The groups of the copy.** -/
theorem groups_after :
    (find after.groups [env.newId source.id]).map (groupNode after) =
        ((find tables.groups [source.id]).map (groupNode tables)).map
          (·.moved env.newId (env.newId source.id)) ↔
      InOrder env (childrenOf tables.groups [source.id]) ∧
        ∀ group ∈ childrenOf tables.groups [source.id],
          (InOrder env (childrenOf tables.items [group.id]) ∧
              (childrenOf tables.items [group.id] ≠ [] →
                childrenOf tables.options [group.id] ≠ [])) ∧
            InOrder env (childrenOf tables.options [group.id]) ∧
              ∀ option ∈ childrenOf tables.options [group.id],
                InOrder env (childrenOf tables.values [option.id]) := by
  rw [List.map_map, map_nodes_iff GroupNode.group
    (copyGroup env (env.newId source.id)) (fun _ => rfl) fun _ => rfl]
  refine and_congr ?_ (forall_congr' fun group => ?_)
  · exact find_copies_iff _ hfresh.injective hkeyed.groups (fun _ => rfl) (fun _ => rfl)
      findBySortOrder_perm (childrenOf_groups_after hfresh hdup)
  · rw [find_perm.mem_iff]
    exact imp_congr_right fun hgroup =>
      groupNode_after hfresh hdup hkeyed (mem_readGroups.2 hgroup)

end Written

/-! ## The rules of the copy -/

section Rules

variable {env : Environment} {tables : Tables} {source : OptionSet} {idMap : IdMap}
  {ids : List String}

theorem copiedIds_eq (hkeyed : tables.Keyed) :
    copiedIds env tables source = {id | id ∈ (load tables source).ids} := by
  ext id
  rw [Set.mem_ofPred_eq, hkeyed.load_eq, OptionSetTree.ids, List.flatMap_map, List.mem_flatMap]
  refine exists_congr fun group => and_congr ?_ ?_
  · exact findBySortOrder_perm.mem_iff.trans find_perm.mem_iff.symm
  · rw [List.mem_cons, eq_comm (a := id)]
    refine or_congr Iff.rfl ?_
    show (∃ option ∈ foundOptions env tables group.id, _) ↔
      id ∈ ((find tables.options [group.id]).map (optionNode tables)).flatMap _
    rw [List.flatMap_map, List.mem_flatMap]
    refine exists_congr fun option => ?_
    rw [foundOptions_perm.mem_iff, find_perm.mem_iff]
    refine and_congr_right fun hoption => ?_
    have hfound : option ∈ foundOptions env tables group.id := foundOptions_perm.mem_iff.2 hoption
    have hvalues := foundValues_perm hfound
    rw [List.mem_cons, List.mem_map, eq_comm (a := id)]
    refine or_congr Iff.rfl (exists_congr fun value => ?_)
    exact and_congr (hvalues.mem_iff.trans find_perm.mem_iff.symm) Iff.rfl

theorem remapCondition_eq (hrecords : Records env idMap {id | id ∈ ids}) (condition : Json) :
    remapCondition idMap condition =
      if namesOne ids condition then some (renamedCondition env.newId condition) else none := by
  by_cases hnames : namesOne ids condition = true
  · obtain ⟨fields, optionId, rfl, hlookup, hmem⟩ := namesOne_iff.1 hnames
    rw [if_pos hnames, renamedCondition_of_lookup hlookup]
    simp only [remapCondition, hlookup, hrecords.get? hmem, Option.map_some]
  · rw [if_neg hnames]
    cases condition with
    | obj fields =>
      unfold remapCondition
      cases hlookup : fields.lookup "optionId" with
      | none => simp only [hlookup]
      | some value =>
        cases value with
        | str optionId =>
          have hmem : optionId ∉ ids := fun hmem =>
            hnames (namesOne_iff.2 ⟨fields, optionId, rfl, hlookup, hmem⟩)
          simp only [hlookup, hrecords.get?_eq_none hmem, Option.map_none]
        | _ => simp only [hlookup]
    | _ => rfl

theorem mapM_eq_ite {α β : Type} {f : α → Option β} {p : α → Bool} {g : α → β}
    (h : ∀ a, f a = if p a then some (g a) else none) (l : List α) :
    l.mapM f = if l.all p then some (l.map g) else none := by
  induction l with
  | nil => rfl
  | cons a l ih =>
    rw [List.mapM_cons, ih, h a, List.all_cons, List.map_cons]
    cases hp : p a with
    | false => rfl
    | true =>
      cases hl : l.all p with
      | false => rfl
      | true => rfl

theorem remapConditions_eq (hrecords : Records env idMap {id | id ∈ ids}) (conditions : Json) :
    remapConditions conditions idMap =
      if (match conditions with | .arr conditions => conditions.all (namesOne ids) | _ => false)
      then some (renamedConditions env.newId conditions) else none := by
  cases conditions with
  | arr conditions =>
    show (conditions.mapM (remapCondition idMap)).map Json.arr = _
    rw [mapM_eq_ite (remapCondition_eq hrecords)]
    dsimp only
    split_ifs <;> rfl
  | _ => rfl

/-- **The copy of a rule.** -/
theorem ruleCopied_copyRule {tree : OptionSetTree} {setId : String}
    (hrecords : Records env idMap {id | id ∈ tree.ids}) (rule : Row RuleColumns) :
    RuleCopied env.newId tree setId rule (copyRule env setId idMap rule) := by
  have hintact : ((idMap.get? rule.columns.targetId).isSome &&
      (remapConditions rule.columns.conditions idMap).isSome) = intact tree.ids rule := by
    unfold intact
    rw [remapConditions_eq hrecords]
    congr 1
    · by_cases hmem : rule.columns.targetId ∈ tree.ids
      · rw [hrecords.get? hmem]
        simp [hmem]
      · rw [hrecords.get?_eq_none hmem]
        simp [hmem]
    · split_ifs with h
      · exact h.symm
      · exact (Bool.eq_false_iff.2 h).symm
  refine ⟨rfl, fun h => ?_, fun h => ?_⟩
  · have hparts := h
    unfold intact at hparts
    obtain ⟨htarget, hconditions⟩ := Bool.and_eq_true_iff.1 hparts
    have hget := hrecords.get? (of_decide_eq_true htarget)
    have hremap := (remapConditions_eq hrecords rule.columns.conditions).trans (if_pos hconditions)
    unfold copyRule
    dsimp only
    rw [hintact, h, if_pos rfl, if_pos rfl, hget, hremap]
    rfl
  · unfold copyRule
    dsimp only
    rw [hintact, h]
    exact ⟨rfl, rfl⟩

theorem eq_map_of_forall₂ {α β : Type} {R : α → β → Prop} {f : α → β} {l : List α} {m : List β}
    (h : List.Forall₂ R l m) (hR : ∀ a ∈ l, ∀ b ∈ m, R a b → b = f a) : m = l.map f := by
  induction h with
  | nil => rfl
  | @cons a b l m hab _ ih =>
    rw [List.map_cons, hR a List.mem_cons_self b List.mem_cons_self hab, ← ih]
    exact fun c hc d hd => hR c (List.mem_cons_of_mem a hc) d (List.mem_cons_of_mem b hd)

/-- **The rules of the copy.** -/
theorem rules_after {after : Tables} (hfresh : env.Fresh tables)
    (hdup : Duplicated env tables source idMap after) (hkeyed : tables.Keyed)
    (hrecords : Records env idMap {id | id ∈ (load tables source).ids}) :
    List.Forall₂ (RuleCopied env.newId (load tables source) (env.newId source.id))
        (find tables.rules [source.id]) (find after.rules [env.newId source.id]) ↔
      InOrder env (childrenOf tables.rules [source.id]) := by
  have hrows := childrenOf_rules_after hfresh hdup
  rw [← find_copies_iff (copyRule env (env.newId source.id) idMap) hfresh.injective hkeyed.rules
    (fun _ => rfl) (fun _ => rfl)
    findBySortOrder_perm hrows]
  constructor
  · refine fun h => eq_map_of_forall₂ h fun rule hrule copy hcopy hcopied => ?_
    have hmem := find_perm.mem_iff.1 hcopy
    rw [hrows] at hmem
    obtain ⟨given, hgiven, rfl⟩ := List.mem_map.1 hmem
    have hid : given.id = rule.id := hfresh.injective hcopied.id
    have hsame : given = rule := (hkeyed.rules.childrenOf [source.id]).eq
      (findBySortOrder_perm.mem_iff.1 hgiven) (find_perm.mem_iff.1 hrule) hid
    rw [hsame]
  · intro h
    rw [h, List.forall₂_map_right_iff, List.forall₂_same]
    exact fun rule _ => ruleCopied_copyRule hrecords rule

end Rules

/-! ## A duplicate -/

section Duplicate

variable {env : Environment} {tables : Tables} {source : OptionSet}

theorem old_of_mem_owned (hfresh : env.Fresh tables) (hkeyed : tables.Keyed)
    (hsource : source ∈ tables.sets) {id : String} (hid : id ∈ (load tables source).owned) :
    Old env id := by
  unfold OptionSetTree.owned at hid
  rw [List.mem_append, List.mem_append, List.mem_cons] at hid
  rw [hkeyed.load_eq] at hid
  obtain ((rfl | hid) | hid) | hid := hid
  · exact hfresh.sets source hsource
  · obtain ⟨node, hnode, hid⟩ := List.mem_flatMap.1 hid
    obtain ⟨group, hgroup, rfl⟩ := List.mem_map.1 hnode
    obtain rfl | hid := List.mem_cons.1 hid
    · exact (hfresh.groups group (mem_find.1 hgroup).1).1
    · obtain ⟨child, hchild, hid⟩ := List.mem_flatMap.1 hid
      obtain ⟨option, hoption, rfl⟩ := List.mem_map.1 hchild
      obtain rfl | hid := List.mem_cons.1 hid
      · exact (hfresh.options option (mem_find.1 hoption).1).1
      · obtain ⟨value, hvalue, rfl⟩ := List.mem_map.1 hid
        exact (hfresh.values value (mem_find.1 hvalue).1).1
  · obtain ⟨node, hnode, hid⟩ := List.mem_flatMap.1 hid
    obtain ⟨group, -, rfl⟩ := List.mem_map.1 hnode
    obtain ⟨item, hitem, rfl⟩ := List.mem_map.1 hid
    exact (hfresh.items item (mem_find.1 hitem).1).1
  · obtain ⟨rule, hrule, rfl⟩ := List.mem_map.1 hid
    exact (hfresh.rules rule (mem_find.1 hrule).1).1

/-- **A duplicate is the same set exactly where** no group has items and no
options, and copies stand in the order of what they are copies of. -/
theorem sameSet_iff_duplicable (hfresh : env.Fresh tables) (hkeyed : tables.Keyed)
    (hsource : source ∈ tables.sets) (name : Option String) :
    SameSet env.newId (load tables source)
        (load (duplicate env name source tables) (createdSet env name source)) ↔
      Duplicable env tables source := by
  obtain ⟨idMap, hrecords, hdup⟩ : ∃ idMap, Records env idMap (copiedIds env tables source) ∧
      Duplicated env tables source idMap (duplicate env name source tables) :=
    exists_duplicated hfresh name
  rw [copiedIds_eq hkeyed] at hrecords
  have hgroups := groups_after hfresh hdup hkeyed
  have hrules := rules_after hfresh hdup hkeyed hrecords
  constructor
  · intro h
    have hgroupRows := h.groups
    have hruleRows := h.rules
    rw [load_after hfresh hdup hkeyed name] at hgroupRows hruleRows
    rw [hkeyed.load_eq source] at hgroupRows
    obtain ⟨hgroupOrder, hinside⟩ := hgroups.1 hgroupRows
    have hruleList : (load tables source).rules = find tables.rules [source.id] := rfl
    rw [hruleList] at hruleRows
    exact
      { groups := hgroupOrder
        rules := hrules.1 hruleRows
        options := fun group hgroup => (hinside group hgroup).2.1
        items := fun group hgroup => (hinside group hgroup).1.1
        values := fun group hgroup => (hinside group hgroup).2.2
        hasOptions := fun group hgroup => (hinside group hgroup).1.2 }
  · intro h
    refine sameSet_of_rows hfresh.injective
      (fun id hid => old_of_mem_owned hfresh hkeyed hsource hid) ?_ ?_
    · rw [load_after hfresh hdup hkeyed name, hkeyed.load_eq source]
      exact hgroups.2 ⟨h.groups, fun group hgroup =>
        ⟨⟨h.items group hgroup, h.hasOptions group hgroup⟩, h.options group hgroup,
          h.values group hgroup⟩⟩
    · rw [load_after hfresh hdup hkeyed name]
      exact hrules.2 h.rules

/-! ## Two sets -/

/-- New ids that begin with a word of their own. -/
def copyIds : Environment where
  rank _ := 0
  newId id := "copy-" ++ id

theorem copyIds_injective : Function.Injective copyIds.newId := fun _ _ h =>
  (String.append_right_inj "copy-").1 h

def printGroup : Row GroupColumns := ⟨"print", "shirt", 0, ⟨"Print", none, "list", false, true⟩⟩

def choice (id : String) (sortOrder : ℤ) : Row OptionColumns :=
  ⟨id, "print", sortOrder, ⟨id, "choice", "one", "radio", id, none, none, none, false, true, none,
    none, none, none, none⟩⟩

def heading : Row ItemColumns := ⟨"heading", "print", 0, ⟨"heading", "Your print", none⟩⟩

/-- A rule that shows one option by the other. -/
def showRule : Row RuleColumns :=
  ⟨"show", "shirt", 0, ⟨"option", "text", "show",
    .arr [.obj [("optionId", .str "side"), ("operator", .str "is_set")]], "all", none, true, none⟩⟩

/-- The tables of a set with a heading, two choices that stand alike, and a rule. -/
def shirts : Tables where
  sets := [⟨"shirt", "Shirt", 3⟩]
  groups := [printGroup]
  options := [choice "side" 0, choice "text" 0]
  values := []
  items := [heading]
  rules := [showRule]

/-- The tables of a set with nothing but a heading. -/
def headings : Tables := { shirts with options := [], rules := [] }

instance {C : Type} (rows : List (Row C)) : Decidable (Keyed rows) :=
  inferInstanceAs (Decidable (rows.map (·.id)).Nodup)

instance {C : Type} (env : Environment) (rows : List (Row C)) : Decidable (InOrder env rows) :=
  inferInstanceAs (Decidable (∀ a ∈ rows, ∀ b ∈ rows, a.sortOrder = b.sortOrder → a.id ≤ b.id →
    env.newId a.id ≤ env.newId b.id))

theorem old_of_take {id : String} (h : id.toList.take 5 ≠ "copy-".toList) : Old copyIds id := by
  rintro other rfl
  refine h ?_
  show ("copy-" ++ other).toList.take 5 = _
  rw [String.toList_append]
  rfl

theorem fresh_shirts : copyIds.Fresh shirts where
  injective := copyIds_injective
  sets := by
    intro set hset
    obtain rfl := List.mem_singleton.1 hset
    exact old_of_take (by decide)
  groups := by
    intro row hrow
    obtain rfl := List.mem_singleton.1 hrow
    exact ⟨old_of_take (by decide), old_of_take (by decide)⟩
  options := by
    intro row hrow
    obtain rfl | hrow := List.mem_cons.1 hrow
    · exact ⟨old_of_take (by decide), old_of_take (by decide)⟩
    · obtain rfl := List.mem_singleton.1 hrow
      exact ⟨old_of_take (by decide), old_of_take (by decide)⟩
  values := fun row hrow => absurd hrow List.not_mem_nil
  items := by
    intro row hrow
    obtain rfl := List.mem_singleton.1 hrow
    exact ⟨old_of_take (by decide), old_of_take (by decide)⟩
  rules := by
    intro row hrow
    obtain rfl := List.mem_singleton.1 hrow
    exact ⟨old_of_take (by decide), old_of_take (by decide)⟩

/-- The set with a heading, choices and a rule is duplicated as it is. -/
theorem shirt_is_duplicated : SameSet copyIds.newId (load shirts ⟨"shirt", "Shirt", 3⟩)
    (load (duplicate copyIds none ⟨"shirt", "Shirt", 3⟩ shirts)
      (createdSet copyIds none ⟨"shirt", "Shirt", 3⟩)) := by
  have hkeyed : shirts.Keyed :=
    { groups := by decide, options := by decide, values := by decide, items := by decide
      rules := by decide }
  refine (sameSet_iff_duplicable fresh_shirts hkeyed (List.mem_singleton.2 rfl) none).2 ?_
  exact
    { groups := by decide +kernel
      rules := by decide +kernel
      options := by decide +kernel
      items := by decide +kernel
      values := by decide +kernel
      hasOptions := by decide +kernel }

theorem SameSet.items_length {rename : String → String} {source copy : OptionSetTree}
    (h : SameSet rename source copy) :
    copy.groups.map (fun node => node.items.length) =
      source.groups.map fun node => node.items.length := by
  rw [h.groups, List.map_map]
  exact List.map_congr_left fun node _ => List.length_map _

/-- The heading of a group without options is not copied, whatever the ids. -/
theorem heading_is_lost : ¬ ∃ rename, SameSet rename (load headings ⟨"shirt", "Shirt", 3⟩)
    (load (duplicate copyIds none ⟨"shirt", "Shirt", 3⟩ headings)
      (createdSet copyIds none ⟨"shirt", "Shirt", 3⟩)) := by
  rintro ⟨rename, h⟩
  have hsource : (load headings ⟨"shirt", "Shirt", 3⟩).groups.map (fun node => node.items.length) =
      [1] := by decide +kernel
  have hcopy : (load (duplicate copyIds none ⟨"shirt", "Shirt", 3⟩ headings)
      (createdSet copyIds none ⟨"shirt", "Shirt", 3⟩)).groups.map (fun node => node.items.length) =
      [0] := by decide +kernel
  have hlength := h.items_length
  rw [hsource, hcopy] at hlength
  exact absurd hlength (by decide)

end Duplicate

end Optionia.Sets
