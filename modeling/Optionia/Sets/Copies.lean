import Optionia.Sets.Duplication
import Mathlib.Data.Set.Function
/-!
# What a duplicate writes

Of every table, a duplicate leaves what was there and adds the copies of what
it read (`duplicate_tables`), and of the ids it keeps those of the rows it
copied (`Records`). A load of the copy finds the copies and nothing else.
-/

namespace Optionia.Sets

open Wire

/-! ## Children -/

section Children

variable {C : Type} {rows more : List (Row C)} {ids : List String} {id : String} {row : Row C}

theorem mem_childrenOf : row ∈ childrenOf rows ids ↔ row ∈ rows ∧ row.parentId ∈ ids := by
  simp [childrenOf]

theorem childrenOf_append : childrenOf (rows ++ more) ids = childrenOf rows ids ++ childrenOf more ids :=
  List.filter_append _ _

theorem childrenOf_eq_nil (h : ∀ row ∈ rows, row.parentId ∉ ids) : childrenOf rows ids = [] := by
  rw [childrenOf, List.filter_eq_nil_iff]
  simpa using h

theorem childrenOf_eq_self (h : ∀ row ∈ rows, row.parentId ∈ ids) : childrenOf rows ids = rows := by
  rw [childrenOf, List.filter_eq_self]
  simpa using h

theorem bucket_childrenOf (h : id ∈ ids) : bucket (childrenOf rows ids) id = childrenOf rows [id] := by
  unfold bucket childrenOf
  rw [List.filter_filter]
  refine List.filter_congr fun row _ => ?_
  by_cases hrow : row.parentId = id
  · simp [hrow, h]
  · simp [hrow]

theorem childrenOf_nil : childrenOf rows [] = [] := childrenOf_eq_nil fun _ _ => List.not_mem_nil

theorem childrenOf_cons_perm (h : id ∉ ids) :
    (childrenOf rows (id :: ids)).Perm (childrenOf rows [id] ++ childrenOf rows ids) := by
  refine (List.filter_append_perm (fun row => row.parentId = id) _).symm.trans ?_
  refine List.Perm.append (.of_eq ?_) (.of_eq ?_)
  · unfold childrenOf
    rw [List.filter_filter]
    refine List.filter_congr fun row _ => ?_
    by_cases hrow : row.parentId = id <;> simp [hrow]
  · unfold childrenOf
    rw [List.filter_filter]
    refine List.filter_congr fun row _ => ?_
    by_cases hrow : row.parentId = id
    · simp [hrow, h]
    · simp [hrow]

/-- **The children of some parents, parent by parent.** -/
theorem flatMap_children_perm {α : Type} {parents : List α} {key : α → String}
    {f : α → List (Row C)} (hkeys : (parents.map key).Nodup)
    (hf : ∀ a ∈ parents, (f a).Perm (childrenOf rows [key a])) :
    (parents.flatMap f).Perm (childrenOf rows (parents.map key)) := by
  induction parents with
  | nil => rw [List.map_nil, childrenOf_nil, List.flatMap_nil]
  | cons a parents ih =>
    rw [List.map_cons, List.nodup_cons] at hkeys
    rw [List.flatMap_cons, List.map_cons]
    refine List.Perm.trans ?_ (childrenOf_cons_perm hkeys.1).symm
    exact (hf a List.mem_cons_self).append
      (ih hkeys.2 fun b hb => hf b (List.mem_cons_of_mem a hb))

theorem childrenOf_flatMap {α : Type} {parents : List α} {key : α → String} {f : α → List (Row C)}
    (hkeys : (parents.map key).Nodup) (hf : ∀ a ∈ parents, ∀ row ∈ f a, row.parentId = key a)
    {a : α} (ha : a ∈ parents) : childrenOf (parents.flatMap f) [key a] = f a := by
  induction parents with
  | nil => simp at ha
  | cons b parents ih =>
    rw [List.map_cons, List.nodup_cons] at hkeys
    have hrest : ∀ c ∈ parents, ∀ row ∈ f c, row.parentId = key c :=
      fun c hc => hf c (List.mem_cons_of_mem b hc)
    rw [List.flatMap_cons, childrenOf_append]
    obtain rfl | ha := List.mem_cons.1 ha
    · rw [childrenOf_eq_self fun row hrow => by rw [hf a List.mem_cons_self row hrow]; simp,
        childrenOf_eq_nil, List.append_nil]
      intro row hrow hmem
      obtain ⟨c, hc, hrow⟩ := List.mem_flatMap.1 hrow
      rw [hrest c hc row hrow, List.mem_singleton] at hmem
      exact hkeys.1 (hmem ▸ List.mem_map_of_mem hc)
    · rw [ih hkeys.2 hrest ha, childrenOf_eq_nil, List.nil_append]
      intro row hrow hmem
      rw [hf b List.mem_cons_self row hrow, List.mem_singleton] at hmem
      exact hkeys.1 (hmem ▸ List.mem_map_of_mem ha)

theorem Keyed.perm (h : Keyed rows) (hperm : more.Perm rows) : Keyed more :=
  (hperm.map _).nodup_iff.2 h

theorem Keyed.childrenOf (h : Keyed rows) (ids : List String) : Keyed (childrenOf rows ids) :=
  h.filter _

/-! ## Queries -/

theorem mem_find : row ∈ find rows ids ↔ row ∈ rows ∧ row.parentId ∈ ids := by
  rw [find, List.mem_mergeSort, mem_childrenOf]

theorem find_perm : (find rows ids).Perm (childrenOf rows ids) := List.mergeSort_perm _ _

theorem bucket_find (h : Keyed (childrenOf rows ids)) (hid : id ∈ ids) :
    bucket (find rows ids) id = find rows [id] := by
  have hpick : (childrenOf rows ids).filter (fun row => row.parentId ∈ [id]) =
      childrenOf rows [id] := bucket_childrenOf hid
  show ((childrenOf rows ids).mergeSort childOrder).filter (fun row => row.parentId ∈ [id]) = _
  rw [Sorting.filter_mergeSort compares_childOrder
    fun a ha b hb hab hba => h.eq ha hb (id_eq_of_childOrder hab hba), hpick]
  rfl

/-- Rows that copies of them may stand in for. -/
def InOrder (env : Environment) (rows : List (Row C)) : Prop :=
  ∀ a ∈ rows, ∀ b ∈ rows, a.sortOrder = b.sortOrder → a.id ≤ b.id →
    env.newId a.id ≤ env.newId b.id

/-- **The copies of some rows are found in the order of the rows** exactly where
the ids of equals compare as theirs. -/
theorem find_copies_iff {env : Environment} (copy : Row C → Row C) {toId : String}
    {found : List (Row C)} {copies : List (Row C)} (hinj : Function.Injective env.newId)
    (hkeyed : Keyed rows) (hid : ∀ row, (copy row).id = env.newId row.id)
    (hsort : ∀ row, (copy row).sortOrder = row.sortOrder)
    (hfound : found.Perm (childrenOf rows [id]))
    (hcopies : childrenOf copies [toId] = found.map copy) :
    find copies [toId] = (find rows [id]).map copy ↔ InOrder env (childrenOf rows [id]) := by
  unfold Sets.find
  rw [hcopies, Sorting.mergeSort_map_eq_iff compares_childOrder compares_childOrder ?_ ?_ hfound]
  · refine forall₂_congr fun a _ => forall₂_congr fun b _ => ?_
    rw [childOrder_iff, childOrder_iff, hsort, hsort, hid, hid]
    constructor
    · intro h heq hle
      obtain hlt | ⟨-, hle⟩ := h (.inr ⟨heq, hle⟩)
      · exact absurd heq hlt.ne
      · exact hle
    · rintro h (hlt | ⟨heq, hle⟩)
      · exact .inl hlt
      · exact .inr ⟨heq, h heq hle⟩
  · exact fun a ha b hb hab hba => (hkeyed.childrenOf _).eq ha hb (id_eq_of_childOrder hab hba)
  · intro a ha b hb hab hba
    have hids := id_eq_of_childOrder hab hba
    rw [hid, hid] at hids
    rw [(hkeyed.childrenOf _).eq ha hb (hinj hids)]

end Children

/-! ## Loading -/

/-- Rows have ids of their own, in every table. -/
structure Tables.Keyed (tables : Tables) : Prop where
  groups : Sets.Keyed tables.groups
  options : Sets.Keyed tables.options
  values : Sets.Keyed tables.values
  items : Sets.Keyed tables.items
  rules : Sets.Keyed tables.rules

/-- What is loaded of an option. -/
def optionNode (tables : Tables) (option : Row OptionColumns) : OptionNode where
  option := option
  values := find tables.values [option.id]

/-- What is loaded of a group. -/
def groupNode (tables : Tables) (group : Row GroupColumns) : GroupNode where
  group := group
  items := find tables.items [group.id]
  options := (find tables.options [group.id]).map (optionNode tables)

/-- **A load, parent by parent**, where what is loaded has ids of its own. -/
theorem load_eq {tables : Tables} {set : OptionSet}
    (hoptions : Keyed (childrenOf tables.options ((find tables.groups [set.id]).map (·.id))))
    (hitems : Keyed (childrenOf tables.items ((find tables.groups [set.id]).map (·.id))))
    (hvalues : Keyed (childrenOf tables.values
      ((find tables.options ((find tables.groups [set.id]).map (·.id))).map (·.id)))) :
    load tables set =
      { set
        rules := find tables.rules [set.id]
        groups := (find tables.groups [set.id]).map (groupNode tables) } := by
  unfold load
  dsimp only
  refine congrArg (fun groups => OptionSetTree.mk set _ groups) ?_
  refine List.map_congr_left fun group hgroup => ?_
  have hgroupId := List.mem_map_of_mem (f := (·.id)) hgroup
  unfold groupNode
  rw [bucket_find hitems hgroupId, bucket_find hoptions hgroupId]
  refine congrArg (fun options => GroupNode.mk group _ options) ?_
  refine List.map_congr_left fun option hoption => ?_
  have hmem : option ∈ find tables.options ((find tables.groups [set.id]).map (·.id)) := by
    obtain ⟨hrow, hparent⟩ := mem_find.1 hoption
    rw [List.mem_singleton] at hparent
    exact mem_find.2 ⟨hrow, hparent ▸ hgroupId⟩
  rw [bucket_find hvalues (List.mem_map_of_mem (f := (·.id)) hmem)]
  rfl

theorem Tables.Keyed.load_eq {tables : Tables} (h : tables.Keyed) (set : OptionSet) :
    load tables set =
      { set
        rules := find tables.rules [set.id]
        groups := (find tables.groups [set.id]).map (groupNode tables) } :=
  Sets.load_eq (h.options.childrenOf _) (h.items.childrenOf _) (h.values.childrenOf _)

/-! ## The ids that are kept -/

/-- The map keeps some ids, each with that of its copy. -/
def Records (env : Environment) (idMap : IdMap) (ids : Set String) : Prop :=
  ∀ id to', idMap.get? id = some to' ↔ id ∈ ids ∧ to' = env.newId id

section Records

variable {env : Environment} {idMap copied : IdMap} {ids ids' : Set String} {id : String}

theorem records_empty : Records env ∅ ∅ := fun id to' => by
  rw [OrderedMap.get?_empty]
  exact iff_of_false (by simp) fun h => h.1

theorem Records.get? (h : Records env idMap ids) (hid : id ∈ ids) :
    idMap.get? id = some (env.newId id) := (h id _).2 ⟨hid, rfl⟩

theorem Records.get?_eq_none (h : Records env idMap ids) (hid : id ∉ ids) :
    idMap.get? id = none := by
  cases hget : idMap.get? id with
  | none => rfl
  | some to' => exact absurd ((h id to').1 hget).1 hid

theorem Records.set (h : Records env idMap ids) (id : String) :
    Records env (idMap.set id (env.newId id)) (insert id ids) := by
  intro other to'
  rw [OrderedMap.get?_set_eq_some, h other to', Set.mem_insert_iff]
  constructor
  · rintro (⟨rfl, rfl⟩ | ⟨hne, hmem, rfl⟩)
    · exact ⟨.inl rfl, rfl⟩
    · exact ⟨.inr hmem, rfl⟩
  · rintro ⟨hmem, rfl⟩
    by_cases heq : other = id
    · exact .inl ⟨heq, heq ▸ rfl⟩
    · exact .inr ⟨heq, hmem.resolve_left heq, rfl⟩

theorem Records.record {C : Type} (h : Records env idMap ids) (rows : List (Row C)) :
    Records env (record env idMap rows) (ids ∪ {id | ∃ row ∈ rows, row.id = id}) := by
  induction rows generalizing idMap ids with
  | nil =>
    refine (congrArg (Records env idMap) ?_).mp h
    simp
  | cons row rows ih =>
    refine (congrArg (Records env _) ?_).mp (ih (h.set row.id))
    ext id
    simp only [Set.mem_union, Set.mem_insert_iff, Set.mem_ofPred_eq, List.mem_cons,
      exists_eq_or_imp]
    rw [eq_comm (a := id)]
    tauto

theorem Records.merge (h : Records env idMap ids) (hcopied : Records env copied ids') :
    Records env (merge idMap copied) (ids ∪ ids') := by
  have hfold : ∀ (entries : List (String × String)) (idMap : IdMap) (ids : Set String),
      (∀ entry ∈ entries, entry.2 = env.newId entry.1) → Records env idMap ids →
        Records env (entries.foldl (fun idMap entry => idMap.set entry.1 entry.2) idMap)
          (ids ∪ {id | ∃ entry ∈ entries, entry.1 = id}) := by
    intro entries
    induction entries with
    | nil =>
      intro idMap ids _ h
      refine (congrArg (Records env idMap) ?_).mp h
      simp
    | cons entry entries ih =>
      intro idMap ids hentries h
      rw [List.foldl_cons, hentries entry List.mem_cons_self]
      refine (congrArg (Records env _) ?_).mp
        (ih _ _ (fun e he => hentries e (List.mem_cons_of_mem _ he)) (h.set entry.1))
      ext id
      simp only [Set.mem_union, Set.mem_insert_iff, Set.mem_ofPred_eq, List.mem_cons,
        exists_eq_or_imp]
      rw [eq_comm (a := id)]
      tauto
  have hentries : ∀ entry ∈ copied.entries, entry.2 = env.newId entry.1 := fun entry hentry =>
    ((hcopied entry.1 entry.2).1 (OrderedMap.get?_eq_some.2 hentry)).2
  have hids : {id | ∃ entry ∈ copied.entries, entry.1 = id} = ids' := by
    ext id
    constructor
    · rintro ⟨entry, hentry, rfl⟩
      exact ((hcopied entry.1 entry.2).1 (OrderedMap.get?_eq_some.2 hentry)).1
    · intro hid
      exact ⟨(id, env.newId id), OrderedMap.get?_eq_some.1 (hcopied.get? hid), rfl⟩
  rw [← hids]
  exact hfold copied.entries idMap ids hentries h

end Records

/-! ## The rows that are written -/

section Written

variable (env : Environment) (tables : Tables)

/-- What `copyOptionsInto` reads of the options of a group. -/
def foundOptions (groupId : String) : List (Row OptionColumns) :=
  findBySortOrder env tables.options [groupId]

/-- And of the values of an option. -/
def foundValues (option : Row OptionColumns) : List (Row ValueColumns) :=
  bucket (findBySortOrder env tables.values
    ((foundOptions env tables option.parentId).map (·.id))) option.id

/-- And of the items of a group; where the group has no options, it has
returned by then. -/
def foundItems (groupId : String) : List (Row ItemColumns) :=
  if (foundOptions env tables groupId).isEmpty then []
  else findBySortOrder env tables.items [groupId]

/-- The copies of the options of a group. -/
def writtenOptions (groupId : String) : List (Row OptionColumns) :=
  (foundOptions env tables groupId).map (copyOption env (env.newId groupId))

/-- Those of the values of an option. -/
def writtenValues (option : Row OptionColumns) : List (Row ValueColumns) :=
  (foundValues env tables option).map (copyValue env (env.newId option.id))

/-- Those of the items of a group. -/
def writtenItems (groupId : String) : List (Row ItemColumns) :=
  (foundItems env tables groupId).map (copyItem env (env.newId groupId))

/-- The ids of what is copied into a group. -/
def writtenIds (groupId : String) : Set String :=
  {id | ∃ option ∈ foundOptions env tables groupId,
    option.id = id ∨ ∃ value ∈ foundValues env tables option, value.id = id}

variable {env tables}

theorem findBySortOrder_perm {C : Type} {rows : List (Row C)} {ids : List String} :
    (findBySortOrder env rows ids).Perm (childrenOf rows ids) := List.mergeSort_perm _ _

theorem parentId_of_mem_foundOptions {groupId : String} {option : Row OptionColumns}
    (h : option ∈ foundOptions env tables groupId) : option.parentId = groupId := by
  have hmem := mem_childrenOf.1 (findBySortOrder_perm.mem_iff.1 h)
  exact List.mem_singleton.1 hmem.2

/-- **What `copyOptionsInto` writes, and what it returns.** -/
theorem copyOptionsInto_spec (env : Environment) (tables : Tables) (groupId : String) :
    (copyOptionsInto env groupId (env.newId groupId) tables).1 =
        { tables with
          options := tables.options ++ writtenOptions env tables groupId
          values := tables.values ++
            (foundOptions env tables groupId).flatMap (writtenValues env tables)
          items := tables.items ++ writtenItems env tables groupId } ∧
      Records env (copyOptionsInto env groupId (env.newId groupId) tables).2
        (writtenIds env tables groupId) := by
  have hfold : ∀ (values : List (Row ValueColumns)) (options : List (Row OptionColumns))
      (t : Tables) (idMap : IdMap) (ids : Set String), Records env idMap ids →
      (options.foldl (copyOptionInto env (env.newId groupId) values) (t, idMap)).1 =
          { t with
            options := t.options ++ options.map (copyOption env (env.newId groupId))
            values := t.values ++ options.flatMap fun option =>
              (bucket values option.id).map (copyValue env (env.newId option.id)) } ∧
        Records env (options.foldl (copyOptionInto env (env.newId groupId) values) (t, idMap)).2
          (ids ∪ {id | ∃ option ∈ options,
            option.id = id ∨ ∃ value ∈ bucket values option.id, value.id = id}) := by
    intro values options
    induction options with
    | nil =>
      intro t idMap ids h
      refine ⟨by simp, (congrArg (Records env idMap) ?_).mp h⟩
      simp
    | cons option options ih =>
      intro t idMap ids h
      have hstep : Records env (record env (idMap.set option.id (env.newId option.id))
          (bucket values option.id)) _ := (h.set option.id).record (bucket values option.id)
      obtain ⟨htables, hids⟩ := ih { t with
        options := t.options ++ [copyOption env (env.newId groupId) option]
        values := t.values ++ (bucket values option.id).map (copyValue env (env.newId option.id)) }
        _ _ hstep
      rw [List.foldl_cons]
      refine ⟨htables.trans ?_, (congrArg (Records env _) ?_).mp hids⟩
      · simp
      · ext id
        simp only [Set.mem_union, Set.mem_insert_iff, Set.mem_ofPred_eq, List.mem_cons,
          exists_eq_or_imp]
        rw [eq_comm (a := id), or_comm (a := option.id = id)]
        simp only [or_assoc]
  have hvalues : (foundOptions env tables groupId).flatMap (writtenValues env tables) =
      (foundOptions env tables groupId).flatMap fun option =>
        (bucket (findBySortOrder env tables.values
          ((foundOptions env tables groupId).map (·.id))) option.id).map
            (copyValue env (env.newId option.id)) := by
    refine List.flatMap_congr fun option hoption => ?_
    rw [writtenValues, foundValues, parentId_of_mem_foundOptions hoption]
  have hwritten : writtenIds env tables groupId = {id | ∃ option ∈ foundOptions env tables groupId,
      option.id = id ∨ ∃ value ∈ bucket (findBySortOrder env tables.values
        ((foundOptions env tables groupId).map (·.id))) option.id, value.id = id} := by
    ext id
    refine exists_congr fun option => and_congr_right fun hoption => ?_
    rw [foundValues, parentId_of_mem_foundOptions hoption]
  obtain ⟨htables, hids⟩ := hfold (findBySortOrder env tables.values
    ((foundOptions env tables groupId).map (·.id))) (foundOptions env tables groupId) tables ∅ ∅
    records_empty
  rw [Set.empty_union] at hids
  unfold copyOptionsInto
  rw [hvalues, hwritten]
  dsimp only
  by_cases hempty : (foundOptions env tables groupId).isEmpty = true
  · have hnil := List.isEmpty_iff.1 hempty
    have hitems : writtenItems env tables groupId = [] := by
      rw [writtenItems, foundItems, if_pos hempty]
      rfl
    rw [if_pos (show (findBySortOrder env tables.options [groupId]).isEmpty = true from hempty),
      writtenOptions, hitems, hnil]
    refine ⟨by simp, (congrArg (Records env ∅) ?_).mp records_empty⟩
    simp
  · have hitems : writtenItems env tables groupId =
        (findBySortOrder env tables.items [groupId]).map (copyItem env (env.newId groupId)) := by
      rw [writtenItems, foundItems, if_neg hempty]
    rw [if_neg (show ¬ (findBySortOrder env tables.options [groupId]).isEmpty = true from hempty),
      hitems]
    refine ⟨?_, hids⟩
    exact congrArg (fun t : Tables => { t with
      items := t.items ++
        (findBySortOrder env t.items [groupId]).map (copyItem env (env.newId groupId)) }) htables

end Written

/-! ## What a duplicate leaves alone -/

/-- An id that was there before. -/
def Old (env : Environment) (id : String) : Prop := ∀ other, id ≠ env.newId other

/-- **The ids of copies are new**, and no two rows are given one. -/
structure Environment.Fresh (env : Environment) (tables : Tables) : Prop where
  injective : Function.Injective env.newId
  sets : ∀ set ∈ tables.sets, Old env set.id
  groups : ∀ row ∈ tables.groups, Old env row.id ∧ Old env row.parentId
  options : ∀ row ∈ tables.options, Old env row.id ∧ Old env row.parentId
  values : ∀ row ∈ tables.values, Old env row.id ∧ Old env row.parentId
  items : ∀ row ∈ tables.items, Old env row.id ∧ Old env row.parentId
  rules : ∀ row ∈ tables.rules, Old env row.id ∧ Old env row.parentId

/-- Rows that are there, and copies besides. -/
def WithCopies {C : Type} (env : Environment) (rows rows' : List (Row C)) : Prop :=
  ∃ copies, rows' = rows ++ copies ∧ ∀ row ∈ copies, ∃ id, row.parentId = env.newId id

/-- The tables that a copy of groups reads, part of the way through. -/
structure Extends (env : Environment) (tables tables' : Tables) : Prop where
  options : WithCopies env tables.options tables'.options
  values : WithCopies env tables.values tables'.values
  items : WithCopies env tables.items tables'.items

section Extends

variable {env : Environment} {tables tables' : Tables} {groupId : String}

section Rows

variable {C : Type} {rows rows' more : List (Row C)} {ids : List String}

theorem withCopies_refl : WithCopies env rows rows :=
  ⟨[], (List.append_nil rows).symm, fun _ hrow => absurd hrow List.not_mem_nil⟩

theorem WithCopies.append (h : WithCopies env rows rows')
    (hmore : ∀ row ∈ more, ∃ id, row.parentId = env.newId id) :
    WithCopies env rows (rows' ++ more) := by
  obtain ⟨copies, rfl, hcopies⟩ := h
  refine ⟨copies ++ more, List.append_assoc _ _ _, fun row hrow => ?_⟩
  obtain hrow | hrow := List.mem_append.1 hrow
  · exact hcopies row hrow
  · exact hmore row hrow

theorem WithCopies.findBySortOrder_eq (h : WithCopies env rows rows')
    (hids : ∀ id ∈ ids, Old env id) :
    findBySortOrder env rows' ids = findBySortOrder env rows ids := by
  obtain ⟨copies, rfl, hcopies⟩ := h
  have hnone : childrenOf copies ids = [] := childrenOf_eq_nil fun row hrow hmem => by
    obtain ⟨id, hid⟩ := hcopies row hrow
    exact hids _ hmem id hid
  unfold findBySortOrder
  rw [childrenOf_append, hnone, List.append_nil]

end Rows

theorem Extends.foundOptions_eq (h : Extends env tables tables') (hgroup : Old env groupId) :
    foundOptions env tables' groupId = foundOptions env tables groupId :=
  h.options.findBySortOrder_eq fun _ hid => List.mem_singleton.1 hid ▸ hgroup

theorem old_of_mem_foundOptions (hfresh : env.Fresh tables) {option : Row OptionColumns}
    (h : option ∈ foundOptions env tables groupId) : Old env option.id :=
  (hfresh.options option (mem_childrenOf.1 (findBySortOrder_perm.mem_iff.1 h)).1).1

theorem Extends.foundValues_eq (h : Extends env tables tables') (hfresh : env.Fresh tables)
    (hgroup : Old env groupId) {option : Row OptionColumns}
    (hoption : option ∈ foundOptions env tables groupId) :
    foundValues env tables' option = foundValues env tables option := by
  unfold foundValues
  rw [parentId_of_mem_foundOptions hoption, h.foundOptions_eq hgroup,
    h.values.findBySortOrder_eq]
  intro id hid
  obtain ⟨other, hother, rfl⟩ := List.mem_map.1 hid
  exact old_of_mem_foundOptions hfresh hother

/-- **A group is copied alike**, part of the way through. -/
theorem Extends.written_eq (h : Extends env tables tables') (hfresh : env.Fresh tables)
    (hgroup : Old env groupId) :
    writtenOptions env tables' groupId = writtenOptions env tables groupId ∧
      (foundOptions env tables' groupId).flatMap (writtenValues env tables') =
          (foundOptions env tables groupId).flatMap (writtenValues env tables) ∧
        writtenItems env tables' groupId = writtenItems env tables groupId ∧
          writtenIds env tables' groupId = writtenIds env tables groupId := by
  have hoptions := h.foundOptions_eq hgroup
  have hitems : findBySortOrder env tables'.items [groupId] =
      findBySortOrder env tables.items [groupId] :=
    h.items.findBySortOrder_eq fun _ hid => List.mem_singleton.1 hid ▸ hgroup
  refine ⟨?_, ?_, ?_, ?_⟩
  · rw [writtenOptions, hoptions, writtenOptions]
  · rw [hoptions]
    refine List.flatMap_congr fun option hoption => ?_
    rw [writtenValues, h.foundValues_eq hfresh hgroup hoption, writtenValues]
  · rw [writtenItems, foundItems, hoptions, hitems, writtenItems, foundItems]
  · ext id
    unfold writtenIds
    rw [hoptions]
    refine exists_congr fun option => and_congr_right fun hoption => ?_
    rw [h.foundValues_eq hfresh hgroup hoption]

theorem Extends.next (h : Extends env tables tables') (groupId : String) :
    Extends env tables { tables' with
      options := tables'.options ++ writtenOptions env tables groupId
      values := tables'.values ++
        (foundOptions env tables groupId).flatMap (writtenValues env tables)
      items := tables'.items ++ writtenItems env tables groupId } where
  options := h.options.append fun row hrow => by
    obtain ⟨option, -, rfl⟩ := List.mem_map.1 hrow
    exact ⟨groupId, rfl⟩
  values := h.values.append fun row hrow => by
    obtain ⟨option, -, hrow⟩ := List.mem_flatMap.1 hrow
    obtain ⟨value, -, rfl⟩ := List.mem_map.1 hrow
    exact ⟨option.id, rfl⟩
  items := h.items.append fun row hrow => by
    obtain ⟨item, -, rfl⟩ := List.mem_map.1 hrow
    exact ⟨groupId, rfl⟩

/-- **What is written of groups**, one after another. -/
theorem copyGroups_spec (hfresh : env.Fresh tables) (toSetId : String)
    (groups : List (Row GroupColumns)) (hgroups : ∀ group ∈ groups, Old env group.id)
    {idMap : IdMap} {ids : Set String} (hext : Extends env tables tables')
    (hids : Records env idMap ids) :
    (groups.foldl (copyGroupInto env toSetId) (tables', idMap)).1 =
        { tables' with
          groups := tables'.groups ++ groups.map (copyGroup env toSetId)
          options := tables'.options ++
            groups.flatMap fun group => writtenOptions env tables group.id
          values := tables'.values ++ groups.flatMap fun group =>
            (foundOptions env tables group.id).flatMap (writtenValues env tables)
          items := tables'.items ++ groups.flatMap fun group => writtenItems env tables group.id } ∧
      Records env (groups.foldl (copyGroupInto env toSetId) (tables', idMap)).2
        (ids ∪ {id | ∃ group ∈ groups, group.id = id ∨ id ∈ writtenIds env tables group.id}) := by
  induction groups generalizing tables' idMap ids with
  | nil =>
    refine ⟨by simp, (congrArg (Records env idMap) ?_).mp hids⟩
    simp
  | cons group groups ih =>
    have hold := hgroups group List.mem_cons_self
    have hwith : Extends env tables
        { tables' with groups := tables'.groups ++ [copyGroup env toSetId group] } :=
      ⟨hext.options, hext.values, hext.items⟩
    obtain ⟨hoptions, hvalues, hitems, hwritten⟩ := hwith.written_eq hfresh hold
    obtain ⟨htables, hcopied⟩ := copyOptionsInto_spec env
      { tables' with groups := tables'.groups ++ [copyGroup env toSetId group] } group.id
    rw [hoptions, hvalues, hitems] at htables
    rw [hwritten] at hcopied
    have hstep : copyGroupInto env toSetId (tables', idMap) group =
        ((copyOptionsInto env group.id (env.newId group.id)
            { tables' with groups := tables'.groups ++ [copyGroup env toSetId group] }).1,
          merge (idMap.set group.id (env.newId group.id))
            (copyOptionsInto env group.id (env.newId group.id)
              { tables' with groups := tables'.groups ++ [copyGroup env toSetId group] }).2) := rfl
    rw [List.foldl_cons, hstep, htables]
    obtain ⟨hrest, hrestIds⟩ := ih (fun other hother => hgroups other (List.mem_cons_of_mem _ hother))
      (hwith.next group.id) ((hids.set group.id).merge hcopied)
    refine ⟨hrest.trans ?_, (congrArg (Records env _) ?_).mp hrestIds⟩
    · simp
    · ext id
      simp only [Set.mem_union, Set.mem_insert_iff, Set.mem_ofPred_eq, List.mem_cons,
        exists_eq_or_imp]
      rw [eq_comm (a := id), or_comm (a := group.id = id)]
      simp only [or_assoc]

/-- The ids of what is copied of a set. -/
def copiedIds (env : Environment) (tables : Tables) (source : OptionSet) : Set String :=
  {id | ∃ group ∈ findBySortOrder env tables.groups [source.id],
    group.id = id ∨ id ∈ writtenIds env tables group.id}

/-- **What a duplicate writes.** -/
theorem duplicate_spec (hfresh : env.Fresh tables) (name : Option String) (source : OptionSet) :
    ∃ idMap, Records env idMap (copiedIds env tables source) ∧
      duplicate env name source tables =
        { sets := tables.sets ++ [createdSet env name source]
          groups := tables.groups ++
            (findBySortOrder env tables.groups [source.id]).map (copyGroup env (env.newId source.id))
          options := tables.options ++ (findBySortOrder env tables.groups [source.id]).flatMap
            fun group => writtenOptions env tables group.id
          values := tables.values ++ (findBySortOrder env tables.groups [source.id]).flatMap
            fun group => (foundOptions env tables group.id).flatMap (writtenValues env tables)
          items := tables.items ++ (findBySortOrder env tables.groups [source.id]).flatMap
            fun group => writtenItems env tables group.id
          rules := tables.rules ++ (findBySortOrder env tables.rules [source.id]).map
            (copyRule env (env.newId source.id) idMap) } := by
  have hgroups : ∀ group ∈ findBySortOrder env tables.groups [source.id], Old env group.id :=
    fun group hgroup =>
      (hfresh.groups group (mem_childrenOf.1 (findBySortOrder_perm.mem_iff.1 hgroup)).1).1
  have hext : Extends env tables
      { tables with sets := tables.sets ++ [createdSet env name source] } :=
    ⟨withCopies_refl, withCopies_refl, withCopies_refl⟩
  obtain ⟨htables, hids⟩ := copyGroups_spec hfresh (env.newId source.id) _ hgroups hext records_empty
  rw [Set.empty_union] at hids
  refine ⟨_, hids, ?_⟩
  exact congrArg (copyRulesInto env source.id (env.newId source.id) _) htables

end Extends

end Optionia.Sets
