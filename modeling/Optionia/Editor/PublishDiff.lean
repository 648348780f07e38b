import Optionia.Lib.Keyset
import Optionia.Lib.Sorting
import Optionia.Js.JsonText
/-!
# What changed since the last publish

`publish-diff.ts`: the document that would publish and the one that is
published, compared group by group and option by option under their ids. A
group is compared by its label and its options, and an option whole, with the
keys of its objects in order. Nothing else of a document is looked at: what the
list leaves out, and exactly when, is `reports_iff`.
-/

namespace Optionia.Editor.PublishDiff

open Js JsonText

/-! ## The canonical text -/

/-- The order `sort` puts strings in: by their UTF-16 units. -/
def keyOrder : Collation (List UInt16) := (Collation.number fun u => (u.toNat : ℤ)).words

/-- One key comes no later than another. -/
def keyLe (k l : String) : Bool := keyOrder.le (Php.utf16.write k.toList) (Php.utf16.write l.toList)

/-- The members of an object under their keys in order. -/
def inKeyOrder {α : Type} (members : List (String × α)) : List (String × α) :=
  members.insertionSort fun p q => keyLe p.1 q.1 = true

mutual

/-- `canonical`. An object has each of its keys once, so that its members in
the order of their keys are what `Object.keys( … ).sort()` visits. -/
def canonical : Value → List Char
  | .arr vs => '[' :: ([','].intercalate (canonicalItems vs) ++ [']'])
  | .obj es =>
    '{' :: ([','].intercalate ((inKeyOrder (canonicalMembers es)).map fun p =>
      jsonString p.1 ++ ':' :: p.2) ++ ['}'])
  | .str s => jsonString s
  | .num x => (jsonNumber x).letters
  | .bool b => (boolWord b).letters
  | .null => nullWord.letters
  | .undefined => nullWord.letters

def canonicalItems : List Value → List (List Char)
  | [] => []
  | v :: vs => canonical v :: canonicalItems vs

def canonicalMembers : List (String × Value) → List (String × List Char)
  | [] => []
  | (k, v) :: es => (k, canonical v) :: canonicalMembers es

end

/-! ## Reading documents -/

/-- `idOf`. The nodes of a document are objects. -/
def idOf (node : Value) : String := node.string "id"

def labelOf (node : Value) : String :=
  match node.field "label" with
  | .str s => s
  | _ => "(unnamed)"

def groupsOf (doc : Value) : List Value := (doc.field "groups").items

def optionsOf (group : Value) : List Value := (group.field "options").items

/-! ## The list of changes -/

def maxListed : ℕ := 12

def byId (nodes : List Value) : OrderedMap String Value :=
  (∅ : OrderedMap String Value).setAll (nodes.map fun node => (idOf node, node))

/-- Two lists of nodes, matched by id: what is said of each node there is now,
beside the one it was, and of each that is gone. The groups of a document and
the options of a group are compared so. -/
def changesById (said : Option Value → Value → List String) (removed : Value → String)
    (nodesBefore nodesAfter : List Value) : List String :=
  let before := byId nodesBefore
  let after := byId nodesAfter
  (after.entries.flatMap fun p => said (before.get? p.1) p.2) ++
    (before.entries.filter fun p => (after.get? p.1).isNone).map fun p => removed p.2

/-- What is said of an option of a group. A rename is all that is said. -/
def optionChange (inGroup : String) : Option Value → Value → List String
  | none, option => ["Option added: " ++ inGroup ++ " → " ++ labelOf option]
  | some optionWas, option =>
    if labelOf optionWas ≠ labelOf option then
      ["Option renamed: " ++ inGroup ++ " → " ++ labelOf optionWas ++ " → " ++ labelOf option]
    else if canonical optionWas ≠ canonical option then
      ["Option changed: " ++ inGroup ++ " → " ++ labelOf option]
    else []

/-- What is said of a group, and of its options. -/
def groupChanges : Option Value → Value → List String
  | none, group => ["Group added: " ++ labelOf group]
  | some was, group =>
    (if labelOf was ≠ labelOf group then
      ["Group renamed: " ++ labelOf was ++ " → " ++ labelOf group] else []) ++
    changesById (optionChange (labelOf group))
      (fun option => "Option removed: " ++ labelOf group ++ " → " ++ labelOf option)
      (optionsOf was) (optionsOf group)

def allChanges (preview published : Value) : List String :=
  changesById groupChanges (fun group => "Group removed: " ++ labelOf group) (groupsOf published)
    (groupsOf preview)

def describeChanges (preview published : Value) : List String :=
  match published with
  | .null | .undefined => []
  | published =>
    let changes := allChanges preview published
    if maxListed < changes.length then
      changes.take maxListed ++
        ["…and " ++ toString (changes.length - maxListed) ++ " more changes."]
    else changes

/-- `hasUnpublishedChanges`, of the documents it fetched. -/
def hasUnpublishedChanges (preview published : Value) : Bool :=
  decide (canonical preview ≠ canonical published)

/-! ## Canonical texts agree -/

theorem keyLe_antisymm {k l : String} (hkl : keyLe k l = true) (hlk : keyLe l k = true) :
    k = l := by
  have hunit : ∀ a b : UInt16, (Collation.number fun u : UInt16 => (u.toNat : ℤ)).le a b = true →
      (Collation.number fun u : UInt16 => (u.toNat : ℤ)).le b a = true → a = b := by
    intro a b hab hba
    have hle : (a.toNat : ℤ) ≤ b.toNat := of_decide_eq_true hab
    have hge : (b.toNat : ℤ) ≤ a.toNat := of_decide_eq_true hba
    exact UInt16.toNat_inj.1 (by omega)
  have hwords := Collation.wordLe_antisymm _ hunit hkl hlk
  exact String.toList_injective (Php.utf16.write_injective hwords)

theorem orders_members {α : Type} {l : List (String × α)} (h : (l.map Prod.fst).Nodup) :
    Sorting.Orders (fun p q : String × α => keyLe p.1 q.1 = true) {p | p ∈ l} where
  total _ _ _ _ := keyOrder.total _ _
  antisymm _ hp _ hq hpq hqp := List.inj_on_of_nodup_map h hp hq (keyLe_antisymm hpq hqp)
  trans _ _ _ _ _ _ := keyOrder.trans _ _ _

/-- **Members sort alike exactly when they are the same members**, in whatever
order. -/
theorem inKeyOrder_eq_iff {α : Type} {l m : List (String × α)} (h : (l.map Prod.fst).Nodup) :
    inKeyOrder l = inKeyOrder m ↔ l.Perm m := by
  refine ⟨fun heq => ?_, Sorting.insertionSort_eq_of_perm (orders_members h) fun _ hp => hp⟩
  have hl : (inKeyOrder l).Perm l := List.perm_insertionSort _ l
  have hm : (inKeyOrder m).Perm m := List.perm_insertionSort _ m
  exact hl.symm.trans (heq ▸ hm)

theorem map_inKeyOrder {α β : Type} (f : α → β) (l : List (String × α)) :
    (inKeyOrder l).map (fun p => (p.1, f p.2)) = inKeyOrder (l.map fun p => (p.1, f p.2)) :=
  List.map_insertionSort _ _ _ l fun _ _ _ _ => Iff.rfl

theorem canonicalItems_eq (vs : List Value) : canonicalItems vs = vs.map canonical := by
  induction vs with
  | nil => rfl
  | cons v vs ih => rw [canonicalItems, ih, List.map_cons]

theorem canonicalMembers_eq (es : List (String × Value)) :
    canonicalMembers es = es.map fun p => (p.1, canonical p.2) := by
  induction es with
  | nil => rfl
  | cons p es ih => rw [canonicalMembers, ih, List.map_cons]

/-! ### The tree that is spelled -/

mutual

/-- The tree whose spelling the canonical text is. -/
def tree : Value → Tree
  | .arr vs => .list (treeItems vs)
  | .obj es => .record ((inKeyOrder (treeMembers es)).map fun p => (p.1.toList, p.2))
  | .str s => .text s.toList
  | .num x => .word (jsonNumber x)
  | .bool b => .word (boolWord b)
  | .null => .word nullWord
  | .undefined => .word nullWord

def treeItems : List Value → List Tree
  | [] => []
  | v :: vs => tree v :: treeItems vs

def treeMembers : List (String × Value) → List (String × Tree)
  | [] => []
  | (k, v) :: es => (k, tree v) :: treeMembers es

end

theorem treeItems_eq (vs : List Value) : treeItems vs = vs.map tree := by
  induction vs with
  | nil => rfl
  | cons v vs ih => rw [treeItems, ih, List.map_cons]

mutual

/-- **The canonical text spells the tree.** -/
theorem print_tree : ∀ v : Value, print jsonQuoting (tree v) = canonical v
  | .arr vs => by rw [tree, print, printItems_eq, canonical, map_print_treeItems vs]
  | .obj es => by
    have hsorted : (inKeyOrder (treeMembers es)).map (fun p => (p.1, print jsonQuoting p.2)) =
        inKeyOrder (canonicalMembers es) := by
      rw [map_inKeyOrder, map_print_treeMembers es]
    rw [tree, print, printMembers_eq, canonical, ← hsorted, List.map_map, List.map_map]
    rfl
  | .str _ => by rw [tree, print, canonical, jsonString]
  | .num _ => by rw [tree, print, canonical]
  | .bool _ => by rw [tree, print, canonical]
  | .null => by rw [tree, print, canonical]
  | .undefined => by rw [tree, print, canonical]

theorem map_print_treeItems : ∀ vs : List Value,
    (treeItems vs).map (print jsonQuoting) = canonicalItems vs
  | [] => rfl
  | v :: vs => by
    rw [treeItems, canonicalItems, List.map_cons, print_tree v, map_print_treeItems vs]

theorem map_print_treeMembers : ∀ es : List (String × Value),
    (treeMembers es).map (fun p => (p.1, print jsonQuoting p.2)) = canonicalMembers es
  | [] => rfl
  | (k, v) :: es => by
    rw [treeMembers, canonicalMembers, List.map_cons, print_tree v, map_print_treeMembers es]

end

variable {v w group published : Value} {vs ws nodes : List Value} {es fs : List (String × Value)}
  {k : String}

/-- **Canonical texts agree exactly when the trees do.** -/
theorem canonical_eq_iff : canonical v = canonical w ↔ tree v = tree w := by
  rw [← print_tree, ← print_tree]
  refine ⟨fun h => ?_, fun h => by rw [h]⟩
  have hended : Ended [] := fun _ hc => nomatch hc
  exact (print_cancel jsonQuoting (tree v) (tree w) hended hended (by rw [h])).1

theorem eq_str_of_canonical {s : String} (h : canonical (.str s) = canonical w) : w = .str s := by
  have htree := canonical_eq_iff.1 h
  rw [tree] at htree
  cases w with
  | str t =>
    rw [tree] at htree
    rw [String.toList_injective (Tree.text.inj htree)]
  | _ => exact nomatch htree

theorem canonical_arr_iff :
    canonical (.arr vs) = canonical (.arr ws) ↔ vs.map canonical = ws.map canonical := by
  constructor
  · intro h
    have htree := canonical_eq_iff.1 h
    rw [tree, tree, treeItems_eq, treeItems_eq] at htree
    have hprinted := congrArg (List.map (print jsonQuoting)) (Tree.list.inj htree)
    simpa only [List.map_map, Function.comp_def, print_tree] using hprinted
  · intro h
    rw [canonical, canonical, canonicalItems_eq, canonicalItems_eq, h]

/-- The members of an object, each under its key as text. -/
def memberTexts (es : List (String × Value)) : List (String × List Char) :=
  es.map fun p => (p.1, canonical p.2)

theorem map_fst_memberTexts (es : List (String × Value)) :
    (memberTexts es).map Prod.fst = es.map Prod.fst := by
  rw [memberTexts, List.map_map]
  rfl

/-- **Two objects agree exactly when their members do**, in whatever order. -/
theorem canonical_obj_iff (hes : (es.map Prod.fst).Nodup) :
    canonical (.obj es) = canonical (.obj fs) ↔ (memberTexts es).Perm (memberTexts fs) := by
  have hnodup : ((memberTexts es).map Prod.fst).Nodup := by rwa [map_fst_memberTexts]
  rw [← inKeyOrder_eq_iff hnodup]
  constructor
  · intro h
    have htree := canonical_eq_iff.1 h
    rw [tree, tree] at htree
    have hinj : Function.Injective fun p : String × Tree => (p.1.toList, p.2) := by
      intro p r hpr
      obtain ⟨hkey, hvalue⟩ := Prod.mk.inj hpr
      exact Prod.ext (String.toList_injective hkey) hvalue
    have hsorted := hinj.list_map (Tree.record.inj htree)
    have hprinted := congrArg (List.map fun p => (p.1, print jsonQuoting p.2)) hsorted
    rwa [map_inKeyOrder, map_inKeyOrder, map_print_treeMembers,
      map_print_treeMembers, canonicalMembers_eq, canonicalMembers_eq] at hprinted
  · intro h
    rw [canonical, canonical, canonicalMembers_eq, canonicalMembers_eq]
    unfold memberTexts at h
    rw [h]

/-- The members of an object without some. -/
def without (keys : List String) : Value → Value
  | .obj es => .obj (es.filter fun p => p.1 ∉ keys)
  | v => v

theorem lookup_memberTexts (es : List (String × Value)) (k : String) :
    (memberTexts es).lookup k = (es.lookup k).map canonical := by
  induction es with
  | nil => rfl
  | cons p es ih =>
    rw [memberTexts, List.map_cons, List.lookup_cons, List.lookup_cons]
    cases k == p.1 with
    | true => rfl
    | false => exact ih

theorem lookup_of_canonical (hes : (es.map Prod.fst).Nodup)
    (h : canonical (.obj es) = canonical (.obj fs)) (k : String) :
    (es.lookup k).map canonical = (fs.lookup k).map canonical := by
  have hnodup : ((memberTexts es).map Prod.fst).Nodup := by rwa [map_fst_memberTexts]
  rw [← lookup_memberTexts, ← lookup_memberTexts]
  exact OrderedMap.lookup_eq_of_perm hnodup ((canonical_obj_iff hes).1 h)

/-- **Two objects agree exactly when they agree under one key and without
it.** -/
theorem canonical_split_iff (hes : (es.map Prod.fst).Nodup) (hfs : (fs.map Prod.fst).Nodup)
    {a b : Value} (ha : es.lookup k = some a) (hb : fs.lookup k = some b) :
    canonical (.obj es) = canonical (.obj fs) ↔ canonical a = canonical b ∧
      canonical (without [k] (.obj es)) = canonical (without [k] (.obj fs)) := by
  have hfront : ∀ {es : List (String × Value)} {a : Value}, (es.map Prod.fst).Nodup →
      es.lookup k = some a → (memberTexts es).Perm
        ((k, canonical a) :: memberTexts (es.filter fun p => p.1 ∉ [k])) := by
    intro es a hnodup hlookup
    have hperm := (OrderedMap.perm_cons_filter hnodup hlookup).map fun p => (p.1, canonical p.2)
    simp only [memberTexts, List.mem_singleton]
    exact hperm
  have hrest : ((es.filter fun p => p.1 ∉ [k]).map Prod.fst).Nodup :=
    hes.sublist (List.filter_sublist.map Prod.fst)
  rw [without, without, canonical_obj_iff hrest]
  constructor
  · intro h
    have hvalue := lookup_of_canonical hes h k
    rw [ha, hb] at hvalue
    have htext : canonical a = canonical b := Option.some.inj hvalue
    refine ⟨htext, ?_⟩
    have hperm := ((hfront hes ha).symm.trans ((canonical_obj_iff hes).1 h)).trans (hfront hfs hb)
    rw [htext] at hperm
    exact hperm.cons_inv
  · rintro ⟨htext, hperm⟩
    refine (canonical_obj_iff hes).2 ((hfront hes ha).trans (.trans ?_ (hfront hfs hb).symm))
    rw [htext]
    exact hperm.cons _

/-! ## Nodes of a document -/

/-- An object has each key once. -/
def keysDistinct : Value → Bool
  | .obj es => decide (es.map Prod.fst).Nodup
  | _ => false

/-- A list of such nodes, each under its own id. -/
def listShape (node : Value → Bool) : Value → Bool
  | .arr vs => vs.all node && decide (vs.map idOf).Nodup
  | _ => false

def groupShape (group : Value) : Bool :=
  keysDistinct group && listShape keysDistinct (group.field "options")

/-- The shape of a published document: an object with a list of groups, and
groups with a list of options, all under ids of their own. -/
def documentShape (doc : Value) : Bool :=
  keysDistinct doc && listShape groupShape (doc.field "groups")

theorem exists_of_keysDistinct (h : keysDistinct v = true) :
    ∃ es, v = .obj es ∧ (es.map Prod.fst).Nodup := by
  cases v with
  | obj es => exact ⟨es, rfl, of_decide_eq_true h⟩
  | _ => exact nomatch h

theorem exists_of_listShape {node : Value → Bool} (h : listShape node v = true) :
    ∃ vs, v = .arr vs ∧ (∀ w ∈ vs, node w = true) ∧ (vs.map idOf).Nodup := by
  cases v with
  | arr vs =>
    obtain ⟨hall, hnodup⟩ := Bool.and_eq_true_iff.1 h
    exact ⟨vs, rfl, List.all_eq_true.1 hall, of_decide_eq_true hnodup⟩
  | _ => exact nomatch h

theorem lookup_of_field_arr (h : (Value.obj es).field k = .arr vs) :
    es.lookup k = some (.arr vs) := by
  rw [Value.field] at h
  cases hlookup : es.lookup k with
  | none =>
    rw [hlookup] at h
    exact nomatch h
  | some v =>
    rw [hlookup] at h
    exact congrArg some h

/-- What a member says as text, where it is one. -/
def text? : Value → Option String
  | .str s => some s
  | _ => none

theorem text?_of_canonical (h : canonical v = canonical w) : text? v = text? w := by
  cases v with
  | str s => rw [eq_str_of_canonical h]
  | _ =>
    cases w with
    | str t => exact nomatch eq_str_of_canonical h.symm
    | _ => rfl

theorem idOf_eq (node : Value) : idOf node = (text? (node.field "id")).getD "" := by
  unfold idOf Value.string
  cases node.field "id" <;> rfl

theorem labelOf_eq (node : Value) :
    labelOf node = (text? (node.field "label")).getD "(unnamed)" := by
  unfold labelOf
  cases node.field "label" <;> rfl

theorem text?_of_lookup (h : (es.lookup k).map canonical = (fs.lookup k).map canonical) :
    text? ((Value.obj es).field k) = text? ((Value.obj fs).field k) := by
  rw [Value.field, Value.field]
  cases hes : es.lookup k with
  | none =>
    rw [hes, Option.map_none, eq_comm, Option.map_eq_none_iff] at h
    rw [h]
  | some v =>
    rw [hes, Option.map_some] at h
    obtain ⟨w, hw, htext⟩ := Option.map_eq_some_iff.1 h.symm
    rw [hw]
    exact text?_of_canonical htext.symm

/-- **Nodes that agree have one id and one label.** -/
theorem names_of_canonical (hv : keysDistinct v = true) (hw : keysDistinct w = true)
    (h : canonical v = canonical w) : idOf v = idOf w ∧ labelOf v = labelOf w := by
  obtain ⟨es, rfl, hes⟩ := exists_of_keysDistinct hv
  obtain ⟨fs, rfl, -⟩ := exists_of_keysDistinct hw
  have htext := fun k => text?_of_lookup (lookup_of_canonical hes h k)
  rw [idOf_eq, idOf_eq, labelOf_eq, labelOf_eq, htext, htext]
  exact ⟨rfl, rfl⟩

/-- **Two objects that hold a list under a key agree exactly when their lists
do, item by item, and the rest of them.** -/
theorem canonical_list_iff (hv : keysDistinct v = true) (hw : keysDistinct w = true)
    (hvs : v.field k = .arr vs) (hws : w.field k = .arr ws) :
    canonical v = canonical w ↔ vs.map canonical = ws.map canonical ∧
      canonical (without [k] v) = canonical (without [k] w) := by
  obtain ⟨es, rfl, hes⟩ := exists_of_keysDistinct hv
  obtain ⟨fs, rfl, hfs⟩ := exists_of_keysDistinct hw
  rw [← canonical_arr_iff]
  exact canonical_split_iff hes hfs (lookup_of_field_arr hvs) (lookup_of_field_arr hws)

/-! ## What the list says nothing of -/

theorem entries_byId (h : (nodes.map idOf).Nodup) :
    (byId nodes).entries = nodes.map fun node => (idOf node, node) := by
  refine OrderedMap.entries_setAll_of_nodup ?_
  rw [OrderedMap.keys_empty, List.nil_append, List.map_map]
  exact h

theorem get?_byId (h : (nodes.map idOf).Nodup) {id : String} {node : Value} :
    (byId nodes).get? id = some node ↔ node ∈ nodes ∧ idOf node = id := by
  rw [OrderedMap.get?_eq_some, entries_byId h, List.mem_map]
  constructor
  · rintro ⟨w, hw, heq⟩
    obtain ⟨rfl, rfl⟩ := Prod.mk.inj heq
    exact ⟨hw, rfl⟩
  · rintro ⟨hnode, rfl⟩
    exact ⟨node, hnode, rfl⟩

theorem get?_byId_eq_none (h : (nodes.map idOf).Nodup) {id : String} :
    (byId nodes).get? id = none ↔ id ∉ nodes.map idOf := by
  rw [OrderedMap.get?_eq_none, OrderedMap.keys, entries_byId h, List.map_map]
  rfl

/-- **Nothing is said of two lists exactly when they are of the same ids, and
nothing is said of any node.** -/
theorem changesById_eq_nil_iff {said : Option Value → Value → List String}
    (hadded : ∀ node, said none node ≠ []) (removed : Value → String) {before after : List Value}
    (hbefore : (before.map idOf).Nodup) (hafter : (after.map idOf).Nodup) :
    changesById said removed before after = [] ↔
      (∀ id, id ∈ after.map idOf ↔ id ∈ before.map idOf) ∧
        ∀ node ∈ after, ∀ was ∈ before, idOf was = idOf node → said (some was) node = [] := by
  have hgone : ((byId before).entries.filter fun p => ((byId after).get? p.1).isNone) = [] ↔
      ∀ id ∈ before.map idOf, id ∈ after.map idOf := by
    rw [List.filter_eq_nil_iff, entries_byId hbefore, List.forall_mem_map, List.forall_mem_map]
    refine forall₂_congr fun was _ => ?_
    rw [Option.isNone_iff_eq_none, get?_byId_eq_none hafter, not_not]
  have hnow : ((byId after).entries.flatMap fun p => said ((byId before).get? p.1) p.2) = [] ↔
      ∀ node ∈ after, idOf node ∈ before.map idOf ∧
        ∀ was ∈ before, idOf was = idOf node → said (some was) node = [] := by
    rw [List.flatMap_eq_nil_iff, entries_byId hafter, List.forall_mem_map]
    refine forall₂_congr fun node _ => ?_
    cases hwas : (byId before).get? (idOf node) with
    | none =>
      have hnew := (get?_byId_eq_none hbefore).1 hwas
      exact ⟨fun h => absurd h (hadded node), fun h => absurd h.1 hnew⟩
    | some was =>
      obtain ⟨hmem, hid⟩ := (get?_byId hbefore).1 hwas
      refine ⟨fun h => ⟨hid ▸ List.mem_map_of_mem hmem, fun w hw hwid => ?_⟩,
        fun h => h.2 was hmem hid⟩
      rw [List.inj_on_of_nodup_map hbefore hw hmem (hwid.trans hid.symm)]
      exact h
  unfold changesById
  dsimp only
  rw [List.append_eq_nil_iff, List.map_eq_nil_iff, hnow, hgone]
  constructor
  · rintro ⟨hsaid, hkept⟩
    refine ⟨fun id => ⟨fun hid => ?_, hkept id⟩, fun node hnode => (hsaid node hnode).2⟩
    obtain ⟨node, hnode, rfl⟩ := List.mem_map.1 hid
    exact (hsaid node hnode).1
  · rintro ⟨hids, hsaid⟩
    exact ⟨fun node hnode => ⟨(hids _).1 (List.mem_map_of_mem hnode), hsaid node hnode⟩,
      fun id => (hids id).2⟩

/-- Two groups as far as the list looks: one label, options under the same ids,
and each option agreeing with the one it was. -/
structure GroupsMatch (group was : Value) : Prop where
  label : labelOf was = labelOf group
  ids : ∀ id, id ∈ (optionsOf group).map idOf ↔ id ∈ (optionsOf was).map idOf
  options : ∀ option ∈ optionsOf group, ∀ optionWas ∈ optionsOf was,
    idOf optionWas = idOf option → canonical optionWas = canonical option

/-- Two documents as far as the list looks. -/
structure Match (preview published : Value) : Prop where
  ids : ∀ id, id ∈ (groupsOf preview).map idOf ↔ id ∈ (groupsOf published).map idOf
  groups : ∀ group ∈ groupsOf preview, ∀ was ∈ groupsOf published,
    idOf was = idOf group → GroupsMatch group was

theorem options_of_groupShape (h : groupShape group = true) :
    group.field "options" = .arr (optionsOf group) ∧
      (∀ option ∈ optionsOf group, keysDistinct option = true) ∧
      ((optionsOf group).map idOf).Nodup := by
  obtain ⟨vs, hvs, hshape⟩ := exists_of_listShape (Bool.and_eq_true_iff.1 h).2
  unfold optionsOf
  rw [hvs]
  exact ⟨rfl, hshape⟩

theorem groups_of_documentShape {doc : Value} (h : documentShape doc = true) :
    doc.field "groups" = .arr (groupsOf doc) ∧
      (∀ group ∈ groupsOf doc, groupShape group = true) ∧ ((groupsOf doc).map idOf).Nodup := by
  obtain ⟨vs, hvs, hshape⟩ := exists_of_listShape (Bool.and_eq_true_iff.1 h).2
  unfold groupsOf
  rw [hvs]
  exact ⟨rfl, hshape⟩

theorem optionChange_eq_nil_iff {inGroup : String} {optionWas option : Value}
    (hwas : keysDistinct optionWas = true) (hoption : keysDistinct option = true) :
    optionChange inGroup (some optionWas) option = [] ↔
      canonical optionWas = canonical option := by
  rw [optionChange]
  split_ifs with hlabel htext
  · refine ⟨False.elim, fun h => ?_⟩
    exact absurd (names_of_canonical hwas hoption h).2 hlabel
  · exact ⟨False.elim, fun h => absurd h htext⟩
  · exact ⟨fun _ => not_not.1 htext, fun _ => rfl⟩

theorem groupChanges_eq_nil_iff {was : Value} (hwas : groupShape was = true)
    (hgroup : groupShape group = true) :
    groupChanges (some was) group = [] ↔ GroupsMatch group was := by
  obtain ⟨-, hkeysWas, hidsWas⟩ := options_of_groupShape hwas
  obtain ⟨-, hkeys, hids⟩ := options_of_groupShape hgroup
  have hadded : ∀ node, optionChange (labelOf group) none node ≠ [] :=
    fun _ => List.cons_ne_nil _ _
  have hlabel : (if labelOf was ≠ labelOf group then
      ["Group renamed: " ++ labelOf was ++ " → " ++ labelOf group] else []) = [] ↔
      labelOf was = labelOf group := by
    by_cases h : labelOf was = labelOf group
    · rw [if_neg (not_not.2 h)]
      exact ⟨fun _ => h, fun _ => rfl⟩
    · rw [if_pos h]
      exact ⟨fun hnil => absurd hnil (List.cons_ne_nil _ _), fun heq => absurd heq h⟩
  rw [groupChanges, List.append_eq_nil_iff, hlabel, changesById_eq_nil_iff hadded _ hidsWas hids]
  constructor
  · rintro ⟨hname, hsame, hsaid⟩
    refine ⟨hname, hsame, fun option hoption optionWas hoptionWas hid => ?_⟩
    exact (optionChange_eq_nil_iff (hkeysWas _ hoptionWas) (hkeys _ hoption)).1
      (hsaid option hoption optionWas hoptionWas hid)
  · rintro ⟨hname, hsame, hoptions⟩
    refine ⟨hname, hsame, fun option hoption optionWas hoptionWas hid => ?_⟩
    exact (optionChange_eq_nil_iff (hkeysWas _ hoptionWas) (hkeys _ hoption)).2
      (hoptions option hoption optionWas hoptionWas hid)

/-- **The list is empty exactly when the documents match.** -/
theorem describeChanges_eq_nil_iff {preview : Value} (hpreview : documentShape preview = true)
    (hpublished : documentShape published = true) :
    describeChanges preview published = [] ↔ Match preview published := by
  obtain ⟨-, hgroups, hids⟩ := groups_of_documentShape hpreview
  obtain ⟨-, hgroupsWas, hidsWas⟩ := groups_of_documentShape hpublished
  obtain ⟨es, rfl, -⟩ := exists_of_keysDistinct (Bool.and_eq_true_iff.1 hpublished).1
  have hadded : ∀ node, groupChanges none node ≠ [] := fun _ => List.cons_ne_nil _ _
  have hall : allChanges preview (.obj es) = [] ↔ Match preview (.obj es) := by
    rw [allChanges, changesById_eq_nil_iff hadded _ hidsWas hids]
    constructor
    · rintro ⟨hsame, hsaid⟩
      refine ⟨hsame, fun group hgroup was hwas hid => ?_⟩
      exact (groupChanges_eq_nil_iff (hgroupsWas _ hwas) (hgroups _ hgroup)).1
        (hsaid group hgroup was hwas hid)
    · rintro ⟨hsame, hmatch⟩
      refine ⟨hsame, fun group hgroup was hwas hid => ?_⟩
      exact (groupChanges_eq_nil_iff (hgroupsWas _ hwas) (hgroups _ hgroup)).2
        (hmatch group hgroup was hwas hid)
  rw [← hall]
  unfold describeChanges
  dsimp only
  split_ifs with hlong
  · -- What is cut short is said to be.
    refine ⟨fun h => absurd (List.append_eq_nil_iff.1 h).2 (List.cons_ne_nil _ _), fun h => ?_⟩
    rw [h] at hlong
    exact absurd hlong (Nat.not_lt_zero _)
  · exact Iff.rfl

/-! ## Completeness -/

/-- A document as it is published. -/
structure Document where
  value : Value
  shape : documentShape value = true

/-- A document without its version and its assignments. -/
def compared (doc : Value) : Value := without ["version", "assignments"] doc

/-- What the list does not look at is the same too: the order of groups and of
options, the other members of a group, such as its items, and the other members
of the document, such as its rules. -/
structure RestAgrees (preview published : Value) : Prop where
  groupOrder : (groupsOf preview).map idOf = (groupsOf published).map idOf
  optionOrder : ∀ group ∈ groupsOf preview, ∀ was ∈ groupsOf published, idOf was = idOf group →
    (optionsOf group).map idOf = (optionsOf was).map idOf
  groupMembers : ∀ group ∈ groupsOf preview, ∀ was ∈ groupsOf published, idOf was = idOf group →
    canonical (without ["options"] group) = canonical (without ["options"] was)
  others : canonical (without ["groups"] (compared preview)) =
    canonical (without ["groups"] (compared published))

theorem map_canonical_eq_iff (hvs : ∀ v ∈ vs, keysDistinct v = true)
    (hws : ∀ w ∈ ws, keysDistinct w = true) (hids : (vs.map idOf).Nodup) :
    vs.map canonical = ws.map canonical ↔ vs.map idOf = ws.map idOf ∧
      ∀ v ∈ vs, ∀ w ∈ ws, idOf w = idOf v → canonical v = canonical w := by
  induction vs generalizing ws with
  | nil =>
    cases ws with
    | nil => exact ⟨fun _ => ⟨rfl, fun _ h => absurd h List.not_mem_nil⟩, fun _ => rfl⟩
    | cons w ws => exact ⟨fun h => (nomatch h), fun h => (nomatch h.1)⟩
  | cons v vs ih =>
    cases ws with
    | nil => exact ⟨fun h => (nomatch h), fun h => (nomatch h.1)⟩
    | cons w ws =>
      obtain ⟨hnew, hrest⟩ := List.nodup_cons.1 hids
      have hkeys := hvs v List.mem_cons_self
      have hkeys' := hws w List.mem_cons_self
      have ih := ih (fun v hv => hvs v (List.mem_cons_of_mem _ hv))
        (fun w hw => hws w (List.mem_cons_of_mem _ hw)) hrest
      simp only [List.map_cons, List.cons.injEq]
      constructor
      · rintro ⟨hhead, htail⟩
        obtain ⟨htailIds, htailTexts⟩ := ih.1 htail
        have hid := (names_of_canonical hkeys hkeys' hhead).1
        refine ⟨⟨hid, htailIds⟩, fun a ha b hb hab => ?_⟩
        rcases List.mem_cons.1 ha with rfl | ha <;> rcases List.mem_cons.1 hb with rfl | hb
        · exact hhead
        · exact absurd (htailIds ▸ hab ▸ List.mem_map_of_mem hb) hnew
        · exact absurd (hid.trans hab ▸ List.mem_map_of_mem ha) hnew
        · exact htailTexts a ha b hb hab
      · rintro ⟨⟨hid, htailIds⟩, htexts⟩
        refine ⟨htexts v List.mem_cons_self w List.mem_cons_self hid.symm, ih.2 ⟨htailIds, ?_⟩⟩
        exact fun a ha b hb => htexts a (List.mem_cons_of_mem _ ha) b (List.mem_cons_of_mem _ hb)

/-- Two groups agree exactly when their options do, in order, and their other
members. -/
theorem canonical_group_iff {was : Value} (hgroup : groupShape group = true)
    (hwas : groupShape was = true) : canonical group = canonical was ↔
      ((optionsOf group).map idOf = (optionsOf was).map idOf ∧
        ∀ option ∈ optionsOf group, ∀ optionWas ∈ optionsOf was,
          idOf optionWas = idOf option → canonical option = canonical optionWas) ∧
      canonical (without ["options"] group) = canonical (without ["options"] was) := by
  obtain ⟨hfield, hkeys, hids⟩ := options_of_groupShape hgroup
  obtain ⟨hfieldWas, hkeysWas, -⟩ := options_of_groupShape hwas
  rw [← map_canonical_eq_iff hkeys hkeysWas hids]
  exact canonical_list_iff (Bool.and_eq_true_iff.1 hgroup).1 (Bool.and_eq_true_iff.1 hwas).1
    hfield hfieldWas

theorem field_compared (doc : Value) : (compared doc).field "groups" = doc.field "groups" := by
  cases doc with
  | obj es =>
    have hlookup := OrderedMap.lookup_filter_key (k := "groups")
      (f := fun k => decide (k ∉ ["version", "assignments"])) (by decide) es
    rw [compared, without, Value.field, hlookup, Value.field]
  | _ => rfl

theorem keysDistinct_without (h : keysDistinct v = true) (keys : List String) :
    keysDistinct (without keys v) = true := by
  obtain ⟨es, rfl, hes⟩ := exists_of_keysDistinct h
  exact decide_eq_true (hes.sublist (List.filter_sublist.map Prod.fst))

/-- **Two documents agree, but for the version and the assignments, exactly
when they match and the rest agrees.** -/
theorem canonical_compared_iff {preview : Value} (hpreview : documentShape preview = true)
    (hpublished : documentShape published = true) :
    canonical (compared preview) = canonical (compared published) ↔
      Match preview published ∧ RestAgrees preview published := by
  obtain ⟨hfield, hgroups, hids⟩ := groups_of_documentShape hpreview
  obtain ⟨hfieldWas, hgroupsWas, -⟩ := groups_of_documentShape hpublished
  have hkeys : ∀ group ∈ groupsOf preview, keysDistinct group = true := fun group h =>
    (Bool.and_eq_true_iff.1 (hgroups group h)).1
  have hkeysWas : ∀ was ∈ groupsOf published, keysDistinct was = true := fun was h =>
    (Bool.and_eq_true_iff.1 (hgroupsWas was h)).1
  have hcompared : keysDistinct (compared preview) = true :=
    keysDistinct_without (Bool.and_eq_true_iff.1 hpreview).1 _
  have hcomparedWas : keysDistinct (compared published) = true :=
    keysDistinct_without (Bool.and_eq_true_iff.1 hpublished).1 _
  rw [canonical_list_iff hcompared hcomparedWas ((field_compared preview).trans hfield)
    ((field_compared published).trans hfieldWas),
    map_canonical_eq_iff hkeys hkeysWas hids]
  constructor
  · rintro ⟨⟨horder, htexts⟩, hothers⟩
    have hgroup := fun group hg was hw hid =>
      (canonical_group_iff (hgroups group hg) (hgroupsWas was hw)).1 (htexts group hg was hw hid)
    refine ⟨⟨fun id => by rw [horder], fun group hg was hw hid => ⟨?_, fun id => ?_, ?_⟩⟩,
      ⟨horder, fun group hg was hw hid => (hgroup group hg was hw hid).1.1,
        fun group hg was hw hid => (hgroup group hg was hw hid).2, hothers⟩⟩
    · exact (names_of_canonical (hkeys group hg) (hkeysWas was hw)
        (htexts group hg was hw hid)).2.symm
    · rw [(hgroup group hg was hw hid).1.1]
    · intro option hoption optionWas hoptionWas hoptionId
      exact ((hgroup group hg was hw hid).1.2 option hoption optionWas hoptionWas hoptionId).symm
  · rintro ⟨hmatch, hrest⟩
    refine ⟨⟨hrest.groupOrder, fun group hg was hw hid => ?_⟩, hrest.others⟩
    refine (canonical_group_iff (hgroups group hg) (hgroupsWas was hw)).2
      ⟨⟨hrest.optionOrder group hg was hw hid, ?_⟩, hrest.groupMembers group hg was hw hid⟩
    intro option hoption optionWas hoptionWas hoptionId
    exact ((hmatch.groups group hg was hw hid).options option hoption optionWas hoptionWas
      hoptionId).symm

/-- **A list is right about two documents exactly when what it does not look
at does not differ alone**: where they match, the order of their groups and
options agrees, and so do the other members of each group and of the
document. -/
theorem reports_iff (preview published : Document) :
    (describeChanges preview.value published.value = [] ↔
      canonical (compared preview.value) = canonical (compared published.value)) ↔
    (Match preview.value published.value → RestAgrees preview.value published.value) := by
  rw [describeChanges_eq_nil_iff preview.shape published.shape,
    canonical_compared_iff preview.shape published.shape, iff_self_and]

/-- A document of one group and one option, with rules. -/
def finishes (rules : List Value) : Document where
  value := .obj [("id", .str "s1"), ("version", .num (.ofInt 3)), ("assignments", .arr []),
    ("groups", .arr [.obj [("id", .str "g1"), ("label", .str "Finish"),
      ("options", .arr [.obj [("id", .str "o1"), ("label", .str "Colour")]]),
      ("items", .arr [])]]),
    ("rules", .arr rules)]
  shape := rfl

/-- **A rule that is added is not reported.** -/
theorem rule_unreported : ¬ ∀ preview published : Document,
    describeChanges preview.value published.value = [] ↔
      canonical (compared preview.value) = canonical (compared published.value) := by
  intro h
  have hagree := (h (finishes [.obj [("id", .str "r1")]]) (finishes [])).1 (by decide +kernel)
  exact absurd hagree (by decide +kernel)

end Optionia.Editor.PublishDiff
