import Optionia.Config.ProductIndex
import Optionia.Lib.Precedence
import Optionia.Php.Keys
/-!
# The sets of a product

`ProductIndex::for_product` merges three tiers of the index, sorts them by set
id and again by priority. Here the tiers are read back to the assignments of
the document: under a key of each tier stands the priority of the first
assignment that claims it, and what is merged later has precedence. A
product's own tier is indexed by the reference cast to an integer, and that is
the one place where the index and a scan of the document may differ.
-/

namespace Optionia.Config

open Php

namespace ProductIndex

variable {hasTerm : String → String → ℤ → Bool} {productId : ℤ}

/-! ## The model -/

/-- `matching_terms`: the sets assigned to a term the product has, as
`has_term` answers by slug, taxonomy and product. -/
def matchingTerms (index : ProductIndex) (hasTerm : String → String → ℤ → Bool) (productId : ℤ) :
    OrderedMap String ℤ :=
  index.terms.foldl (fun matched target =>
    if (matched.get? target.setId).isSome then matched
    else if hasTerm target.slug target.taxonomy productId then
      matched.set target.setId target.priority
    else matched) ∅

/-- `asort`, of entries: by their values, which is stable. -/
def asortEntries (es : List (String × ℤ)) : List (String × ℤ) :=
  es.insertionSort fun p q => p.2 ≤ q.2

/-- The tiers merged: every product, its terms, the product itself. -/
def merged (index : ProductIndex) (hasTerm : String → String → ℤ → Bool) (productId : ℤ) :
    OrderedMap String ℤ :=
  (index.all.setAll (matchingTerms index hasTerm productId).entries).setAll
    (index.products.getD productId ∅).entries

def forProduct (index : ProductIndex) (hasTerm : String → String → ℤ → Bool) (productId : ℤ) :
    List String :=
  (asortEntries (ksort (merged index hasTerm productId)).entries).map Prod.fst

/-! ## A scan of the document -/

/-- The assignments of a set, each with the id of the set. -/
def setAssignments (set : Value) : List (String × Value) :=
  match set.field "id" with
  | .str setId => (set.field "assignments").items.map fun assignment => (setId, assignment)
  | _ => []

def assignments (document : Value) : List (String × Value) :=
  (document.field "option_sets").items.flatMap setAssignments

def namesAll (assignment : Value) : Bool := decide (assignment.string "mode" = "all")

def isManual (assignment : Value) : Bool := decide (assignment.string "mode" = "manual")

/-- A manual assignment to a term the product has. -/
def namesTerm (hasTerm : String → String → ℤ → Bool) (productId : ℤ) (assignment : Value) : Bool :=
  isManual assignment && (taxonomy? (assignment.string "target_type")).any fun taxonomy =>
    decide (assignment.string "target_ref" ≠ "") &&
      hasTerm (assignment.string "target_ref") taxonomy productId

/-- A reference denotes a product: its id, or a text that reads as no other
number. -/
def denotes (productId : ℤ) : Value → Bool
  | .int n => decide (n = productId)
  | .str s => match numeral? s with
    | some numeral => numeral.rest.all numeralSpace && decide (numeral.value = productId)
    | none => false
  | _ => false

/-- A reference whose integer cast is the product. -/
def casts (productId : ℤ) : Value → Bool
  | .int n => decide (n = productId)
  | .str s => decide (stringToInt s = productId)
  | _ => false

/-- A manual assignment to a product, by what its reference refers to. -/
def namesProduct (refers : Value → Bool) (assignment : Value) : Bool :=
  isManual assignment && decide (assignment.string "target_type" = "product") &&
    refers (assignment.field "target_ref")

/-- The priority of the first assignment of a set that claims it for a tier. -/
def claimOf (tier : Value → Bool) (l : List (String × Value)) (setId : String) : Option ℤ :=
  (l.find? fun p => tier p.2 && decide (p.1 = setId)).map fun p => priority p.2

/-- **The effective priority of a set for a product**: by product over by term
over by all, the first listed within a tier. -/
def effective (hasTerm : String → String → ℤ → Bool) (productId : ℤ) (refers : Value → Bool)
    (l : List (String × Value)) (setId : String) : Option ℤ :=
  (claimOf (namesProduct refers) l setId).or
    ((claimOf (namesTerm hasTerm productId) l setId).or (claimOf namesAll l setId))

/-- **A list of ids answers like a scan of the document**: without duplicates,
exactly the sets assigned to the product, by effective priority and, where it
ties, by id. -/
structure Answers (hasTerm : String → String → ℤ → Bool) (productId : ℤ) (refers : Value → Bool)
    (l : List (String × Value)) (ids : List String) : Prop where
  nodup : ids.Nodup
  mem : ∀ setId, setId ∈ ids ↔ ∃ p ∈ l, p.1 = setId ∧
    (namesProduct refers p.2 = true ∨ namesTerm hasTerm productId p.2 = true ∨ namesAll p.2 = true)
  sorted : ids.Pairwise fun a b => ∀ m n, effective hasTerm productId refers l a = some m →
    effective hasTerm productId refers l b = some n → m < n ∨ (m = n ∧ keyLe a b = true)

/-! ## The index, by its assignments -/

theorem build_eq (document : Value) :
    build document =
      (assignments document).foldl (fun index p => addAssignment p.1 index p.2) empty := by
  have hset : ∀ index set, addSet index set =
      (setAssignments set).foldl (fun index p => addAssignment p.1 index p.2) index := by
    intro index set
    unfold addSet setAssignments
    cases set.field "id" with
    | str setId =>
      dsimp only
      rw [List.foldl_map]
    | _ => rfl
  unfold build assignments
  rw [List.foldl_flatMap]
  exact congrArg (fun step => List.foldl step empty _) (funext fun index => funext (hset index))

theorem isArray_of_string {v : Value} {k : String} (h : v.string k ≠ "") : v.isArray = true := by
  cases v with
  | arr es => rfl
  | _ => exact absurd rfl h

/-- The term an assignment of a set is indexed under. -/
def termTarget? (setId : String) (assignment : Value) : Option TermTarget :=
  if isManual assignment then
    (taxonomy? (assignment.string "target_type")).bind fun taxonomy =>
      if assignment.string "target_ref" = "" then none
      else some ⟨setId, taxonomy, assignment.string "target_ref", priority assignment⟩
  else none

/-- An index after an assignment has, for a tier each, what the assignment
claims in it. -/
structure Adds (setId : String) (assignment : Value) (index index' : ProductIndex) : Prop where
  all : index'.all =
    if namesAll assignment then index.all.claimed setId (priority assignment) else index.all
  terms : index'.terms = index.terms ++ (termTarget? setId assignment).toList
  products : ∀ productId, 0 < productId → index'.products.getD productId ∅ =
    if namesProduct (casts productId) assignment then
      (index.products.getD productId ∅).claimed setId (priority assignment)
    else index.products.getD productId ∅

variable {setId : String} {assignment : Value}

theorem adds_skip {index : ProductIndex} (hall : namesAll assignment = false)
    (hterm : termTarget? setId assignment = none)
    (hproduct : ∀ productId, 0 < productId →
      namesProduct (casts productId) assignment = false) :
    Adds setId assignment index index.skip where
  all := by
    rw [hall, if_neg Bool.false_ne_true]
    rfl
  terms := by
    rw [hterm, Option.toList_none, List.append_nil]
    rfl
  products := fun productId hpos => by
    rw [hproduct productId hpos, if_neg Bool.false_ne_true]
    rfl

variable {refers refers' : Value → Bool}

/-- A manual assignment is to no term and to no product where its target is
none. -/
theorem namesProduct_of_target (h : assignment.string "target_type" ≠ "product") :
    namesProduct refers assignment = false := by
  unfold namesProduct
  rw [decide_eq_false h, Bool.and_false, Bool.false_and]

theorem not_product_of_taxonomy {targetType taxonomy : String}
    (h : taxonomy? targetType = some taxonomy) : targetType ≠ "product" := by
  rintro rfl
  have hnone : taxonomy? "product" = none := by decide
  rw [hnone] at h
  simp at h

theorem adds_product {index : ProductIndex} (hmanual : isManual assignment = true)
    (hall : namesAll assignment = false)
    (htype : assignment.string "target_type" = "product") :
    Adds setId assignment index (addProduct index setId assignment) := by
  have hterm : termTarget? setId assignment = none := by
    unfold termTarget?
    rw [if_pos hmanual, htype]
    rfl
  have hnames : ∀ productId, namesProduct (casts productId) assignment =
      casts productId (assignment.field "target_ref") := by
    intro productId
    unfold namesProduct
    rw [hmanual, decide_eq_true htype, Bool.and_self, Bool.true_and]
  have hclaims : 0 < (assignment.field "target_ref").toInt →
      (∀ productId, casts productId (assignment.field "target_ref") =
        decide ((assignment.field "target_ref").toInt = productId)) →
      Adds setId assignment index
        { index with
          products := index.products.update ∅ (assignment.field "target_ref").toInt fun sets =>
            claim sets setId (priority assignment) } := by
    intro hpos hcast
    refine ⟨?_, ?_, fun productId _ => ?_⟩
    · rw [hall, if_neg Bool.false_ne_true]
    · rw [hterm, Option.toList_none, List.append_nil]
    · rw [OrderedMap.getD_update, hnames, hcast]
      by_cases heq : productId = (assignment.field "target_ref").toInt
      · rw [if_pos heq, if_pos (decide_eq_true heq.symm), heq]
        rfl
      · rw [if_neg heq, if_neg fun h => heq (of_decide_eq_true h).symm]
  have hskip : (∀ productId, 0 < productId → casts productId (assignment.field "target_ref") = false) →
      Adds setId assignment index index.skip := fun h =>
    adds_skip hall hterm fun productId hpos => (hnames productId).trans (h productId hpos)
  unfold addProduct
  cases href : assignment.field "target_ref" with
  | int n =>
    rw [href] at hclaims hskip
    dsimp only
    by_cases hpos : (Value.int n).toInt ≤ 0
    · rw [if_pos hpos]
      have hint : n ≤ 0 := hpos
      exact hskip fun productId hp => decide_eq_false (by omega)
    · rw [if_neg hpos]
      exact hclaims (not_le.1 hpos) fun productId => rfl
  | str s =>
    rw [href] at hclaims hskip
    dsimp only
    by_cases hpos : (Value.str s).toInt ≤ 0
    · rw [if_pos hpos]
      have hint : stringToInt s ≤ 0 := hpos
      exact hskip fun productId hp => decide_eq_false (by omega)
    · rw [if_neg hpos]
      exact hclaims (not_le.1 hpos) fun productId => rfl
  | _ =>
    rw [href] at hskip
    exact hskip fun productId _ => rfl

theorem adds_manual {index : ProductIndex} (hmanual : isManual assignment = true)
    (hall : namesAll assignment = false) :
    Adds setId assignment index (addManual index setId assignment) := by
  unfold addManual
  dsimp only
  cases htaxonomy : taxonomy? (assignment.string "target_type") with
  | some taxonomy =>
    have hproduct : ∀ productId, 0 < productId → namesProduct (casts productId) assignment = false :=
      fun productId _ => namesProduct_of_target (not_product_of_taxonomy htaxonomy)
    dsimp only
    by_cases hslug : assignment.string "target_ref" = ""
    · rw [if_pos hslug]
      refine adds_skip hall ?_ hproduct
      unfold termTarget?
      rw [if_pos hmanual, htaxonomy, Option.bind_some, if_pos hslug]
    · rw [if_neg hslug]
      refine ⟨?_, ?_, fun productId hpos => ?_⟩
      · rw [hall, if_neg Bool.false_ne_true]
      · unfold termTarget?
        rw [if_pos hmanual, htaxonomy, Option.bind_some, if_neg hslug]
        rfl
      · rw [hproduct productId hpos, if_neg Bool.false_ne_true]
  | none =>
    have hterm : termTarget? setId assignment = none := by
      unfold termTarget?
      rw [if_pos hmanual, htaxonomy]
      rfl
    dsimp only
    by_cases htype : assignment.string "target_type" = "product"
    · rw [if_pos htype]
      exact adds_product hmanual hall htype
    · rw [if_neg htype]
      exact adds_skip hall hterm fun productId _ => namesProduct_of_target htype

/-- **What one assignment adds to the index**, tier by tier. -/
theorem adds_assignment (setId : String) (index : ProductIndex) (assignment : Value) :
    Adds setId assignment index (addAssignment setId index assignment) := by
  have hidle : isManual assignment = false → namesAll assignment = false →
      Adds setId assignment index index.skip := by
    intro hmanual hall
    refine adds_skip hall ?_ fun productId _ => ?_
    · unfold termTarget?
      rw [hmanual, if_neg Bool.false_ne_true]
    · unfold namesProduct
      rw [hmanual, Bool.false_and, Bool.false_and]
  unfold addAssignment
  dsimp only
  by_cases harray : assignment.isArray = true
  · rw [harray, Bool.not_true, if_neg Bool.false_ne_true]
    by_cases hmode : assignment.string "mode" = "all"
    · have hall : namesAll assignment = true := decide_eq_true hmode
      have hmanual : isManual assignment = false := by
        unfold isManual
        rw [hmode]
        decide
      rw [if_pos hmode]
      refine ⟨?_, ?_, fun productId _ => ?_⟩
      · rw [hall, if_pos rfl]
        rfl
      · unfold termTarget?
        rw [hmanual, if_neg Bool.false_ne_true, Option.toList_none, List.append_nil]
      · unfold namesProduct
        rw [hmanual, Bool.false_and, Bool.false_and, if_neg Bool.false_ne_true]
    · have hall : namesAll assignment = false := decide_eq_false hmode
      rw [if_neg hmode]
      by_cases hmanual : assignment.string "mode" = "manual"
      · rw [if_pos hmanual]
        exact adds_manual (decide_eq_true hmanual) hall
      · rw [if_neg hmanual]
        exact hidle (decide_eq_false hmanual) hall
  · have hempty : assignment.string "mode" = "" := by
      by_contra hne
      exact harray (isArray_of_string hne)
    rw [if_pos (by rw [Bool.not_eq_true] at harray; rw [harray]; rfl)]
    refine hidle ?_ ?_
    · unfold isManual
      rw [hempty]
      decide
    · unfold namesAll
      rw [hempty]
      decide

/-! ## The whole index -/

variable {l : List (String × Value)} {index : ProductIndex}

theorem all_foldl : (l.foldl (fun index p => addAssignment p.1 index p.2) index).all =
    l.foldl (fun m p => if namesAll p.2 then m.claimed p.1 (priority p.2) else m) index.all := by
  induction l generalizing index with
  | nil => rfl
  | cons p l ih => rw [List.foldl_cons, List.foldl_cons, ih, (adds_assignment p.1 index p.2).all]

theorem terms_foldl : (l.foldl (fun index p => addAssignment p.1 index p.2) index).terms =
    index.terms ++ l.filterMap fun p => termTarget? p.1 p.2 := by
  induction l generalizing index with
  | nil => exact (List.append_nil _).symm
  | cons p l ih =>
    rw [List.foldl_cons, ih, (adds_assignment p.1 index p.2).terms, List.append_assoc,
      List.filterMap_cons]
    cases termTarget? p.1 p.2 <;> rfl

theorem products_foldl (hpos : 0 < productId) :
    (l.foldl (fun index p => addAssignment p.1 index p.2) index).products.getD productId ∅ =
      l.foldl (fun m p => if namesProduct (casts productId) p.2 then
        m.claimed p.1 (priority p.2) else m) (index.products.getD productId ∅) := by
  induction l generalizing index with
  | nil => rfl
  | cons p l ih =>
    rw [List.foldl_cons, List.foldl_cons, ih, (adds_assignment p.1 index p.2).products _ hpos]

/-- **The tier of every product.** -/
theorem get?_all (document : Value) (setId : String) :
    (build document).all.get? setId = claimOf namesAll (assignments document) setId := by
  rw [build_eq, all_foldl, OrderedMap.get?_foldl_claimed]
  rfl

/-- **The tier of the product itself**, by the cast of its references. -/
theorem get?_products (hpos : 0 < productId) (document : Value) (setId : String) :
    ((build document).products.getD productId ∅).get? setId =
      claimOf (namesProduct (casts productId)) (assignments document) setId := by
  rw [build_eq, products_foldl hpos, OrderedMap.get?_foldl_claimed]
  rfl

theorem matchingTerms_eq (index : ProductIndex) :
    matchingTerms index hasTerm productId =
      index.terms.foldl (fun matched target =>
        if hasTerm target.slug target.taxonomy productId then
          matched.claimed target.setId target.priority
        else matched) ∅ := by
  unfold matchingTerms OrderedMap.claimed
  congr 1
  funext matched target
  by_cases hheld : (matched.get? target.setId).isSome = true
  · rw [if_pos hheld, if_pos hheld, ite_self]
  · rw [if_neg hheld, if_neg hheld]

/-- An assignment names a term of the product where its target is one. -/
theorem termTarget_any (setId : String) (p : String × Value) :
    (termTarget? p.1 p.2).any (fun target =>
      hasTerm target.slug target.taxonomy productId && decide (target.setId = setId)) =
        (namesTerm hasTerm productId p.2 && decide (p.1 = setId)) := by
  unfold termTarget? namesTerm
  by_cases hmanual : isManual p.2 = true
  · rw [if_pos hmanual, hmanual, Bool.true_and]
    cases taxonomy? (p.2.string "target_type") with
    | none => rfl
    | some taxonomy =>
      rw [Option.bind_some]
      by_cases hslug : p.2.string "target_ref" = ""
      · rw [if_pos hslug, Option.any_none, Option.any_some, decide_eq_false (not_not.2 hslug),
          Bool.false_and, Bool.false_and]
      · rw [if_neg hslug, Option.any_some, Option.any_some, decide_eq_true hslug, Bool.true_and]
  · rw [if_neg hmanual]
    rw [Bool.not_eq_true] at hmanual
    rw [hmanual, Bool.false_and, Bool.false_and]
    rfl

theorem priority_of_termTarget {setId : String} {target : TermTarget}
    (h : termTarget? setId assignment = some target) : target.priority = priority assignment := by
  unfold termTarget? at h
  split at h
  · obtain ⟨taxonomy, -, h⟩ := Option.bind_eq_some_iff.1 h
    split at h
    · cases h
    · obtain rfl := Option.some.inj h
      rfl
  · cases h

/-- **The tier of its terms.** -/
theorem get?_matchingTerms (document : Value) (setId : String) :
    (matchingTerms (build document) hasTerm productId).get? setId =
      claimOf (namesTerm hasTerm productId) (assignments document) setId := by
  rw [matchingTerms_eq, build_eq, terms_foldl, OrderedMap.get?_foldl_claimed]
  have hempty : empty.terms = [] := rfl
  rw [hempty, List.nil_append, List.find?_filterMap, OrderedMap.get?_empty, Option.none_or]
  unfold claimOf
  simp only [termTarget_any]
  cases hfind : (assignments document).find? fun p =>
      namesTerm hasTerm productId p.2 && decide (p.1 = setId) with
  | none => rfl
  | some p =>
    have hclaims := List.find?_some hfind
    rw [← termTarget_any] at hclaims
    rw [Option.bind_some, Option.map_some]
    cases htarget : termTarget? p.1 p.2 with
    | none =>
      rw [htarget] at hclaims
      simp at hclaims
    | some target => rw [Option.map_some, priority_of_termTarget htarget]

/-- **The merged tiers hold effective priorities**, by cast references. -/
theorem get?_merged (hpos : 0 < productId) (document : Value) (setId : String) :
    (merged (build document) hasTerm productId).get? setId =
      effective hasTerm productId (casts productId) (assignments document) setId := by
  unfold merged effective
  rw [OrderedMap.get?_setAll_entries, OrderedMap.get?_setAll_entries, get?_products hpos,
    get?_matchingTerms, get?_all]

/-! ## The answer -/

theorem isSome_claimOf {tier : Value → Bool} :
    (claimOf tier l setId).isSome = true ↔ ∃ p ∈ l, p.1 = setId ∧ tier p.2 = true := by
  unfold claimOf
  rw [Option.isSome_map, List.find?_isSome]
  constructor
  · rintro ⟨p, hp, hclaims⟩
    rw [Bool.and_eq_true, decide_eq_true_eq] at hclaims
    exact ⟨p, hp, hclaims.2, hclaims.1⟩
  · rintro ⟨p, hp, hset, htier⟩
    exact ⟨p, hp, by rw [htier, decide_eq_true hset]; rfl⟩

theorem isSome_effective :
    (effective hasTerm productId refers l setId).isSome = true ↔ ∃ p ∈ l, p.1 = setId ∧
      (namesProduct refers p.2 = true ∨ namesTerm hasTerm productId p.2 = true ∨
        namesAll p.2 = true) := by
  unfold effective
  rw [Option.isSome_or, Option.isSome_or, Bool.or_eq_true, Bool.or_eq_true, isSome_claimOf,
    isSome_claimOf, isSome_claimOf]
  constructor
  · rintro (⟨p, hp, hset, h⟩ | ⟨p, hp, hset, h⟩ | ⟨p, hp, hset, h⟩)
    · exact ⟨p, hp, hset, Or.inl h⟩
    · exact ⟨p, hp, hset, Or.inr (Or.inl h)⟩
    · exact ⟨p, hp, hset, Or.inr (Or.inr h)⟩
  · rintro ⟨p, hp, hset, h | h | h⟩
    · exact Or.inl ⟨p, hp, hset, h⟩
    · exact Or.inr (Or.inl ⟨p, hp, hset, h⟩)
    · exact Or.inr (Or.inr ⟨p, hp, hset, h⟩)

theorem sorted_perm (index : ProductIndex) (hasTerm : String → String → ℤ → Bool) (productId : ℤ) :
    (asortEntries (ksort (merged index hasTerm productId)).entries).Perm
      (merged index hasTerm productId).entries :=
  (List.perm_insertionSort _ _).trans (entries_ksort _)

theorem mem_forProduct (hpos : 0 < productId) (document : Value) (setId : String) :
    setId ∈ forProduct (build document) hasTerm productId ↔
      (effective hasTerm productId (casts productId) (assignments document) setId).isSome = true := by
  unfold forProduct
  rw [((sorted_perm (build document) hasTerm productId).map Prod.fst).mem_iff, ← get?_merged hpos,
    OrderedMap.isSome_get?]
  rfl

/-- PHP's comparison of keys orders the ids of a document's sets. -/
def IdsOrdered (l : List (String × Value)) : Prop :=
  Sorting.Orders (fun a b => keyLe a b = true) {setId | ∃ p ∈ l, p.1 = setId}

theorem keysOrdered_merged (hasTerm : String → String → ℤ → Bool) (hpos : 0 < productId)
    {document : Value} (hids : IdsOrdered (assignments document)) :
    KeysOrdered (merged (build document) hasTerm productId) := by
  refine Sorting.Orders.mono hids fun setId hmem => ?_
  obtain ⟨p, hp, hset, -⟩ := isSome_effective.1
    (get?_merged hpos document setId ▸ OrderedMap.isSome_get?.2 hmem)
  exact ⟨p, hp, hset⟩

/-- **The index answers like a scan by cast references.** -/
theorem answers_casts (hasTerm : String → String → ℤ → Bool) (hpos : 0 < productId)
    {document : Value} (hids : IdsOrdered (assignments document)) :
    Answers hasTerm productId (casts productId) (assignments document)
      (forProduct (build document) hasTerm productId) := by
  have hperm := sorted_perm (build document) hasTerm productId
  refine ⟨?_, fun setId => ?_, ?_⟩
  · exact (hperm.map Prod.fst).nodup_iff.2 (merged (build document) hasTerm productId).nodup
  · rw [mem_forProduct hpos, isSome_effective]
  · have hsorted := Sorting.pairwise_lex_insertionSort (r := fun p q : String × ℤ => p.2 ≤ q.2)
      (fun p q => le_total p.2 q.2) (fun p q t => le_trans)
      (pairwise_ksort (keysOrdered_merged hasTerm hpos hids))
    have hentry : ∀ p ∈ asortEntries (ksort (merged (build document) hasTerm productId)).entries,
        effective hasTerm productId (casts productId) (assignments document) p.1 = some p.2 := by
      intro p hp
      rw [← get?_merged hpos]
      exact OrderedMap.get?_eq_some.2 (hperm.mem_iff.1 hp)
    unfold forProduct
    rw [List.pairwise_map]
    refine hsorted.imp_of_mem fun hp hq hlex m n hm hn => ?_
    rw [hentry _ hp] at hm
    rw [hentry _ hq] at hn
    obtain rfl := Option.some.inj hm
    obtain rfl := Option.some.inj hn
    rcases lt_or_eq_of_le hlex.1 with hlt | heq
    · exact Or.inl hlt
    · exact Or.inr ⟨heq, hlex.2 heq.ge⟩

/-! ## Casts and what references denote -/

/-- Readings of references that agree on the assignments to products give the
same claims. -/
theorem effective_congr (h : ∀ p ∈ l, namesProduct refers p.2 = namesProduct refers' p.2)
    (setId : String) :
    effective hasTerm productId refers l setId = effective hasTerm productId refers' l setId := by
  have hclaim : claimOf (namesProduct refers) l setId = claimOf (namesProduct refers') l setId := by
    unfold claimOf
    rw [find?_congr_of_mem fun p hp => by rw [h p hp]]
  unfold effective
  rw [hclaim]

theorem Answers.congr {ids : List String}
    (h : ∀ p ∈ l, namesProduct refers p.2 = namesProduct refers' p.2)
    (hids : Answers hasTerm productId refers l ids) : Answers hasTerm productId refers' l ids := by
  refine ⟨hids.nodup, fun setId => ?_, ?_⟩
  · rw [hids.mem setId, ← isSome_effective, ← isSome_effective, effective_congr h]
  · simpa only [effective_congr h] using hids.sorted

/-- **The product index answers like a scan of the document where no reference
is cast to a product it does not denote**, nor away from one it does; and the
right sets are listed exactly where each set that such a reference gains or
loses is assigned to the product otherwise too. -/
theorem forProduct_scan (document : Value) (hasTerm : String → String → ℤ → Bool) (productId : ℤ)
    (hpos : 0 < productId) (hids : IdsOrdered (assignments document)) :
    ((∀ p ∈ assignments document,
        namesProduct (casts productId) p.2 = namesProduct (denotes productId) p.2) →
      Answers hasTerm productId (denotes productId) (assignments document)
        (forProduct (build document) hasTerm productId)) ∧
    ((∀ setId, setId ∈ forProduct (build document) hasTerm productId ↔
        ∃ p ∈ assignments document, p.1 = setId ∧ (namesProduct (denotes productId) p.2 = true ∨
          namesTerm hasTerm productId p.2 = true ∨ namesAll p.2 = true)) ↔
      ∀ setId, (∀ p ∈ assignments document, p.1 = setId →
          namesTerm hasTerm productId p.2 = false ∧ namesAll p.2 = false) →
        ((∃ p ∈ assignments document, p.1 = setId ∧ namesProduct (casts productId) p.2 = true) ↔
          ∃ p ∈ assignments document, p.1 = setId ∧
            namesProduct (denotes productId) p.2 = true)) := by
  have hanswers := answers_casts hasTerm hpos hids
  refine ⟨fun h => hanswers.congr h, fun h setId hother => ?_, fun h setId => ?_⟩
  · have hlisted := (hanswers.mem setId).symm.trans (h setId)
    constructor
    · rintro ⟨p, hp, hset, hcast⟩
      obtain ⟨q, hq, hset', hnames⟩ := hlisted.1 ⟨p, hp, hset, Or.inl hcast⟩
      obtain ⟨hterm, hall⟩ := hother q hq hset'
      rw [hterm, hall] at hnames
      exact ⟨q, hq, hset', by simpa using hnames⟩
    · rintro ⟨p, hp, hset, hdenotes⟩
      obtain ⟨q, hq, hset', hnames⟩ := hlisted.2 ⟨p, hp, hset, Or.inl hdenotes⟩
      obtain ⟨hterm, hall⟩ := hother q hq hset'
      rw [hterm, hall] at hnames
      exact ⟨q, hq, hset', by simpa using hnames⟩
  · rw [hanswers.mem setId]
    by_cases hother : ∃ p ∈ assignments document, p.1 = setId ∧
        (namesTerm hasTerm productId p.2 = true ∨ namesAll p.2 = true)
    · obtain ⟨p, hp, hset, hnames⟩ := hother
      exact iff_of_true ⟨p, hp, hset, Or.inr hnames⟩ ⟨p, hp, hset, Or.inr hnames⟩
    · have hnone : ∀ p ∈ assignments document, p.1 = setId →
          namesTerm hasTerm productId p.2 = false ∧ namesAll p.2 = false := by
        intro p hp hset
        constructor
        · by_contra hterm
          exact hother ⟨p, hp, hset, Or.inl (Bool.not_eq_false _ ▸ hterm)⟩
        · by_contra hall
          exact hother ⟨p, hp, hset, Or.inr (Bool.not_eq_false _ ▸ hall)⟩
      have honly : ∀ refers : Value → Bool, (∃ p ∈ assignments document, p.1 = setId ∧
          (namesProduct refers p.2 = true ∨ namesTerm hasTerm productId p.2 = true ∨
            namesAll p.2 = true)) ↔
          ∃ p ∈ assignments document, p.1 = setId ∧ namesProduct refers p.2 = true := by
        intro refers
        constructor
        · rintro ⟨p, hp, hset, hnames⟩
          rw [(hnone p hp hset).1, (hnone p hp hset).2] at hnames
          exact ⟨p, hp, hset, by simpa using hnames⟩
        · rintro ⟨p, hp, hset, hnames⟩
          exact ⟨p, hp, hset, Or.inl hnames⟩
      rw [honly, honly]
      exact h setId hnone

/-- A document of one set, assigned to a product by a reference. -/
def oneSet (ref : String) : Value :=
  .arr [("option_sets", .ofList [.arr [("id", .str "set-a"), ("assignments", .ofList [.arr
    [("mode", .str "manual"), ("target_type", .str "product"), ("target_ref", .str ref)]])]])]

theorem idsOrdered_oneSet (ref : String) : IdsOrdered (assignments (oneSet ref)) := by
  have hid : ∀ setId ∈ {setId | ∃ p ∈ assignments (oneSet ref), p.1 = setId}, setId = "set-a" := by
    rintro setId ⟨p, hp, rfl⟩
    obtain rfl := List.mem_singleton.1 hp
    rfl
  refine ⟨fun a ha b hb => ?_, fun a ha b hb _ _ => ?_, fun a ha b hb c hc _ _ => ?_⟩
  · exact keyLe_total a b
  · rw [hid a ha, hid b hb]
  · rw [hid a ha, hid c hc]
    decide +kernel

/-- A padded reference is found. -/
theorem forProduct_scan_padded :
    Answers (fun _ _ _ => false) 20 (denotes 20) (assignments (oneSet "020"))
      (forProduct (build (oneSet "020")) (fun _ _ _ => false) 20) :=
  (forProduct_scan (oneSet "020") (fun _ _ _ => false) 20 (by decide) (idsOrdered_oneSet "020")).1
    (by decide +kernel)

/-- **A reference that opens with digits is indexed under another product**:
it denotes none, and its set is listed for the one it is cast to. -/
theorem not_forall_answers :
    ¬ ∀ (document : Value) (hasTerm : String → String → ℤ → Bool) (productId : ℤ), 0 < productId →
      Answers hasTerm productId (denotes productId) (assignments document)
        (forProduct (build document) hasTerm productId) := by
  intro h
  have hmem := ((h (oneSet "20abc") (fun _ _ _ => false) 20 (by decide)).mem "set-a").1
    (by decide +kernel)
  obtain ⟨p, hp, -, hnames⟩ := hmem
  obtain rfl := List.mem_singleton.1 hp
  exact absurd hnames (by decide +kernel)

end ProductIndex

end Optionia.Config
