import Optionia.Cart.Payload
import Optionia.Engine.Resubmission
import Optionia.Php.Query
/-!
# The key of a cart line

WooCommerce keys a cart line by a hash over the product, the variation and
the data of all plugins. `CartItemKey::filter` hashes the same without what
`prune` takes away. So the key of a line says which selections it holds, and
nothing else of Optionia (`key_of_line`): two lines have one key where their
selections read alike and `ksort` orders their ids. Ids that read as numbers
may tie, and then the order of the request is left in the key
(`same_selections_two_keys`).
-/

namespace Optionia.Cart

open Php Engine Engine.SelectionResolver

/-! ## The key -/

def implode (separator : Char) (parts : List String) : String :=
  String.ofList ([separator].intercalate (parts.map String.toList))

/-- What is hashed of an array: keys and values, trimmed. -/
def concatenated (parts : List (String × String)) : String :=
  String.ofList (parts.flatMap fun p => (trim p.1 ++ trim p.2).toList)

/-- The text of a datum: a query where it is an array or an object. -/
def Datum.text : Datum → String
  | .value (.arr es) => httpBuildQuery (.arr es)
  | .value v => v.castString
  | .object query => query

def idParts (productId variationId : ℤ) (variation : List (String × Value)) (data : CartItemData) :
    List String :=
  [toString productId] ++
    (if variationId ≠ 0 then [toString variationId] else []) ++
    (if variation ≠ [] then [concatenated (variation.map fun p => (p.1, p.2.castString))]
      else []) ++
    (if data.entries ≠ [] then [concatenated (data.entries.map fun p => (p.1, p.2.text))] else [])

def recompute (md5 : String → String) (productId variationId : ℤ)
    (variation : List (String × Value)) (data : CartItemData) : String :=
  md5 (implode '_' (idParts productId variationId variation data))

/-- `isset( $cart_item_data[ CART_ITEM_KEY ] )` -/
def isSet (data : CartItemData) : Bool :=
  match data.get? cartItemKey with
  | none => false
  | some (.value .null) => false
  | some _ => true

/-- The entries of an array, and none of anything else. -/
def entriesOf : Value → List (String × Value)
  | .arr es => es
  | _ => []

/-- `CartItemKey::filter`; `none` is data that is no array. -/
def filter (md5 : String → String) (cartId : String) (productId variationId variation : Value)
    (data : Option CartItemData) : String :=
  match data with
  | none => cartId
  | some data =>
    if !isSet data then cartId
    else if recompute md5 (intOf productId) (intOf variationId) (entriesOf variation) data ≠ cartId
      then cartId
    else recompute md5 (intOf productId) (intOf variationId) (entriesOf variation) (prune data)

/-! ## Lines -/

/-- A line of a product, and its selections: attached on some site, or rebuilt
from an order line. -/
inductive Line (P : Platform) (other : CartItemData) (productId variationId : Value) :
    OrderedMap String Value → CartItemData → Prop
  | attached (wpHash : String → String) (site : Site) (request : OrderedMap String Value)
    (r : Resolution) (data : CartItemData) (hid : intOf productId ≠ 0)
    (hsets : site.optionSetsForProduct (intOf productId) ≠ [])
    (hresolve : resolve P (site.optionSetsForProduct (intOf productId)) request
      (site.basePrice (intOf productId) (intOf variationId)) site.today = .ok r)
    (hne : r.resolved.entries ≠ [])
    (hattach : attach P wpHash site request other productId variationId = some data) :
    Line P other productId variationId r.resolved data
  | rebuilt (decoded : Value) (hne : (selectionsFrom decoded).entries ≠ []) :
    Line P other productId variationId (selectionsFrom decoded) (rebuild other decoded)

def identity (selections : OrderedMap String Value) : Datum :=
  .value (.arr [(cartItemSelections, ofMap (ksort selections))])

variable {P : Platform} {other data data' : CartItemData}
  {productId variationId variation : Value} {selections selections' : OrderedMap String Value}

variable {request : OrderedMap String Value} {later : List (String × Datum)}
  {es : List (String × Value)}

/-- What `attach` writes of a resolution. -/
theorem attach_eq {wpHash : String → String} {site : Site} {r : Resolution}
    (hid : intOf productId ≠ 0) (hsets : site.optionSetsForProduct (intOf productId) ≠ [])
    (hresolve : resolve P (site.optionSetsForProduct (intOf productId)) request
      (site.basePrice (intOf productId) (intOf variationId)) site.today = .ok r)
    (hne : r.resolved.entries ≠ []) : attach P wpHash site request other productId variationId =
      some (other.set cartItemKey (.value (payload wpHash site.configVersion r))) := by
  unfold attach
  dsimp only
  rw [if_neg hid, if_neg hsets, hresolve]
  exact if_neg hne

theorem filter_payload (wpHash : String → String) (version : ℤ) (r : Resolution) :
    ∃ es, payload wpHash version r = .arr es ∧
      es.filter (fun p => decide (p.1 ∉ auditKeys)) =
        [(cartItemSelections, ofMap (ksort r.resolved))] := by
  unfold payload
  dsimp only
  split_ifs
  · exact ⟨_, rfl, rfl⟩
  · exact ⟨_, rfl, rfl⟩

/-- **A line holds an entry that is pruned to its selections**, whichever way
it was written. -/
theorem Line.entry (h : Line P other productId variationId selections data) :
    ∃ es, data = other.set cartItemKey (.value (.arr es)) ∧
      es.filter (fun p => decide (p.1 ∉ auditKeys)) =
        [(cartItemSelections, ofMap (ksort selections))] := by
  cases h with
  | attached wpHash site request r data hid hsets hresolve hne hattach =>
    rw [attach_eq hid hsets hresolve hne] at hattach
    obtain rfl := Option.some.inj hattach
    obtain ⟨es, hpayload, hfilter⟩ := filter_payload wpHash site.configVersion r
    exact ⟨es, by rw [hpayload], hfilter⟩
  | rebuilt decoded hne =>
    unfold rebuild
    rw [if_neg hne]
    exact ⟨_, rfl, rfl⟩

/-- **A line is pruned to its selections**, whatever else other plugins write
after. -/
theorem Line.prune (h : Line P other productId variationId selections data)
    (hlater : ∀ p ∈ later, p.1 ≠ cartItemKey) :
    isSet (data.setAll later) = true ∧ Cart.prune (data.setAll later) =
      (other.set cartItemKey (identity selections)).setAll later := by
  obtain ⟨es, rfl, hfilter⟩ := h.entry
  have hread := OrderedMap.get?_set_self other cartItemKey (Datum.value (.arr es))
  have hget := (OrderedMap.setAll_of_get? hread (identity selections) hlater).1
  refine ⟨?_, ?_⟩
  · unfold isSet
    rw [hget]
  · unfold Cart.prune
    rw [hget]
    dsimp only
    rw [hfilter]
    change OrderedMap.set _ _ (identity selections) = _
    rw [(OrderedMap.setAll_of_get? hread (identity selections) hlater).2, OrderedMap.set_set]

theorem Line.stored (h : Line P other productId variationId selections data) :
    (∀ p ∈ selections.entries, Stored p.2) ∧ selections.entries ≠ [] := by
  cases h with
  | attached wpHash site request r data hid hsets hresolve hne hattach =>
    exact ⟨fun p hp => stored_of_resolve hresolve p.1 p.2 (OrderedMap.get?_eq_some.2 hp), hne⟩
  | rebuilt decoded hne =>
    exact ⟨fun p hp => stored_of_selectionsFrom decoded p.1 p.2 (OrderedMap.get?_eq_some.2 hp),
      hne⟩

/-! ## The query of selections -/

/-- The leaves of an answer: where below the option they stand, and their
text. -/
def leaves : Value → List (String × String)
  | .str s => [("", s)]
  | .arr es => es.map fun p => ("[" ++ p.1 ++ "]", p.2.castString)
  | _ => []

def leafName (id suffix : String) : String := cartItemSelections ++ "[" ++ id ++ "]" ++ suffix

/-- The leaves of an option's answer, under their names. -/
def leavesOf (p : String × Value) : List (String × String) :=
  (leaves p.2).map fun leaf => (leafName p.1 leaf.1, leaf.2)

theorem leaves_ofList (ss : List String) : (leaves (.ofList (ss.map .str))).map Prod.snd = ss := by
  have hitems := Value.items_ofList (ss.map .str)
  unfold Value.ofList Value.items at hitems
  dsimp only at hitems
  unfold Value.ofList leaves
  rw [List.map_map]
  change List.map (Value.castString ∘ Prod.snd) _ = ss
  rw [← List.map_map, hitems, List.map_map]
  exact List.map_id ss

theorem leaves_ne_nil {v : Value} (h : Stored v) : leaves v ≠ [] := by
  cases h with
  | one s => exact List.cons_ne_nil _ _
  | many ss hne =>
    intro hnil
    have hleaves := leaves_ofList ss
    rw [hnil] at hleaves
    exact hne hleaves.symm

/-- **Answers with the same leaves are the same.** -/
theorem leaves_injective {v w : Value} (hv : Stored v) (hw : Stored w)
    (h : leaves v = leaves w) : v = w := by
  -- A leaf of a list stands in brackets, and a text does not.
  have hbracket : ∀ (s : String) (ss : List String),
      leaves (.str s) ≠ leaves (.ofList (ss.map .str)) := by
    intro s ss heq
    unfold Value.ofList leaves at heq
    dsimp only at heq
    have hmem : ("", s) ∈ [("", s)] := List.mem_singleton_self _
    rw [heq] at hmem
    obtain ⟨p, -, hp⟩ := List.mem_map.1 hmem
    have hlength := congrArg (fun q : String × String => q.1.length) hp
    simp only [String.length_append] at hlength
    exact absurd hlength (by
      change 1 + p.1.length + 1 ≠ 0
      omega)
  cases hv with
  | one s =>
    cases hw with
    | one t => rw [(Prod.mk.inj (List.cons.inj h).1).2]
    | many ss hne => exact absurd h (hbracket s ss)
  | many ss hne =>
    cases hw with
    | one t => exact absurd h.symm (hbracket t ss)
    | many ts hne' => rw [← leaves_ofList ss, h, leaves_ofList ts]

theorem queryEntries_texts (n : String) (h : ∀ p ∈ es, ∃ s, p.2 = .str s) :
    queryEntries (urlencode n) es =
      es.map fun p => spellPair (n ++ ("[" ++ p.1 ++ "]")) p.2.castString := by
  induction es with
  | nil =>
    rw [queryEntries]
    rfl
  | cons p es ih =>
    obtain ⟨s, hs⟩ := h p List.mem_cons_self
    obtain ⟨k, v⟩ := p
    obtain rfl : v = .str s := hs
    rw [queryEntries, queryPairs, ih fun p hp => h p (List.mem_cons_of_mem _ hp), List.map_cons]
    · unfold spellPair
      rw [urlencode_append, urlencode_append, urlencode_append]
      simp only [List.append_assoc, List.singleton_append]
    all_goals simp

theorem queryPairs_stored (n : String) {v : Value} (h : Stored v) :
    queryPairs (urlencode n) v = (leaves v).map fun leaf => spellPair (n ++ leaf.1) leaf.2 := by
  cases h with
  | one s =>
    rw [queryPairs]
    · unfold leaves spellPair
      rw [List.map_singleton, String.append_empty]
      rfl
    all_goals simp
  | many ss hne =>
    have hitems := Value.items_ofList (ss.map .str)
    unfold Value.ofList at hitems ⊢
    rw [queryPairs, queryEntries_texts n, leaves, List.map_map]
    · rfl
    · intro p hp
      have hmem : p.2 ∈ ss.map Value.str := by
        rw [← hitems]
        exact List.mem_map_of_mem hp
      obtain ⟨s, -, hs⟩ := List.mem_map.1 hmem
      exact ⟨s, hs.symm⟩

/-- **The query of selections spells their leaves.** -/
theorem httpBuildQuery_selections (h : ∀ p ∈ es, Stored p.2) :
    httpBuildQuery (.arr [(cartItemSelections, .arr es)]) = String.ofList
      (['&'].intercalate ((es.flatMap leavesOf).map fun q => spellPair q.1 q.2)) := by
  have hentries : queryEntries (urlencode cartItemSelections) es =
      (es.flatMap leavesOf).map fun q => spellPair q.1 q.2 := by
    induction es with
    | nil =>
      rw [queryEntries]
      rfl
    | cons p es ih =>
      have hname : urlencode cartItemSelections ++ urlencode "[" ++ urlencode p.1 ++ urlencode "]" =
          urlencode (cartItemSelections ++ "[" ++ p.1 ++ "]") := by
        rw [urlencode_append, urlencode_append, urlencode_append]
      rw [queryEntries, hname, queryPairs_stored _ (h p List.mem_cons_self),
        ih fun q hq => h q (List.mem_cons_of_mem _ hq), List.flatMap_cons, List.map_append,
        leavesOf, List.map_map]
      rfl
  unfold httpBuildQuery
  dsimp only
  rw [List.flatMap_singleton, queryPairs, hentries]

/-- The id in a leaf's name. -/
def idOf (name : String) : List Char :=
  (name.toList.drop (cartItemSelections ++ "[").length).takeWhile (· ≠ ']')

theorem idOf_leafName {id suffix : String} (h : ']' ∉ id.toList) :
    idOf (leafName id suffix) = id.toList := by
  unfold idOf leafName
  rw [String.toList_append, String.toList_append, String.toList_append, List.append_assoc,
    List.append_assoc, ← String.length_toList, List.drop_left,
    List.takeWhile_append_of_pos fun c hc => decide_eq_true (ne_of_mem_of_not_mem hc h)]
  exact List.append_nil _

theorem labelled_leavesOf : Labelled leavesOf (fun p => p.1.toList) (fun leaf => idOf leaf.1)
    {p : String × Value | Stored p.2 ∧ ']' ∉ p.1.toList} := by
  refine ⟨fun p hp hnil => ?_, fun p hp leaf hleaf => ?_, fun p hp q hq hlabel hgroup => ?_⟩
  · exact leaves_ne_nil hp.1 (List.map_eq_nil_iff.1 hnil)
  · obtain ⟨_, -, rfl⟩ := List.mem_map.1 hleaf
    exact idOf_leafName hp.2
  · have hid : p.1 = q.1 := String.toList_injective hlabel
    unfold leavesOf at hgroup
    rw [hid] at hgroup
    refine Prod.ext hid (leaves_injective hp.1 hq.1 (List.map_injective_iff.2 ?_ hgroup))
    intro a b hab
    obtain ⟨hname, htext⟩ := Prod.mk.inj hab
    unfold leafName at hname
    exact Prod.ext (String.append_right_inj _ |>.1 hname) htext

/-- **A query is read back as the selections it spells.** -/
theorem entries_of_query {es fs : List (String × Value)} (hes : ∀ p ∈ es, Stored p.2)
    (hfs : ∀ p ∈ fs, Stored p.2) (hids : ∀ p ∈ es, ']' ∉ p.1.toList)
    (hids' : ∀ p ∈ fs, ']' ∉ p.1.toList) (hnodup : (es.map Prod.fst).Nodup)
    (hnodup' : (fs.map Prod.fst).Nodup) (hne : es ≠ []) (hne' : fs ≠ [])
    (h : httpBuildQuery (.arr [(cartItemSelections, .arr es)]) =
      httpBuildQuery (.arr [(cartItemSelections, .arr fs)])) : es = fs := by
  have hsome : ∀ es : List (String × Value), es ≠ [] → (∀ p ∈ es, Stored p.2) →
      es.flatMap leavesOf ≠ [] := by
    intro es hne hstored hnil
    obtain ⟨p, hp⟩ := List.exists_mem_of_ne_nil es hne
    exact leaves_ne_nil (hstored p hp) (List.map_eq_nil_iff.1 (List.flatMap_eq_nil_iff.1 hnil p hp))
  have hlabels : ∀ es : List (String × Value), (es.map Prod.fst).Nodup →
      (es.map fun p => p.1.toList).Nodup := by
    intro es hnodup
    have hmap := hnodup.map fun _ _ heq => String.toList_injective heq
    rwa [List.map_map] at hmap
  rw [httpBuildQuery_selections hes, httpBuildQuery_selections hfs] at h
  have hleaves := map_spellPair_inj (hsome es hne hes) (hsome fs hne' hfs) (String.ofList_injective h)
  exact labelled_leavesOf.flatMap_injective (fun p hp => ⟨hes p hp, hids p hp⟩)
    (fun p hp => ⟨hfs p hp, hids' p hp⟩) (hlabels es hnodup) (hlabels fs hnodup') hleaves

/-! ## The key of a line -/

/-- What precedes the last part of an imploded text does not depend on it. -/
theorem exists_implode (separator : Char) (init : List String) :
    ∃ before : List Char, ∀ last, implode separator (init ++ [last]) =
      String.ofList (before ++ last.toList) := by
  induction init with
  | nil =>
    refine ⟨[], fun last => ?_⟩
    unfold implode
    rw [List.nil_append, List.map_singleton, List.intercalate_singleton, List.nil_append]
  | cons part init ih =>
    obtain ⟨before, hbefore⟩ := ih
    refine ⟨part.toList ++ [separator] ++ before, fun last => ?_⟩
    have hrest := String.ofList_injective (hbefore last)
    unfold implode
    cases init with
    | nil =>
      rw [List.nil_append, List.map_singleton, List.intercalate_singleton] at hrest
      obtain rfl := List.self_eq_append_left.1 hrest
      rw [List.cons_append, List.nil_append, List.map_cons, List.map_singleton,
        List.intercalate_cons_cons, List.intercalate_singleton, List.append_nil]
    | cons next init =>
      rw [List.cons_append, List.map_cons] at hrest
      rw [List.cons_append, List.cons_append, List.map_cons, List.map_cons,
        List.intercalate_cons_cons, hrest, List.append_assoc, List.append_assoc, List.append_assoc]

theorem trim_httpBuildQuery (h : ∀ p ∈ es, Stored p.2) :
    trim (httpBuildQuery (.arr [(cartItemSelections, .arr es)])) =
      httpBuildQuery (.arr [(cartItemSelections, .arr es)]) := by
  rw [httpBuildQuery_selections h]
  exact trim_ofList (fun c hc => trimmed_query c (List.mem_of_mem_head? hc))
    fun c hc => trimmed_query c (List.mem_of_mem_getLast? hc)

theorem exists_idParts (productId variationId : ℤ) (variation : List (String × Value))
    (other : CartItemData) (hlater : ∀ p ∈ later, p.1 ≠ cartItemKey) :
    ∃ before after : List Char, ∀ d : Datum,
      implode '_' (idParts productId variationId variation
          ((other.set cartItemKey d).setAll later)) =
        String.ofList (before ++ ((trim d.text).toList ++ after)) := by
  obtain ⟨before, after, hentries⟩ := other.exists_entries_setAll cartItemKey hlater
  obtain ⟨parts, hparts⟩ := exists_implode '_' ([toString productId] ++
    (if variationId ≠ 0 then [toString variationId] else []) ++
    (if variation ≠ [] then [concatenated (variation.map fun p => (p.1, p.2.castString))] else []))
  let spell (p : String × Datum) : List Char := (trim p.1 ++ trim p.2.text).toList
  refine ⟨parts ++ (before.flatMap spell ++ (trim cartItemKey).toList), after.flatMap spell,
    fun d => ?_⟩
  have hne : ((other.set cartItemKey d).setAll later).entries ≠ [] := by
    rw [hentries d]
    exact List.append_ne_nil_of_right_ne_nil _ (List.cons_ne_nil _ _)
  unfold idParts
  rw [if_pos hne, hparts]
  unfold concatenated
  rw [String.toList_ofList, List.flatMap_map]
  change String.ofList
    (parts ++ List.flatMap spell ((other.set cartItemKey d).setAll later).entries) = _
  rw [hentries d, List.flatMap_append, List.flatMap_cons]
  change String.ofList (parts ++ (before.flatMap spell ++
    ((trim cartItemKey ++ trim d.text).toList ++ after.flatMap spell))) = _
  rw [String.toList_append]
  simp only [List.append_assoc]

/-- The key of a line, where WooCommerce's is the one recomputed: a hash of the
pruned data. -/
theorem Line.key (md5 : String → String) (h : Line P other productId variationId selections data)
    (hlater : ∀ p ∈ later, p.1 ≠ cartItemKey) :
    filter md5 (recompute md5 (intOf productId) (intOf variationId) (entriesOf variation)
        (data.setAll later)) productId variationId variation (some (data.setAll later)) =
      md5 (implode '_' (idParts (intOf productId) (intOf variationId) (entriesOf variation)
        ((other.set cartItemKey (identity selections)).setAll later))) := by
  obtain ⟨hset, hprune⟩ := h.prune hlater
  unfold filter
  dsimp only
  rw [hset, if_neg (by decide), if_neg (not_not.2 rfl), hprune]
  rfl

theorem Line.key_alone (md5 : String → String)
    (h : Line P other productId variationId selections data) :
    filter md5 (recompute md5 (intOf productId) (intOf variationId) (entriesOf variation) data)
        productId variationId variation (some data) =
      md5 (implode '_' (idParts (intOf productId) (intOf variationId) (entriesOf variation)
        (other.set cartItemKey (identity selections)))) :=
  h.key md5 (List.forall_mem_nil _)

variable {P' : Platform}

/-- **A line's key says its selections.** Whatever wrote two lines of one
product, with the same data of other plugins before and after: their keys
differ where their selections do, and agree where these read alike and `ksort`
orders their ids. Data without an entry keep the key they have. -/
theorem key_of_line {md5 : String → String} (hmd5 : Function.Injective md5)
    {generateCartId : Value → Value → Value → CartItemData → String}
    (hgenerate : ∀ p v a d, generateCartId p v a d =
      recompute md5 (intOf p) (intOf v) (entriesOf a) d)
    (h : Line P other productId variationId selections data)
    (h' : Line P' other productId variationId selections' data')
    {later : List (String × Datum)} (hlater : ∀ p ∈ later, p.1 ≠ cartItemKey)
    (hids : ∀ id ∈ selections.keys, ']' ∉ id.toList)
    (hids' : ∀ id ∈ selections'.keys, ']' ∉ id.toList) :
    let key (d : CartItemData) := filter md5 (generateCartId productId variationId variation d)
      productId variationId variation (some d)
    (key (data.setAll later) = key (data'.setAll later) →
        ∀ id, selections.get? id = selections'.get? id) ∧
      (KeysOrdered selections → (∀ id, selections.get? id = selections'.get? id) →
        key (data.setAll later) = key (data'.setAll later)) ∧
      ∀ cartId d, cartItemKey ∉ d.keys →
        filter md5 cartId productId variationId variation (some d) = cartId := by
  intro key
  obtain ⟨before, after, hparts⟩ := exists_idParts (intOf productId) (intOf variationId)
    (entriesOf variation) other hlater
  have hkey : ∀ {P : Platform} {selections : OrderedMap String Value} {data : CartItemData},
      Line P other productId variationId selections data →
      key (data.setAll later) = md5 (String.ofList (before ++
        ((trim (identity selections).text).toList ++ after))) := by
    intro P selections data h
    change filter md5 (generateCartId _ _ _ _) _ _ _ _ = _
    rw [hgenerate, h.key md5 hlater, hparts]
  have hstored : ∀ {P : Platform} {selections : OrderedMap String Value} {data : CartItemData},
      Line P other productId variationId selections data →
      ∀ p ∈ (ksort selections).entries, Stored p.2 := fun h p hp =>
    h.stored.1 p ((entries_ksort _).mem_iff.1 hp)
  refine ⟨fun heq => ?_, fun hordered hread => ?_, fun cartId d hnone => ?_⟩
  · rw [hkey h, hkey h'] at heq
    have htext := String.toList_injective (List.append_cancel_right (List.append_cancel_left
      (String.ofList_injective (hmd5 heq))))
    change trim (httpBuildQuery (.arr [(cartItemSelections, .arr (ksort selections).entries)])) =
      trim (httpBuildQuery (.arr [(cartItemSelections, .arr (ksort selections').entries)])) at htext
    rw [trim_httpBuildQuery (hstored h), trim_httpBuildQuery (hstored h')] at htext
    have hne : ∀ {m : OrderedMap String Value}, m.entries ≠ [] → (ksort m).entries ≠ [] :=
      fun hne hnil => hne (List.Perm.nil_eq (hnil ▸ entries_ksort _)).symm
    have hfree : ∀ {m : OrderedMap String Value}, (∀ id ∈ m.keys, ']' ∉ id.toList) →
        ∀ p ∈ (ksort m).entries, ']' ∉ p.1.toList := fun hids p hp =>
      hids p.1 (mem_keys_ksort.1 (List.mem_map_of_mem hp))
    have hentries := entries_of_query (hstored h) (hstored h') (hfree hids) (hfree hids')
      (ksort selections).nodup (ksort selections').nodup (hne h.stored.2) (hne h'.stored.2) htext
    intro id
    rw [← get?_ksort selections, ← get?_ksort selections', OrderedMap.ext hentries]
  · rw [hkey h, hkey h']
    unfold identity
    rw [ksort_eq_of_get? hordered hread]
  · unfold filter
    dsimp only
    have hset : isSet d = false := by
      unfold isSet
      rw [OrderedMap.get?_eq_none.2 hnone]
    rw [hset]
    rfl

/-! ## Ids that tie -/

/-- A site with two texts for product 7. -/
def textSite (id id' : String) : Site where
  optionSetsForProduct _ := oneGroup [field id "text" .null, field id' "text" .null] []
  configVersion := 3
  basePrice _ _ := 1000
  today := none

/-- Two answers, in the order of a request. -/
def twoAnswers (id answer id' answer' : String) : OrderedMap String Value :=
  (answers id answer).set id' (.str answer')

theorem get?_twoAnswers {id id' : String} (h : id ≠ id') (answer answer' k : String) :
    (twoAnswers id answer id' answer').get? k = (twoAnswers id' answer' id answer).get? k := by
  unfold twoAnswers answers
  rw [OrderedMap.get?_set, OrderedMap.get?_set, OrderedMap.get?_set, OrderedMap.get?_set]
  by_cases hk : k = id
  · rw [if_neg fun hk' => h (hk.symm.trans hk'), if_pos hk, if_pos hk]
  · rw [if_neg hk, if_neg hk]

/-- What a request resolves to on the site. -/
def resolvedOn (site : Site) (request : OrderedMap String Value) :
    Option (OrderedMap String Value) :=
  (resolve asciiPlatform (site.optionSetsForProduct 7) request (site.basePrice 7 0)
    site.today).value.map (·.resolved)

/-- The data of the line that a request attaches. -/
def attachedOn (site : Site) (request : OrderedMap String Value) : CartItemData :=
  (attach asciiPlatform id site request ∅ (.int 7) (.int 0)).getD ∅

/-- WooCommerce's key, by a hash that keeps all of a text. -/
def plainCartId (p v a : Value) (data : CartItemData) : String :=
  recompute id (intOf p) (intOf v) (entriesOf a) data

/-- The key of data of product 7. -/
def keyOf (data : CartItemData) : String :=
  filter id (plainCartId (.int 7) (.int 0) .null data) (.int 7) (.int 0) .null (some data)

theorem line_attachedOn {site : Site} {selections : OrderedMap String Value}
    (hsets : site.optionSetsForProduct 7 ≠ []) (h : resolvedOn site request = some selections)
    (hne : selections.entries ≠ []) :
    Line asciiPlatform ∅ (.int 7) (.int 0) selections (attachedOn site request) := by
  have hid : intOf (.int 7) = 7 := rfl
  have hvariation : intOf (.int 0) = 0 := rfl
  obtain ⟨r, hr, rfl⟩ := Option.map_eq_some_iff.1 h
  obtain ⟨r', hr'⟩ := eq_ok_of_value (Option.isSome_of_mem hr)
  rw [hr'] at hr
  obtain rfl : r' = r := Option.some.inj hr
  have hattach : attach asciiPlatform id site request ∅ (.int 7) (.int 0) =
      some ((∅ : CartItemData).set cartItemKey (.value (payload id site.configVersion r'))) := by
    refine attach_eq ?_ ?_ ?_ hne
    · rw [hid]
      decide
    · rw [hid]
      exact hsets
    · rw [hid, hvariation]
      exact hr'
  have hdata : attachedOn site request =
      (∅ : CartItemData).set cartItemKey (.value (payload id site.configVersion r')) := by
    unfold attachedOn
    rw [hattach]
    rfl
  rw [hdata]
  refine .attached id site request r' _ ?_ ?_ ?_ hne hattach
  · rw [hid]
    decide
  · rw [hid]
    exact hsets
  · rw [hid, hvariation]
    exact hr'

/-- A line and the same ordered again, its answers in another order, have one
key. -/
theorem key_of_line_again :
    keyOf (attachedOn (textSite "a" "b") (twoAnswers "b" "y" "a" "x")) =
      keyOf (rebuild ∅ (.arr [("a", .str "x"), ("b", .str "y")])) :=
  (key_of_line Function.injective_id (fun _ _ _ _ => rfl)
    (line_attachedOn (List.cons_ne_nil _ _) (by decide +kernel :
      resolvedOn (textSite "a" "b") (twoAnswers "b" "y" "a" "x") =
        some (twoAnswers "b" "y" "a" "x")) (List.cons_ne_nil _ _))
    (Line.rebuilt (.arr [("a", .str "x"), ("b", .str "y")]) (by decide +kernel) :
      Line asciiPlatform ∅ (.int 7) (.int 0) _ _)
    (List.forall_mem_nil _) (by decide +kernel) (by decide +kernel)).2.1
    (keysOrdered_of_not_numeric (by decide +kernel)) fun k => by
      rw [get?_twoAnswers (by decide)]
      rfl

/-- **The ids `1e1` and `10.0` tie**: answers that read alike have two keys,
by the order of the request. -/
theorem same_selections_two_keys :
    let request := twoAnswers "1e1" "x" "10.0" "y"
    let request' := twoAnswers "10.0" "y" "1e1" "x"
    resolvedOn (textSite "1e1" "10.0") request = some request ∧
      resolvedOn (textSite "1e1" "10.0") request' = some request' ∧
      (∀ k, request.get? k = request'.get? k) ∧
      keyOf (attachedOn (textSite "1e1" "10.0") request) ≠
        keyOf (attachedOn (textSite "1e1" "10.0") request') := by
  intro request request'
  have hresolved : resolvedOn (textSite "1e1" "10.0") request = some request := by decide +kernel
  have hresolved' : resolvedOn (textSite "1e1" "10.0") request' = some request' := by
    decide +kernel
  refine ⟨hresolved, hresolved', get?_twoAnswers (by decide) "x" "y", ?_⟩
  have hline := line_attachedOn (List.cons_ne_nil _ _) hresolved (List.cons_ne_nil _ _)
  have hline' := line_attachedOn (List.cons_ne_nil _ _) hresolved' (List.cons_ne_nil _ _)
  unfold keyOf plainCartId
  rw [hline.key_alone, hline'.key_alone]
  decide +kernel

end Optionia.Cart
