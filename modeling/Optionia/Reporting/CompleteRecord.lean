import Optionia.Reporting.FreeText
/-!
# The record of an order line

A line is written from a resolution: a row for each option, then the plugin's
own rows, which replace a row of the same key. The plugin's rows always stand
(`addHiddenMeta_spec`). The options' rows stand where their names are apart
(`get?_addVisibleMeta`). And what is ordered again from the line resolves to
the same answers and prices (`ordered_again`), read as the request was.
-/

namespace Optionia.Reporting

open Php Cart Engine Engine.SelectionResolver

/-! ## The plugin's own rows -/

/-- The keys the plugin writes: `HIDDEN_KEYS`. -/
def ownKeys : List String :=
  [metaSelections, metaConfigVersion, metaOptionSetId, metaOptionSets, metaPriceDelta,
    metaSkuSuffix]

theorem get?_addJsonMeta_ne (item : OrderItem) {key key' : String} (v : Value) (h : key' ≠ key) :
    (addJsonMeta item key v).metaData.get? key' = item.metaData.get? key' := by
  unfold addJsonMeta
  split
  · rfl
  · rw [get?_addMetaData, if_neg h]
  · rfl

theorem get?_addJsonMeta (item : OrderItem) (key : String) {es : List (String × Value)}
    (h : es ≠ []) :
    (addJsonMeta item key (.arr es)).metaData.get? key = some (wpJsonEncode (.arr es)) := by
  unfold addJsonMeta
  split
  · next hnil => exact absurd (Value.arr.inj hnil) h
  · next hes =>
    rw [get?_addMetaData, if_pos rfl, hes]
  · next hnone => exact absurd rfl (hnone es)

theorem get?_addVersionMeta_ne (item : OrderItem) (version : Value) {key : String}
    (h : key ≠ metaConfigVersion) :
    (addVersionMeta item version).metaData.get? key = item.metaData.get? key := by
  unfold addVersionMeta
  split
  · rw [get?_addMetaData, if_neg h]
  · rfl

theorem foldl_add_float (deltas : List (String × ℤ)) (x : Binary64) :
    (deltas.foldl (fun total p => Value.add total p.2) (.float x)).int? = none := by
  induction deltas generalizing x with
  | nil => rfl
  | cons p deltas ih => exact ih (x.add (.ofInt p.2))

variable {deltas : List (String × ℤ)} {shop : Shop} {item line : OrderItem}
  {selections : List (String × Value)} {P : Platform} {optionSets : List Value}
  {request : OrderedMap String Value} {base : ℤ} {today : Option String} {r : Resolution}

/-- **A sum that is an integer is the sum.** -/
theorem foldl_add {n total : ℤ}
    (h : (deltas.foldl (fun total p => Value.add total p.2) (.int n)).int? = some total) :
    total = n + (deltas.map Prod.snd).sum := by
  induction deltas generalizing n with
  | nil =>
    have hn : n = total := Option.some.inj h
    rw [← hn, List.map_nil, List.sum_nil, add_zero]
  | cons p deltas ih =>
    rw [List.foldl_cons] at h
    change (deltas.foldl _ (Value.ofNumber (n + p.2))).int? = some total at h
    rcases Value.ofNumber_cases (n + p.2) with hint | hfloat
    · rw [hint] at h
      rw [List.map_cons, List.sum_cons, ih h]
      omega
    · rw [hfloat, foldl_add_float] at h
      exact nomatch h

/-- The rows the plugin writes beside the options', as they are written. -/
structure OwnRows (shop : Shop) (selections : List (String × Value)) (optionia : Value)
    (line : OrderItem) : Prop where
  answers : line.metaData.get? metaSelections = some (wpJsonEncode (.arr selections))
  /-- The set of each option, where there is one. -/
  optionSets : ∀ es, optionia.field cartItemOptionSets = .arr es → es ≠ [] →
    line.metaData.get? metaOptionSets = some (wpJsonEncode (.arr es))
  /-- The suffixes of the SKU, where there is one. -/
  skuSuffix : ∀ es, optionia.field cartItemSkuSuffixes = .arr es → es ≠ [] →
    line.metaData.get? metaSkuSuffix = some (wpJsonEncode (.arr es))
  /-- The sum of the quote, where it is trusted. -/
  priceDelta : ∀ deltas, trustedDeltas shop.wpHash optionia selections = some deltas →
    deltas ≠ [] → line.metaData.get? metaPriceDelta =
      some (decimalString shop.priceDecimals (deltas.map Prod.snd).sum)

theorem addQuoteMeta_spec {item' : OrderItem} {version : Value}
    (h : addQuoteMeta shop item version deltas = some item') :
    (∀ key, key ≠ metaConfigVersion → key ≠ metaPriceDelta →
        item'.metaData.get? key = item.metaData.get? key) ∧
      item'.metaData.get? metaPriceDelta =
        some (decimalString shop.priceDecimals (deltas.map Prod.snd).sum) := by
  unfold addQuoteMeta at h
  obtain ⟨total, htotal, rfl⟩ := Option.map_eq_some_iff.1 h
  have hsum := foldl_add htotal
  rw [zero_add] at hsum
  refine ⟨fun key hversion hprice => ?_, ?_⟩
  · rw [get?_addMetaData, if_neg hprice, get?_addVersionMeta_ne _ _ hversion]
  · rw [get?_addMetaData, if_pos rfl, hsum]

/-- **The plugin's own rows stand**, and the rows of other keys as before. -/
theorem addHiddenMeta_spec {optionia : Value}
    (h : addHiddenMeta shop item selections optionia = some line) :
    (∀ key ∉ ownKeys, line.metaData.get? key = item.metaData.get? key) ∧
      OwnRows shop selections optionia line := by
  -- What stands before the quote is written.
  obtain ⟨setIds, before, hbefore, hcases⟩ : ∃ setIds before, before = addJsonMeta (addJsonMeta
      (addJsonMeta (item.addMetaData metaSelections (wpJsonEncode (.arr selections)))
        metaOptionSetId setIds) metaOptionSets (optionia.field cartItemOptionSets)) metaSkuSuffix
        (optionia.field cartItemSkuSuffixes) ∧
      (((trustedDeltas shop.wpHash optionia selections).getD [] = [] ∧ line = before) ∨
        ∃ deltas, trustedDeltas shop.wpHash optionia selections = some deltas ∧
          addQuoteMeta shop before (optionia.field cartItemConfigVersion) deltas = some line) := by
    unfold addHiddenMeta at h
    cases htrusted : trustedDeltas shop.wpHash optionia selections with
    | none =>
      rw [htrusted] at h
      exact ⟨_, _, rfl, .inl ⟨rfl, (Option.some.inj h).symm⟩⟩
    | some deltas =>
      rw [htrusted] at h
      cases deltas with
      | nil => exact ⟨_, _, rfl, .inl ⟨rfl, (Option.some.inj h).symm⟩⟩
      | cons delta deltas => exact ⟨_, _, rfl, .inr ⟨_, rfl, h⟩⟩
  have hother : ∀ key ∉ ownKeys, before.metaData.get? key = item.metaData.get? key := by
    intro key hkey
    unfold ownKeys at hkey
    simp only [List.mem_cons, not_or] at hkey
    rw [hbefore, get?_addJsonMeta_ne _ _ hkey.2.2.2.2.2.1, get?_addJsonMeta_ne _ _ hkey.2.2.2.1,
      get?_addJsonMeta_ne _ _ hkey.2.2.1, get?_addMetaData, if_neg hkey.1]
  have hselections : before.metaData.get? metaSelections =
      some (wpJsonEncode (.arr selections)) := by
    rw [hbefore, get?_addJsonMeta_ne _ _ (by decide), get?_addJsonMeta_ne _ _ (by decide),
      get?_addJsonMeta_ne _ _ (by decide), get?_addMetaData, if_pos rfl]
  have hsets : ∀ es, optionia.field cartItemOptionSets = .arr es → es ≠ [] →
      before.metaData.get? metaOptionSets = some (wpJsonEncode (.arr es)) := by
    intro es hes hne
    rw [hbefore, get?_addJsonMeta_ne _ _ (by decide), hes, get?_addJsonMeta _ _ hne]
  have hsuffix : ∀ es, optionia.field cartItemSkuSuffixes = .arr es → es ≠ [] →
      before.metaData.get? metaSkuSuffix = some (wpJsonEncode (.arr es)) := by
    intro es hes hne
    rw [hbefore, hes, get?_addJsonMeta _ _ hne]
  obtain ⟨hnone, rfl⟩ | ⟨deltas, htrusted, hquoted⟩ := hcases
  · refine ⟨hother, hselections, hsets, hsuffix, fun deltas htrusted hne => ?_⟩
    rw [htrusted, Option.getD_some] at hnone
    exact absurd hnone hne
  · obtain ⟨hkept, hprice⟩ := addQuoteMeta_spec hquoted
    refine ⟨fun key hkey => ?_, ?_, fun es hes hne => ?_, fun es hes hne => ?_,
      fun deltas' htrusted' _ => ?_⟩
    · rw [hkept key, hother key hkey]
      · rintro rfl
        exact hkey (by decide)
      · rintro rfl
        exact hkey (by decide)
    · rw [hkept _ (by decide) (by decide), hselections]
    · rw [hkept _ (by decide) (by decide), hsets es hes hne]
    · rw [hkept _ (by decide) (by decide), hsuffix es hes hne]
    · rw [htrusted] at htrusted'
      rw [hprice, Option.some.inj htrusted']

/-! ## The rows of the options -/

theorem get?_foldl_addMetaData {rows : List (String × String)} (hnodup : (rows.map Prod.fst).Nodup)
    {row : String × String} (hrow : row ∈ rows) :
    (rows.foldl (fun item row => item.addMetaData row.1 row.2) item).metaData.get? row.1 =
      some row.2 := by
  have hkept : ∀ (rows : List (String × String)) (item : OrderItem),
      row.1 ∉ rows.map Prod.fst →
      (rows.foldl (fun item row => item.addMetaData row.1 row.2) item).metaData.get? row.1 =
        item.metaData.get? row.1 := by
    intro rows
    induction rows with
    | nil => exact fun _ _ => rfl
    | cons next rows ih =>
      intro item hnot
      obtain ⟨hnext, hrest⟩ := not_or.1 fun h => hnot (List.mem_cons.2 h)
      rw [List.foldl_cons, ih _ hrest, get?_addMetaData, if_neg hnext]
  induction rows generalizing item with
  | nil => simp at hrow
  | cons next rows ih =>
    obtain ⟨hnext, hrest⟩ := List.nodup_cons.1 hnodup
    rw [List.foldl_cons]
    rcases List.mem_cons.1 hrow with rfl | hrow
    · rw [hkept rows _ hnext, get?_addMetaData, if_pos rfl]
    · exact ih hrest hrow

theorem get?_addVisibleMeta {optionia : Value} {row : String × Value → String × String}
    (hrows : ∀ p ∈ selections, visibleRow shop (optionia.field cartItemLabels)
      ((trustedDeltas shop.wpHash optionia selections).getD []) p = row p)
    (hnodup : (selections.map fun p => (row p).1).Nodup) {p : String × Value}
    (hp : p ∈ selections) :
    (addVisibleMeta shop item selections optionia).metaData.get? (row p).1 = some (row p).2 := by
  unfold addVisibleMeta
  dsimp only
  rw [List.map_congr_left hrows]
  refine get?_foldl_addMetaData ?_ (List.mem_map_of_mem hp)
  rwa [List.map_map]

/-- The option of an id, as the configuration has it. -/
def optionOf (optionSets : List Value) (id : String) : Value :=
  (indexOptions optionSets).getD id .null

/-- The price that is shown of an option: what it adds, where the quote is
trusted. -/
def priceShown (shop : Shop) (version : ℤ) (r : Resolution) (id : String) : Option ℤ :=
  if (trustedDeltas shop.wpHash (payload shop.wpHash version r) (ksort r.resolved).entries).isSome
  then (r.deltas.get? id).bind Value.int? else none

/-- The row of an option that was answered: its name, and the answer with its
price. -/
def rowShown (shop : Shop) (version : ℤ) (optionSets : List Value) (r : Resolution)
    (p : String × Value) : String × String :=
  (nameShown (optionOf optionSets p.1) p.1,
    withPrice shop (valueShown (optionOf optionSets p.1) p.2) (priceShown shop version r p.1))

@[simp] theorem rowShown_fst (shop : Shop) (version : ℤ) (optionSets : List Value) (r : Resolution)
    (p : String × Value) :
    (rowShown shop version optionSets r p).1 = nameShown (optionOf optionSets p.1) p.1 := by
  dsimp only [rowShown]

/-- **Every option that was answered has its row.** -/
def Shown (shop : Shop) (version : ℤ) (optionSets : List Value) (r : Resolution)
    (line : OrderItem) : Prop :=
  ∀ p ∈ r.resolved.entries, line.metaData.get? (rowShown shop version optionSets r p).1 =
    some (rowShown shop version optionSets r p).2

/-- The names of the options answered are apart: from each other, and from the
keys of the plugin's own rows. -/
structure NamesApart (optionSets : List Value) (r : Resolution) : Prop where
  each : ∀ id ∈ r.resolved.keys, ∀ id' ∈ r.resolved.keys,
    nameShown (optionOf optionSets id) id = nameShown (optionOf optionSets id') id' → id = id'
  own : ∀ id ∈ r.resolved.keys, nameShown (optionOf optionSets id) id ∉ ownKeys

theorem snapshot_of_resolve (h : resolve P optionSets request base today = .ok r) {id : String}
    {v : Value} (hv : r.resolved.get? id = some v) :
    id ∈ r.deltas.keys ∧ ∃ label, r.labels.get? id = some label ∧
      OptionLabel.name label id = nameShown (optionOf optionSets id) id ∧
      OptionLabel.value label v = valueShown (optionOf optionSets id) v := by
  obtain ⟨-, hconclude⟩ := resolve_eq_ok h
  obtain ⟨herrors, -, totalMinor, -, rfl⟩ := conclude_eq_ok hconclude
  have hholds := holds_takeAll herrors
  have hmem := OrderedMap.get?_eq_some.1 hv
  change (id, v) ∈ (takeAll _ request).chosen.entries at hmem
  rw [hholds.chosen] at hmem
  obtain ⟨⟨id', w⟩, hw, heq⟩ := List.mem_map.1 hmem
  obtain ⟨rfl, rfl⟩ := Prod.mk.inj heq
  obtain ⟨p, -, hp⟩ := List.mem_flatMap.1 hw
  obtain ⟨w', hwritten, heq'⟩ := Option.map_eq_some_iff.1 (Option.mem_toList.1 hp)
  obtain ⟨rfl, rfl⟩ := Prod.mk.inj heq'
  obtain ⟨option, hoption, hname, hvalue⟩ := label_written hwritten
  have hof : optionOf optionSets p.1 = option := by
    unfold optionOf OrderedMap.getD
    rw [show (indexOptions optionSets).get? p.1 = some option from hoption]
    rfl
  refine ⟨?_, w'.label, OrderedMap.get?_eq_some.2 ?_, ?_, ?_⟩
  · change p.1 ∈ (takeAll _ request).deltas.entries.map Prod.fst
    rw [hholds.deltas]
    exact List.mem_map.2 ⟨_, List.mem_map.2 ⟨_, hw, rfl⟩, rfl⟩
  · change _ ∈ (takeAll _ request).labels.entries
    rw [hholds.labels]
    exact List.mem_map.2 ⟨_, hw, rfl⟩
  · rw [hof]
    exact hname
  · rw [hof]
    exact hvalue

theorem field_payload_labels (wpHash : String → String) (version : ℤ) (r : Resolution)
    (id : String) : ((payload wpHash version r).field cartItemLabels).field id =
      (r.labels.get? id).getD .null := by
  have hlabels : (payload wpHash version r).field cartItemLabels = ofMap (ksort r.labels) := by
    unfold payload
    dsimp only
    split
    · rfl
    · rfl
  rw [hlabels, ← get?_ksort]
  rfl

theorem visibleRow_eq (h : resolve P optionSets request base today = .ok r) (shop : Shop)
    (version : ℤ) {p : String × Value} (hp : p ∈ (ksort r.resolved).entries) :
    visibleRow shop ((payload shop.wpHash version r).field cartItemLabels)
        ((trustedDeltas shop.wpHash (payload shop.wpHash version r)
          (ksort r.resolved).entries).getD []) p = rowShown shop version optionSets r p := by
  have hv : r.resolved.get? p.1 = some p.2 :=
    OrderedMap.get?_eq_some.2 ((entries_ksort r.resolved).mem_iff.1 hp)
  obtain ⟨-, label, hlabel, hname, hvalue⟩ := snapshot_of_resolve h hv
  have hprice : ((trustedDeltas shop.wpHash (payload shop.wpHash version r)
      (ksort r.resolved).entries).getD []).lookup p.1 = priceShown shop version r p.1 := by
    unfold priceShown
    cases htrusted : trustedDeltas shop.wpHash (payload shop.wpHash version r)
        (ksort r.resolved).entries with
    | none => rfl
    | some deltas =>
      obtain ⟨delta, hdelta, hlookup⟩ :=
        (trustedDeltas_payload htrusted).2 p.1 (OrderedMap.mem_keys_of_get? hv)
      rw [Option.getD_some, hlookup, Option.isSome_some, if_pos rfl, hdelta]
      rfl
  unfold visibleRow rowShown
  dsimp only
  rw [field_payload_labels, hlabel, Option.getD_some, hname, hvalue, hprice]

/-! ## The line -/

theorem ordered_eq {version : ℤ} {data : CartItemData} (hne : r.resolved.keys ≠ []) :
    ordered shop version data item r =
      addHiddenMeta shop (addVisibleMeta shop item (ksort r.resolved).entries
        (payload shop.wpHash version r)) (ksort r.resolved).entries
        (payload shop.wpHash version r) := by
  have hentries : (ksort r.resolved).entries ≠ [] := by
    intro hnil
    refine hne (List.eq_nil_iff_forall_not_mem.2 fun id hid => ?_)
    have hmem := mem_keys_ksort.2 hid
    unfold OrderedMap.keys at hmem
    rw [hnil] at hmem
    exact List.not_mem_nil hmem
  obtain ⟨p, es, hes⟩ := List.exists_cons_of_ne_nil hentries
  unfold ordered attach
  rw [OrderedMap.get?_set_self]
  dsimp only
  rw [field_payload_selections, hes]

/-- **The options' rows stand where their names are apart.** -/
theorem shown_ordered (h : resolve P optionSets request base today = .ok r)
    (hne : r.resolved.keys ≠ []) (hapart : NamesApart optionSets r) {version : ℤ}
    {data : CartItemData} (hline : ordered shop version data item r = some line) :
    Shown shop version optionSets r line := by
  rw [ordered_eq hne] at hline
  obtain ⟨hkept, -⟩ := addHiddenMeta_spec hline
  intro p hp
  have hkey : p.1 ∈ r.resolved.keys := List.mem_map_of_mem hp
  have hnames : ((ksort r.resolved).entries.map fun p =>
      (rowShown shop version optionSets r p).1).Nodup := by
    refine List.Nodup.map_on (fun p hp q hq heq => ?_)
      (List.Nodup.of_map Prod.fst (ksort r.resolved).nodup)
    rw [rowShown_fst, rowShown_fst] at heq
    have hpq := hapart.each p.1 (mem_keys_ksort.1 (List.mem_map_of_mem hp)) q.1
      (mem_keys_ksort.1 (List.mem_map_of_mem hq)) heq
    exact List.inj_on_of_nodup_map (ksort r.resolved).nodup hp hq hpq
  have hrows : ∀ q ∈ (ksort r.resolved).entries,
      visibleRow shop ((payload shop.wpHash version r).field cartItemLabels)
        ((trustedDeltas shop.wpHash (payload shop.wpHash version r)
          (ksort r.resolved).entries).getD []) q = rowShown shop version optionSets r q :=
    fun q hq => visibleRow_eq h shop version hq
  have hstands := @get?_addVisibleMeta shop item _ _ _ hrows hnames p
    ((entries_ksort r.resolved).mem_iff.2 hp)
  have hown : (rowShown shop version optionSets r p).1 ∉ ownKeys := by
    rw [rowShown_fst]
    exact hapart.own p.1 hkey
  rw [hkept _ hown, hstands]

/-! ## Ordering again -/

theorem replayed?_stored {v : Value} (h : Stored v) : replayed? v = some v := by
  cases h with
  | one s => rfl
  | many ss hne =>
    have htexts : ∀ p ∈ (ss.map Value.str).mapIdx (fun i v => (toString i, v)),
        p.2.isScalar = true ∧ Value.str p.2.castString = p.2 := by
      intro p hp
      obtain ⟨i, hi, rfl⟩ := List.mem_mapIdx.1 hp
      rw [List.getElem_map]
      exact ⟨rfl, rfl⟩
    have hne' : (ss.map Value.str).mapIdx (fun i v => (toString i, v)) ≠ [] := by
      simpa using hne
    unfold Value.ofList replayed?
    dsimp only
    rw [List.all_eq_true.2 fun p hp => (htexts p hp).1, Bool.true_and,
      List.isEmpty_eq_false_iff.2 hne', Bool.not_false, if_pos rfl,
      List.map_congr_left fun p hp => (htexts p hp).2]
    exact congrArg some (congrArg Value.ofList (Value.items_ofList (ss.map Value.str)))

/-- **Stored answers are replayed as they are.** -/
theorem selectionsFrom_stored {m : OrderedMap String Value} (h : ∀ p ∈ m.entries, Stored p.2) :
    selectionsFrom (.arr m.entries) = m := by
  have hfold : ∀ (es : List (String × Value)) (start : OrderedMap String Value),
      (∀ p ∈ es, Stored p.2) → es.foldl (fun selections p =>
        (replayed? p.2).elim selections (selections.set p.1)) start = start.setAll es := by
    intro es
    induction es with
    | nil => exact fun _ _ => rfl
    | cons p es ih =>
      intro start hes
      obtain ⟨hp, hrest⟩ := List.forall_mem_cons.1 hes
      rw [List.foldl_cons, replayed?_stored hp]
      exact ih _ hrest
  have hempty : ((∅ : OrderedMap String Value).keys ++ m.entries.map Prod.fst).Nodup := m.nodup
  refine (hfold m.entries ∅ h).trans (OrderedMap.ext ?_)
  rw [OrderedMap.entries_setAll_of_nodup hempty]
  rfl

/-- **What is ordered again from a line resolves to the same**: the same
answers and prices, under the configuration as it was. -/
def SameAgain (P : Platform) (optionSets : List Value) (base : ℤ) (today : Option String)
    (r : Resolution) (line : OrderItem) : Prop :=
  ∀ data : CartItemData, ∃ selections r',
    (rebuild data (jsonDecode (line.getMeta metaSelections))).get? cartItemKey =
        some (.value (.arr [(cartItemSelections, ofMap selections)])) ∧
      resolve P optionSets selections base today = .ok r' ∧
      (∀ id, r'.resolved.get? id = r.resolved.get? id) ∧
      ∀ id, r'.deltas.get? id = r.deltas.get? id

/-- What is ordered again from a line is what the line was written from, in
the order of its keys. -/
theorem rebuild_line (h : resolve P optionSets request base today = .ok r)
    (hne : r.resolved.keys ≠ [])
    (hline : line.getMeta metaSelections = wpJsonEncode (.arr (ksort r.resolved).entries))
    (data : CartItemData) :
    (rebuild data (jsonDecode (line.getMeta metaSelections))).get? cartItemKey =
      some (.value (.arr [(cartItemSelections, ofMap (ksort r.resolved))])) := by
  have hstored : ∀ p ∈ (ksort r.resolved).entries, Stored p.2 := fun p hp =>
    stored_of_resolve h p.1 p.2
      (OrderedMap.get?_eq_some.2 ((entries_ksort r.resolved).mem_iff.1 hp))
  have hentries : (ksort r.resolved).entries ≠ [] := fun hnil =>
    hne (List.map_eq_nil_iff.2 (List.perm_nil.1 (hnil ▸ (entries_ksort r.resolved).symm)))
  unfold rebuild
  rw [hline, decode_answers (ksort r.resolved).nodup hstored, selectionsFrom_stored hstored,
    if_neg hentries, OrderedMap.get?_set_self, ksort_ksort]

/-- **What is ordered again resolves to the same**, read as the request was,
where the prices can be summed in the order of the keys. -/
theorem ordered_again (h : resolve P optionSets request base today = .ok r)
    (hne : r.resolved.keys ≠ [])
    (hline : line.getMeta metaSelections = wpJsonEncode (.arr (ksort r.resolved).entries))
    (hstored : Restates P optionSets request r.resolved)
    (htotal : (total base (ksort r.deltas)).isSome = true) :
    SameAgain P optionSets base today r line := by
  intro data
  obtain ⟨r', hagain, hresolved, hdeltas⟩ := resolve_ksort h hstored htotal
  refine ⟨ksort r.resolved, r', rebuild_line h hne hline data, hagain, fun id => ?_, fun id => ?_⟩
  · rw [hresolved, get?_ksort]
  · rw [hdeltas, get?_ksort]

/-! ## The record -/

/-- **The order is a record of what was chosen.** The rows of the options stand
where their names are apart; the plugin's own rows stand as they were written;
and what is ordered again resolves to the same, read as the request was. Of a
resolution that stores nothing, nothing is written. -/
theorem complete_record {P : Platform} {optionSets : List Value}
    {request : OrderedMap String Value} {base : ℤ} {today : Option String} {r : Resolution}
    (h : resolve P optionSets request base today = .ok r) {shop : Shop} {version : ℤ}
    {data : CartItemData} {item line : OrderItem}
    (hline : ordered shop version data item r = some line) :
    (r.resolved.keys = [] ∧ line = item) ∨
      (NamesApart optionSets r → Shown shop version optionSets r line) ∧
        OwnRows shop (ksort r.resolved).entries (payload shop.wpHash version r) line ∧
        (Restates P optionSets request r.resolved → (total base (ksort r.deltas)).isSome = true →
          SameAgain P optionSets base today r line) := by
  rcases ordered_spec hline with hnone | ⟨hne, -, hanswers⟩
  · exact Or.inl hnone
  · have hown := hline
    rw [ordered_eq hne] at hown
    exact Or.inr ⟨fun hapart => shown_ordered h hne hapart hline, (addHiddenMeta_spec hown).2,
      ordered_again h hne hanswers⟩

/-- A padded number is recorded as it is read, and ordered again. -/
theorem complete_record_seven :
    ∃ r line, resolve asciiPlatform (oneGroup [field "q" "number" .null] []) (answers "q" "007") 1000
        none = .ok r ∧ ordered plainShop 1 ∅ plainItem r = some line ∧
      Shown plainShop 1 (oneGroup [field "q" "number" .null] []) r line ∧
      OwnRows plainShop (ksort r.resolved).entries (payload plainShop.wpHash 1 r) line ∧
      SameAgain asciiPlatform (oneGroup [field "q" "number" .null] []) 1000 none r line := by
  obtain ⟨r, line, hr, hline⟩ := @exists_ordered (oneGroup [field "q" "number" .null] [])
    (answers "q" "007") (by decide +kernel)
  have hfirst : ((resolve asciiPlatform (oneGroup [field "q" "number" .null] [])
      (answers "q" "007") 1000 none).value.map fun r =>
        (r.resolved, (total 1000 (ksort r.deltas)).isSome)) = some (answers "q" "7", true) := by
    decide +kernel
  rw [hr] at hfirst
  obtain ⟨hstored, htotal⟩ := Prod.mk.inj (Option.some.inj hfirst)
  have hkeys : r.resolved.keys = ["q"] := by
    rw [hstored]
    rfl
  have hapart : NamesApart (oneGroup [field "q" "number" .null] []) r := by
    refine ⟨fun id hid id' hid' _ => ?_, fun id hid => ?_⟩
    · rw [hkeys, List.mem_singleton] at hid hid'
      rw [hid, hid']
    · rw [hkeys, List.mem_singleton] at hid
      rw [hid]
      decide +kernel
  rcases complete_record hr hline with ⟨hnone, -⟩ | ⟨hshown, hown, hagain⟩
  · rw [hkeys] at hnone
    exact absurd hnone (List.cons_ne_nil _ _)
  · exact ⟨r, line, hr, hline, hshown hapart, hown, hagain (hstored ▸ restates_seven) htotal⟩

def twoEngravings : List Value :=
  oneGroup [.arr [("id", .str "a"), ("label", .str "Engraving"), ("type", .str "text"),
      ("value_kind", .str "text")],
    .arr [("id", .str "b"), ("label", .str "Engraving"), ("type", .str "text"),
      ("value_kind", .str "text")]] []

/-- **A line may not be ordered again, and a row may not stand**: the padded
seven of a rule is refused as it was stored, and of two options of one name
the second has the row. -/
theorem record_falls_short :
    (∃ r line, resolve asciiPlatform
        (oneGroup [field "q" "number" .null, field "note" "text" .null] [noteOnSeven])
        (answers "q" "007") 1000 none = .ok r ∧ ordered plainShop 1 ∅ plainItem r = some line ∧
      ¬ SameAgain asciiPlatform
        (oneGroup [field "q" "number" .null, field "note" "text" .null] [noteOnSeven]) 1000 none r
        line) ∧
    ∃ r line, resolve asciiPlatform twoEngravings ((answers "a" "Anna").set "b" (.str "Bob")) 1000
        none = .ok r ∧ ordered plainShop 1 ∅ plainItem r = some line ∧
      ¬ Shown plainShop 1 twoEngravings r line := by
  constructor
  · obtain ⟨r, line, hr, hline⟩ := @exists_ordered
      (oneGroup [field "q" "number" .null, field "note" "text" .null] [noteOnSeven])
      (answers "q" "007") (by decide +kernel)
    have hrefused : ((resolve asciiPlatform
        (oneGroup [field "q" "number" .null, field "note" "text" .null] [noteOnSeven])
        (answers "q" "007") 1000 none).value.map fun r => (r.resolved.keys.length,
          (resolve asciiPlatform
            (oneGroup [field "q" "number" .null, field "note" "text" .null] [noteOnSeven])
            (ksort r.resolved) 1000 none).value.isSome)) = some (1, false) := by decide +kernel
    rw [hr] at hrefused
    obtain ⟨hlength, hnone⟩ := Prod.mk.inj (Option.some.inj hrefused)
    refine ⟨r, line, hr, hline, fun hagain => ?_⟩
    rcases ordered_spec hline with ⟨hnil, -⟩ | ⟨hne, -, hanswers⟩
    · rw [hnil] at hlength
      exact absurd hlength (by decide)
    · obtain ⟨selections, r', hrebuilt, hr', -⟩ := hagain ∅
      rw [rebuild_line hr hne hanswers] at hrebuilt
      have hentries := List.head_eq_of_cons_eq
        (Value.arr.inj (Datum.value.inj (Option.some.inj hrebuilt)))
      obtain rfl : ksort r.resolved = selections :=
        OrderedMap.ext (Value.arr.inj (Prod.mk.inj hentries).2)
      rw [hr'] at hnone
      exact Bool.noConfusion hnone
  · obtain ⟨r, line, hr, hline⟩ := @exists_ordered twoEngravings
      ((answers "a" "Anna").set "b" (.str "Bob")) (by decide +kernel)
    have hrows : (resolve asciiPlatform twoEngravings ((answers "a" "Anna").set "b" (.str "Bob"))
        1000 none).value.map (fun r => (r.resolved.entries.head?,
          (ordered plainShop 1 ∅ plainItem r).map (·.metaData.get? "Engraving"),
          rowShown plainShop 1 twoEngravings r ("a", .str "Anna"))) =
        some (some ("a", .str "Anna"), some (some "Bob"), ("Engraving", "Anna")) := by
      decide +kernel
    rw [hr] at hrows
    obtain ⟨hfirst, hrest⟩ := Prod.mk.inj (Option.some.inj hrows)
    obtain ⟨hlast, hrow⟩ := Prod.mk.inj hrest
    rw [hline] at hlast
    refine ⟨r, line, hr, hline, fun hshown => ?_⟩
    have hstands := hshown _ (List.mem_of_mem_head? hfirst)
    have hbob : line.metaData.get? "Engraving" = some "Bob" := Option.some.inj hlast
    rw [hrow] at hstands
    exact absurd (hbob.symm.trans hstands) (by decide)

end Optionia.Reporting
