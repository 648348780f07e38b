import Optionia.Reporting.Listing
/-!
# What a report reads off a line

A line that was written from a resolution holds its answers in a row of their
own, whatever the options are called, and the report reads them back: a row
for each option that was answered, in the order they were stored, with the
line's amount on the first (`lineSelections_ordered`).
-/

namespace Optionia.Reporting

open Php Cart Engine Engine.SelectionResolver

/-! ## Rows -/

/-- **A row written stands, and the others as before.** -/
theorem get?_addMetaData (item : OrderItem) (key value key' : String) :
    (item.addMetaData key value).metaData.get? key' =
      if key' = key then some value else item.metaData.get? key' := by
  unfold OrderItem.addMetaData
  dsimp only
  rw [OrderedMap.get?_set, OrderedMap.get?_erase]
  split_ifs
  · rfl
  · rfl

theorem getMeta_addMetaData (item : OrderItem) (key value key' : String) :
    (item.addMetaData key value).getMeta key' = if key' = key then value else item.getMeta key' := by
  unfold OrderItem.getMeta OrderedMap.getD
  rw [get?_addMetaData]
  split_ifs
  · rfl
  · rfl

/-- An item of which rows were written: the same item, with the same rows
under the keys of `kept`. -/
structure Rewritten (kept : String → Prop) (item item' : OrderItem) : Prop where
  variationId : item'.variationId = item.variationId
  productId : item'.productId = item.productId
  quantity : item'.quantity = item.quantity
  getMeta : ∀ key, kept key → item'.getMeta key = item.getMeta key

namespace Rewritten

variable {kept : String → Prop} {item item' item'' : OrderItem}

theorem refl (item : OrderItem) : Rewritten kept item item := ⟨rfl, rfl, rfl, fun _ _ => rfl⟩

theorem trans (h : Rewritten kept item item') (h' : Rewritten kept item' item'') :
    Rewritten kept item item'' :=
  ⟨h'.variationId.trans h.variationId, h'.productId.trans h.productId,
    h'.quantity.trans h.quantity, fun key hkey => (h'.getMeta key hkey).trans (h.getMeta key hkey)⟩

theorem addMetaData {key : String} (value : String) (hkey : ¬ kept key) :
    Rewritten kept item (item.addMetaData key value) := by
  refine ⟨rfl, rfl, rfl, fun key' hkey' => ?_⟩
  rw [getMeta_addMetaData, if_neg]
  rintro rfl
  exact hkey hkey'

theorem addJsonMeta {key : String} (v : Value) (hkey : ¬ kept key) :
    Rewritten kept item (addJsonMeta item key v) := by
  unfold Reporting.addJsonMeta
  split
  · exact refl item
  · exact addMetaData _ hkey
  · exact refl item

end Rewritten

variable {shop : Shop} {es : List (String × Value)}

theorem rewritten_addQuoteMeta {item item' : OrderItem} {version : Value}
    {deltas : List (String × ℤ)} (h : addQuoteMeta shop item version deltas = some item') :
    Rewritten (· = metaSelections) item item' := by
  unfold addQuoteMeta at h
  obtain ⟨total, -, rfl⟩ := Option.map_eq_some_iff.1 h
  have hversion : Rewritten (· = metaSelections) item (addVersionMeta item version) := by
    unfold addVersionMeta
    split
    · exact .addMetaData _ (by decide)
    · exact .refl item
  exact hversion.trans (.addMetaData _ (by decide))

/-- **The answers of a line stand in their row**, in the item it was written
to. -/
theorem rewritten_addHiddenMeta {item item' : OrderItem} {selections : List (String × Value)}
    {optionia : Value} (h : addHiddenMeta shop item selections optionia = some item') :
    Rewritten (· = metaSelections)
      (item.addMetaData metaSelections (wpJsonEncode (.arr selections))) item' := by
  have hjson : ∀ v sets suffixes : Value, Rewritten (· = metaSelections)
      (item.addMetaData metaSelections (wpJsonEncode (.arr selections)))
      (addJsonMeta (addJsonMeta (addJsonMeta
        (item.addMetaData metaSelections (wpJsonEncode (.arr selections))) metaOptionSetId v)
        metaOptionSets sets) metaSkuSuffix suffixes) := fun v sets suffixes =>
    ((Rewritten.addJsonMeta v (by decide)).trans (.addJsonMeta sets (by decide))).trans
      (.addJsonMeta suffixes (by decide))
  unfold addHiddenMeta at h
  dsimp only at h
  split at h
  · obtain rfl := Option.some.inj h
    exact hjson _ _ _
  · obtain rfl := Option.some.inj h
    exact hjson _ _ _
  · exact (hjson _ _ _).trans (rewritten_addQuoteMeta h)

theorem rewritten_addVisibleMeta (shop : Shop) (item : OrderItem)
    (selections : List (String × Value)) (optionia : Value) :
    Rewritten (fun _ => False) item (addVisibleMeta shop item selections optionia) := by
  unfold addVisibleMeta
  dsimp only
  generalize selections.map _ = rows
  induction rows generalizing item with
  | nil => exact .refl item
  | cons row rows ih => exact Rewritten.trans (.addMetaData row.2 not_false) (ih _)

/-! ## A resolution's line -/

/-- The line of an item, as it is written from a resolution. -/
def ordered (shop : Shop) (version : ℤ) (data : CartItemData) (item : OrderItem)
    (r : Resolution) : Option OrderItem :=
  attach shop item (data.set cartItemKey (.value (payload shop.wpHash version r)))

theorem field_payload_selections (wpHash : String → String) (version : ℤ) (r : Resolution) :
    (payload wpHash version r).field cartItemSelections = .arr (ksort r.resolved).entries := by
  unfold payload
  dsimp only
  split
  · rfl
  · rfl

/-- **A resolution's line holds its answers**; one without answers is the item
as it was. -/
theorem ordered_spec {version : ℤ} {data : CartItemData} {item line : OrderItem} {r : Resolution}
    (h : ordered shop version data item r = some line) : (r.resolved.keys = [] ∧ line = item) ∨
      r.resolved.keys ≠ [] ∧ Rewritten (fun _ => False) item line ∧
        line.getMeta metaSelections = wpJsonEncode (.arr (ksort r.resolved).entries) := by
  unfold ordered attach at h
  rw [OrderedMap.get?_set_self] at h
  dsimp only at h
  rw [field_payload_selections] at h
  cases hentries : (ksort r.resolved).entries with
  | nil =>
    rw [hentries] at h
    refine Or.inl ⟨?_, (Option.some.inj h).symm⟩
    have hperm := entries_ksort r.resolved
    rw [hentries] at hperm
    unfold OrderedMap.keys
    rw [List.nil_perm.1 hperm]
    rfl
  | cons p entries =>
    rw [hentries] at h
    dsimp only at h
    have hhidden := rewritten_addHiddenMeta h
    refine Or.inr ⟨fun hnil => ?_, ?_, ?_⟩
    · have hmem : p.1 ∈ r.resolved.keys := by
        rw [← mem_keys_ksort]
        unfold OrderedMap.keys
        rw [hentries]
        exact List.mem_cons_self
      rw [hnil] at hmem
      simp at hmem
    · have hvisible := rewritten_addVisibleMeta shop item (p :: entries)
        (payload shop.wpHash version r)
      exact (hvisible.trans (.addMetaData _ not_false)).trans
        ⟨hhidden.variationId, hhidden.productId, hhidden.quantity, fun _ hkey => hkey.elim⟩
    · rw [hhidden.getMeta metaSelections rfl, getMeta_addMetaData, if_pos rfl]

/-! ## Reading the answers back -/

theorem stored_json {v : Value} (h : Stored v) :
    v.textual = true ∧ (∀ depth < 512, jsonFits depth v = true) ∧ v.keyed = true := by
  cases h with
  | one s => exact ⟨rfl, fun _ _ => rfl, rfl⟩
  | many ss hne =>
    refine texts_json (nodup_of_isListArray (isListArray_mapIdx _)) fun p hp => ?_
    obtain ⟨i, hi, rfl⟩ := List.mem_mapIdx.1 hp
    exact ⟨_, List.getElem_map _⟩

theorem stored_entries_json (hes : ∀ p ∈ es, Stored p.2) :
    Value.textualEntries es = true ∧ jsonFitsAll 1 es = true ∧ Value.keyedEntries es = true := by
  induction es with
  | nil => exact ⟨rfl, rfl, rfl⟩
  | cons p es ih =>
    obtain ⟨htext, hfits, hkeyed⟩ := stored_json (hes p List.mem_cons_self)
    obtain ⟨hrest, hrestFits, hrestKeyed⟩ := ih fun q hq => hes q (List.mem_cons_of_mem _ hq)
    rw [Value.textualEntries, jsonFitsAll, Value.keyedEntries, htext, hfits 1 (by decide), hkeyed,
      hrest, hrestFits, hrestKeyed]
    exact ⟨rfl, rfl, rfl⟩

/-- **Stored answers are read back** from their row. -/
theorem decode_answers (hkeys : (es.map Prod.fst).Nodup) (hes : ∀ p ∈ es, Stored p.2) :
    jsonDecode (wpJsonEncode (.arr es)) = .arr es := by
  obtain ⟨htext, hfits, hkeyed⟩ := stored_entries_json hes
  refine jsonDecode_wpJsonEncode htext ?_ ?_
  · rw [jsonFits, hfits]
    rfl
  · rw [Value.keyed, decide_eq_true hkeys, hkeyed]
    rfl

/-- The text of a stored answer. -/
def answerText (r : Resolution) (id : String) : String :=
  ((r.resolved.get? id).bind answerText?).getD ""

theorem answerText?_stored {v : Value} (h : Stored v) : (answerText? v).isSome = true := by
  cases h with
  | one s => rfl
  | many ss hne => rfl

/-- A line's own rows, before its amount. -/
def rowsOf (shop : Shop) (r : Resolution) (line : OrderItem) : List Selection :=
  (ksort r.resolved).keys.map fun id => selectionOf shop line id (answerText r id)

/-- **A resolution's line is reported option by option**, its amount on the
first. -/
theorem lineSelections_ordered {P : Platform} {optionSets : List Value}
    {request : OrderedMap String Value} {base : ℤ} {today : Option String} {r : Resolution}
    (hresolve : resolve P optionSets request base today = .ok r) {line : OrderItem}
    (hline : line.getMeta metaSelections = wpJsonEncode (.arr (ksort r.resolved).entries)) :
    lineSelections shop line = withAmount (lineMinor line) (rowsOf shop r line) := by
  have hstored : ∀ p ∈ (ksort r.resolved).entries, Stored p.2 := fun p hp =>
    stored_of_resolve hresolve p.1 p.2
      (OrderedMap.get?_eq_some.2 ((entries_ksort r.resolved).mem_iff.1 hp))
  have hdecode := decode_answers (ksort r.resolved).nodup hstored
  have hrows : (ksort r.resolved).entries.filterMap (fun p =>
      (answerText? p.2).map (selectionOf shop line p.1)) = rowsOf shop r line := by
    unfold rowsOf OrderedMap.keys
    rw [List.map_map, ← List.filterMap_eq_map]
    refine List.filterMap_congr fun p hp => ?_
    obtain ⟨text, htext⟩ := Option.isSome_iff_exists.1 (answerText?_stored (hstored p hp))
    have hget : r.resolved.get? p.1 = some p.2 :=
      OrderedMap.get?_eq_some.2 ((entries_ksort r.resolved).mem_iff.1 hp)
    change _ = some (selectionOf shop line p.1 (answerText r p.1))
    unfold answerText
    rw [hget, Option.bind_some, htext]
    rfl
  unfold lineSelections
  rw [hline, hdecode]
  dsimp only
  rw [hrows]
  refine attributeDelta_eq line fun row hrow => ?_
  obtain ⟨id, -, rfl⟩ := List.mem_map.1 hrow
  rfl

end Optionia.Reporting
