import Optionia.Engine.Containment
import Optionia.Preview.Tree
import Optionia.Rules.Settling
import Optionia.Wire.Published
/-!
# What the plugin finds in a published set

The document of a set, as the cloud writes it and the plugin decodes it: the
options it places, what stands under a target, its rules. Where ids are a
row's own, the plugin's containment is the preview's (`underSet_document`).
-/

namespace Optionia.Preview

open Rules Sets Wire

/-! ## Decoding what was written -/

/-- What the plugin decodes of a value that the cloud writes. -/
def sent (v : Json) : Php.Value := published v.parse

def document (tree : OptionSetTree) : Php.Value := sent (toPublished tree).toJson

theorem field_sent (es : Record) (k : String) :
    (sent (.obj es)).field k = ((es.lookup k).map sent).getD .null := by
  have hparse : Json.parse (.obj es) = .obj (Json.parseEntries es) := rfl
  rw [sent, hparse, field_published, ← hparse, Json.field_parse_obj]
  cases es.lookup k <;> rfl

theorem items_sent (vs : List Json) : (sent (.arr vs)).items = vs.map sent := by
  have hparse : Json.parse (.arr vs) = .arr (Json.parseList vs) := rfl
  rw [sent, hparse, items_published_arr, Json.parseList_eq_map, List.map_map]
  rfl

theorem castItems_sent (vs : List Json) : (sent (.arr vs)).castItems = vs.map sent :=
  items_sent vs

theorem lookup_member (key k : String) (v : Option Json) :
    (member key v).lookup k = if k = key then v else none := by
  cases v with
  | none => simp [member]
  | some v =>
    by_cases h : k = key
    · simp [member, h]
    · have hne : (k == key) = false := beq_eq_false_iff_ne.2 h
      simp [member, h, List.lookup_cons, hne]

theorem text_of_field {v : Php.Value} {k s : String} (h : v.field k = .str s) : v.text k = s := by
  rw [Php.Value.text, h]
  rfl

/-! ## Rows of the document -/

section Rows

variable (value : Row ValueColumns) (option : OptionNode) (group : GroupNode)

theorem id_sentValue : (sent (valueToPublished value).toJson).field "id" = .str value.id := by
  rw [PublishedValue.toJson, field_sent]
  rfl

theorem priceConfig_sentValue : (sent (valueToPublished value).toJson).field "price_config" =
    sent (.obj (toPublishedPriceConfig value.columns.priceConfig value.columns.priceType
      value.columns.priceAmountMinor)) := by
  rw [PublishedValue.toJson, field_sent]
  rfl

theorem id_sentOption : (sent (optionToPublished option).toJson).field "id" =
    .str option.option.id := by
  rw [PublishedOption.toJson, field_sent]
  rfl

theorem values_sentOption : ((sent (optionToPublished option).toJson).field "values").castItems =
    (option.values.filter (·.columns.isEnabled)).map
      fun value => sent (valueToPublished value).toJson := by
  have hlookup : (("id", Json.str (optionToPublished option).id) ::
      (optionToPublished option).fields ++ [("values",
        Json.arr ((optionToPublished option).values.map PublishedValue.toJson))]).lookup "values" =
      some (Json.arr ((optionToPublished option).values.map PublishedValue.toJson)) := by
    simp [optionToPublished, List.lookup_append, List.lookup_cons, optionalText, optionalRecord,
      lookup_member]
  rw [PublishedOption.toJson, field_sent, hlookup]
  show (sent (.arr _)).castItems = _
  rw [castItems_sent, List.map_map]
  show ((option.values.filter (·.columns.isEnabled)).map valueToPublished).map _ = _
  rw [List.map_map]
  rfl

theorem pricing_sentOption : (sent (optionToPublished option).toJson).field "pricing" =
    ((toPublishedOptionPricing option.option.columns.pricing).map
      fun pricing => sent (.obj pricing)).getD .null := by
  have hlookup : (("id", Json.str (optionToPublished option).id) ::
      (optionToPublished option).fields ++ [("values",
        Json.arr ((optionToPublished option).values.map PublishedValue.toJson))]).lookup "pricing" =
      (toPublishedOptionPricing option.option.columns.pricing).map Json.obj := by
    simp [optionToPublished, List.lookup_append, List.lookup_cons, optionalText, optionalRecord,
      lookup_member]
  rw [PublishedOption.toJson, field_sent, hlookup, Option.map_map]
  rfl

theorem id_sentGroup : (sent (groupToPublished group).toJson).field "id" =
    .str group.group.id := by
  rw [PublishedGroup.toJson, field_sent]
  rfl

theorem options_sentGroup : ((sent (groupToPublished group).toJson).field "options").castItems =
    (group.options.filter (·.option.columns.isEnabled)).map
      fun option => sent (optionToPublished option).toJson := by
  have hlookup : (("id", Json.str (groupToPublished group).id) ::
      (groupToPublished group).fields ++ [("options",
        Json.arr ((groupToPublished group).options.map PublishedOption.toJson)),
        ("items", Json.arr ((groupToPublished group).items.map Json.obj))]).lookup "options" =
      some (Json.arr ((groupToPublished group).options.map PublishedOption.toJson)) := by
    simp [groupToPublished, List.lookup_append, List.lookup_cons, optionalText, lookup_member]
  rw [PublishedGroup.toJson, field_sent, hlookup]
  show (sent (.arr _)).castItems = _
  rw [castItems_sent, List.map_map]
  show ((group.options.filter (·.option.columns.isEnabled)).map optionToPublished).map _ = _
  rw [List.map_map]
  rfl

end Rows

/-! ## What the plugin looks up -/

section Indexes

variable (tree : OptionSetTree)

theorem indexRules_document : Engine.indexRules [document tree] =
    (tree.rules.filter (·.columns.isEnabled)).map
      fun rule => sent (Cloud.toPublishedRule rule.toRule) := by
  have hrules : (document tree).field "rules" = sent (.arr (toPublished tree).rules) := by
    rw [document, PublishedOptionSet.toJson, field_sent]
    rfl
  rw [Engine.indexRules, List.flatMap_singleton, hrules, castItems_sent]
  show ((((tree.rules.filter (·.columns.isEnabled)).map
    fun rule => Cloud.toPublishedRule rule.toRule).map sent).filter _) = _
  rw [List.map_map, List.filter_eq_self.2]
  · rfl
  · intro v hv
    obtain ⟨rule, -, rfl⟩ := List.mem_map.1 hv
    rfl

theorem placedOptions_document : Engine.placedOptions [document tree] =
    (tree.groups.filter (·.group.columns.isEnabled)).flatMap fun group =>
      (group.options.filter (·.option.columns.isEnabled)).map fun option =>
        ⟨document tree, sent (groupToPublished group).toJson,
          sent (optionToPublished option).toJson⟩ := by
  have hgroups : (document tree).field "groups" =
      sent (.arr ((toPublished tree).groups.map (·.toJson))) := by
    rw [document, PublishedOptionSet.toJson, field_sent]
    rfl
  rw [Engine.placedOptions, List.flatMap_singleton, hgroups, castItems_sent, List.map_map]
  show (((tree.groups.filter (·.group.columns.isEnabled)).map groupToPublished).map _).flatMap _ = _
  rw [List.map_map, List.flatMap_map]
  refine List.flatMap_congr fun group _ => ?_
  show (((sent (groupToPublished group).toJson).field "options").castItems.filter _).map _ = _
  rw [options_sentGroup, List.filter_eq_self.2]
  · rw [List.map_map]
    rfl
  · intro v hv
    obtain ⟨option, -, rfl⟩ := List.mem_map.1 hv
    rw [Engine.hasId, id_sentOption]
    rfl

theorem valuesWithId_document (option : OptionNode) :
    Engine.valuesWithId (sent (optionToPublished option).toJson) =
      (option.values.filter (·.columns.isEnabled)).map
        fun value => sent (valueToPublished value).toJson := by
  rw [Engine.valuesWithId, values_sentOption, List.filter_eq_self]
  intro v hv
  obtain ⟨value, -, rfl⟩ := List.mem_map.1 hv
  rw [Engine.hasId, id_sentValue]
  rfl

end Indexes

/-! ## What stands under a target -/

section Containment

variable {tree : OptionSetTree}

def drawn (tree : OptionSetTree) : PreviewTree := previewTree (toAuthoring tree)

theorem ids_drawn_sublist : (drawn tree).ids.Sublist tree.ids := by
  have hvalues : ∀ option : OptionNode,
      (toPreviewOption option).ids.Sublist (option.option.id :: option.values.map (·.id)) := by
    intro option
    refine List.Sublist.cons_cons _ ?_
    show (((option.values.filter _).map toPreviewValue).map _).Sublist _
    rw [List.map_map]
    exact List.filter_sublist.map _
  have hoptions : ∀ group : GroupNode, (toPreviewGroup group).ids.Sublist
      (group.group.id :: group.options.flatMap fun option =>
        option.option.id :: option.values.map (·.id)) := by
    intro group
    refine List.Sublist.cons_cons _ ?_
    show (((group.options.filter _).map toPreviewOption).flatMap _).Sublist _
    rw [List.flatMap_map]
    exact (List.Sublist.flatMap_right _ fun option _ => hvalues option).trans
      (List.filter_sublist.flatMap _)
  show (((tree.groups.filter _).map toPreviewGroup).flatMap _).Sublist _
  rw [List.flatMap_map]
  exact (List.Sublist.flatMap_right _ fun group _ => hoptions group).trans
    (List.filter_sublist.flatMap _)

theorem eq_of_mem_flatMap {α β : Type} {l : List α} {f : α → List β} (h : (l.flatMap f).Nodup)
    {a b : α} {x : β} (ha : a ∈ l) (hb : b ∈ l) (hxa : x ∈ f a) (hxb : x ∈ f b) : a = b := by
  have : Std.Symm (Function.onFun List.Disjoint f) := ⟨fun _ _ hdisjoint => hdisjoint.symm⟩
  by_contra hne
  exact (List.nodup_flatMap.1 h).2.forall ha hb hne hxa hxb

theorem value_apart (hids : (drawn tree).ids.Nodup) {group : PreviewGroup} {option : PreviewOption}
    {value : PreviewValue} (hgroup : group ∈ (drawn tree).groups) (hoption : option ∈ group.options)
    (hvalue : value ∈ option.values) {t o : String} (h : Stands (drawn tree).groups t o) :
    value.value.id ≠ t := by
  rintro rfl
  have hown : value.value.id ∈ option.values.map (·.value.id) := List.mem_map_of_mem hvalue
  have hownOption : value.value.id ∈ option.ids := List.mem_cons_of_mem _ hown
  have hownOptions : value.value.id ∈ group.options.flatMap (·.ids) :=
    List.mem_flatMap.2 ⟨option, hoption, hownOption⟩
  have hownGroup : value.value.id ∈ group.ids := List.mem_cons_of_mem _ hownOptions
  obtain ⟨other, hother, option', hoption', -, ht⟩ := h
  have hotherGroup : value.value.id ∈ other.ids := by
    obtain ht | ht := ht
    · rw [ht]
      exact List.mem_cons_of_mem _ (List.mem_flatMap.2 ⟨option', hoption', List.mem_cons_self⟩)
    · rw [ht]
      exact List.mem_cons_self
  -- Groups share no id, nor do the options of one.
  obtain rfl := eq_of_mem_flatMap hids hgroup hother hownGroup hotherGroup
  have hnodup := (List.nodup_flatMap.1 hids).1 group hgroup
  rw [PreviewGroup.ids, List.nodup_cons] at hnodup
  obtain ht | ht := ht
  · have hhead : value.value.id ∈ option'.ids := ht ▸ List.mem_cons_self
    obtain rfl := eq_of_mem_flatMap hnodup.2 hoption hoption' hownOption hhead
    have hnodupOption := (List.nodup_flatMap.1 hnodup.2).1 option hoption
    rw [PreviewOption.ids, List.nodup_cons] at hnodupOption
    exact hnodupOption.1 (ht ▸ hown)
  · exact hnodup.1 (ht ▸ hownOptions)

theorem mem_placed {p : Engine.Placed} (hp : p ∈ Engine.placedOptions [document tree]) :
    ∃ group option, toPreviewGroup group ∈ (drawn tree).groups ∧
      toPreviewOption option ∈ (toPreviewGroup group).options ∧
        p = ⟨document tree, sent (groupToPublished group).toJson,
          sent (optionToPublished option).toJson⟩ := by
  rw [placedOptions_document] at hp
  obtain ⟨group, hgroup, hp⟩ := List.mem_flatMap.1 hp
  obtain ⟨option, hoption, rfl⟩ := List.mem_map.1 hp
  exact ⟨group, option, List.mem_map_of_mem hgroup, List.mem_map_of_mem hoption, rfl⟩

/-- **An option stands under the same targets in the document.** -/
theorem under_document_iff (hnamed : "" ∉ (drawn tree).ids) {t o : String} :
    Engine.Under [document tree] t o ↔ Stands (drawn tree).groups t o := by
  constructor
  · rintro ⟨p, hp, rfl, ht⟩
    obtain ⟨group, option, hgroup, hoption, rfl⟩ := mem_placed hp
    refine ⟨_, hgroup, _, hoption, text_of_field (id_sentOption option), ?_⟩
    obtain rfl | ⟨-, ht⟩ := ht
    · exact .inl (text_of_field (id_sentOption option))
    · exact .inr (ht.symm.trans (text_of_field (id_sentGroup group)))
  · rintro ⟨group, hgroup, option, hoption, rfl, ht⟩
    obtain ⟨node, hnode, rfl⟩ := List.mem_map.1 hgroup
    obtain ⟨child, hchild, rfl⟩ := List.mem_map.1 hoption
    refine ⟨⟨document tree, sent (groupToPublished node).toJson,
      sent (optionToPublished child).toJson⟩, ?_, text_of_field (id_sentOption child), ?_⟩
    · rw [placedOptions_document]
      exact List.mem_flatMap.2 ⟨node, hnode, List.mem_map_of_mem hchild⟩
    · obtain rfl | rfl := ht
      · exact .inl rfl
      · refine .inr ⟨fun hempty => hnamed ?_, text_of_field (id_sentGroup node)⟩
        rw [← hempty]
        exact List.mem_flatMap.2 ⟨_, hgroup, List.mem_cons_self⟩

/-- **The storefront's containment is the preview's.** -/
theorem underSet_document (hids : (drawn tree).ids.Nodup) (hnamed : "" ∉ (drawn tree).ids)
    (t : String) : underSet (optionsUnder (drawn tree)) t =
      underSet (Engine.indexContainment [document tree]) t := by
  have hown : Engine.OwnIds [document tree] := by
    intro p hp value hvalue id hunder
    obtain ⟨group, option, hgroup, hoption, rfl⟩ := mem_placed hp
    rw [valuesWithId_document] at hvalue
    obtain ⟨row, hrow, rfl⟩ := List.mem_map.1 hvalue
    have hrowDrawn : toPreviewValue row ∈ (toPreviewOption option).values := List.mem_map_of_mem hrow
    exact value_apart hids hgroup hoption hrowDrawn ((under_document_iff hnamed).1 hunder)
      (text_of_field (id_sentValue row)).symm
  refine Set.ext fun o => ?_
  show o ∈ under (optionsUnder (drawn tree)) t ↔ o ∈ under (Engine.indexContainment _) t
  rw [mem_under_optionsUnder hids, ← under_document_iff hnamed]
  exact ⟨Engine.mem_indexContainment hown, Engine.under_of_mem_indexContainment⟩

end Containment

end Optionia.Preview
