import Optionia.Cloud.TypeRegistry
import Optionia.Engine.Soundness
import Optionia.Preview.Shown
/-!
# The least number of choices, at publishing and at the resolver

`selectionMinimumsAreReachable`, the publish check that counts, of every
option a shopper chooses from, the values no rule can hide against the least
number of choices it asks for. What it lets through is set against the
resolver: a selection that it accepts, whatever the rules hide.
-/

namespace Optionia.Sets

open Engine Engine.SelectionResolver Preview Wire

/-! ## The check -/

def answerAffectingActions : List String := ["hide"]

def takesValues (presentation : String) : Bool :=
  ((Cloud.findType presentation).map (·.takesValues)).getD false

def readMinimum (validation : Option Record) : Option ℤ :=
  match (validation.map fun v => (Json.obj v).parse.field "minSelections").getD .undefined with
  | .num (.finite x) => if x.val.den = 1 ∧ 0 < x.val then some x.val.num else none
  | _ => none

/-- The values that a live rule can hide. -/
def hideable (rules : List (Row RuleColumns)) : List String :=
  ((rules.filter fun rule => rule.columns.disabledReason ≠ some targetDeleted).filter fun rule =>
    rule.columns.targetType = "value" ∧ rule.columns.action ∈ answerAffectingActions).map
      (·.columns.targetId)

/-- The values of an option that are switched on. -/
def OptionNode.live (node : OptionNode) : List (Row ValueColumns) :=
  node.values.filter (·.columns.isEnabled)

/-- Those of them that no rule can hide. -/
def OptionNode.reachable (node : OptionNode) (rules : List (Row RuleColumns)) :
    List (Row ValueColumns) :=
  node.live.filter fun value => value.id ∉ hideable rules

/-- What is found of an option that asks for more than is left of it. -/
def unreachable (option : Row OptionColumns) (minimum : ℤ) (live reachable : ℕ) :
    Cloud.PublishFinding where
  severity := "blocker"
  code := "SELECTION_MINIMUM_UNREACHABLE"
  subject := "option:" ++ option.id
  message :=
    let asks := "\"" ++ option.columns.label ++ "\" asks for at least " ++
      Js.numberString (.ofInt minimum) ++ " choices"
    -- Two messages, since two different edits mend them.
    if minimum ≤ live then
      asks ++ ", but rules can hide all " ++ "but " ++ toString reachable ++
        " of them. A customer who met those rules could not add this " ++
        "product to their cart at all. Lower the minimum, or narrow what the rules hide."
    else
      asks ++ " but only has " ++ toString live ++
        ". No customer could ever answer it, so this product could not " ++
        "be added to a cart. Lower the minimum, or add more choices."

/-- What is found of an option of an enabled group. -/
def minimumFinding (rules : List (Row RuleColumns)) (node : OptionNode) :
    Option Cloud.PublishFinding :=
  if node.option.columns.isEnabled && takesValues node.option.columns.presentation then
    match readMinimum node.option.columns.validation with
    | none => none
    | some minimum =>
      if minimum ≤ (node.reachable rules).length then none
      else some (unreachable node.option minimum node.live.length (node.reachable rules).length)
  else none

def selectionMinimumsAreReachable (tree : OptionSetTree) (rules : List (Row RuleColumns)) :
    List Cloud.PublishFinding :=
  (tree.groups.filter (·.group.columns.isEnabled)).flatMap fun group =>
    group.options.filterMap (minimumFinding rules)

/-! ## What the API lets be stored -/

/-- An option as it was created and edited. -/
structure AuthoredOption (node : OptionNode) : Prop where
  /-- It is of a type of the registry, whose kind, cardinalities and checks it keeps. -/
  definition : ∃ definition, Cloud.findType node.option.columns.presentation = some definition ∧
    node.option.columns.valueKind = definition.valueKind ∧
    node.option.columns.cardinality ∈ definition.cardinality :: definition.cardinalities ∧
    ∀ v, node.option.columns.validation = some v →
      definition.validationSchema (Json.obj v).parse = true
  members : ∀ v, node.option.columns.validation = some v → (v.map Prod.fst).Nodup
  values : (node.values.map (·.columns.valueKey)).Nodup

/-- A set as it was created and edited. -/
structure Authored (tree : OptionSetTree) : Prop where
  ids : tree.ids.Nodup
  options : ∀ group ∈ tree.groups, ∀ node ∈ group.options, AuthoredOption node
  /-- `assertTargetIsWhatItClaims`: no other rule has a value for its target. -/
  targets : ∀ rule ∈ tree.rules, rule.columns.isEnabled = true →
    ∀ group ∈ tree.groups, ∀ node ∈ group.options, ∀ value ∈ node.values,
      rule.columns.targetId = value.id → rule.columns.targetType = "value"
  /-- A rule whose target is deleted is switched off with it. -/
  disabled : ∀ rule ∈ tree.rules, rule.columns.isEnabled = true →
    rule.columns.disabledReason ≠ some targetDeleted

/-! ## What the resolver accepts -/

/-- **A selection of an option that the resolver accepts**, as far as this
option is concerned. -/
structure Accepts (ctx : Context) (id : String) (option : Php.Value) (keys : List String) :
    Prop where
  /-- Distinct values of the option that are not hidden, as many as it asks for. -/
  sound : SoundKeys (ctx.hiddenValue ·) option keys
  single : option.text "cardinality" = "one" → keys.length ≤ 1
  /-- It can be sent, and nothing is refused of it. -/
  taken : keys ≠ [] → ∃ raw, keysSent option raw = some keys ∧
    ∀ t : Taken, (t.take ctx id option keys).errors = t.errors

/-- What a request reads of a published set, where the rules have been
evaluated on some answers. -/
def publishedContext (P : Platform) (tree : OptionSetTree) (base : ℤ) (today : Option String)
    (answers : OrderedMap String Php.Value) : Context :=
  context P [document tree] base today (evaluation P [document tree] answers).states

/-- Some selection of an option is accepted. -/
def Selectable (ctx : Context) (id : String) : Prop :=
  ∃ option, ctx.options.get? id = some option ∧ ∃ keys, Accepts ctx id option keys

/-! ## What is read of a published option -/

section Reads

variable {node : OptionNode}

theorem texts_sentOption : (sent (optionToPublished node).toJson).text "type" =
      node.option.columns.presentation ∧
    (sent (optionToPublished node).toJson).text "value_kind" = node.option.columns.valueKind ∧
    (sent (optionToPublished node).toJson).text "cardinality" =
      node.option.columns.cardinality := by
  rw [PublishedOption.toJson]
  refine ⟨text_of_field ?_, text_of_field ?_, text_of_field ?_⟩ <;>
  · rw [field_sent]
    rfl

theorem validation_sentOption : (sent (optionToPublished node).toJson).field "validation" =
    ((toPublishedValidation node.option.columns.validation).map
      fun v => sent (.obj v)).getD .null := by
  have hlookup : (("id", Json.str (optionToPublished node).id) ::
      (optionToPublished node).fields ++ [("values",
        Json.arr ((optionToPublished node).values.map PublishedValue.toJson))]).lookup
        "validation" = (toPublishedValidation node.option.columns.validation).map Json.obj := by
    simp [optionToPublished, List.lookup_append, List.lookup_cons, optionalText, optionalRecord,
      lookup_member]
  rw [PublishedOption.toJson, field_sent, hlookup, Option.map_map]
  rfl

theorem valueKey_sentValue (value : Row ValueColumns) :
    (sent (valueToPublished value).toJson).field "value_key" = .str value.columns.valueKey := by
  rw [PublishedValue.toJson, field_sent]
  rfl

/-- Renaming keeps a member under the name it gets, where the names that are
given are as distinct as the old ones. -/
theorem lookup_rename {v : Record} {keys : List (String × String)} {k : String}
    (hnodup : (v.map fun e => (keys.lookup e.1).getD e.1).Nodup)
    (hk : ∀ e ∈ v, (keys.lookup e.1).getD e.1 = (keys.lookup k).getD k → e.1 = k) :
    (rename v keys).lookup ((keys.lookup k).getD k) = v.lookup k := by
  have hentries : rename v keys = v.map fun e => ((keys.lookup e.1).getD e.1, e.2) := by
    have hall := OrderedMap.entries_setAll_of_nodup (m := (∅ : OrderedMap String Json))
      (l := v.map fun e => ((keys.lookup e.1).getD e.1, e.2)) (by
        rw [OrderedMap.keys_empty, List.nil_append, List.map_map]
        exact hnodup)
    unfold OrderedMap.setAll at hall
    rw [List.foldl_map] at hall
    exact hall
  rw [hentries]
  clear hnodup hentries
  induction v with
  | nil => rfl
  | cons e v ih =>
    have hrest := ih fun e' he' => hk e' (List.mem_cons_of_mem _ he')
    rw [List.map_cons, List.lookup_cons, List.lookup_cons, hrest]
    by_cases he : e.1 = k
    · rw [he, beq_self_eq_true, beq_self_eq_true]
    · have hname : ¬ (keys.lookup k).getD k = (keys.lookup e.1).getD e.1 :=
        fun h => he (hk e List.mem_cons_self h.symm)
      rw [beq_eq_false_iff_ne.2 hname, beq_eq_false_iff_ne.2 (Ne.symm he)]

end Reads

/-! ## The bounds of a choice -/

section Bounds

variable {v : Record}

/-- A bound that `choiceValidationSchema` accepts is none, or an integer. -/
theorem bound_of_optional {key : String} {least : ℤ} {w : Js.Value}
    (h : (Js.Schema.optional key (Js.Schema.int least (some 100))).2 w = true) :
    w = .undefined ∨ ∃ n, w.safeInteger? = some n ∧ least ≤ n ∧ n ≤ 100 := by
  by_cases hw : w = .undefined
  · exact .inl hw
  have hint : Js.Schema.int least (some 100) w = true := by
    unfold Js.Schema.optional at h
    cases w with
    | undefined => exact absurd rfl hw
    | _ => exact h
  refine .inr ⟨w.safeInteger?.getD 0, Js.Schema.safeInteger?_of_int hint, ?_⟩
  have hsafe := Js.Schema.safeInteger?_of_int hint
  unfold Js.Schema.int at hint
  rw [hsafe] at hint
  simpa using hint

/-- **What `choiceValidationSchema` accepts**: bounds that are integers, in
order, and nothing else. -/
theorem of_choiceValidationSchema (h : Cloud.choiceValidationSchema (Json.obj v).parse = true) :
    (∀ e ∈ v, e.1 = "minSelections" ∨ e.1 = "maxSelections") ∧
      ((Json.obj v).parse.field "minSelections" = .undefined ∨
        ∃ n, ((Json.obj v).parse.field "minSelections").safeInteger? = some n ∧ 0 ≤ n ∧ n ≤ 100) ∧
      ((Json.obj v).parse.field "maxSelections" = .undefined ∨
        ∃ n, ((Json.obj v).parse.field "maxSelections").safeInteger? = some n ∧ 1 ≤ n ∧ n ≤ 100) ∧
      Cloud.inOrder (Json.obj v).parse "minSelections" "maxSelections" = true := by
  unfold Cloud.choiceValidationSchema Js.Schema.refine at h
  rw [Bool.and_eq_true] at h
  obtain ⟨hstrict, horder⟩ := h
  unfold Js.Schema.strict at hstrict
  rw [Bool.and_eq_true] at hstrict
  obtain ⟨hobject, hkeys⟩ := hstrict
  have hmembers := Js.Schema.all_of_object hobject
  refine ⟨fun e he => ?_, ?_, ?_, horder⟩
  · have hparse : (Json.obj v).parse = .obj (Json.parseEntries v) := rfl
    rw [hparse] at hkeys
    have hmap : ∀ es : Record, Json.parseEntries es = es.map fun e => (e.1, e.2.parse) := by
      intro es
      induction es with
      | nil => rfl
      | cons e es ih => rw [Json.parseEntries, ih, List.map_cons]
    rw [hmap] at hkeys
    have hkey := List.all_eq_true.1 hkeys _ (List.mem_map_of_mem he)
    rw [List.contains_iff_mem] at hkey
    simpa [Js.Schema.optional] using hkey
  · exact bound_of_optional (hmembers _ List.mem_cons_self)
  · exact bound_of_optional (hmembers _ (List.mem_cons_of_mem _ List.mem_cons_self))

/-- A bound as the cloud stores it. -/
def storedBound (validation : Option Record) (k : String) : Option ℤ :=
  ((validation.map fun v => (Json.obj v).parse.field k).getD .undefined).safeInteger?

end Bounds

/-! ## Both sides read the same bounds -/

section Bounds

variable {node : OptionNode}

theorem int?_sent {member : Option Json} {least : ℤ} (hleast : 0 ≤ least)
    (h : (member.map Json.parse).getD .undefined = .undefined ∨
      ∃ n, ((member.map Json.parse).getD .undefined).safeInteger? = some n ∧ least ≤ n ∧ n ≤ 100) :
    (((member.map sent).getD .null).int?.filter fun n => 0 ≤ n) =
      ((member.map Json.parse).getD .undefined).safeInteger? := by
  cases member with
  | none => rfl
  | some j =>
    change (published j.parse).int?.filter _ = j.parse.safeInteger?
    obtain hnone | ⟨n, hn, hlow, -⟩ := h
    · have hparse : j.parse = .undefined := hnone
      rw [hparse]
      rfl
    · have hread : j.parse.safeInteger? = some n := hn
      have hle : 0 ≤ n := hleast.trans hlow
      rw [(int?_of_safeInteger? hread).1, hread, Option.filter_some, decide_eq_true hle]
      rfl

/-- `readMinimum` is the stored bound, where it is positive. -/
theorem readMinimum_eq {validation : Option Record}
    (h : (validation.map fun v => (Json.obj v).parse.field "minSelections").getD .undefined =
        .undefined ∨ ∃ n, storedBound validation "minSelections" = some n) :
    readMinimum validation = (storedBound validation "minSelections").filter fun n => 0 < n := by
  unfold readMinimum storedBound at *
  obtain hnone | ⟨n, hn⟩ := h
  · rw [hnone]
    rfl
  · obtain ⟨x, hx, hval⟩ := Js.exists_num_of_safeInteger? hn
    rw [hn, hx]
    have hden : x.val.den = 1 := by
      rw [hval]
      exact Rat.den_intCast n
    by_cases hpos : 0 < n
    · have hq : 0 < x.val := by
        rw [hval]
        exact_mod_cast hpos
      rw [Option.filter_some, if_pos (decide_eq_true hpos)]
      exact (if_pos ⟨hden, hq⟩).trans (congrArg some (by rw [hval, Rat.num_intCast]))
    · have hq : ¬ 0 < x.val := by
        rw [hval]
        exact_mod_cast hpos
      rw [Option.filter_some, if_neg fun h => hpos (of_decide_eq_true h)]
      exact if_neg fun h => hq h.2

/-- **The bounds of a choice**: the plugin reads those that the check does, and
the least is no more than the most. -/
structure Bounds (node : OptionNode) (least most : Option ℤ) : Prop where
  read_least : selectionBound (sent (optionToPublished node).toJson) "min_selections" = least
  read_most : selectionBound (sent (optionToPublished node).toJson) "max_selections" = most
  minimum : readMinimum node.option.columns.validation = least.filter fun n => 0 < n
  nonneg : ∀ n ∈ least, 0 ≤ n
  pos : ∀ n ∈ most, 1 ≤ n
  ordered : ∀ m ∈ least, ∀ n ∈ most, m ≤ n

theorem choiceType_of_takesValues {presentation : String} {definition : Cloud.OptionTypeDefinition}
    (hfound : Cloud.findType presentation = some definition)
    (htakes : takesValues presentation = true) :
    definition.validationSchema = Cloud.choiceValidationSchema ∧ definition.valueKind = "choice" ∧
      definition.cardinality = "one" ∧ presentation ≠ "hidden" ∧
      (definition.cardinalities = [] ∨
        definition.cardinalities = ["many"] ∧ presentation = "checkbox") := by
  have hvalues : definition.takesValues = true := by
    unfold takesValues at htakes
    rwa [hfound] at htakes
  have hname := Cloud.presentation_of_findType hfound
  have hmem := Cloud.mem_of_findType hfound
  unfold Cloud.definitions at hmem
  simp only [List.mem_cons, List.not_mem_nil, or_false] at hmem
  rw [← hname]
  obtain rfl | rfl | rfl | rfl | rfl | rfl | rfl | rfl | rfl | rfl | rfl | rfl | rfl | rfl | rfl :=
    hmem
  all_goals first
    | exact absurd hvalues (by decide)
    | exact ⟨rfl, rfl, rfl, by decide, by decide⟩

theorem nodup_renamed {v : Record} (hnames : ∀ e ∈ v, e.1 = "minSelections" ∨ e.1 = "maxSelections")
    (hnodup : (v.map Prod.fst).Nodup) :
    (v.map fun e => (validationKeys.lookup e.1).getD e.1).Nodup := by
  have hcomp : (v.map fun e => (validationKeys.lookup e.1).getD e.1) =
      (v.map Prod.fst).map fun k => (validationKeys.lookup k).getD k := by
    rw [List.map_map]
    rfl
  rw [hcomp]
  refine List.Nodup.map_on ?_ hnodup
  intro k hk k' hk' heq
  obtain ⟨e, he, rfl⟩ := List.mem_map.1 hk
  obtain ⟨e', he', rfl⟩ := List.mem_map.1 hk'
  obtain hname | hname := hnames e he <;> obtain hname' | hname' := hnames e' he' <;>
    rw [hname, hname'] at heq ⊢ <;> exact absurd heq (by decide)

theorem le_of_bound {x : Js.Value} {low n : ℤ}
    (h : x = .undefined ∨ ∃ n, x.safeInteger? = some n ∧ low ≤ n ∧ n ≤ 100)
    (hn : x.safeInteger? = some n) : low ≤ n := by
  obtain hnone | ⟨m, hm, hlow, -⟩ := h
  · rw [hnone] at hn
    exact absurd hn.symm (Option.some_ne_none n)
  · rw [hm] at hn
    obtain rfl := Option.some.inj hn
    exact hlow

theorem le_of_inOrder {x : Js.Value} {min max : String} {m n : ℤ}
    (h : Cloud.inOrder x min max = true) (hm : (x.field min).safeInteger? = some m)
    (hn : (x.field max).safeInteger? = some n) : m ≤ n := by
  obtain ⟨x, hx, hxval⟩ := Js.exists_num_of_safeInteger? hm
  obtain ⟨y, hy, hyval⟩ := Js.exists_num_of_safeInteger? hn
  unfold Cloud.inOrder at h
  rw [hx, hy] at h
  have hle := of_decide_eq_true h
  rw [hxval, hyval] at hle
  exact_mod_cast hle

theorem exists_bounds (h : AuthoredOption node)
    (htakes : takesValues node.option.columns.presentation = true) :
    ∃ least most, Bounds node least most := by
  obtain ⟨definition, hfound, -, -, hschema⟩ := h.definition
  obtain ⟨hchoice, -⟩ := choiceType_of_takesValues hfound htakes
  have hfield : Engine.validation (sent (optionToPublished node).toJson) =
      ((toPublishedValidation node.option.columns.validation).map
        fun v => sent (.obj v)).getD .null := validation_sentOption
  cases hv : node.option.columns.validation with
  | none =>
    rw [hv] at hfield
    refine ⟨none, none, ?_, ?_, ?_, by simp, by simp, by simp⟩
    · rw [selectionBound, hfield]
      rfl
    · rw [selectionBound, hfield]
      rfl
    · rw [hv]
      rfl
  | some v =>
    rw [hv] at hfield
    have haccepted := hschema v hv
    rw [hchoice] at haccepted
    obtain ⟨hnames, hleast, hmost, horder⟩ := of_choiceValidationSchema haccepted
    have hrenamed := nodup_renamed hnames (h.members v hv)
    have hread : ∀ k least, (k = "minSelections" ∨ k = "maxSelections") → 0 ≤ least →
        ((Json.obj v).parse.field k = .undefined ∨ ∃ n,
          ((Json.obj v).parse.field k).safeInteger? = some n ∧ least ≤ n ∧ n ≤ 100) →
        selectionBound (sent (optionToPublished node).toJson)
          ((validationKeys.lookup k).getD k) = ((Json.obj v).parse.field k).safeInteger? := by
      intro k least hk hle hbound
      have hlookup := lookup_rename (k := k) hrenamed (by
        intro e he heq
        obtain rfl | rfl := hk <;> obtain hname | hname := hnames e he <;> rw [hname] at heq ⊢ <;>
          exact absurd heq (by decide))
      rw [Json.field_parse_obj] at hbound ⊢
      rw [selectionBound, hfield]
      change ((sent (.obj (rename v validationKeys))).field _).int?.filter _ = _
      rw [field_sent, hlookup]
      exact int?_sent hle hbound
    refine ⟨((Json.obj v).parse.field "minSelections").safeInteger?,
      ((Json.obj v).parse.field "maxSelections").safeInteger?,
      hread "minSelections" 0 (.inl rfl) le_rfl hleast,
      hread "maxSelections" 1 (.inr rfl) Int.one_nonneg hmost, ?_, ?_, ?_, ?_⟩
    · rw [hv]
      exact readMinimum_eq (hleast.imp_right fun ⟨n, hn, _⟩ => ⟨n, hn⟩)
    · exact fun n hn => le_of_bound hleast hn
    · exact fun n hn => le_of_bound hmost hn
    · exact fun m hm n hn => le_of_inOrder horder hm hn

end Bounds

/-! ## The options and values of the document -/

section Document

variable {tree : OptionSetTree} {group : GroupNode} {node : OptionNode} {option : Php.Value}

/-- An option of a request is the one of the document, with the set it stands
in. -/
def placedOption (tree : OptionSetTree) (node : OptionNode) : Php.Value :=
  withField (sent (optionToPublished node).toJson) "__set_id" (.str ((document tree).text "id"))

theorem field_placedOption {k : String} (hk : k ≠ "__set_id") :
    (placedOption tree node).field k = (sent (optionToPublished node).toJson).field k :=
  field_withField _ hk

theorem text_placedOption {k : String} (hk : k ≠ "__set_id") :
    (placedOption tree node).text k = (sent (optionToPublished node).toJson).text k := by
  rw [Php.Value.text, Php.Value.text, field_placedOption hk]

/-- **An option is found under its id.** -/
theorem get?_options (hids : tree.ids.Nodup) (hgroup : group ∈ tree.groups)
    (henabled : group.group.columns.isEnabled = true) (hnode : node ∈ group.options)
    (hon : node.option.columns.isEnabled = true) :
    (indexOptions [document tree]).get? node.option.id = some (placedOption tree node) := by
  have hplaced : (placedOptions [document tree]).map (fun p => p.option.text "id") =
      (tree.groups.filter (·.group.columns.isEnabled)).flatMap fun group =>
        (group.options.filter (·.option.columns.isEnabled)).map (·.option.id) := by
    rw [placedOptions_document, List.map_flatMap]
    refine List.flatMap_congr fun group _ => ?_
    rw [List.map_map]
    exact List.map_congr_left fun option _ => text_of_field (id_sentOption option)
  have hsublist : ((placedOptions [document tree]).map fun p => p.option.text "id").Sublist
      tree.ids := by
    rw [hplaced]
    refine (List.filter_sublist.flatMap _).trans ?_
    refine List.Sublist.flatMap_right _ fun group _ => List.Sublist.cons _ ?_
    refine (List.filter_sublist.map _).trans ?_
    rw [← List.flatMap_singleton' (group.options.map (·.option.id)), List.flatMap_map]
    exact List.Sublist.flatMap_right _ fun option _ => List.singleton_sublist.2 List.mem_cons_self
  have hentries := OrderedMap.entries_setAll_of_nodup (m := (∅ : OrderedMap String Php.Value))
    (l := (placedOptions [document tree]).map fun p =>
      (p.option.text "id", withField p.option "__set_id" (.str (p.set.text "id")))) (by
        rw [OrderedMap.keys_empty, List.nil_append, List.map_map]
        exact hids.sublist hsublist)
  unfold OrderedMap.setAll at hentries
  rw [List.foldl_map] at hentries
  refine OrderedMap.get?_eq_some.2 ?_
  unfold indexOptions
  rw [hentries, OrderedMap.entries_empty, List.nil_append]
  refine List.mem_map.2 ⟨⟨document tree, sent (groupToPublished group).toJson,
    sent (optionToPublished node).toJson⟩, ?_, ?_⟩
  · rw [placedOptions_document]
    exact List.mem_flatMap.2 ⟨group, List.mem_filter.2 ⟨hgroup, henabled⟩,
      List.mem_map_of_mem (List.mem_filter.2 ⟨hnode, hon⟩)⟩
  · rw [text_of_field (id_sentOption node)]
    rfl

/-- **The values of an option are found under their keys.** -/
theorem entries_indexValues (h : (node.values.map (·.columns.valueKey)).Nodup) :
    (indexValues (placedOption tree node)).entries = node.live.map fun value =>
      (value.columns.valueKey, sent (valueToPublished value).toJson) := by
  have hvalues : ((placedOption tree node).field "values").castItems =
      node.live.map fun value => sent (valueToPublished value).toJson := by
    rw [field_placedOption (by decide), values_sentOption]
    rfl
  have hkey : ∀ value : Row ValueColumns, (sent (valueToPublished value).toJson).text "value_key" =
      value.columns.valueKey := fun value => text_of_field (valueKey_sentValue value)
  have hall : (node.live.map fun value => sent (valueToPublished value).toJson).filter
      (fun value => value.isArray && (value.field "value_key").isScalar) =
      node.live.map fun value => sent (valueToPublished value).toJson := by
    refine List.filter_eq_self.2 fun v hv => ?_
    obtain ⟨value, -, rfl⟩ := List.mem_map.1 hv
    rw [valueKey_sentValue]
    rfl
  have hentries := OrderedMap.entries_setAll_of_nodup (m := (∅ : OrderedMap String Php.Value))
    (l := node.live.map fun value =>
      (value.columns.valueKey, sent (valueToPublished value).toJson)) (by
        rw [OrderedMap.keys_empty, List.nil_append, List.map_map]
        exact h.sublist (List.filter_sublist.map _))
  unfold OrderedMap.setAll at hentries
  rw [List.foldl_map] at hentries
  unfold indexValues
  rw [hvalues, hall, List.foldl_map]
  simp only [hkey]
  exact hentries

theorem valueAt_live (h : (node.values.map (·.columns.valueKey)).Nodup) {value : Row ValueColumns}
    (hvalue : value ∈ node.live) :
    valueAt (placedOption tree node) value.columns.valueKey =
      sent (valueToPublished value).toJson := by
  have hmem : (value.columns.valueKey, sent (valueToPublished value).toJson) ∈
      (indexValues (placedOption tree node)).entries := by
    rw [entries_indexValues h]
    exact List.mem_map_of_mem hvalue
  rw [valueAt, OrderedMap.getD, OrderedMap.get?_eq_some.2 hmem]
  rfl

/-- **A value that the rules hide on some answers can be hidden.** -/
theorem mem_hideable (h : Authored tree) (hgroup : group ∈ tree.groups)
    (hnode : node ∈ group.options) {value : Row ValueColumns} (hvalue : value ∈ node.values)
    {P : Platform} {base : ℤ} {today : Option String} {answers : OrderedMap String Php.Value}
    (hhidden : (publishedContext P tree base today answers).hiddenValue value.id = true) :
    value.id ∈ hideable tree.rules := by
  have hmem : value.id ∈ hiddenValues (indexRules [document tree])
    (evaluation P [document tree] answers).states := of_decide_eq_true hhidden
  obtain ⟨left, rule, hrule, e, hfired, htarget, haction⟩ :=
    Rules.hides_of_hidden (mem_hiddenValues_document.1 hmem).1
  rw [indexRules_document] at hrule
  obtain ⟨row, hrow, rfl⟩ := List.mem_map.1 hrule
  obtain ⟨hrow, hon⟩ := List.mem_filter.1 hrow
  have heffect : e = Engine.RuleEvaluator.effect (sent (Cloud.toPublishedRule row.toRule)) := by
    change Engine.RuleEvaluator.fired _ _ = some e at hfired
    unfold Engine.RuleEvaluator.fired at hfired
    split at hfired
    · exact (Option.some.inj hfired).symm
    · simp at hfired
  obtain ⟨hsentTarget, hsentAction⟩ := effect_sent row.toRule
  have hid : row.columns.targetId = value.id := by
    rw [← htarget, heffect, hsentTarget]
    rfl
  have hhide : row.columns.action = "hide" := by
    rw [← haction, heffect, hsentAction]
    rfl
  refine List.mem_map.2 ⟨row, List.mem_filter.2 ⟨List.mem_filter.2 ⟨hrow, ?_⟩, ?_⟩, hid⟩
  · exact decide_eq_true (h.disabled row hrow hon)
  · refine decide_eq_true ⟨h.targets row hrow hon group hgroup node hnode value hvalue hid, ?_⟩
    rw [hhide]
    exact List.mem_cons_self

end Document

/-! ## Choosing -/

section Choosing

variable {ctx : Context} {id : String} {option : Php.Value} {keys : List String}

/-- **Sound keys pass the checks of a choice.** -/
theorem choiceViolation_eq_none (h : SoundKeys (ctx.hiddenValue ·) option keys) (hne : keys ≠ []) :
    choiceViolation ctx option keys = none := by
  have hknown : ∀ key ∈ keys, ((indexValues option).get? key).isSome = true :=
    fun key hkey => OrderedMap.isSome_get?.2 (h.authored.subset hkey)
  have hperm := authored_perm h.nodup fun key hkey => h.authored.subset hkey
  have hunknown : (keys.any fun key => !((indexValues option).get? key).isSome) = false := by
    rw [List.any_eq_false]
    intro key hkey
    rw [hknown key hkey]
    decide
  have hleast : (selectionBound option "min_selections").filter
      (fun n => decide ((keys.length : ℤ) < n)) = none := by
    rw [Option.filter_eq_none_iff]
    intro n hn
    have := h.least n hn
    simp only [decide_eq_true_eq]
    omega
  have hmost : (selectionBound option "max_selections").filter
      (fun n => decide (n < (keys.length : ℤ))) = none := by
    rw [Option.filter_eq_none_iff]
    intro n hn
    have := h.most n hn
    simp only [decide_eq_true_eq]
    omega
  have hhead : ((indexValues option).get? ((authored option keys).headD "")).isSome = true := by
    have hauthored : authored option keys ≠ [] := fun hnil => hne (by
      rw [hnil] at hperm
      exact hperm.nil_eq.symm)
    obtain ⟨key, rest, hcons⟩ := List.exists_cons_of_ne_nil hauthored
    rw [hcons]
    refine hknown key (hperm.subset ?_)
    rw [hcons]
    exact List.mem_cons_self
  have hhits : hitsHidden ctx option (authored option keys) = false := by
    unfold hitsHidden
    rw [List.any_eq_false]
    intro key hkey htrue
    rw [Bool.and_eq_true, decide_eq_true_eq] at htrue
    exact h.visible key (hperm.subset hkey) htrue.1 htrue.2
  unfold choiceViolation
  dsimp only
  rw [hunknown, hleast, hmost]
  simp only [hhead, hhits]
  rfl

/-- Keys can be sent: in a list where many are taken, one alone otherwise. -/
theorem exists_keysSent (hnodup : keys.Nodup) (hne : keys ≠ [])
    (hone : takesMany option = false → keys.length ≤ 1) :
    ∃ raw, keysSent option raw = some keys := by
  cases hmany : takesMany option with
  | true =>
    have hcast : (keys.map Php.Value.str).map Php.Value.castString = keys := by
      rw [List.map_map]
      exact List.map_id keys
    refine ⟨Php.Value.ofList (keys.map .str), ?_⟩
    unfold keysSent sentKeys
    have harray : (Php.Value.ofList (keys.map Php.Value.str)).isArray = true := rfl
    rw [hmany, harray, Bool.and_true, if_pos rfl, Php.Value.items_ofList, Option.filter_some,
      if_pos (List.all_eq_true.2 fun v hv => ?_), Option.map_some, hcast,
      distinct_of_nodup hnodup]
    obtain ⟨key, -, rfl⟩ := List.mem_map.1 hv
    rfl
  | false =>
    obtain ⟨key, rest, rfl⟩ := List.exists_cons_of_ne_nil hne
    have hlength := hone hmany
    obtain rfl : rest = [] := by
      rw [List.length_cons] at hlength
      exact List.length_eq_zero_iff.1 (by omega)
    refine ⟨.str key, ?_⟩
    unfold keysSent sentKeys
    rw [hmany]
    rfl

/-- **A sound selection of a choice is accepted.** -/
theorem accepts_of_sound (hchoice : isChoice option = true)
    (h : SoundKeys (ctx.hiddenValue ·) option keys)
    (hsingle : takesMany option = false → keys.length ≤ 1)
    (hone : option.text "cardinality" = "one" → keys.length ≤ 1) : Accepts ctx id option keys := by
  refine ⟨h, hone, fun hne => ?_⟩
  obtain ⟨raw, hraw⟩ := exists_keysSent h.nodup hne hsingle
  refine ⟨raw, hraw, fun t => ?_⟩
  unfold Taken.take
  rw [read_eq_none_iff.2 hchoice]
  dsimp only
  rw [choiceViolation_eq_none h hne]
  rfl

end Choosing

/-! ## The check against the resolver -/

section Checked

variable {tree : OptionSetTree} {group : GroupNode} {node : OptionNode}

/-- **What the check lets through**: an option keeps as many values as it asks
for. -/
theorem le_reachable (hcheck : selectionMinimumsAreReachable tree tree.rules = [])
    (hgroup : group ∈ tree.groups) (henabled : group.group.columns.isEnabled = true)
    (hnode : node ∈ group.options) (hon : node.option.columns.isEnabled = true)
    (htakes : takesValues node.option.columns.presentation = true) {n : ℤ}
    (hn : readMinimum node.option.columns.validation = some n) :
    n ≤ (node.reachable tree.rules).length := by
  have hfindings := List.flatMap_eq_nil_iff.1 hcheck group (List.mem_filter.2 ⟨hgroup, henabled⟩)
  have hnone := List.filterMap_eq_nil_iff.1 hfindings node hnode
  unfold minimumFinding at hnone
  rw [hon, htakes, hn] at hnone
  by_contra hlt
  rw [Bool.and_self, if_pos rfl] at hnone
  dsimp only at hnone
  rw [if_neg hlt] at hnone
  simp at hnone

/-- What the plugin makes of an option that takes values: a choice, of many
where its cardinality is not one. -/
theorem choice_placedOption (h : AuthoredOption node)
    (htakes : takesValues node.option.columns.presentation = true) :
    isChoice (placedOption tree node) = true ∧
      (takesMany (placedOption tree node) = false → node.option.columns.cardinality = "one") := by
  obtain ⟨definition, hfound, hkind, hcardinality, -⟩ := h.definition
  obtain ⟨-, hchoice, hone, hhidden, hmany⟩ := choiceType_of_takesValues hfound htakes
  obtain ⟨htype, hvalueKind, hcard⟩ := @texts_sentOption node
  have htextType : (placedOption tree node).text "type" = node.option.columns.presentation :=
    (text_placedOption (by decide)).trans htype
  have htextKind : (placedOption tree node).text "value_kind" = "choice" :=
    ((text_placedOption (by decide)).trans hvalueKind).trans (hkind.trans hchoice)
  have htextCard : (placedOption tree node).text "cardinality" = node.option.columns.cardinality :=
    (text_placedOption (by decide)).trans hcard
  constructor
  · unfold isChoice isHidden isFile isFreeText isDate isNumber
    rw [htextType, htextKind, beq_eq_false_iff_ne.2 hhidden]
    decide
  · unfold takesMany
    rw [htextCard, htextType]
    rw [hone] at hcardinality
    obtain hnil | ⟨hlist, hcheckbox⟩ := hmany
    · rw [hnil] at hcardinality
      exact fun _ => List.mem_singleton.1 hcardinality
    · rw [hlist] at hcardinality
      obtain hcard | hcard := List.mem_pair.1 hcardinality
      · exact fun _ => hcard
      · rw [hcard, hcheckbox]
        exact fun htrue => absurd htrue (by decide)

theorem minimum_le_one (h : AuthoredOption node)
    (htakes : takesValues node.option.columns.presentation = true) {ctx : Context} {id : String}
    {keys : List String} (haccepts : Accepts ctx id (placedOption tree node) keys)
    (hone : node.option.columns.cardinality = "one") {n : ℤ}
    (hn : readMinimum node.option.columns.validation = some n) : n ≤ 1 := by
  obtain ⟨least, most, hbounds⟩ := exists_bounds h htakes
  have hmin := hbounds.minimum
  rw [hn] at hmin
  obtain ⟨hleast, -⟩ := Option.filter_eq_some_iff.1 hmin.symm
  have hbound : selectionBound (placedOption tree node) "min_selections" = some n := by
    unfold selectionBound Engine.validation
    rw [field_placedOption (by decide), ← hleast]
    exact hbounds.read_least
  have hlow := haccepts.sound.least n hbound
  have hhigh := haccepts.single (by
    rw [text_placedOption (by decide)]
    exact texts_sentOption.2.2.trans hone)
  omega

/-- **As many of the values that no rule can hide as are asked for** are one
where the cardinality is, and no more than there may be. -/
theorem exists_count {least most : Option ℤ} (hbounds : Bounds node least most)
    (hreach : ∀ n, readMinimum node.option.columns.validation = some n →
      n ≤ (node.reachable tree.rules).length)
    (hmin : node.option.columns.cardinality = "one" →
      ∀ n, readMinimum node.option.columns.validation = some n → n ≤ 1) :
    ∃ count : ℕ, count ≤ (node.reachable tree.rules).length ∧ (∀ n ∈ least, n ≤ count) ∧
      (∀ n ∈ most, (count : ℤ) ≤ n) ∧
        (node.option.columns.cardinality = "one" → count ≤ 1) := by
  have hminimum := hbounds.minimum
  cases hread : readMinimum node.option.columns.validation with
  | none =>
    rw [hread] at hminimum
    refine ⟨0, Nat.zero_le _, fun n hn => ?_, fun n hn => ?_, fun _ => Nat.zero_le 1⟩
    · have hnot := Option.filter_eq_none_iff.1 hminimum.symm n hn
      rw [decide_eq_true_eq] at hnot
      exact_mod_cast not_lt.1 hnot
    · have hpos := hbounds.pos n hn
      omega
  | some n =>
    rw [hread] at hminimum
    obtain ⟨hleast, hpos⟩ := Option.filter_eq_some_iff.1 hminimum.symm
    have hpos := of_decide_eq_true hpos
    have hfew := hreach n hread
    refine ⟨n.toNat, by omega, fun m hm => ?_, fun m hm => ?_, fun hone => ?_⟩
    · rw [hleast] at hm
      obtain rfl := Option.some.inj hm
      omega
    · have hordered := hbounds.ordered n hleast m hm
      omega
    · have hsingle := hmin hone n hread
      omega

/-- **Of an option that passes the check there is a selection to make**,
whatever the rules hide, exactly where it does not ask for two of one. -/
theorem selectable_iff {P : Platform} (h : Authored tree)
    (hcheck : selectionMinimumsAreReachable tree tree.rules = []) (hgroup : group ∈ tree.groups)
    (henabled : group.group.columns.isEnabled = true) (hnode : node ∈ group.options)
    (hon : node.option.columns.isEnabled = true)
    (htakes : takesValues node.option.columns.presentation = true) (base : ℤ)
    (today : Option String) (answers : OrderedMap String Php.Value) :
    Selectable (publishedContext P tree base today answers) node.option.id ↔
      (node.option.columns.cardinality = "one" →
        ∀ n, readMinimum node.option.columns.validation = some n → n ≤ 1) := by
  have hauthored := h.options group hgroup node hnode
  have hget : (publishedContext P tree base today answers).options.get? node.option.id =
      some (placedOption tree node) := get?_options h.ids hgroup henabled hnode hon
  constructor
  · rintro ⟨option, hoption, keys, haccepts⟩ hone n hn
    rw [hget] at hoption
    obtain rfl := Option.some.inj hoption
    exact minimum_le_one hauthored htakes haccepts hone hn
  · intro hmin
    obtain ⟨least, most, hbounds⟩ := exists_bounds hauthored htakes
    obtain ⟨hchoice, hmany⟩ := @choice_placedOption tree node hauthored htakes
    have hbound : ∀ k, selectionBound (placedOption tree node) k =
        selectionBound (sent (optionToPublished node).toJson) k := by
      intro k
      unfold selectionBound Engine.validation
      rw [field_placedOption (by decide)]
    obtain ⟨count, hreach, hlow, hhigh, hone⟩ := exists_count hbounds
      (fun n hread => le_reachable hcheck hgroup henabled hnode hon htakes hread) hmin
    have hlive : (((node.reachable tree.rules).take count).map (·.columns.valueKey)).Sublist
        (node.live.map (·.columns.valueKey)) :=
      ((List.take_sublist _ _).trans List.filter_sublist).map _
    have hkeys : (indexValues (placedOption tree node)).keys =
        node.live.map (·.columns.valueKey) := by
      unfold OrderedMap.keys
      rw [entries_indexValues hauthored.values, List.map_map]
      rfl
    have hlength : (((node.reachable tree.rules).take count).map
        (·.columns.valueKey)).length = count := by
      rw [List.length_map, List.length_take]
      omega
    refine ⟨placedOption tree node, hget,
      ((node.reachable tree.rules).take count).map (·.columns.valueKey),
      accepts_of_sound hchoice ⟨?_, ?_, ?_, ?_, ?_⟩ ?_ ?_⟩
    · exact hauthored.values.sublist (hlive.trans (List.filter_sublist.map _))
    · rw [hkeys]
      exact hlive
    · intro key hkey _ hhidden
      obtain ⟨value, hvalue, rfl⟩ := List.mem_map.1 hkey
      obtain ⟨hvalueLive, hfree⟩ := List.mem_filter.1 (List.mem_of_mem_take hvalue)
      rw [valueAt_live hauthored.values hvalueLive, text_of_field (id_sentValue value)] at hhidden
      exact of_decide_eq_true hfree
        (mem_hideable h hgroup hnode (List.mem_filter.1 hvalueLive).1 hhidden)
    · intro n hn
      rw [hbound, hbounds.read_least] at hn
      rw [hlength]
      exact hlow n hn
    · intro n hn
      rw [hbound, hbounds.read_most] at hn
      rw [hlength]
      exact hhigh n hn
    · intro hsingle
      rw [hlength]
      exact hone (hmany hsingle)
    · intro hcardinality
      rw [text_placedOption (by decide), texts_sentOption.2.2] at hcardinality
      rw [hlength]
      exact hone hcardinality

end Checked

/-! ## A pizza -/

/-- A value of a diet or a topping. -/
def plainValue (optionId id : String) : Row ValueColumns :=
  ⟨id, optionId, 0, ⟨id, id, "fixed", 0, none, none, none, none, none, none, none, false, true⟩⟩

def toppings (presentation cardinality : String) (least : ℤ) : OptionNode :=
  ⟨⟨"toppings", "choices", 1, ⟨"toppings", "choice", cardinality, presentation, "Toppings", none,
    none, none, false, true, none, some [("minSelections", .int least)], none, none, none⟩⟩,
    [plainValue "toppings" "ham", plainValue "toppings" "olives", plainValue "toppings" "corn"]⟩

/-- A pizza with a diet to choose, and toppings, of which some are asked for;
there is no ham for a vegan. -/
def pizza (presentation cardinality : String) (least : ℤ) : OptionSetTree where
  set := ⟨"pizza", "Pizza", 1⟩
  rules := [⟨"noHam", "pizza", 0, ⟨"value", "ham", "hide", .arr [.obj [("optionId", .str "diet"),
    ("operator", .str "equals"), ("value", .str "vegan")]], "all", none, true, none⟩⟩]
  groups := [⟨⟨"choices", "pizza", 0, ⟨"Choices", none, "list", false, true⟩⟩, [],
    [⟨⟨"diet", "choices", 0, ⟨"diet", "choice", "one", "radio", "Diet", none, none, none, false,
        true, none, none, none, none, none⟩⟩, [plainValue "diet" "vegan", plainValue "diet" "any"]⟩,
      toppings presentation cardinality least]⟩]

def veganAnswers : OrderedMap String Php.Value :=
  (∅ : OrderedMap String Php.Value).set "diet" (.str "vegan")

/-- A pizza is accepted where its toppings are of a type that takes as many. -/
theorem authored_pizza {presentation cardinality : String} {definition : Cloud.OptionTypeDefinition}
    (hfound : Cloud.findType presentation = some definition)
    (hkind : "choice" = definition.valueKind)
    (hcardinality : cardinality ∈ definition.cardinality :: definition.cardinalities)
    (hschema : definition.validationSchema (Json.obj [("minSelections", .int 2)]).parse = true) :
    Authored (pizza presentation cardinality 2) := by
  have hids : ["choices", "diet", "vegan", "any", "toppings", "ham", "olives", "corn"].Nodup := by
    decide
  have hkeys : ["ham", "olives", "corn"].Nodup := by decide
  refine ⟨hids, fun group hgroup node hnode => ?_, fun rule hrule _ => ?_, fun rule hrule _ => ?_⟩
  · obtain rfl := List.mem_singleton.1 hgroup
    obtain rfl | hnode := List.mem_cons.1 hnode
    · exact ⟨⟨_, rfl, rfl, List.mem_cons_self, fun v hv => absurd hv.symm (Option.some_ne_none v)⟩,
        fun v hv => absurd hv.symm (Option.some_ne_none v), by decide⟩
    · obtain rfl := List.mem_singleton.1 hnode
      refine ⟨⟨definition, hfound, hkind, hcardinality, fun v hv => ?_⟩, fun v hv => ?_, hkeys⟩
      · obtain rfl := Option.some.inj hv
        exact hschema
      · obtain rfl := Option.some.inj hv
        decide
  · obtain rfl := List.mem_singleton.1 hrule
    exact fun _ _ _ _ _ _ _ => rfl
  · obtain rfl := List.mem_singleton.1 hrule
    exact fun h => absurd h.symm (Option.some_ne_none _)

/-- A vegan finds two toppings. -/
theorem selectable_vegan :
    Selectable (publishedContext asciiPlatform (pizza "checkbox" "many" 2) 1000 none veganAnswers)
      "toppings" := by
  have hauthored : Authored (pizza "checkbox" "many" 2) :=
    authored_pizza rfl rfl (List.mem_cons_of_mem _ List.mem_cons_self) (by decide +kernel)
  have hnode : toppings "checkbox" "many" 2 ∈
      ((pizza "checkbox" "many" 2).groups.head (List.cons_ne_nil _ _)).options :=
    List.mem_cons_of_mem _ List.mem_cons_self
  exact (selectable_iff hauthored (by decide +kernel) List.mem_cons_self rfl hnode rfl (by decide)
    1000 none veganAnswers).2 fun h => absurd h (by decide)

/-- **Two toppings of a radio pass the check**, and no selection of them is
accepted, whatever else is answered. -/
theorem two_of_one_unselectable : ¬ ∀ tree, Authored tree →
    selectionMinimumsAreReachable tree tree.rules = [] →
      ∀ group ∈ tree.groups, group.group.columns.isEnabled = true →
        ∀ node ∈ group.options, node.option.columns.isEnabled = true →
          takesValues node.option.columns.presentation = true → ∀ P base today answers,
            Selectable (publishedContext P tree base today answers) node.option.id := by
  intro h
  have hauthored : Authored (pizza "radio" "one" 2) :=
    authored_pizza rfl rfl List.mem_cons_self (by decide +kernel)
  have hnode : toppings "radio" "one" 2 ∈
      ((pizza "radio" "one" 2).groups.head (List.cons_ne_nil _ _)).options :=
    List.mem_cons_of_mem _ List.mem_cons_self
  obtain ⟨option, hoption, keys, haccepts⟩ := h (pizza "radio" "one" 2) hauthored
    (by decide +kernel) _ List.mem_cons_self rfl _ hnode rfl (by decide) asciiPlatform 0 none ∅
  have hget : (publishedContext asciiPlatform (pizza "radio" "one" 2) 0 none ∅).options.get?
      "toppings" = some (placedOption _ (toppings "radio" "one" 2)) :=
    get?_options hauthored.ids List.mem_cons_self rfl hnode rfl
  have hsame := hoption.symm.trans hget
  obtain rfl := Option.some.inj hsame
  have hread : readMinimum (toppings "radio" "one" 2).option.columns.validation = some 2 := by
    decide +kernel
  exact absurd (minimum_le_one (hauthored.options _ List.mem_cons_self _ hnode) (by decide) haccepts
    rfl hread) (by decide)

end Optionia.Sets
