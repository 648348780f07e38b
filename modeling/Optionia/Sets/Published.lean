import Optionia.Lib.Sorting
import Optionia.Cloud.PublishCheck
/-!
# The rows of an option set, and what is published of them

The tables of an option set with all their columns: groups, the options and
the presentational items of a group, the values of an option, and rules. Every
row is live; what was deleted is not there. `OptionSetTreeLoader.load` reads a
table at a time, ordered by `CHILD_ORDER`, and puts the children under their
parents.
-/

namespace Optionia.Sets

open Wire

/-- `Record<string, unknown>` -/
abbrev Record := List (String × Json)

/-- The columns of `option_groups`. -/
structure GroupColumns where
  label : String
  description : Option String
  displayType : String
  isCollapsible : Bool
  isEnabled : Bool

/-- The columns of `options`. -/
structure OptionColumns where
  key : String
  valueKind : String
  cardinality : String
  presentation : String
  label : String
  description : Option String
  placeholder : Option String
  helpText : Option String
  isRequired : Bool
  isEnabled : Bool
  defaultValue : Option String
  validation : Option Record
  pricing : Option Record
  display : Option Record
  textDesign : Option Record

/-- The columns of `option_values`. -/
structure ValueColumns where
  valueKey : String
  label : String
  priceType : String
  priceAmountMinor : ℤ
  priceConfig : Option Record
  imageUrl : Option String
  design : Option Record
  colorHex : Option String
  groupLabel : Option String
  skuSuffix : Option String
  weightDeltaGrams : Option ℤ
  isDefault : Bool
  isEnabled : Bool

/-- The columns of `presentational_items`. -/
structure ItemColumns where
  kind : String
  content : String
  display : Option Record

/-- The columns of `option_rules`. -/
structure RuleColumns where
  targetType : String
  targetId : String
  action : String
  /-- `conditions`: whatever the column holds. -/
  conditions : Json
  matchType : String
  actionValue : Option Record
  isEnabled : Bool
  disabledReason : Option String

/-- A row of a table. -/
structure Row (C : Type) where
  id : String
  parentId : String
  sortOrder : ℤ
  columns : C

/-- A row of `option_sets`. -/
structure OptionSet where
  id : String
  name : String
  version : ℕ

/-- The tables. -/
structure Tables where
  sets : List OptionSet
  groups : List (Row GroupColumns)
  options : List (Row OptionColumns)
  values : List (Row ValueColumns)
  items : List (Row ItemColumns)
  rules : List (Row RuleColumns)

/-! ## The tree -/

/-- An option with its values. -/
structure OptionNode where
  option : Row OptionColumns
  values : List (Row ValueColumns)

/-- A group with what is in it. -/
structure GroupNode where
  group : Row GroupColumns
  items : List (Row ItemColumns)
  options : List OptionNode

structure OptionSetTree where
  set : OptionSet
  rules : List (Row RuleColumns)
  groups : List GroupNode

section Load

variable {C : Type}

def childOrder (a b : Row C) : Bool :=
  decide (a.sortOrder < b.sortOrder) || a.sortOrder == b.sortOrder && decide (a.id ≤ b.id)

def childrenOf (rows : List (Row C)) (parents : List String) : List (Row C) :=
  rows.filter fun row => row.parentId ∈ parents

/-- `find`, ordered by `CHILD_ORDER`. -/
def find (rows : List (Row C)) (parents : List String) : List (Row C) :=
  (childrenOf rows parents).mergeSort childOrder

/-- `groupBy(rows, parent).get(id) ?? []` -/
def bucket (rows : List (Row C)) (id : String) : List (Row C) := childrenOf rows [id]

end Load

def load (tables : Tables) (set : OptionSet) : OptionSetTree :=
  let groups := find tables.groups [set.id]
  let groupIds := groups.map (·.id)
  let options := find tables.options groupIds
  let items := find tables.items groupIds
  let values := find tables.values (options.map (·.id))
  { set
    rules := find tables.rules [set.id]
    groups := groups.map fun group =>
      { group
        items := bucket items group.id
        options := (bucket options group.id).map fun option =>
          { option, values := bucket values option.id } } }

/-! ## The order of children -/

section Order

variable {C : Type} {a b c : Row C} {rows : List (Row C)}

theorem childOrder_iff :
    childOrder a b = true ↔ a.sortOrder < b.sortOrder ∨ a.sortOrder = b.sortOrder ∧ a.id ≤ b.id := by
  simp [childOrder]

theorem childOrder_trans (hab : childOrder a b = true) (hbc : childOrder b c = true) :
    childOrder a c = true := by
  rw [childOrder_iff] at hab hbc ⊢
  obtain hab | ⟨heq, hab⟩ := hab
  · obtain hbc | ⟨heq, -⟩ := hbc
    · exact .inl (hab.trans hbc)
    · exact .inl (heq ▸ hab)
  · obtain hbc | ⟨heq', hbc⟩ := hbc
    · exact .inl (heq ▸ hbc)
    · exact .inr ⟨heq.trans heq', String.le_trans hab hbc⟩

theorem childOrder_total (a b : Row C) : (childOrder a b || childOrder b a) = true := by
  rw [Bool.or_eq_true, childOrder_iff, childOrder_iff]
  obtain h | h | h := lt_trichotomy a.sortOrder b.sortOrder
  · exact .inl (.inl h)
  · obtain hle | hle := String.le_total a.id b.id
    · exact .inl (.inr ⟨h, hle⟩)
    · exact .inr (.inr ⟨h.symm, hle⟩)
  · exact .inr (.inl h)

theorem compares_childOrder : Sorting.Compares (childOrder (C := C)) :=
  ⟨fun _ _ _ => childOrder_trans, childOrder_total⟩

theorem id_eq_of_childOrder (hab : childOrder a b = true) (hba : childOrder b a = true) :
    a.id = b.id := by
  rw [childOrder_iff] at hab hba
  obtain hab | ⟨heq, hab⟩ := hab
  · obtain hba | ⟨heq, -⟩ := hba
    · exact absurd hab hba.asymm
    · exact absurd heq hab.ne'
  · obtain hba | ⟨-, hba⟩ := hba
    · exact absurd heq hba.ne'
    · exact String.le_antisymm hab hba

/-- Rows have ids of their own. -/
def Keyed (rows : List (Row C)) : Prop := (rows.map (·.id)).Nodup

theorem Keyed.eq (h : Keyed rows) (ha : a ∈ rows) (hb : b ∈ rows) (hid : a.id = b.id) : a = b :=
  List.inj_on_of_nodup_map h ha hb hid

theorem Keyed.filter (h : Keyed rows) (p : Row C → Bool) : Keyed (rows.filter p) :=
  h.sublist (List.filter_sublist.map _)

end Order

end Optionia.Sets

/-! ## What is published of an option set

`OptionSetSerializer.toPublished`: the document of a tree. What is disabled is
left out, what is null is left out, stored keys are written in the document's
own convention, and rules go through `toPublishedRule`.
-/

namespace Optionia.Sets

open Wire

/-! ## Stored columns in the document's convention -/

def validationKeys : List (String × String) :=
  [("minLength", "min_length"), ("maxLength", "max_length"), ("min", "min"), ("max", "max"),
    ("step", "step"), ("integerOnly", "integer_only"), ("pattern", "pattern"),
    ("allowedCharset", "allowed_charset"), ("forbiddenWords", "forbidden_words"),
    ("minDate", "min_date"), ("maxDate", "max_date"), ("blackoutDates", "blackout_dates"),
    ("allowedWeekdays", "allowed_weekdays"), ("leadTimeDays", "lead_time_days"),
    ("maxAdvanceDays", "max_advance_days"), ("minSelections", "min_selections"),
    ("maxSelections", "max_selections")]

def displayKeys : List (String × String) :=
  [("characterCounter", "character_counter"), ("priceDisplay", "price_display"),
    ("swatchSize", "swatch_size"), ("collapsedByDefault", "collapsed_by_default"),
    ("tooltip", "tooltip"), ("columns", "columns"), ("accentColor", "accent_color"),
    ("borderRadius", "border_radius"), ("spacing", "spacing"), ("swatchPx", "swatch_px")]

/-- `rename`, of a column that is not null. -/
def rename (source : Record) (keys : List (String × String)) : Record :=
  (source.foldl (fun out entry => out.set ((keys.lookup entry.1).getD entry.1) entry.2)
    (∅ : OrderedMap String Json)).entries

def toPublishedValidation (validation : Option Record) : Option Record :=
  validation.map fun validation => rename validation validationKeys

def toPublishedDisplay (display : Option Record) : Option Record :=
  display.map fun display => rename display displayKeys

/-- `x ?? d` -/
def orNull (x : Option Json) (d : Json) : Json :=
  match x with
  | none | some .null => d
  | some x => x

/-- `tiers`, where they are an array. -/
def toPublishedTiers (source : Record) : Json :=
  .arr ((Cloud.elements ((source.lookup "tiers").getD .null)).map fun bracket =>
    .obj (member "min_quantity" (bracket.get? "minQuantity") ++
      [("max_quantity", orNull (bracket.get? "maxQuantity") .null)] ++
        member "amount_minor" (bracket.get? "amountMinor")))

/-- What the converters of prices have in common: a type that is known keeps
what it needs, and any other is passed through. -/
def toPublishedPrice (source : Record) : Record :=
  match source.lookup "type" with
  | some (.str type) =>
    if type = "per_char" then
      [("type", .str type)] ++ member "amount_minor" (source.lookup "amountMinor") ++
        [("free_characters", orNull (source.lookup "freeCharacters") (.int 0))]
    else if type = "fixed" ∨ type = "per_unit" then
      [("type", .str type)] ++ member "amount_minor" (source.lookup "amountMinor")
    else if type = "percentage" then
      [("type", .str type)] ++ member "basis_points" (source.lookup "basisPoints")
    else if type = "tiered" then [("type", .str type), ("tiers", toPublishedTiers source)]
    else source
  | _ => source

def toPublishedOptionPricing (pricing : Option Record) : Option Record :=
  pricing.map toPublishedPrice

def toPublishedPriceConfig (priceConfig : Option Record) (priceType : String)
    (priceAmountMinor : ℤ) : Record :=
  match priceConfig with
  | none => [("type", .str priceType), ("amount_minor", .int priceAmountMinor)]
  | some priceConfig => toPublishedPrice priceConfig

/-! ## The document -/

/-- `PublishedValue`: its id, and its other members. -/
structure PublishedValue where
  id : String
  fields : Record

structure PublishedOption where
  id : String
  fields : Record
  values : List PublishedValue

structure PublishedGroup where
  id : String
  /-- Its other members, but for what is in it. -/
  fields : Record
  options : List PublishedOption
  items : List Record

/-- `PublishedOptionSet`; nothing is assigned when it is published. -/
structure PublishedOptionSet where
  id : String
  version : ℕ
  groups : List PublishedGroup
  rules : List Json

/-- `optional`, of a text. -/
def optionalText (key : String) (value : Option String) : Record := member key (value.map .str)

/-- `optional`, of a column that holds an object. -/
def optionalRecord (key : String) (value : Option Record) : Record := member key (value.map .obj)

def valueToPublished (value : Row ValueColumns) : PublishedValue where
  id := value.id
  fields :=
    let c := value.columns
    [("value_key", .str c.valueKey), ("label", .str c.label), ("sort_order", .int value.sortOrder),
      ("price_config", .obj (toPublishedPriceConfig c.priceConfig c.priceType c.priceAmountMinor))] ++
    optionalText "image_url" c.imageUrl ++ optionalText "color_hex" c.colorHex ++
    optionalRecord "design" c.design ++ optionalText "group_label" c.groupLabel ++
    optionalText "sku_suffix" c.skuSuffix ++
    member "weight_delta_grams" (c.weightDeltaGrams.map .int) ++
    if c.isDefault then [("is_default", .bool true)] else []

def itemToPublished (item : Row ItemColumns) : Record :=
  [("kind", .str item.columns.kind), ("content", .str item.columns.content),
    ("sort_order", .int item.sortOrder)] ++ optionalRecord "display" item.columns.display

def optionToPublished (node : OptionNode) : PublishedOption where
  id := node.option.id
  fields :=
    let c := node.option.columns
    [("key", .str c.key), ("type", .str c.presentation), ("value_kind", .str c.valueKind),
      ("cardinality", .str c.cardinality), ("label", .str c.label)] ++
    optionalText "description" c.description ++ optionalText "placeholder" c.placeholder ++
    optionalText "help_text" c.helpText ++
    [("is_required", .bool c.isRequired), ("sort_order", .int node.option.sortOrder)] ++
    optionalText "default_value" c.defaultValue ++
    optionalRecord "validation" (toPublishedValidation c.validation) ++
    optionalRecord "pricing" (toPublishedOptionPricing c.pricing) ++
    optionalRecord "display" (toPublishedDisplay c.display)
  values := (node.values.filter (·.columns.isEnabled)).map valueToPublished

def groupToPublished (node : GroupNode) : PublishedGroup where
  id := node.group.id
  fields :=
    let c := node.group.columns
    [("label", .str c.label)] ++ optionalText "description" c.description ++
    [("display_type", .str c.displayType), ("sort_order", .int node.group.sortOrder),
      ("is_collapsible", .bool c.isCollapsible)]
  options := (node.options.filter (·.option.columns.isEnabled)).map optionToPublished
  items := node.items.map itemToPublished

/-- A rule as `toPublishedRule` takes it. -/
def Row.toRule (row : Row RuleColumns) : Cloud.OptionRule where
  id := row.id
  targetType := row.columns.targetType
  targetId := row.columns.targetId
  action := row.columns.action
  matchType := row.columns.matchType
  conditions := row.columns.conditions
  actionValue := row.columns.actionValue
  sortOrder := row.sortOrder
  isEnabled := row.columns.isEnabled

def toPublished (tree : OptionSetTree) : PublishedOptionSet where
  id := tree.set.id
  version := tree.set.version
  groups := (tree.groups.filter (·.group.columns.isEnabled)).map groupToPublished
  rules := (tree.rules.filter (·.columns.isEnabled)).map fun row => Cloud.toPublishedRule row.toRule

/-! ## The document as JSON -/

def PublishedValue.toJson (value : PublishedValue) : Json := .obj (("id", .str value.id) :: value.fields)

def PublishedOption.toJson (option : PublishedOption) : Json :=
  .obj (("id", .str option.id) :: option.fields ++ [("values", .arr (option.values.map (·.toJson)))])

def PublishedGroup.toJson (group : PublishedGroup) : Json :=
  .obj (("id", .str group.id) :: group.fields ++
    [("options", .arr (group.options.map (·.toJson))), ("items", .arr (group.items.map .obj))])

def PublishedOptionSet.toJson (set : PublishedOptionSet) : Json :=
  .obj [("id", .str set.id), ("version", .int set.version), ("assignments", .arr []),
    ("groups", .arr (set.groups.map (·.toJson))), ("rules", .arr set.rules)]

end Optionia.Sets
