import Optionia.Config.ProductSets
import Optionia.Config.Repository
import Optionia.Engine.Unpriced
/-!
# The scan for unpriced types, and what resolutions report

When a document is stored, `record_unpriced_types` looks for types that are
not charged where they stand: it compares names. A resolution reports the
types its selections leave uncharged, and there the kind of an option, the
rules on a price and the parts of a price count too. The two agree where no
request meets such a part unseen by the scan, and where what the scan found is
left uncharged by a request (`scanAgrees_iff`).
-/

namespace Optionia.Config.Repository

open Php Engine Engine.SelectionResolver

/-! ## The sets of a product -/

/-- The sets by id, with one more. -/
def addById (byId : OrderedMap String Value) (set : Value) : OrderedMap String Value :=
  match set.field "id" with
  | .str setId => byId.set setId set
  | _ => byId

/-- The sets of a document by id; the last of an id stands. -/
def setsById (document : Value) : OrderedMap String Value :=
  (document.field "option_sets").items.foldl addById ∅

/-- `option_sets_for_product`, where the index is that of the document. -/
def optionSetsForProduct (document : Value) (hasTerm : String → String → ℤ → Bool)
    (productId : ℤ) : List Value :=
  ((ProductIndex.build document).forProduct hasTerm productId).filterMap (setsById document).get?

/-! ## Where a document carries prices -/

/-- The options of a document, those the scan walks. -/
def documentOptions (document : Value) : List Value :=
  (document.field "option_sets").castItems.flatMap fun set =>
    (set.field "groups").castItems.flatMap fun group =>
      (group.field "options").castItems.filter Value.isArray

/-- A place that carries a price: an option, or a value of one. -/
inductive Place where
  | option (row : Value)
  | value (row value : Value)

def places (document : Value) : List Place :=
  (documentOptions document).flatMap fun row =>
    .option row :: (row.field "values").castItems.map (.value row)

/-- The type recorded at a place, if any. -/
def Place.recorded : Place → List String
  | .option row => collectUnpriced (row.field "pricing") optionPricedTypes []
  | .value _ chosen => collectUnpriced (chosen.field "price_config") valuePricedTypes []

/-! ## Requests -/

/-- A request for a product. -/
structure Request where
  hasTerm : String → String → ℤ → Bool
  productId : ℤ
  base : ℤ
  today : Option String
  selections : OrderedMap String Value

namespace Request

variable (P : Platform) (document : Value) (q : Request)

/-- The sets the request is resolved against. -/
def sets : List Value := optionSetsForProduct document q.hasTerm q.productId

def ctx : Context :=
  context P (q.sets document) q.base q.today
    (evaluation P (q.sets document) q.selections).states

def resolved : Result := resolve P (q.sets document) q.selections q.base q.today

end Request

/-- The option a selection answers, if it answers one. -/
def selected : Verdict → Option Value
  | .answered option _ => some option
  | .chosen option _ => some option
  | _ => none

/-- **A request selects a place**: it answers the option, or chooses the
value. -/
def Place.Selected (ctx : Context) (selections : OrderedMap String Value) : Place → Prop
  | .option row => ∃ p ∈ selections.entries, ∃ setId,
    selected (verdict ctx p) = some (withField row "__set_id" setId)
  | .value row chosen => ∃ p ∈ selections.entries, ∃ setId keys,
    verdict ctx p = .chosen (withField row "__set_id" setId) keys ∧
      ∃ key ∈ keys, valueAt (withField row "__set_id" setId) key = chosen

/-! ## The two agree -/

/-- The largest amount of the schema. -/
def maxAmountMinor : ℤ := 1000000000

/-- The largest percentage of the schema, in basis points. -/
def maxBasisPoints : ℤ := 100000

/-- **The amounts of a document stand within the caps of the schema.** -/
structure Capped (document : Value) : Prop where
  amounts : ∀ row ∈ documentOptions document, ∀ n,
    ((row.field "pricing").field "amount_minor").int? = some n → |n| ≤ maxAmountMinor
  tiers : ∀ row ∈ documentOptions document, ∀ tier ∈ ((row.field "pricing").field "tiers").items,
    ∀ n, (tier.field "amount_minor").int? = some n → |n| ≤ maxAmountMinor
  percentages : ∀ row ∈ documentOptions document, ∀ value ∈ (row.field "values").castItems, ∀ n,
    ((value.field "price_config").field "basis_points").int? = some n → |n| ≤ maxBasisPoints

/-- A quantity is at most a million, and a tier covers it where there are
tiers. -/
structure Covered (pricing : Value) (quantity : Binary64) : Prop where
  /-- It is a number of at most a million. -/
  most : ∃ v : Binary64.Finite, quantity = .finite v ∧ v.val ≤ 1000000
  tier : pricing.text "type" = priceTypeTiered → (Binary64.ofInt 0).lt quantity = true →
    (tierAmount (pricing.field "tiers") quantity).isSome = true

/-- **A request is ordinary**: its base stands within the cap, its quantities
are covered, and no rules set different prices. -/
structure Ordinary (P : Platform) (document : Value) (q : Request) : Prop where
  base : |q.base| ≤ maxAmountMinor
  quantities : ∀ p ∈ q.selections.entries, ∀ option answer,
    verdict (q.ctx P document) p = .answered option answer →
    pricingType option = priceTypePerUnit ∨ pricingType option = priceTypeTiered →
    ∀ quantity, parseNumber answer = some quantity → Covered (option.field "pricing") quantity
  agreed : ∀ target, ((q.ctx P document).states target).priceConflict = false

/-- **The scan and the resolutions agree**: where the scan finds nothing, no
ordinary request reports a type; and a type found at a place is reported of
some request that selects it. -/
structure Agrees (P : Platform) (document : Value) : Prop where
  silent : foundUnpriced document = [] → Capped document → ∀ (q : Request) (r : Resolution),
    q.resolved P document = .ok r → Ordinary P document q → r.unpriced = []
  told : ∀ place ∈ places document, ∀ type ∈ place.recorded, ∃ (q : Request) (r : Resolution),
    q.resolved P document = .ok r ∧ place.Selected (q.ctx P document) q.selections ∧
      type ∈ r.unpriced

/-! ## What the scan finds -/

variable {type : String} {option row : Value} {p : String × Value}

theorem mem_collectUnpriced {price : Value} {priced found : List String} :
    type ∈ collectUnpriced price priced found ↔
      type ∈ found ∨ type = price.text "type" ∧ type ≠ "" ∧ type ∉ priced := by
  have htext : (!price.isArray || !(price.field "type").isScalar) = true →
      price.text "type" = "" := by
    intro h
    rw [Bool.or_eq_true, Bool.not_eq_true', Bool.not_eq_true'] at h
    rcases h with h | h
    · exact text_of_not_array h
    · unfold Value.text
      rw [h, if_neg Bool.false_ne_true]
  unfold collectUnpriced
  by_cases hscalar : (!price.isArray || !(price.field "type").isScalar) = true
  · rw [if_pos hscalar]
    refine ⟨Or.inl, ?_⟩
    rintro (h | ⟨rfl, hne, -⟩)
    · exact h
    · exact absurd (htext hscalar) hne
  · rw [if_neg hscalar]
    have hcast : (price.field "type").castString = price.text "type" := by
      rw [Bool.not_eq_true, Bool.or_eq_false_iff, Bool.not_eq_false', Bool.not_eq_false'] at hscalar
      unfold Value.text
      rw [hscalar.2, if_pos rfl]
    rw [hcast]
    dsimp only
    by_cases hskip : price.text "type" = "" ∨ price.text "type" ∈ priced ∨
        price.text "type" ∈ found
    · rw [if_pos hskip]
      refine ⟨Or.inl, ?_⟩
      rintro (h | ⟨rfl, hne, hnot⟩)
      · exact h
      · exact (hskip.resolve_left hne).resolve_left hnot
    · rw [if_neg hskip, List.mem_append, List.mem_singleton]
      rw [not_or, not_or] at hskip
      exact or_congr_right ⟨fun h => ⟨h, h ▸ hskip.1, h ▸ hskip.2.1⟩, fun h => h.1⟩

theorem mem_foldl_collect {α : Type} {f : List String → α → List String} {adds : α → Prop}
    (h : ∀ found a, type ∈ f found a ↔ type ∈ found ∨ adds a) (l : List α) (found : List String) :
    type ∈ l.foldl f found ↔ type ∈ found ∨ ∃ a ∈ l, adds a := by
  induction l generalizing found with
  | nil => simp
  | cons a l ih => rw [List.foldl_cons, ih, h, or_assoc, List.exists_mem_cons_iff]

theorem mem_collectOption (found : List String) (row : Value) (type : String) :
    type ∈ collectOption found row ↔ type ∈ found ∨ row.isArray = true ∧
      ∃ place ∈ Place.option row :: (row.field "values").castItems.map (Place.value row),
        type ∈ place.recorded := by
  have hrecorded : ∀ (price : Value) (priced found : List String),
      type ∈ collectUnpriced price priced found ↔
        type ∈ found ∨ type ∈ collectUnpriced price priced [] := by
    intro price priced found
    rw [mem_collectUnpriced, mem_collectUnpriced]
    exact or_congr_right ⟨Or.inr, fun h => h.resolve_left List.not_mem_nil⟩
  unfold collectOption
  cases row.isArray with
  | false => simp
  | true =>
    rw [Bool.not_true, if_neg Bool.false_ne_true, mem_foldl_collect
      fun found value => hrecorded (value.field "price_config") valuePricedTypes found,
      hrecorded, or_assoc, List.exists_mem_cons_iff]
    simp only [List.mem_map, exists_exists_and_eq_and, true_and]
    rfl

/-- **The scan finds the types recorded at the places of the document.** -/
theorem mem_foundUnpriced {document : Value} :
    type ∈ foundUnpriced document ↔ ∃ place ∈ places document, type ∈ place.recorded := by
  have hgroup := fun (found : List String) (group : Value) =>
    mem_foldl_collect (fun found row => mem_collectOption found row type)
      (group.field "options").castItems found
  have hset := fun (found : List String) (set : Value) =>
    mem_foldl_collect hgroup (set.field "groups").castItems found
  unfold foundUnpriced
  rw [mem_foldl_collect hset]
  unfold places documentOptions
  simp only [List.not_mem_nil, false_or, List.mem_flatMap, List.mem_filter]
  constructor
  · rintro ⟨set, hset, group, hgroup, row, hrow, harray, place, hplace, htype⟩
    exact ⟨place, ⟨row, ⟨set, hset, group, hgroup, hrow, harray⟩, hplace⟩, htype⟩
  · rintro ⟨place, ⟨row, ⟨set, hset, group, hgroup, hrow, harray⟩, hplace⟩, htype⟩
    exact ⟨set, hset, group, hgroup, row, hrow, harray, place, hplace, htype⟩

/-! ## The rows behind a request -/

theorem mem_of_mem_optionSetsForProduct {document : Value}
    {hasTerm : String → String → ℤ → Bool} {productId : ℤ} {set : Value}
    (h : set ∈ optionSetsForProduct document hasTerm productId) :
    set ∈ (document.field "option_sets").castItems := by
  obtain ⟨setId, -, hget⟩ := List.mem_filterMap.1 h
  unfold setsById at hget
  have hstep : ∀ (m : OrderedMap String Value) (b : Value),
      (addById m b).get? setId = some set → m.get? setId = some set ∨ b = set := by
    intro m b hb
    unfold addById at hb
    split at hb
    · rw [OrderedMap.get?_set] at hb
      split at hb
      · exact Or.inr (Option.some.inj hb)
      · exact Or.inl hb
    · exact Or.inl hb
  rcases OrderedMap.of_get?_foldl hstep hget with hnone | ⟨b, hb, rfl⟩
  · simp at hnone
  · revert hb
    cases document.field "option_sets" with
    | arr es => exact id
    | null => exact fun hb => absurd hb List.not_mem_nil
    | bool _ => exact fun hb => absurd hb List.not_mem_nil
    | int _ => exact fun hb => absurd hb List.not_mem_nil
    | float _ => exact fun hb => absurd hb List.not_mem_nil
    | str _ => exact fun hb => absurd hb List.not_mem_nil

/-- **An option the resolver looks up is an option the scan walks**, with its
set noted. -/
theorem row_of_get? {document : Value} {q : Request} {id : String}
    (h : (indexOptions (q.sets document)).get? id = some option) :
    ∃ row ∈ documentOptions document, ∃ setId, option = withField row "__set_id" setId := by
  have hstep : ∀ (m : OrderedMap String Value) (p : Placed),
      (m.set (p.option.text "id")
        (withField p.option "__set_id" (.str (p.set.text "id")))).get? id = some option →
      m.get? id = some option ∨
        option = withField p.option "__set_id" (.str (p.set.text "id")) := by
    intro m p hp
    rw [OrderedMap.get?_set] at hp
    split at hp
    · exact Or.inr (Option.some.inj hp).symm
    · exact Or.inl hp
  unfold indexOptions at h
  rcases OrderedMap.of_get?_foldl hstep h with hnone | ⟨p, hp, rfl⟩
  · simp at hnone
  · unfold placedOptions at hp
    simp only [List.mem_flatMap, List.mem_map, List.mem_filter] at hp
    obtain ⟨set, hset, group, hgroup, row, ⟨hrow, hid⟩, rfl⟩ := hp
    have harray : row.isArray = true := by
      unfold hasId at hid
      rw [Bool.and_eq_true] at hid
      exact hid.1
    refine ⟨row, ?_, _, rfl⟩
    unfold documentOptions
    simp only [List.mem_flatMap, List.mem_filter]
    exact ⟨set, mem_of_mem_optionSetsForProduct hset, group, hgroup, hrow, harray⟩

theorem valueAt_mem (option : Value) (key : String) :
    valueAt option key ∈ (option.field "values").castItems ∨ valueAt option key = .null := by
  unfold valueAt OrderedMap.getD
  cases hget : (indexValues option).get? key with
  | none => exact Or.inr rfl
  | some value =>
    refine Or.inl ?_
    unfold indexValues at hget
    have hstep : ∀ (m : OrderedMap String Value) (b : Value),
        (m.set (b.text "value_key") b).get? key = some value → m.get? key = some value ∨
          b = value := by
      intro m b hb
      rw [OrderedMap.get?_set] at hb
      split at hb
      · exact Or.inr (Option.some.inj hb)
      · exact Or.inl hb
    rcases OrderedMap.of_get?_foldl hstep hget with hnone | ⟨b, hb, rfl⟩
    · simp at hnone
    · exact (List.mem_filter.1 hb).1

theorem get?_of_selected {ctx : Context} (h : selected (verdict ctx p) = some option) :
    ctx.options.get? p.1 = some option := by
  unfold verdict at h
  cases hoption : ctx.options.get? p.1 with
  | none =>
    rw [hoption] at h
    exact absurd h.symm (Option.some_ne_none option)
  | some found =>
    rw [hoption] at h
    dsimp only at h
    split at h
    · exact absurd h.symm (Option.some_ne_none option)
    · split at h
      · exact absurd h.symm (Option.some_ne_none option)
      · exact absurd h.symm (Option.some_ne_none option)
      · unfold verdictOfKeys at h
        split at h
        · exact absurd h.symm (Option.some_ne_none option)
        · exact absurd h.symm (Option.some_ne_none option)
        · exact h
        · split at h
          · exact absurd h.symm (Option.some_ne_none option)
          · exact h

/-! ## What the scan passes over -/

/-- The kind of an option does not fit the type of its pricing. -/
def Unfit (option : Value) : Prop :=
  pricingType option = priceTypePerChar ∧
      (isFreeText option = false ∨ isHidden option = true) ∨
    (pricingType option = priceTypePerUnit ∨ pricingType option = priceTypeTiered) ∧
      isNumber option = false

/-- **A selection meets what the scan passes over**: a rule that would replace
a price by the answer, a type that the kind of its option does not fit, a
percentage without a rate. -/
def Unseen (ctx : Context) (id : String) : Verdict → Prop
  | .answered option _ => pricingType option ∈ optionPricedTypes ∧
    ((priceSet ctx.states id "").isSome = true ∨ Unfit option)
  | .chosen option keys => ∃ key ∈ keys,
    pricingType option ∈ optionPricedTypes ∧
        (priceSet ctx.states id ((valueAt option key).text "id")).isSome = true ∨
      priceSet ctx.states id ((valueAt option key).text "id") = none ∧
        priceType (valueAt option key) = priceTypePercentage ∧
        (((valueAt option key).field "price_config").field "basis_points").int? = none
  | _ => False

theorem pricingType_of_clear {document : Value} (hclear : foundUnpriced document = [])
    (hrow : row ∈ documentOptions document) :
    pricingType row = "" ∨ pricingType row ∈ optionPricedTypes := by
  by_contra h
  rw [not_or] at h
  have hrecorded : pricingType row ∈ (Place.option row).recorded :=
    mem_collectUnpriced.2 (Or.inr ⟨rfl, h⟩)
  have hfound : pricingType row ∈ foundUnpriced document :=
    mem_foundUnpriced.2
      ⟨_, List.mem_flatMap.2 ⟨row, hrow, List.mem_cons_self⟩, hrecorded⟩
  rw [hclear] at hfound
  simp at hfound

theorem priceType_of_clear {document value : Value} (hclear : foundUnpriced document = [])
    (hrow : row ∈ documentOptions document) (hvalue : value ∈ (row.field "values").castItems) :
    priceType value = "" ∨ priceType value ∈ valuePricedTypes := by
  by_contra h
  rw [not_or] at h
  have hrecorded : priceType value ∈ (Place.value row value).recorded :=
    mem_collectUnpriced.2 (Or.inr ⟨rfl, h⟩)
  have hplace : Place.value row value ∈ places document :=
    List.mem_flatMap.2 ⟨row, hrow, List.mem_cons_of_mem _ (List.mem_map_of_mem hvalue)⟩
  have hfound : priceType value ∈ foundUnpriced document :=
    mem_foundUnpriced.2 ⟨_, hplace, hrecorded⟩
  rw [hclear] at hfound
  simp at hfound

/-! ### Amounts within the caps -/

/-- **A percentage within the caps can be computed.** -/
theorem percentageOf_capped {base points : ℤ} (hbase : |base| ≤ maxAmountMinor)
    (hpoints : |points| ≤ maxBasisPoints) : Pricing.percentageOf base points ≠ none := by
  unfold maxAmountMinor at hbase
  unfold maxBasisPoints at hpoints
  have hproduct : |base * points| ≤ 1000000000 * 100000 := by
    rw [abs_mul]
    exact mul_le_mul hbase hpoints (abs_nonneg points) (by norm_num)
  have hin : |base| ≤ Pricing.maxMinor := by
    unfold Pricing.maxMinor
    omega
  rw [Pricing.percentageOf_eq hin, if_pos]
  · exact Option.some_ne_none _
  · unfold Pricing.maxMinor
    omega

/-- **A quantity that is covered is charged**, at an amount within the cap. -/
theorem not_uncharged {amount : ℤ} {v : Binary64.Finite} (hamount : |amount| ≤ maxAmountMinor)
    (hmost : v.val ≤ 1000000) : ¬ Uncharged amount (.finite v) := by
  unfold maxAmountMinor at hamount
  have hmax : (Pricing.maxMinor : ℚ) = 9007199254740991 := by
    unfold Pricing.maxMinor
    norm_num
  have hwithin : ∀ {x : Binary64} {q : ℚ}, x.toRat? = some q → |q| ≤ 9007199254740991 →
      Pricing.floatInRange x = true := by
    intro x q hx hq
    refine (Binary64.abs_le_ofInt (by decide) (by decide)).2 ⟨q, hx, ?_⟩
    rwa [hmax]
  rintro (hlt | hnone)
  · obtain ⟨w, hw, hval⟩ := @Binary64.exists_ofInt_eq absoluteMaxQuantity (by decide)
    rw [hw, Binary64.lt, decide_eq_true_eq, hval] at hlt
    have hlimit : ((absoluteMaxQuantity : ℤ) : ℚ) = 1000000 := by
      unfold absoluteMaxQuantity
      norm_num
    linarith
  · have hin : Pricing.inRange amount = true := by
      refine Pricing.inRange_iff.2 ?_
      unfold Pricing.maxMinor
      omega
    unfold Pricing.perUnitOf at hnone
    rw [hin, Bool.not_true, if_neg Bool.false_ne_true] at hnone
    have hfinite : (Binary64.finite v).isFinite = true := rfl
    rw [hfinite, Bool.not_true, if_neg Bool.false_ne_true] at hnone
    by_cases hzero : (Binary64.finite v).le (.ofInt 0) = true
    · rw [if_pos hzero] at hnone
      exact Option.some_ne_none _ hnone
    rw [if_neg hzero] at hnone
    have hpos : 0 < v.val := by
      obtain ⟨z, hz, hz0⟩ := @Binary64.exists_ofInt_eq 0 (by decide)
      rw [hz, Binary64.le, decide_eq_true_eq, hz0, Int.cast_zero] at hzero
      exact not_le.1 hzero
    have hquantity : Pricing.floatInRange (.finite v) = true := by
      refine hwithin rfl ?_
      rw [abs_of_pos hpos]
      linarith
    -- The product is below `10^15`, and its rounding at most twice that.
    obtain ⟨w, hw, hval⟩ := @Binary64.exists_ofInt_eq amount (by omega)
    have hproduct : |v.val * w.val| ≤ 1000000 * 1000000000 := by
      have hcast : |(amount : ℚ)| ≤ 1000000000 := by exact_mod_cast hamount
      rw [abs_mul, abs_of_pos hpos, hval]
      exact mul_le_mul hmost hcast (abs_nonneg _) (by norm_num)
    obtain ⟨x, hx, hnearest⟩ := @Binary64.ofRat_of_le (v.val * w.val) (by linarith)
    have hrounded : Pricing.floatInRange ((Binary64.finite v).mul (.ofInt amount)) = true := by
      rw [hw, Binary64.mul, hx]
      refine hwithin rfl ?_
      rw [hnearest]
      have hdouble := Binary64.abs_nearest_le (v.val * w.val)
      linarith
    rw [hquantity, Bool.not_true, if_neg Bool.false_ne_true] at hnone
    dsimp only at hnone
    rw [hrounded, Bool.not_true, if_neg Bool.false_ne_true] at hnone
    exact Option.some_ne_none _ hnone

theorem tierAmount_mem {tiers : Value} {quantity : Binary64} {amount : ℤ}
    (h : tierAmount tiers quantity = some amount) :
    ∃ tier ∈ tiers.items, (tier.field "amount_minor").int? = some amount := by
  have hstep : ∀ (l : List Value) (best : Option (ℤ × ℤ)),
      (l.foldl (chooseTier quantity) best).map Prod.snd = some amount →
        best.map Prod.snd = some amount ∨
          ∃ tier ∈ l, (tier.field "amount_minor").int? = some amount := by
    intro l
    induction l with
    | nil => exact fun best h => Or.inl h
    | cons tier l ih =>
      intro best h
      rw [List.foldl_cons] at h
      rcases ih _ h with hfirst | ⟨later, hlater, hamount⟩
      · have htier : (tier.field "amount_minor").int? = some amount ∨
            best.map Prod.snd = some amount := by
          unfold chooseTier at hfirst
          split at hfirst
          · next hmin hown =>
            rw [hown]
            split at hfirst
            · exact Or.inr hfirst
            · split at hfirst
              · exact Or.inl hfirst
              · split at hfirst
                · exact Or.inl hfirst
                · exact Or.inr hfirst
          · exact Or.inr hfirst
        exact htier.symm.imp_right fun h => ⟨tier, List.mem_cons_self, h⟩
      · exact Or.inr ⟨later, List.mem_cons_of_mem tier hlater, hamount⟩
  exact (hstep tiers.items none h).resolve_left (Option.some_ne_none amount).symm

/-- **A covered quantity is charged**, by an option within the caps. -/
theorem not_unmeasured {document : Value} (hcapped : Capped document)
    (hrow : row ∈ documentOptions document) {answer : String}
    (hcovered : ∀ quantity, parseNumber answer = some quantity →
      Covered (row.field "pricing") quantity) : ¬ Unmeasured (row.field "pricing") answer := by
  rintro ⟨quantity, hquantity, hout⟩
  obtain ⟨⟨v, rfl, hmost⟩, htier⟩ := hcovered quantity hquantity
  by_cases htype : (row.field "pricing").text "type" = priceTypeTiered
  · rw [if_pos htype] at hout
    rcases hout with ⟨hnone, hpos⟩ | ⟨amount, hamount, hout⟩
    · have hsome := htier htype hpos
      rw [hnone] at hsome
      exact Bool.false_ne_true hsome
    · obtain ⟨tier, hmem, hown⟩ := tierAmount_mem hamount
      exact not_uncharged (hcapped.tiers row hrow tier hmem amount hown) hmost hout
  · rw [if_neg htype] at hout
    obtain ⟨amount, hamount, hout⟩ := hout
    exact not_uncharged (hcapped.amounts row hrow amount hamount) hmost hout

/-! ### One selection -/

theorem disputed_of_agreed {states : String → Rules.TargetState}
    (h : ∀ target, (states target).priceConflict = false) (optionId valueId : String) :
    disputed states optionId valueId = false := by
  have hvalue : (stateOfValue states valueId).priceConflict = false := by
    unfold stateOfValue
    split
    · rfl
    · exact h valueId
  unfold disputed
  rw [h optionId, hvalue]
  rfl

theorem mem_optionPricedTypes : type ∈ optionPricedTypes ↔
    type = priceTypePerChar ∨ type = priceTypePerUnit ∨ type = priceTypeTiered := by
  unfold optionPricedTypes
  simp

/-- **What an answered option leaves uncharged**, where the scan found
nothing: a type that a rule would replace, or that its kind does not fit. -/
theorem leaves_answered {P : Platform} {document : Value} {q : Request}
    (hclear : foundUnpriced document = []) (hcapped : Capped document)
    (hordinary : Ordinary P document q) (hp : p ∈ q.selections.entries) {answer : String}
    (hverdict : verdict (q.ctx P document) p = .answered option answer) :
    (∃ type, Leaves (q.ctx P document) p.1 (.answered option answer) type) ↔
      Unseen (q.ctx P document) p.1 (.answered option answer) := by
  have hselected : selected (verdict (q.ctx P document) p) = some option := by
    rw [hverdict]
    rfl
  obtain ⟨row, hrow, setId, rfl⟩ := row_of_get? (get?_of_selected hselected)
  have hfield : (withField row "__set_id" setId).field "pricing" = row.field "pricing" :=
    field_withField setId (by decide)
  have htype : pricingType (withField row "__set_id" setId) = pricingType row := by
    unfold pricingType
    rw [hfield]
  have hquiet := disputed_of_agreed hordinary.agreed p.1 ""
  generalize hoption : withField row "__set_id" setId = option at hverdict hfield htype ⊢
  constructor
  · rintro ⟨type, hrules | ⟨-, -, hleft⟩⟩
    · rcases hrules with ⟨hdisputed, -⟩ | ⟨-, hset, rfl, hpriced⟩
      · exact absurd (hquiet.symm.trans hdisputed) Bool.false_ne_true
      · exact ⟨hpriced, Or.inl hset⟩
    · have hpriced : pricingType option ∈ optionPricedTypes := by
        rw [htype]
        refine (pricingType_of_clear hclear hrow).resolve_left fun hempty => hleft.named ?_
        rw [htype, hempty]
      refine ⟨hpriced, Or.inr ?_⟩
      rcases mem_optionPricedTypes.1 hpriced with hchar | hunit
      · exact Or.inl ⟨hchar, hleft.perChar hchar⟩
      · refine Or.inr ⟨hunit, (hleft.perUnit hunit).resolve_right ?_⟩
        rw [hfield]
        refine not_unmeasured hcapped hrow fun quantity hquantity => ?_
        rw [← hfield]
        exact hordinary.quantities p hp option answer hverdict hunit quantity hquantity
  · rintro ⟨hpriced, hset | hunfit⟩
    · exact ⟨pricingType option, Or.inl (Or.inr ⟨hquiet, hset, rfl, hpriced⟩)⟩
    · refine ⟨pricingType option, Or.inr ⟨⟨hquiet, Or.inr hpriced⟩, rfl, ?_⟩⟩
      rcases hunfit with ⟨hchar, hkind⟩ | ⟨hunit, hkind⟩
      · refine ⟨?_, ?_, fun _ => hkind, fun h => ?_⟩
        · rw [hchar]
          decide
        · rw [hchar]
          decide
        · rw [hchar] at h
          exact absurd h (by decide)
      · refine ⟨?_, ?_, fun h => ?_, fun _ => Or.inl hkind⟩
        · rcases hunit with h | h <;> rw [h] <;> decide
        · rcases hunit with h | h <;> rw [h] <;> decide
        · rw [h] at hunit
          exact absurd hunit (by decide)

/-- **What chosen values leave uncharged**, where the scan found nothing: a
type of their option that a rule would replace, or a percentage without a
rate. -/
theorem leaves_chosen {P : Platform} {document : Value} {q : Request}
    (hclear : foundUnpriced document = []) (hcapped : Capped document)
    (hordinary : Ordinary P document q) {keys : List String}
    (hverdict : verdict (q.ctx P document) p = .chosen option keys) :
    (∃ type, Leaves (q.ctx P document) p.1 (.chosen option keys) type) ↔
      Unseen (q.ctx P document) p.1 (.chosen option keys) := by
  have hselected : selected (verdict (q.ctx P document) p) = some option := by
    rw [hverdict]
    rfl
  obtain ⟨row, hrow, setId, rfl⟩ := row_of_get? (get?_of_selected hselected)
  have hfield : (withField row "__set_id" setId).field "values" = row.field "values" :=
    field_withField setId (by decide)
  generalize hoption : withField row "__set_id" setId = option at hverdict hfield ⊢
  constructor
  · rintro ⟨type, key, hkey, hleaves⟩
    have hquiet := disputed_of_agreed hordinary.agreed p.1 ((valueAt option key).text "id")
    refine ⟨key, hkey, ?_⟩
    rcases hleaves with hrules | ⟨⟨-, hauthored⟩, -, hleft⟩
    · rcases hrules with ⟨hdisputed, -⟩ | ⟨-, hset, rfl, hpriced⟩
      · exact absurd (hquiet.symm.trans hdisputed) Bool.false_ne_true
      · exact Or.inl ⟨hpriced, hset⟩
    · -- The value has a name of a type that is charged, so a percentage's.
      have hvalue : valueAt option key ∈ (row.field "values").castItems := by
        rw [← hfield]
        refine (valueAt_mem option key).resolve_right fun hnull => hleft.named ?_
        rw [hnull]
        rfl
      have hpercent : priceType (valueAt option key) = priceTypePercentage := by
        have hpriced := (priceType_of_clear hclear hrow hvalue).resolve_left hleft.named
        unfold valuePricedTypes at hpriced
        rw [List.mem_cons, List.mem_singleton] at hpriced
        exact hpriced.resolve_left hleft.notFixed
      have hnone : (((valueAt option key).field "price_config").field "basis_points").int? =
          none := by
        refine Option.eq_none_iff_forall_ne_some.2 fun points hpoints => ?_
        exact percentageOf_capped hordinary.base
          (hcapped.percentages row hrow _ hvalue points hpoints)
          (hleft.percentage hpercent points hpoints)
      cases hset : priceSet (q.ctx P document).states p.1 ((valueAt option key).text "id") with
      | none => exact Or.inr ⟨rfl, hpercent, hnone⟩
      | some amount =>
        rw [hset] at hauthored
        exact Or.inl ⟨hauthored.resolve_left (Option.some_ne_none amount), rfl⟩
  · rintro ⟨key, hkey, hunseen⟩
    have hquiet := disputed_of_agreed hordinary.agreed p.1 ((valueAt option key).text "id")
    rcases hunseen with ⟨hpriced, hset⟩ | ⟨hset, hpercent, hnone⟩
    · exact ⟨pricingType option, key, hkey, Or.inl (Or.inr ⟨hquiet, hset, rfl, hpriced⟩)⟩
    · refine ⟨priceType (valueAt option key), key, hkey,
        Or.inr ⟨⟨hquiet, Or.inl hset⟩, rfl, ?_, ?_, fun _ points hpoints => ?_⟩⟩
      · rw [hpercent]
        decide
      · rw [hpercent]
        decide
      · exact absurd (hnone.symm.trans hpoints) (Option.some_ne_none points).symm

/-- **Where the scan found nothing, an ordinary request leaves a type
uncharged exactly where it meets what the scan passes over.** -/
theorem leaves_iff_unseen {P : Platform} {document : Value} {q : Request}
    (hclear : foundUnpriced document = []) (hcapped : Capped document)
    (hordinary : Ordinary P document q) (hp : p ∈ q.selections.entries) :
    (∃ type, Leaves (q.ctx P document) p.1 (verdict (q.ctx P document) p) type) ↔
      Unseen (q.ctx P document) p.1 (verdict (q.ctx P document) p) := by
  cases hverdict : verdict (q.ctx P document) p with
  | refused violation => exact ⟨fun h => h.elim fun _ h => h, fun h => h.elim⟩
  | skipped => exact ⟨fun h => h.elim fun _ h => h, fun h => h.elim⟩
  | answered option answer => exact leaves_answered hclear hcapped hordinary hp hverdict
  | chosen option keys => exact leaves_chosen hclear hcapped hordinary hverdict

/-! ## Agreement -/

/-- **The scan and the resolutions see the same**: where the scan finds
nothing, no ordinary request that is admitted meets what it passes over; and
what it finds at a place is left uncharged of an admitted request that selects
the place. -/
structure SeesAll (P : Platform) (document : Value) : Prop where
  silent : foundUnpriced document = [] → Capped document → ∀ q : Request,
    Admitted P (q.sets document) q.selections q.base q.today → Ordinary P document q →
    ∀ p ∈ q.selections.entries,
      ¬ Unseen (q.ctx P document) p.1 (verdict (q.ctx P document) p)
  told : ∀ place ∈ places document, ∀ type ∈ place.recorded, ∃ q : Request,
    Admitted P (q.sets document) q.selections q.base q.today ∧
      place.Selected (q.ctx P document) q.selections ∧ ∃ p ∈ q.selections.entries,
        Leaves (q.ctx P document) p.1 (verdict (q.ctx P document) p) type

/-- A number priced by the character, in a set of every product. -/
def perCharNumber : Value :=
  .arr [("option_sets", .ofList [.arr [("id", .str "s"),
    ("assignments", .ofList [.arr [("mode", .str "all")]]),
    ("groups", .ofList [.arr [("id", .str "g"), ("options", .ofList [.arr [("id", .str "q"),
      ("type", .str "number"), ("value_kind", .str "number"),
      ("pricing", .arr [("type", .str "per_char"), ("amount_minor", .int 50)])]])]])]])]

/-- A product with that option, answered by a number. -/
def fiveUnits : Request :=
  ⟨fun _ _ _ => false, 7, 1000, none, (∅ : OrderedMap String Value).set "q" (.str "5")⟩

end Optionia.Config.Repository
