import Optionia.Cloud.Pricing
import Optionia.Engine.OptionPricing
import Optionia.Wire.Published
/-!
# The two languages' money arithmetic and price evaluators

The plugin computes with machine integers and the cloud with doubles. Within
the range both guard, a double is an exact integer, so a percentage, a
rounded product and a unit price are the same number on either side, and one
side refuses exactly what the other does.
-/

namespace Optionia.Wire

open Engine (Pricing.maxMinor)
open Engine.Pricing Js

/-! ## Percentages -/

variable {base amount : ℤ} {x : Binary64.Finite} {es : List (String × Js.Value)}

/-- **A percentage is the same in both languages**, and refused by both. -/
theorem percentageOf_cloud {points : ℤ} (hbase : |base| ≤ maxMinor)
    (hpoints : |points| ≤ maxMinor) : Cloud.percentageOf (.ofInt base) (.ofInt points) =
      (Engine.Pricing.percentageOf base points).map .ofInt := by
  have hsafe : ∀ n : ℤ, isSafeInteger (.ofInt n) = decide (|n| ≤ maxMinor) :=
    isSafeInteger_ofInt
  have hb := abs_le_of_inRange hbase
  have hp := abs_le_of_inRange hpoints
  rw [percentageOf_eq hbase]
  unfold Cloud.percentageOf
  dsimp only
  rw [hsafe, hsafe, decide_eq_true hbase, decide_eq_true hpoints,
    if_neg (by decide : ¬ (!true || !true) = true), Binary64.mul_ofInt hb hp, hsafe]
  by_cases hproduct : |base * points| ≤ maxMinor
  · have hn := abs_le_of_inRange hproduct
    have hn0 := abs_nonneg (base * points)
    have habs : |(|base * points|)| ≤ 2 ^ 53 := by rwa [abs_abs]
    have hrem : |(|base * points| % 10000)| ≤ 2 ^ 53 := by
      rw [abs_of_nonneg (by omega)]
      omega
    have hdouble : |(|base * points| % 10000 * 2)| ≤ 2 ^ 53 := by
      rw [abs_of_nonneg (by omega)]
      omega
    have hquotient : |(|base * points| / 10000)| ≤ 2 ^ 53 := by
      rw [abs_of_nonneg (by omega)]
      omega
    have hnext : |(|base * points| / 10000 + 1)| ≤ 2 ^ 53 := by
      rw [abs_of_nonneg (by omega)]
      omega
    rw [decide_eq_true hproduct, if_neg (by decide : ¬ (!true) = true),
      if_pos (show |points| ≤ maxMinor ∧ |base * points| ≤ maxMinor from ⟨hpoints, hproduct⟩)]
    unfold Cloud.basisPointsDivisor
    rw [Binary64.abs_ofInt hn,
      Binary64.floor_div_ofInt hn0 hn (by norm_num) (by norm_num) (by omega),
      Binary64.rem_ofInt hn0 hn (by norm_num) (by norm_num),
      Binary64.mul_ofInt hrem (by norm_num), Binary64.le_ofInt (by norm_num) hdouble,
      Binary64.add_ofInt hquotient (by norm_num), Binary64.lt_ofInt hn (by norm_num)]
    unfold tenThousandth
    rw [Option.map_some]
    simp only [decide_eq_true_eq]
    by_cases hhalf : 10000 ≤ |base * points| % 10000 * 2 <;>
      by_cases hneg : base * points < 0 <;>
      simp only [hhalf, hneg, if_true, if_false, one_mul, neg_one_mul,
        Binary64.neg_ofInt hnext, Binary64.neg_ofInt hquotient]
  · rw [decide_eq_false hproduct, if_pos (by decide : (!false) = true),
      if_neg (show ¬ (|points| ≤ maxMinor ∧ |base * points| ≤ maxMinor) from
        fun h => hproduct h.2)]
    rfl

/-! ## Rounded products -/

theorem truncate_ofInt {n : ℤ} (h : |n| ≤ 2 ^ 53) : Php.Value.truncate (.ofInt n) = n := by
  obtain ⟨v, hv, hval⟩ := Binary64.exists_ofInt_eq h
  rw [hv]
  unfold Php.Value.truncate
  simp only [hval, Int.floor_intCast, Int.ceil_intCast, ite_self]
  have := abs_le.1 h
  omega

/-- **A rounded product is the same in both languages**, and still an exact
integer. -/
theorem roundedAway_cloud {product : Binary64} (h : floatInRange product = true) :
    Cloud.roundedAway product = .ofInt (Engine.Pricing.roundedAway product) ∧
      |Engine.Pricing.roundedAway product| ≤ 2 ^ 53 := by
  unfold floatInRange at h
  obtain ⟨q, hq, hle⟩ := (Binary64.abs_le_ofInt (by unfold maxMinor; norm_num)
    (by unfold maxMinor; norm_num)).1 h
  obtain ⟨z, hz, hz0⟩ := Binary64.exists_ofInt_eq (n := 0) (by norm_num)
  obtain ⟨v, rfl, rfl⟩ := Binary64.exists_finite_of_toRat? hq
  obtain ⟨w, hw, hval⟩ : ∃ w : Binary64.Finite, (Binary64.finite v).abs = .finite w ∧
      w.val = |v.val| := by
    rw [Binary64.abs, hz, Binary64.lt, hz0]
    by_cases hneg : v.val < 0
    · exact ⟨_, if_pos (by simpa using hneg), (abs_of_neg hneg).symm⟩
    · exact ⟨_, if_neg (by simpa using hneg), (abs_of_nonneg (not_lt.1 hneg)).symm⟩
  have hfloor0 : 0 ≤ ⌊|v.val|⌋ := Int.floor_nonneg.2 (abs_nonneg _)
  have hfloor : ⌊|v.val|⌋ ≤ maxMinor := by
    have := (Int.floor_le |v.val|).trans hle
    exact_mod_cast this
  unfold maxMinor at hfloor
  have hwhole : |⌊|v.val|⌋| ≤ 2 ^ 53 := by rw [abs_of_nonneg hfloor0]; omega
  have hnext : |⌊|v.val|⌋ + 1| ≤ 2 ^ 53 := by rw [abs_of_nonneg (by omega)]; omega
  have hfloored : (Binary64.finite v).abs.floor = .ofInt ⌊|v.val|⌋ := by
    rw [hw, Binary64.floor, hval]
  unfold Cloud.roundedAway Engine.Pricing.roundedAway
  simp only [hfloored, truncate_ofInt hwhole]
  rw [Binary64.add_ofInt hwhole (by norm_num)]
  split_ifs
  · exact ⟨Binary64.neg_ofInt hnext, by rwa [abs_neg]⟩
  · exact ⟨Binary64.neg_ofInt hwhole, by rwa [abs_neg]⟩
  · exact ⟨rfl, hnext⟩
  · exact ⟨rfl, hwhole⟩

/-! ## Unit prices -/

/-- What a quantity costs by its unit price; `none` where it cannot be
charged. -/
def charge (amount : ℤ) (quantity : Binary64) : Option ℤ :=
  if (Binary64.ofInt Engine.absoluteMaxQuantity).lt quantity then none
  else Engine.Pricing.perUnitOf amount quantity

/-- The quantity is over the limit, or positive with a product out of
range. -/
def Beyond (amount : ℤ) (quantity : Binary64) : Prop :=
  (Binary64.ofInt Engine.absoluteMaxQuantity).lt quantity = true ∨
    quantity.le (.ofInt 0) = false ∧ floatInRange (quantity.mul (.ofInt amount)) = false

theorem floatInRange_of_within (h0 : ¬ x.val ≤ 0)
    (h : (Binary64.ofInt Engine.absoluteMaxQuantity).lt (.finite x) = false) :
    floatInRange (.finite x) = true := by
  obtain ⟨w, hw, hval⟩ := Binary64.exists_ofInt_eq (n := Engine.absoluteMaxQuantity)
    (by unfold Engine.absoluteMaxQuantity; norm_num)
  rw [hw, Binary64.lt, decide_eq_false_iff_not, hval, not_lt] at h
  unfold floatInRange
  rw [Binary64.abs_le_ofInt (by unfold maxMinor; norm_num) (by unfold maxMinor; norm_num)]
  refine ⟨x.val, rfl, ?_⟩
  rw [abs_of_pos (not_le.1 h0)]
  refine h.trans ?_
  unfold Engine.absoluteMaxQuantity maxMinor
  norm_num

/-- **What a finite quantity costs at a safe amount.** -/
theorem charge_eq (hamount : |amount| ≤ maxMinor) : charge amount (.finite x) =
      if (Binary64.ofInt Engine.absoluteMaxQuantity).lt (.finite x) then none
      else if (Binary64.finite x).le (.ofInt 0) then some 0
      else if floatInRange ((Binary64.finite x).mul (.ofInt amount)) then
        some (Engine.Pricing.roundedAway ((Binary64.finite x).mul (.ofInt amount)))
      else none := by
  obtain ⟨z, hz, hz0⟩ := Binary64.exists_ofInt_eq (n := 0) (by norm_num)
  unfold charge
  by_cases hmax : (Binary64.ofInt Engine.absoluteMaxQuantity).lt (.finite x) = true
  · rw [if_pos hmax, if_pos hmax]
  rw [if_neg hmax, if_neg hmax]
  unfold perUnitOf
  dsimp only
  rw [inRange_iff.2 hamount, if_neg (by decide : ¬ (!true) = true),
    if_neg (show ¬ (!(Binary64.finite x).isFinite) = true from Bool.false_ne_true)]
  by_cases hzero : (Binary64.finite x).le (.ofInt 0) = true
  · rw [if_pos hzero, if_pos hzero]
  have hpos : ¬ x.val ≤ 0 := by
    rw [hz, Binary64.le, decide_eq_true_eq, hz0, Int.cast_zero] at hzero
    exact hzero
  rw [if_neg hzero, if_neg hzero,
    floatInRange_of_within hpos (Bool.not_eq_true _ ▸ hmax), if_neg (by decide : ¬ (!true) = true)]
  cases floatInRange ((Binary64.finite x).mul (.ofInt amount)) <;> simp

theorem charge_of_beyond {quantity : Binary64} (h : ¬ |amount| ≤ maxMinor) :
    charge amount quantity = none := by
  unfold charge
  split
  · rfl
  · unfold perUnitOf
    rw [inRange_eq, decide_eq_false h]
    rfl

/-- **A finite quantity at a safe amount is charged unless it is beyond.** -/
theorem charge_eq_none_iff (hamount : |amount| ≤ maxMinor) :
    charge amount (.finite x) = none ↔ Beyond amount (.finite x) := by
  rw [charge_eq hamount]
  unfold Beyond
  cases (Binary64.ofInt Engine.absoluteMaxQuantity).lt (.finite x) <;>
    cases (Binary64.finite x).le (.ofInt 0) <;>
    cases floatInRange ((Binary64.finite x).mul (.ofInt amount)) <;> simp

theorem abs_le_of_charge {delta : ℤ} (hamount : |amount| ≤ maxMinor)
    (h : charge amount (.finite x) = some delta) : |delta| ≤ 2 ^ 53 := by
  rw [charge_eq hamount] at h
  split_ifs at h with h1 h2 h3
  · obtain rfl := Option.some.inj h
    norm_num
  · obtain rfl := Option.some.inj h
    exact (roundedAway_cloud h3).2

/-! ## The two price evaluators

The plugin's `delta_for` and `option_delta` against the cloud's
`priceConfigDelta` and `optionPricingDelta`, on one published object. Each
result is an outcome, an amount or the type reported, and the two sides
agree exactly where their outcomes are the same (`prices_agree_iff`).
-/

open Engine.Pricing

/-! ## Outcomes -/

/-- The integer a published field carries to the plugin. -/
def carried (es : List (String × Js.Value)) (k : String) : Option ℤ :=
  ((published (.obj es)).field k).int?

/-- The same integer, where the cloud reads it too. -/
def carriedSafe (es : List (String × Js.Value)) (k : String) : Option ℤ :=
  (carried es k).filter (|·| ≤ maxMinor)

/-- The plugin's result and the cloud's say the same: one amount, and one
type reported or none. -/
structure SamePrice (plugin : ℤ × List String) (cloud : Cloud.PriceConfigDelta) : Prop where
  delta : cloud.deltaMinor.toRat? = some (plugin.1 : ℚ)
  unpriced : plugin.2 = cloud.unpriced.toList

/-- The plugin's result for an outcome: an amount, or its type reported. -/
def pluginResult (type : String) : Option ℤ → ℤ × List String
  | some delta => (delta, [])
  | none => (0, [type])

/-- The cloud's result for an outcome. -/
def cloudResult (type : String) : Option ℤ → Cloud.PriceConfigDelta
  | some delta => ⟨.ofInt delta, none⟩
  | none => Cloud.unpriced type

/-- An outcome whose amount is an exact integer of the doubles. -/
def Exact (outcome : Option ℤ) : Prop := ∀ delta ∈ outcome, |delta| ≤ 2 ^ 53

theorem exact_zero : Exact (some 0) := by
  intro delta hdelta
  obtain rfl := Option.some.inj hdelta
  norm_num

theorem exact_none : Exact none := fun _ h => absurd h (Option.not_mem_none _)

/-- **Results are alike exactly where the outcomes are equal.** -/
theorem samePrice_iff {type : String} {plugin cloud : Option ℤ} (hcloud : Exact cloud) :
    SamePrice (pluginResult type plugin) (cloudResult type cloud) ↔ plugin = cloud := by
  constructor
  · rintro ⟨hdelta, hunpriced⟩
    cases plugin with
    | none =>
      cases cloud with
      | none => rfl
      | some d => exact absurd hunpriced (List.cons_ne_nil _ _)
    | some d =>
      cases cloud with
      | none => exact absurd hunpriced.symm (List.cons_ne_nil _ _)
      | some d' =>
        change (Binary64.ofInt d').toRat? = some (d : ℚ) at hdelta
        rw [Binary64.toRat?_ofInt (hcloud d' rfl), Option.some.injEq] at hdelta
        rw [Int.cast_injective hdelta]
  · rintro rfl
    cases plugin with
    | none => exact ⟨Binary64.toRat?_ofInt (by norm_num), rfl⟩
    | some d => exact ⟨Binary64.toRat?_ofInt (hcloud d rfl), rfl⟩

theorem safeInteger?_field (es : List (String × Js.Value)) (k : String) :
    ((Js.Value.obj es).field k).safeInteger? = carriedSafe es k := by
  rw [safeInteger?_eq, ← field_published]
  rfl

theorem carriedSafe_eq_some {k : String} {n : ℤ} :
    carriedSafe es k = some n ↔ carried es k = some n ∧ |n| ≤ maxMinor := by
  unfold carriedSafe
  rw [Option.filter_eq_some_iff, decide_eq_true_eq]

theorem carriedSafe_of_none {k : String} (h : carried es k = none) : carriedSafe es k = none := by
  unfold carriedSafe
  rw [h]
  rfl

theorem carriedSafe_of_beyond {k : String} {n : ℤ} (h : carried es k = some n)
    (hn : ¬ |n| ≤ maxMinor) : carriedSafe es k = none := by
  unfold carriedSafe
  rw [h]
  simp [Option.filter, hn]

/-! ## A chosen value -/

/-- A published value with a price. -/
def pricedValue (es : List (String × Js.Value)) : Php.Value :=
  .arr [("price_config", published (.obj es))]

/-- **`delta_for` and `priceConfigDelta` agree** on a price and a base. -/
def ValueAgrees (es : List (String × Js.Value)) (base : ℤ) : Prop :=
  ∃ result, Cloud.priceConfigDelta (.obj es) (.ofInt base) = some result ∧
    SamePrice (Engine.deltaFor (pricedValue es) base []) result

/-- The type reads the same in both languages, and a fixed price carries an
amount that both read. -/
def ValueAlike (es : List (String × Js.Value)) : Prop :=
  typeRead es = typeNamed es ∧
    (typeNamed es = "fixed" → ∃ n, carried es "amount_minor" = some n ∧ |n| ≤ maxMinor)

theorem collectType_nil (type : String) : Engine.collectType type [] = [type] :=
  if_neg List.not_mem_nil

theorem collectNamed_nil {type : String} (h : type ≠ "") : Engine.collectNamed type [] = [type] := by
  unfold Engine.collectNamed
  rw [if_neg h, collectType_nil]

/-- **What the plugin charges for a published price.** -/
theorem deltaFor_pricedValue (es : List (String × Js.Value)) (base : ℤ) :
    Engine.deltaFor (pricedValue es) base [] =
      if typeRead es = "percentage" then
        pluginResult (typeRead es)
          ((carried es "basis_points").bind (Engine.Pricing.percentageOf base))
      else if typeRead es = "fixed" then ((carried es "amount_minor").getD 0, [])
      else (0, Engine.collectNamed (typeRead es) []) := by
  have hfield : (pricedValue es).field "price_config" = published (.obj es) := rfl
  have hpoints : ((published (.obj es)).field "basis_points").int? = carried es "basis_points" := rfl
  have harray : (published (.obj es)).isArray = true := rfl
  unfold Engine.deltaFor
  dsimp only
  rw [hfield, harray, if_neg (by decide : ¬ (!true) = true)]
  change (if typeRead es = "percentage" then _ else _) = _
  by_cases hpercentage : typeRead es = "percentage"
  · rw [if_pos hpercentage, if_pos hpercentage, hpoints]
    cases carried es "basis_points" with
    | none => exact congrArg (Prod.mk 0) (collectType_nil _)
    | some points =>
      dsimp only
      rw [Option.bind_some]
      cases Engine.Pricing.percentageOf base points with
      | none => exact congrArg (Prod.mk 0) (collectType_nil _)
      | some delta => rfl
  · rw [if_neg hpercentage, if_neg hpercentage]
    change (if typeRead es ≠ "fixed" then _ else _) = _
    by_cases hfixed : typeRead es = "fixed"
    · rw [if_neg (not_not.2 hfixed), if_pos hfixed]
      rfl
    · rw [if_pos hfixed, if_neg hfixed]
      rfl

/-- **What the cloud charges for a published price.** -/
theorem priceConfigDelta_obj (es : List (String × Js.Value)) (hbase : |base| ≤ maxMinor) :
    Cloud.priceConfigDelta (.obj es) (.ofInt base) =
      some (if typeNamed es = "fixed" then cloudResult "fixed" (carriedSafe es "amount_minor")
        else if typeNamed es = "percentage" then
          cloudResult "percentage"
            ((carried es "basis_points").bind (Engine.Pricing.percentageOf base))
        else if typeNamed es = "" then Cloud.free else Cloud.unpriced (typeNamed es)) := by
  unfold Cloud.priceConfigDelta
  dsimp only
  have hsafe : Js.isSafeInteger (.ofInt base) = true := by
    rw [Js.isSafeInteger_ofInt]
    exact decide_eq_true hbase
  rw [hsafe, if_neg (by decide : ¬ (!true) = true), safeInteger?_field, safeInteger?_field]
  change (if typeNamed es = "fixed" then _ else _) = _
  have htype : (Js.Value.obj es).string "type" = typeNamed es := rfl
  by_cases hfixed : typeNamed es = "fixed"
  · rw [if_pos hfixed, if_pos hfixed, htype, hfixed]
    cases carriedSafe es "amount_minor" <;> rfl
  rw [if_neg hfixed, if_neg hfixed]
  change (if typeNamed es = "percentage" then _
    else some (if typeNamed es = "" then Cloud.free else Cloud.unpriced (typeNamed es))) = _
  by_cases hpercentage : typeNamed es = "percentage"
  · rw [if_pos hpercentage, if_pos hpercentage, htype, hpercentage]
    cases hcarried : carried es "basis_points" with
    | none =>
      have hnone : carriedSafe es "basis_points" = none := carriedSafe_of_none hcarried
      rw [hnone]
      rfl
    | some points =>
      by_cases hpoints : |points| ≤ maxMinor
      · rw [carriedSafe_eq_some.2 ⟨hcarried, hpoints⟩]
        dsimp only
        rw [percentageOf_cloud hbase hpoints, Option.bind_some]
        cases Engine.Pricing.percentageOf base points with
        | some delta => rfl
        | none => rfl
      · have hnone : carriedSafe es "basis_points" = none := carriedSafe_of_beyond hcarried hpoints
        rw [hnone, Option.bind_some, percentageOf_eq hbase, if_neg fun h => hpoints h.1]
        rfl
  · rw [if_neg hpercentage, if_neg hpercentage]

theorem exact_percentage (hbase : |base| ≤ maxMinor) (points : Option ℤ) :
    Exact (points.bind (Engine.Pricing.percentageOf base)) := by
  intro delta hdelta
  rw [Option.mem_def, Option.bind_eq_some_iff] at hdelta
  obtain ⟨n, -, hn⟩ := hdelta
  rw [percentageOf_eq hbase] at hn
  split at hn
  · next h =>
    obtain rfl := Option.some.inj hn
    have hproduct := abs_le_of_inRange h.2
    have h0 := abs_nonneg (base * n)
    unfold tenThousandth
    dsimp only
    rw [abs_mul]
    have hsign : |(if base * n < 0 then (-1 : ℤ) else 1)| = 1 := by split <;> rfl
    rw [hsign, one_mul]
    split <;> rw [abs_of_nonneg (by omega)] <;> omega
  · simp at hn

/-- **A chosen value's price agrees exactly where its type is a string and a
fixed amount is a safe integer.** -/
theorem value_agrees_iff (es : List (String × Js.Value)) (hbase : |base| ≤ maxMinor) :
    ValueAgrees es base ↔ ValueAlike es := by
  unfold ValueAgrees ValueAlike
  rw [priceConfigDelta_obj es hbase, deltaFor_pricedValue]
  simp only [Option.some.injEq, exists_eq_left']
  rcases type_cases es with htype | ⟨hnamed, hread, hspelled⟩
  · rw [htype]
    by_cases hpercentage : typeNamed es = "percentage"
    · rw [if_pos hpercentage, if_neg (by rw [hpercentage]; decide), if_pos hpercentage,
        hpercentage, samePrice_iff (exact_percentage hbase _)]
      exact ⟨fun _ => ⟨rfl, fun h => absurd h (by decide)⟩, fun _ => rfl⟩
    rw [if_neg hpercentage, if_neg hpercentage]
    by_cases hfixed : typeNamed es = "fixed"
    · rw [if_pos hfixed, if_pos hfixed]
      change SamePrice (pluginResult "fixed" (some ((carried es "amount_minor").getD 0))) _ ↔ _
      have hexact : Exact (carriedSafe es "amount_minor") :=
        fun n hn => abs_le_of_inRange (carriedSafe_eq_some.1 hn).2
      rw [samePrice_iff hexact]
      constructor
      · intro h
        obtain ⟨hcarried, hsafe⟩ := carriedSafe_eq_some.1 h.symm
        exact ⟨rfl, fun _ => ⟨_, hcarried, hsafe⟩⟩
      · rintro ⟨-, h⟩
        obtain ⟨n, hn, hsafe⟩ := h hfixed
        rw [carriedSafe_eq_some.2 ⟨hn, hsafe⟩, hn]
        rfl
    · rw [if_neg hfixed, if_neg hfixed]
      refine ⟨fun _ => ⟨rfl, fun h => absurd h hfixed⟩, fun _ => ?_⟩
      by_cases hempty : typeNamed es = ""
      · rw [hempty]
        exact ⟨Binary64.toRat?_ofInt (by norm_num), rfl⟩
      · rw [if_neg hempty, collectNamed_nil hempty]
        exact (samePrice_iff exact_none).2 rfl
  · -- The plugin reports what the cloud does not name.
    have hother : ∀ name : String, 'e' ∈ name.toList → typeRead es ≠ name := by
      rintro name hname rfl
      exact hspelled hname
    rw [if_neg (hother "percentage" (by decide)), if_neg (hother "fixed" (by decide)), hnamed,
      if_neg (by decide), if_neg (by decide), if_pos rfl, collectNamed_nil hread]
    constructor
    · rintro ⟨-, hunpriced⟩
      exact absurd hunpriced (List.cons_ne_nil _ _)
    · rintro ⟨h, -⟩
      exact absurd h hread

end Optionia.Wire
