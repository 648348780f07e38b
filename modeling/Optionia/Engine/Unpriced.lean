import Optionia.Engine.Reordered
/-!
# What a resolution reports as not charged

An answered option and a chosen value leave a type uncharged: their own, or
that of an option whose pricing a rule would replace (`Leaves`). A resolution
reports the types its selections leave and no others (`mem_unpriced_iff`).
-/

namespace Optionia.Engine

open Php Rules

/-! ## Collecting -/

variable {type answer : String} {unpriced : List String} {pricing : Value}

theorem mem_collectType {name : String} :
    type ∈ collectType name unpriced ↔ type ∈ unpriced ∨ type = name := by
  unfold collectType
  by_cases hname : name ∈ unpriced
  · rw [if_pos hname]
    refine ⟨Or.inl, ?_⟩
    rintro (h | rfl)
    · exact h
    · exact hname
  · rw [if_neg hname, List.mem_append, List.mem_singleton]

theorem mem_collectNamed {name : String} :
    type ∈ collectNamed name unpriced ↔ type ∈ unpriced ∨ name ≠ "" ∧ type = name := by
  unfold collectNamed
  by_cases hname : name = ""
  · rw [if_pos hname]
    exact ⟨Or.inl, fun h => h.resolve_right fun hnamed => hnamed.1 hname⟩
  · rw [if_neg hname, mem_collectType]
    exact or_congr_right ⟨fun h => ⟨hname, h⟩, fun h => h.2⟩

/-! ## What rules say of a price -/

/-- The type of an option's own pricing. -/
def pricingType (option : Value) : String := (option.field "pricing").text "type"

/-- The type of a value's own price. -/
def priceType (value : Value) : String := (value.field "price_config").text "type"

/-- What rules say of a chosen value, and nothing where none was chosen. -/
def stateOfValue (states : String → TargetState) (valueId : String) : TargetState :=
  if valueId = "" then seed else states valueId

/-- Rules set different prices on the option or on its value. -/
def disputed (states : String → TargetState) (optionId valueId : String) : Bool :=
  (states optionId).priceConflict || (stateOfValue states valueId).priceConflict

/-- The price rules set, on the value before the option. -/
def priceSet (states : String → TargetState) (optionId valueId : String) : Option ℤ :=
  (stateOfValue states valueId).priceMinor.or (states optionId).priceMinor

/-- **What the merchant authored is charged**: no rule set a price, or one
that cannot stand for a price by the answer. -/
def Authored (states : String → TargetState) (option : Value) (optionId valueId : String) : Prop :=
  disputed states optionId valueId = false ∧
    (priceSet states optionId valueId = none ∨ pricingType option ∈ optionPricedTypes)

/-- A type that rules on a price leave uncharged. -/
def LeftByRules (states : String → TargetState) (option : Value) (optionId valueId type : String) :
    Prop :=
  disputed states optionId valueId = true ∧ type = unpricedRuleConflict ∨
    disputed states optionId valueId = false ∧ (priceSet states optionId valueId).isSome = true ∧
      type = pricingType option ∧ type ∈ optionPricedTypes

/-- **`set_price_for`, as a specification.** -/
theorem setPriceFor_spec (option : Value) (states : String → TargetState)
    (optionId valueId : String) (unpriced : List String) :
    ((setPriceFor option states optionId valueId unpriced).1 = .silent ↔
        Authored states option optionId valueId) ∧
      ∀ type, type ∈ (setPriceFor option states optionId valueId unpriced).2 ↔
        type ∈ unpriced ∨ LeftByRules states option optionId valueId type := by
  unfold setPriceFor Authored LeftByRules
  dsimp only
  cases hdisputed : disputed states optionId valueId with
  | true =>
    have hconflict : ((states optionId).priceConflict ||
        (if valueId = "" then seed else states valueId).priceConflict) = true := hdisputed
    rw [if_pos hconflict]
    refine ⟨by simp, fun type => ?_⟩
    rw [mem_collectType]
    simp
  | false =>
    have hconflict : ((states optionId).priceConflict ||
        (if valueId = "" then seed else states valueId).priceConflict) = false := hdisputed
    rw [hconflict, if_neg Bool.false_ne_true]
    cases hset : priceSet states optionId valueId with
    | none =>
      have hnone : (if valueId = "" then seed else states valueId).priceMinor.or
          (states optionId).priceMinor = none := hset
      rw [hnone]
      simp
    | some amount =>
      have hsome : (if valueId = "" then seed else states valueId).priceMinor.or
          (states optionId).priceMinor = some amount := hset
      rw [hsome]
      dsimp only
      change ((if pricingType option ∈ optionPricedTypes then _ else _ : Ruled × List String).1 =
        _ ↔ _) ∧ ∀ type, type ∈
          (if pricingType option ∈ optionPricedTypes then _ else _ : Ruled × List String).2 ↔ _
      by_cases hpriced : pricingType option ∈ optionPricedTypes
      · rw [if_pos hpriced]
        refine ⟨by simp [hpriced], fun type => ?_⟩
        change type ∈ collectType (pricingType option) unpriced ↔ _
        rw [mem_collectType]
        refine or_congr_right ⟨fun h => Or.inr ⟨rfl, rfl, h, h ▸ hpriced⟩, fun h => ?_⟩
        exact (h.resolve_left fun h => Bool.false_ne_true h.1).2.2.1
      · rw [if_neg hpriced]
        refine ⟨by simp [hpriced], fun type => ⟨Or.inl, ?_⟩⟩
        rintro (h | ⟨h, -⟩ | ⟨-, -, rfl, h⟩)
        · exact h
        · simp at h
        · exact absurd h hpriced

/-! ## Quantities -/

/-- No amount is charged for a quantity. -/
def Uncharged (amount : ℤ) (quantity : Binary64) : Prop :=
  (Binary64.ofInt absoluteMaxQuantity).lt quantity = true ∨
    Pricing.perUnitOf amount quantity = none

/-- **An answer's quantity is not charged**: no tier reaches it, or its amount
cannot be computed. -/
def Unmeasured (pricing : Value) (answer : String) : Prop :=
  ∃ quantity, parseNumber answer = some quantity ∧
    if pricing.text "type" = priceTypeTiered then
      tierAmount (pricing.field "tiers") quantity = none ∧
          (Binary64.ofInt 0).lt quantity = true ∨
        ∃ amount, tierAmount (pricing.field "tiers") quantity = some amount ∧
          Uncharged amount quantity
    else ∃ amount, (pricing.field "amount_minor").int? = some amount ∧ Uncharged amount quantity

/-- `per_unit_delta` collects its type where it charges nothing for a
quantity. -/
theorem mem_perUnitDelta : type ∈ (perUnitDelta pricing answer unpriced).2 ↔ type ∈ unpriced ∨
      pricing.text "type" ≠ "" ∧ type = pricing.text "type" ∧ ∃ quantity,
        parseNumber answer = some quantity ∧
          ∃ amount, (pricing.field "amount_minor").int? = some amount ∧
            Uncharged amount quantity := by
  unfold perUnitDelta
  cases hamount : (pricing.field "amount_minor").int? with
  | none => simp
  | some amount =>
    cases hquantity : parseNumber answer with
    | none => simp
    | some quantity =>
      dsimp only
      unfold Uncharged
      by_cases hmax : (Binary64.ofInt absoluteMaxQuantity).lt quantity = true
      · rw [if_pos hmax, mem_collectNamed]
        refine or_congr_right (and_congr_right fun _ => ⟨fun h => ⟨h, ?_⟩, fun h => h.1⟩)
        exact ⟨quantity, rfl, amount, rfl, Or.inl hmax⟩
      · rw [if_neg hmax]
        cases hdelta : Pricing.perUnitOf amount quantity with
        | none =>
          dsimp only
          rw [mem_collectNamed]
          refine or_congr_right (and_congr_right fun _ => ⟨fun h => ⟨h, ?_⟩, fun h => h.1⟩)
          exact ⟨quantity, rfl, amount, rfl, Or.inr hdelta⟩
        | some delta =>
          refine ⟨Or.inl, ?_⟩
          rintro (h | ⟨-, -, q, hq, a, ha, hout⟩)
          · exact h
          · obtain rfl := Option.some.inj hq
            obtain rfl := Option.some.inj ha
            rcases hout with hout | hout
            · exact absurd hout hmax
            · exact absurd (hdelta.symm.trans hout) (Option.some_ne_none delta)

/-- `tiered_delta` does the same, of the tier's amount. -/
theorem mem_tieredDelta (htype : pricing.text "type" = priceTypeTiered) :
    type ∈ (tieredDelta pricing answer unpriced).2 ↔ type ∈ unpriced ∨
      type = priceTypeTiered ∧ Unmeasured pricing answer := by
  have hnamed : priceTypeTiered ≠ "" := by decide
  have hset : pricing.isset "type" = true := by
    unfold Value.isset
    refine decide_eq_true fun hnull => hnamed ?_
    rw [← htype]
    unfold Value.text
    rw [hnull]
    rfl
  unfold tieredDelta Unmeasured
  simp only [if_pos htype]
  cases hquantity : parseNumber answer with
  | none => simp
  | some quantity =>
    dsimp only
    cases htier : tierAmount (pricing.field "tiers") quantity with
    | none =>
      dsimp only
      by_cases hpos : (Binary64.ofInt 0).lt quantity = true
      · rw [if_pos hpos, htype, mem_collectNamed]
        refine or_congr_right ⟨fun h => ⟨h.2, quantity, rfl, Or.inl ⟨htier, hpos⟩⟩, fun h => ?_⟩
        exact ⟨hnamed, h.1⟩
      · rw [if_neg hpos]
        refine ⟨Or.inl, ?_⟩
        rintro (h | ⟨-, q, hq, ⟨-, hlt⟩ | ⟨amount, hamount, -⟩⟩)
        · exact h
        · obtain rfl := Option.some.inj hq
          exact absurd hlt hpos
        · obtain rfl := Option.some.inj hq
          exact absurd (htier.symm.trans hamount) (Option.some_ne_none amount).symm
    | some amount =>
      dsimp only
      have htext : (Value.arr [("type", if pricing.isset "type" then pricing.field "type"
          else .str priceTypeTiered), ("amount_minor", .int amount)]).text "type" =
          priceTypeTiered := by
        rw [hset, if_pos rfl, ← htype]
        rfl
      rw [mem_perUnitDelta, htext]
      refine or_congr_right ⟨?_, ?_⟩
      · rintro ⟨-, htype, q, hq, a, ha, hout⟩
        obtain rfl : amount = a := Option.some.inj ha
        refine ⟨htype, quantity, rfl, Or.inr ⟨amount, htier, ?_⟩⟩
        rwa [Option.some.inj (hquantity.symm.trans hq)]
      · rintro ⟨htype, q, hq, ⟨hnone, -⟩ | ⟨a, ha, hout⟩⟩
        · obtain rfl := Option.some.inj hq
          exact absurd (htier.symm.trans hnone) (Option.some_ne_none amount)
        · obtain rfl := Option.some.inj hq
          obtain rfl := Option.some.inj (htier.symm.trans ha)
          exact ⟨hnamed, htype, quantity, hquantity, amount, rfl, hout⟩

theorem unmeasured_iff (htype : pricing.text "type" ≠ priceTypeTiered) :
    Unmeasured pricing answer ↔ ∃ quantity, parseNumber answer = some quantity ∧
      ∃ amount, (pricing.field "amount_minor").int? = some amount ∧ Uncharged amount quantity := by
  unfold Unmeasured
  simp only [if_neg htype]

/-! ## An option and a value -/

/-- **An option leaves its own type uncharged** for an answer: a type that is
none of an option's, one that the kind of the option does not fit, or a
quantity that is not charged. -/
structure LeftByOption (option : Value) (answer : String) : Prop where
  named : pricingType option ≠ ""
  /-- A fixed amount of an option is passed over in silence. -/
  notFixed : pricingType option ≠ priceTypeFixed
  /-- Characters are charged of a text that is typed. -/
  perChar : pricingType option = priceTypePerChar →
    isFreeText option = false ∨ isHidden option = true
  perUnit : pricingType option = priceTypePerUnit ∨ pricingType option = priceTypeTiered →
    isNumber option = false ∨ Unmeasured (option.field "pricing") answer

/-- **A chosen value leaves its own type uncharged**: a type that is none of a
value's, or a percentage that cannot be computed. -/
structure LeftByValue (base : ℤ) (value : Value) : Prop where
  named : priceType value ≠ ""
  notFixed : priceType value ≠ priceTypeFixed
  /-- A percentage is charged where there is one and its share can be
  computed. -/
  percentage : priceType value = priceTypePercentage →
    ∀ points, ((value.field "price_config").field "basis_points").int? = some points →
      Pricing.percentageOf base points = none

theorem text_of_not_array {v : Value} {k : String} (h : v.isArray = false) : v.text k = "" := by
  cases v with
  | arr es => exact absurd h.symm Bool.false_ne_true
  | null => rfl
  | bool b => rfl
  | int n => rfl
  | float x => rfl
  | str s => rfl

/-- **`option_delta` collects the type an option leaves uncharged**, unless a
rule speaks. -/
theorem mem_optionDelta {measure : String → ℕ} {option : Value} {ruled : Ruled} :
    type ∈ (optionDelta measure option answer unpriced ruled).2 ↔ type ∈ unpriced ∨
      ruled = .silent ∧ type = pricingType option ∧ LeftByOption option answer := by
  have hnot : ∀ {p : Prop}, ¬ p → (type ∈ unpriced ↔ type ∈ unpriced ∨ p) :=
    fun hp => ⟨Or.inl, fun h => h.resolve_right hp⟩
  cases ruled with
  | refused => exact hnot fun h => Ruled.noConfusion h.1
  | price amount => exact hnot fun h => Ruled.noConfusion h.1
  | silent =>
    unfold optionDelta
    dsimp only
    by_cases harray : (option.field "pricing").isArray = true
    swap
    · rw [Bool.not_eq_true] at harray
      rw [harray, Bool.not_false, if_pos rfl]
      exact hnot fun h => h.2.2.named (text_of_not_array harray)
    rw [harray, Bool.not_true, if_neg Bool.false_ne_true]
    change type ∈ (if pricingType option = "" ∨ pricingType option = priceTypeFixed then _
      else _ : ℤ × List String).2 ↔ _
    by_cases hplain : pricingType option = "" ∨ pricingType option = priceTypeFixed
    · rw [if_pos hplain]
      exact hnot fun h => hplain.elim h.2.2.named h.2.2.notFixed
    rw [if_neg hplain, not_or] at *
    obtain ⟨hnamed, hnotFixed⟩ := hplain
    have hleft : LeftByOption option answer → (type = pricingType option →
        Ruled.silent = .silent ∧ type = pricingType option ∧ LeftByOption option answer) :=
      fun hleft htype => ⟨rfl, htype, hleft⟩
    by_cases hchar : pricingType option = priceTypePerChar
    · have hunit : ¬ (pricingType option = priceTypePerUnit ∨
          pricingType option = priceTypeTiered) := by
        rw [hchar]
        decide
      change type ∈ (if pricingType option = priceTypePerChar then _ else _ : ℤ × List String).2 ↔ _
      rw [if_pos hchar]
      by_cases hfit : (!isFreeText option || isHidden option) = true
      · rw [if_pos hfit, mem_collectType]
        rw [Bool.or_eq_true, Bool.not_eq_true'] at hfit
        refine or_congr_right ⟨?_, fun h => h.2.1⟩
        exact hleft ⟨hnamed, hnotFixed, fun _ => hfit, fun h => absurd h hunit⟩
      · rw [if_neg hfit]
        rw [Bool.or_eq_true, Bool.not_eq_true'] at hfit
        exact hnot fun h => hfit (h.2.2.perChar hchar)
    change type ∈ (if pricingType option = priceTypePerChar then _ else
      if pricingType option = priceTypePerUnit ∨ pricingType option = priceTypeTiered then _
      else _ : ℤ × List String).2 ↔ _
    rw [if_neg hchar]
    by_cases hunit : pricingType option = priceTypePerUnit ∨ pricingType option = priceTypeTiered
    · rw [if_pos hunit]
      by_cases hnumber : isNumber option = false
      · rw [hnumber, Bool.not_false, if_pos rfl, mem_collectType]
        refine or_congr_right ⟨?_, fun h => h.2.1⟩
        exact hleft ⟨hnamed, hnotFixed, fun h => absurd h hchar, fun _ => Or.inl hnumber⟩
      rw [Bool.not_eq_false] at hnumber
      rw [hnumber, Bool.not_true, if_neg Bool.false_ne_true]
      have hmeasured : LeftByOption option answer ↔ Unmeasured (option.field "pricing") answer := by
        constructor
        · intro h
          refine (h.perUnit hunit).resolve_left fun hfalse => ?_
          exact Bool.false_ne_true (hfalse.symm.trans hnumber)
        · exact fun h => ⟨hnamed, hnotFixed, fun h => absurd h hchar, fun _ => Or.inr h⟩
      by_cases htiered : pricingType option = priceTypeTiered
      · change type ∈ (if pricingType option = priceTypeTiered then _ else _ : ℤ × List String).2 ↔ _
        rw [if_pos htiered, mem_tieredDelta htiered, hmeasured, htiered]
        exact or_congr_right ⟨fun h => ⟨rfl, h⟩, fun h => h.2⟩
      · change type ∈ (if pricingType option = priceTypeTiered then _ else _ : ℤ × List String).2 ↔ _
        rw [if_neg htiered, mem_perUnitDelta, hmeasured]
        refine or_congr_right ⟨fun h => ⟨rfl, h.2.1, ?_⟩, fun h => ⟨hnamed, h.2.1, ?_⟩⟩
        · exact (unmeasured_iff htiered).2 h.2.2
        · exact (unmeasured_iff htiered).1 h.2.2
    · rw [if_neg hunit, mem_collectType]
      refine or_congr_right ⟨?_, fun h => h.2.1⟩
      exact hleft ⟨hnamed, hnotFixed, fun h => absurd h hchar, fun h => absurd h hunit⟩

/-- **`delta_for` collects the type a value leaves uncharged.** -/
theorem mem_deltaFor {value : Value} {base : ℤ} :
    type ∈ (deltaFor value base unpriced).2 ↔ type ∈ unpriced ∨
      type = priceType value ∧ LeftByValue base value := by
  have hnot : ∀ {p : Prop}, ¬ p → (type ∈ unpriced ↔ type ∈ unpriced ∨ p) :=
    fun hp => ⟨Or.inl, fun h => h.resolve_right hp⟩
  unfold deltaFor
  dsimp only
  by_cases harray : (value.field "price_config").isArray = true
  swap
  · rw [Bool.not_eq_true] at harray
    rw [harray, Bool.not_false, if_pos rfl]
    exact hnot fun h => h.2.named (text_of_not_array harray)
  rw [harray, Bool.not_true, if_neg Bool.false_ne_true]
  by_cases hpercent : priceType value = priceTypePercentage
  · have hnamed : priceType value ≠ "" := by
      rw [hpercent]
      decide
    have hnotFixed : priceType value ≠ priceTypeFixed := by
      rw [hpercent]
      decide
    change type ∈ (if priceType value = priceTypePercentage then _ else _ : ℤ × List String).2 ↔ _
    rw [if_pos hpercent]
    cases hpoints : ((value.field "price_config").field "basis_points").int? with
    | none =>
      dsimp only
      rw [mem_collectType]
      refine or_congr_right ⟨fun h => ⟨h, hnamed, hnotFixed, fun _ points hsome => ?_⟩, fun h => h.1⟩
      exact absurd (hpoints.symm.trans hsome) (Option.some_ne_none points).symm
    | some points =>
      dsimp only
      cases hdelta : Pricing.percentageOf base points with
      | none =>
        dsimp only
        rw [mem_collectType]
        refine or_congr_right ⟨fun h => ⟨h, hnamed, hnotFixed, fun _ points' hsome => ?_⟩,
          fun h => h.1⟩
        obtain rfl := Option.some.inj (hpoints.symm.trans hsome)
        exact hdelta
      | some delta =>
        refine hnot fun h => ?_
        have hnone := h.2.percentage hpercent points hpoints
        exact absurd (hdelta.symm.trans hnone) (Option.some_ne_none delta)
  · change type ∈ (if priceType value = priceTypePercentage then _ else
      if priceType value ≠ priceTypeFixed then _ else _ : ℤ × List String).2 ↔ _
    rw [if_neg hpercent]
    by_cases hfixed : priceType value = priceTypeFixed
    · rw [if_neg (not_not.2 hfixed)]
      exact hnot fun h => h.2.notFixed hfixed
    · rw [if_pos hfixed, mem_collectNamed]
      refine or_congr_right ⟨fun h => ⟨h.2, h.1, hfixed, fun h => absurd h hpercent⟩, fun h => ?_⟩
      exact ⟨h.2.named, h.1⟩

/-! ## A turn -/

namespace SelectionResolver

/-- A chosen value leaves a type uncharged: by the rules on it, or by its own
price. -/
def ValueLeaves (ctx : Context) (id : String) (option value : Value) (type : String) : Prop :=
  LeftByRules ctx.states option id (value.text "id") type ∨
    Authored ctx.states option id (value.text "id") ∧ type = priceType value ∧
      LeftByValue ctx.base value

/-- **What a selection comes to leaves a type uncharged.** -/
def Leaves (ctx : Context) (id : String) : Verdict → String → Prop
  | .answered option answer, type =>
    LeftByRules ctx.states option id "" type ∨
      Authored ctx.states option id "" ∧ type = pricingType option ∧ LeftByOption option answer
  | .chosen option keys, type => ∃ key ∈ keys, ValueLeaves ctx id option (valueAt option key) type
  | _, _ => False

variable {ctx : Context} {id type : String} {option : Value}

theorem mem_unpriced_accept {t : Taken} {answer : String} :
    type ∈ (t.accept ctx id option answer).unpriced ↔
      type ∈ t.unpriced ∨ Leaves ctx id (.answered option answer) type := by
  obtain ⟨hsilent, hrules⟩ := setPriceFor_spec option ctx.states id "" t.unpriced
  change type ∈ (optionDelta (Text.measure ctx.platform) option answer
    (setPriceFor option ctx.states id "" t.unpriced).2
    (setPriceFor option ctx.states id "" t.unpriced).1).2 ↔ _
  rw [mem_optionDelta, hrules, hsilent, or_assoc]
  rfl

theorem mem_unpriced_add {added : Added} {value : Value} :
    type ∈ (added.add ctx id option value).unpriced ↔
      type ∈ added.unpriced ∨ ValueLeaves ctx id option value type := by
  obtain ⟨hsilent, hrules⟩ :=
    setPriceFor_spec option ctx.states id (value.text "id") added.unpriced
  unfold ValueLeaves
  rw [← or_assoc, ← hrules, ← hsilent]
  unfold Added.add
  dsimp only
  cases (setPriceFor option ctx.states id (value.text "id") added.unpriced).1 with
  | refused => exact ⟨Or.inl, fun h => h.resolve_right fun h => Ruled.noConfusion h.1⟩
  | price amount => exact ⟨Or.inl, fun h => h.resolve_right fun h => Ruled.noConfusion h.1⟩
  | silent =>
    dsimp only
    rw [mem_deltaFor]
    exact or_congr_right ⟨fun h => ⟨rfl, h⟩, fun h => h.2⟩

theorem mem_unpriced_foldl {added : Added} {values : List Value} :
    type ∈ (values.foldl (fun (added : Added) value => added.add ctx id option value) added).unpriced ↔
      type ∈ added.unpriced ∨ ∃ value ∈ values, ValueLeaves ctx id option value type := by
  induction values generalizing added with
  | nil => simp
  | cons value values ih =>
    rw [List.foldl_cons, ih, mem_unpriced_add, or_assoc, List.exists_mem_cons_iff]

/-- **What a turn that refuses nothing adds to the types reported.** -/
theorem mem_unpriced_settle {t : Taken} {v : Verdict} (h : (t.settle ctx id v).errors = []) :
    type ∈ (t.settle ctx id v).unpriced ↔ type ∈ t.unpriced ∨ Leaves ctx id v type := by
  cases v with
  | refused violation => exact absurd h (refuse_errors_ne_nil t id violation)
  | skipped => exact ⟨Or.inl, fun h => h.resolve_right False.elim⟩
  | chosen option keys =>
    change type ∈ (((keys.map (valueAt option)).foldl
      (fun (added : Added) value => added.add ctx id option value) _).unpriced) ↔ _
    rw [mem_unpriced_foldl]
    simp only [List.mem_map, exists_exists_and_eq_and]
    rfl
  | answered option answer =>
    change (t.answer ctx id option (.taken answer)).errors = [] at h
    change type ∈ (t.answer ctx id option (.taken answer)).unpriced ↔ _
    unfold Taken.answer at h ⊢
    dsimp only at h ⊢
    split at h
    · next htext =>
      rw [if_pos htext]
      split at h
      · exact absurd h (refuse_errors_ne_nil _ id _)
      · next hfits =>
        rw [if_neg hfits]
        exact mem_unpriced_accept
    · next htext =>
      rw [if_neg htext]
      exact mem_unpriced_accept

/-! ## A run -/

/-- **A loop without errors reports what its selections leave uncharged.** -/
theorem mem_unpriced_foldl_turn {entries : List (String × Value)} {t : Taken}
    (h : (entries.foldl (Taken.turn ctx) t).errors = []) :
    type ∈ (entries.foldl (Taken.turn ctx) t).unpriced ↔
      type ∈ t.unpriced ∨ ∃ p ∈ entries, Leaves ctx p.1 (verdict ctx p) type := by
  induction entries generalizing t with
  | nil => simp
  | cons p entries ih =>
    rw [List.foldl_cons] at h ⊢
    have hturn := errors_foldl ctx entries _ h
    rw [ih h, List.exists_mem_cons_iff, ← or_assoc]
    rw [turn_eq] at hturn ⊢
    rw [mem_unpriced_settle hturn]

/-- **A resolution reports exactly the types its selections leave
uncharged.** -/
theorem mem_unpriced_iff {P : Platform} {optionSets : List Value}
    {selections : OrderedMap String Value} {base : ℤ} {today : Option String} {r : Resolution}
    (h : resolve P optionSets selections base today = .ok r) (type : String) :
    type ∈ r.unpriced ↔ ∃ p ∈ selections.entries,
      Leaves (context P optionSets base today (evaluation P optionSets selections).states) p.1
        (verdict (context P optionSets base today (evaluation P optionSets selections).states) p)
        type := by
  obtain ⟨-, hconclude⟩ := resolve_eq_ok h
  obtain ⟨herrors, -, totalMinor, -, rfl⟩ := conclude_eq_ok hconclude
  change type ∈ List.mergeSort _ _ ↔ _
  rw [(List.mergeSort_perm _ _).mem_iff]
  unfold takeAll at herrors ⊢
  rw [mem_unpriced_foldl_turn herrors]
  exact ⟨fun h => h.resolve_left List.not_mem_nil, Or.inr⟩

end SelectionResolver

end Optionia.Engine
