import Optionia.Wire.Tiers
/-!
# The two price evaluators agree

`delta_for` and `option_delta` without a ruled price, against
`priceConfigDelta` and `optionPricingDelta`, on whatever the cloud publishes:
the amounts and the reports are the same exactly where `ValueAlike` and
`OptionAlike` hold (`prices_agree_iff`).
-/

namespace Optionia.Wire

open Engine (Pricing.maxMinor)
open Engine.Pricing

/-! ## An option and its answer -/

/-- A published option with its price. -/
def pricedOption (os es : List (String × Js.Value)) : Php.Value :=
  published (.obj (("pricing", .obj es) :: os))

theorem pricing_pricedOption (os es : List (String × Js.Value)) :
    (pricedOption os es).field "pricing" = published (.obj es) := rfl

/-- An option answered in characters: free text that is not the merchant's
own. -/
def typed (os es : List (String × Js.Value)) : Bool :=
  Engine.isFreeText (pricedOption os es) && !Engine.isHidden (pricedOption os es)

/-- An option answered with a number. -/
def numbered (os es : List (String × Js.Value)) : Bool := Engine.isNumber (pricedOption os es)

/-- The answers an option's kind admits: those of a number are trimmed. -/
def Admits (os es : List (String × Js.Value)) (answer : String) : Prop :=
  numbered os es = true → Php.trim answer = answer

/-- **`option_delta` and `optionPricingDelta` agree** on an option and its
answer. -/
def OptionAgrees (measure : String → ℕ) (os es : List (String × Js.Value)) (answer : String) :
    Prop :=
  SamePrice (Engine.optionDelta measure (pricedOption os es) answer [] .silent)
    (Cloud.optionPricingDelta measure (.obj es) answer)

/-- **A trimmed answer reads as one number** in both languages. -/
theorem parseNumber_eq {answer : String} (h : Php.trim answer = answer) :
    Engine.parseNumber answer = Cloud.plainNumber answer := by
  have hlast : answer.toList.getLast? ≠ some '\n' := by
    intro hend
    have htrim : (answer.toList.dropWhile Php.trimmed).rdropWhile Php.trimmed = answer.toList := by
      have hlist := congrArg String.toList h
      rwa [Php.trim, String.toList_ofList] at hlist
    rw [← htrim] at hend
    obtain ⟨hne, hget⟩ := List.mem_getLast?_eq_getLast hend
    refine List.rdropWhile_last_not Php.trimmed _ hne ?_
    rw [← hget]
    decide
  unfold Engine.parseNumber Cloud.plainNumber
  dsimp only
  rw [if_neg hlast]

/-- An option's price is alike in both languages: its type reads the same,
and by that type its characters, its quantity or its tiers cost the same. Of
an option that is not answered so, the plugin reports the type, and the cloud
must too. -/
def OptionAlike (measure : String → ℕ) (os es : List (String × Js.Value)) (answer : String) :
    Prop :=
  typeRead es = typeNamed es ∧
    if typeNamed es = "per_char" then
      if typed os es then CharsAlike es (measure answer) else Overlong es (measure answer)
    else if typeNamed es = "per_unit" then
      if numbered os es then
        ∀ quantity, Cloud.plainNumber answer = some quantity → UnitAlike es quantity
      else ∃ quantity, Cloud.plainNumber answer = some quantity ∧
        Overcharged (carriedSafe es "amount_minor") quantity
    else if typeNamed es = "tiered" then
      if numbered os es then
        ∀ quantity, Cloud.plainNumber answer = some quantity → TierAlike es quantity
      else ∃ quantity, Cloud.plainNumber answer = some quantity ∧ Untiered es quantity
    else True

/-! ## Agreement on an option -/

/-- **What the plugin charges for a published option.** -/
theorem optionDelta_pricedOption (measure : String → ℕ) (os es : List (String × Js.Value))
    (answer : String) :
    Engine.optionDelta measure (pricedOption os es) answer [] .silent =
      if typeRead es = "" ∨ typeRead es = "fixed" then (0, [])
      else if typeRead es = "per_char" then
        if typed os es then (Engine.perCharDelta (published (.obj es)) (measure answer), [])
        else (0, [typeRead es])
      else if typeRead es = "per_unit" ∨ typeRead es = "tiered" then
        if numbered os es then
          if typeRead es = "tiered" then Engine.tieredDelta (published (.obj es)) answer []
          else Engine.perUnitDelta (published (.obj es)) answer []
        else (0, [typeRead es])
      else (0, [typeRead es]) := by
  have harray : (published (.obj es)).isArray = true := rfl
  unfold Engine.optionDelta
  dsimp only
  rw [pricing_pricedOption, harray, if_neg (by decide : ¬ (!true) = true), collectType_nil]
  change (if typeRead es = "" ∨ typeRead es = "fixed" then _ else if typeRead es = "per_char" then _
    else if typeRead es = "per_unit" ∨ typeRead es = "tiered" then _ else (0, [typeRead es])) = _
  have htyped : (!Engine.isFreeText (pricedOption os es) || Engine.isHidden (pricedOption os es)) =
      !typed os es := by
    unfold typed
    rw [Bool.not_and, Bool.not_not]
  have hnumbered : Engine.isNumber (pricedOption os es) = numbered os es := rfl
  rw [htyped, hnumbered]
  cases typed os es <;> cases numbered os es <;> rfl

/-- **What the cloud charges for it.** -/
theorem optionPricingDelta_obj (measure : String → ℕ) (es : List (String × Js.Value))
    (answer : String) :
    Cloud.optionPricingDelta measure (.obj es) answer =
      if typeNamed es = "" ∨ typeNamed es = "fixed" then cloudResult (typeNamed es) (some 0)
      else if typeNamed es = "per_unit" then Cloud.perUnitDelta (.obj es) answer
      else if typeNamed es = "tiered" then Cloud.tieredDelta (.obj es) answer
      else if typeNamed es = "per_char" then Cloud.perCharDelta (.obj es) (measure answer)
      else cloudResult (typeNamed es) none := rfl

/-- **Of an option answered otherwise the plugin reports the type**, and the
two agree where the cloud reports it too. -/
theorem reported_agrees_iff {type : String} {outcome : Option ℤ} (hexact : Exact outcome) :
    SamePrice (0, [type]) (cloudResult type outcome) ↔ outcome = none :=
  (@samePrice_iff type none outcome hexact).trans eq_comm

/-- **An option's price agrees exactly where it is alike.** -/
theorem option_agrees_iff {measure : String → ℕ} {os es : List (String × Js.Value)}
    {answer : String} (hmeasure : (measure answer : ℤ) ≤ maxMinor)
    (hadmits : Admits os es answer) :
    OptionAgrees measure os es answer ↔ OptionAlike measure os es answer := by
  have hnumber : numbered os es = true →
      Engine.parseNumber answer = Cloud.plainNumber answer := fun h => parseNumber_eq (hadmits h)
  unfold OptionAgrees OptionAlike
  rw [optionDelta_pricedOption, optionPricingDelta_obj]
  rcases type_cases es with htype | ⟨hnamed, hread, hspelled⟩
  · have hagree : (typeRead es = typeNamed es) ↔ True := iff_true_intro htype
    rw [hagree, true_and, htype]
    by_cases hfree : typeNamed es = "" ∨ typeNamed es = "fixed"
    · have hother : ∀ name : String, name ≠ "" → name ≠ "fixed" → typeNamed es ≠ name := by
        rintro name hempty hfixed rfl
        exact hfree.elim hempty hfixed
      rw [if_pos hfree, if_pos hfree, if_neg (hother _ (by decide) (by decide)),
        if_neg (hother _ (by decide) (by decide)), if_neg (hother _ (by decide) (by decide))]
      exact (@samePrice_iff _ (some 0) _ exact_zero).trans ⟨fun _ => trivial, fun _ => rfl⟩
    have hne : typeNamed es ≠ "" := fun h => hfree (Or.inl h)
    rw [if_neg hfree, if_neg hfree]
    by_cases hchars : typeNamed es = "per_char"
    · have hunit : typeNamed es ≠ "per_unit" := by
        rw [hchars]
        decide
      have htiered : typeNamed es ≠ "tiered" := by
        rw [hchars]
        decide
      rw [if_pos hchars, if_neg hunit, if_neg htiered, if_pos hchars, if_pos hchars,
        perCharDelta_obj es hmeasure]
      cases typed os es with
      | true =>
        rw [if_pos rfl, if_pos rfl, ← charsOutcome_eq_iff es hmeasure]
        exact @samePrice_iff _ (some _) _ (exact_charsOutcome es _)
      | false =>
        rw [if_neg Bool.false_ne_true, if_neg Bool.false_ne_true, ← charsOutcome_eq_none_iff]
        exact reported_agrees_iff (exact_charsOutcome es _)
    rw [if_neg hchars, if_neg hchars, if_neg hchars]
    by_cases hunit : typeNamed es = "per_unit"
    · have htiered : typeNamed es ≠ "tiered" := by
        rw [hunit]
        decide
      rw [if_pos (Or.inl hunit), if_neg htiered, if_pos hunit, if_pos hunit]
      cases hnumbered : numbered os es with
      | true =>
        rw [if_pos rfl, if_pos rfl]
        exact unit_agrees_iff htype hne (hnumber hnumbered)
      | false =>
        rw [if_neg Bool.false_ne_true, if_neg Bool.false_ne_true, perUnitDelta_obj,
          ← unitOutcome_eq_none_iff]
        exact reported_agrees_iff (exact_unitOutcome es answer)
    rw [if_neg hunit, if_neg hunit]
    by_cases htiered : typeNamed es = "tiered"
    · rw [if_pos (Or.inr htiered), if_pos htiered, if_pos htiered, if_pos htiered]
      cases hnumbered : numbered os es with
      | true =>
        rw [if_pos rfl, if_pos rfl]
        exact tiered_agrees_iff htype hne (hnumber hnumbered)
      | false =>
        rw [if_neg Bool.false_ne_true, if_neg Bool.false_ne_true]
        exact untiered_iff es answer
    · rw [if_neg (not_or.2 ⟨hunit, htiered⟩), if_neg htiered, if_neg htiered]
      exact (reported_agrees_iff exact_none).trans ⟨fun _ => trivial, fun _ => rfl⟩
  · -- The plugin reports what the cloud does not name.
    have hother : ∀ name : String, 'e' ∈ name.toList → typeRead es ≠ name := by
      rintro name hname rfl
      exact hspelled hname
    have hreported : ∀ p : Prop, ¬ (typeRead es = typeNamed es ∧ p) :=
      fun _ h => hread (h.1.trans hnamed)
    rw [if_neg (not_or.2 ⟨hread, hother _ (by decide)⟩), if_neg (hother _ (by decide)),
      if_neg (not_or.2 ⟨hother _ (by decide), hother _ (by decide)⟩), if_pos (Or.inl hnamed)]
    refine ⟨fun h => ?_, fun h => absurd h (hreported _)⟩
    exact absurd h.unpriced (List.cons_ne_nil _ _)

/-! ## Both evaluators -/

/-- **The two price evaluators agree exactly where prices are alike**: on
every published price with every safe base, and on every published option
with every answer its kind admits. A count of characters is a safe integer. -/
theorem prices_agree_iff (es : List (String × Js.Value)) :
    (∀ base, |base| ≤ maxMinor → (ValueAgrees es base ↔ ValueAlike es)) ∧
      ∀ measure os answer, (measure answer : ℤ) ≤ maxMinor → Admits os es answer →
        (OptionAgrees measure os es answer ↔ OptionAlike measure os es answer) :=
  ⟨fun _ hbase => value_agrees_iff es hbase,
    fun _ _ _ hmeasure hadmits => option_agrees_iff hmeasure hadmits⟩

/-- A fixed price of five agrees on any base, and so does one of two for each
unit, of three units. -/
theorem prices_agree_on_five :
    ValueAgrees [("type", .str "fixed"), ("amount_minor", .num (.ofInt 5))] 1000 ∧
      OptionAgrees String.length [("value_kind", .str "number")]
        [("type", .str "per_unit"), ("amount_minor", .num (.ofInt 2))] "3" := by
  constructor
  · refine ((prices_agree_iff _).1 1000 (by decide)).2 ⟨by decide, fun _ => ⟨5, ?_, by decide⟩⟩
    decide +kernel
  · refine ((prices_agree_iff _).2 _ _ _ (by decide) (fun _ => by decide)).2 ⟨by decide, ?_⟩
    rw [if_neg (by decide), if_pos (by decide), if_pos (by decide)]
    intro quantity hquantity amount hamount
    have hthree : Cloud.plainNumber "3" = some (.ofInt 3) := by decide +kernel
    have htwo : carried [("type", .str "per_unit"), ("amount_minor", .num (.ofInt 2))]
        "amount_minor" = some 2 := by decide +kernel
    obtain rfl := Option.some.inj (hthree.symm.trans hquantity)
    obtain rfl := Option.some.inj (htwo.symm.trans hamount)
    exact ⟨by decide, by decide +kernel⟩

/-- A fixed price without an amount: the plugin charges nothing and says
nothing, the cloud reports the type. -/
theorem missing_amount_unreported :
    Engine.deltaFor (pricedValue [("type", .str "fixed")]) 1000 [] = (0, []) ∧
      Cloud.priceConfigDelta (.obj [("type", .str "fixed")]) (.ofInt 1000) =
        some (Cloud.unpriced "fixed") ∧
      ¬ ValueAgrees [("type", .str "fixed")] 1000 := by
  have hcloud : Cloud.priceConfigDelta (.obj [("type", .str "fixed")]) (.ofInt 1000) =
      some (Cloud.unpriced "fixed") := by
    rw [priceConfigDelta_obj _ (by decide)]
    rfl
  refine ⟨rfl, hcloud, ?_⟩
  rintro ⟨result, hresult, halike⟩
  obtain rfl := Option.some.inj (hcloud.symm.trans hresult)
  exact absurd halike.unpriced (by decide)

end Optionia.Wire
