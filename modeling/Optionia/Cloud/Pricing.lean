import Optionia.Js.Value
import Optionia.Engine.Pricing
/-!
# What a choice, an option and a line cost, in the cloud

`priceConfigDelta` and `optionPricingDelta`, the counterparts of the plugin's
price evaluators. They read the published shape, and every number in it is a
double.
-/

namespace Optionia.Cloud

open Js

/-- A delta, and the type that could not be charged, where there is one. -/
structure PriceConfigDelta where
  deltaMinor : Binary64
  unpriced : Option String

def free : PriceConfigDelta := ⟨.ofInt 0, none⟩

/-- Nothing charged, and the type reported. -/
def unpriced (type : String) : PriceConfigDelta := ⟨.ofInt 0, some type⟩

/-! ## Percentages -/

def basisPointsDivisor : Binary64 := .ofInt 10000

/-- `percentageOf`; `none` is a `RangeError`. -/
def percentageOf (minor basisPoints : Binary64) : Option Binary64 :=
  if !isSafeInteger minor || !isSafeInteger basisPoints then none
  else
    let numerator := minor.mul basisPoints
    if !isSafeInteger numerator then none
    else
      let magnitude := numerator.abs
      let quotient := (magnitude.div basisPointsDivisor).floor
      let remainder := magnitude.rem basisPointsDivisor
      let rounded := if basisPointsDivisor.le (remainder.mul (.ofInt 2)) then quotient.add (.ofInt 1)
        else quotient
      some (if numerator.lt (.ofInt 0) then rounded.neg else rounded)

/-! ## A chosen value -/

/-- `priceConfigDelta`; `none` is a `RangeError`. -/
def priceConfigDelta (config : Value) (baseMinor : Binary64) : Option PriceConfigDelta :=
  let type := config.string "type"
  if !isSafeInteger baseMinor then none
  else if type = "fixed" then
    match (config.field "amount_minor").safeInteger? with
    | some amount => some ⟨.ofInt amount, none⟩
    | none => some (unpriced type)
  else if type = "percentage" then
    match (config.field "basis_points").safeInteger? with
    | none => some (unpriced type)
    | some points =>
      match percentageOf baseMinor (.ofInt points) with
      | some delta => some ⟨delta, none⟩
      | none => some (unpriced type)
  else some (if type = "" then free else unpriced type)

/-! ## An option -/

def absoluteMaxQuantity : Binary64 := .ofInt 1000000

/-- The number an answer writes, where it writes one plainly. -/
def plainNumber (answer : String) : Option Binary64 :=
  (Decimal.plain? answer.toList).map .ofRat

/-- A product, rounded half away from zero. -/
def roundedAway (product : Binary64) : Binary64 :=
  let magnitude := product.abs
  let floored := magnitude.floor
  let rounded := if (Binary64.ofRat (1 / 2)).le (magnitude.sub floored) then
    floored.add (.ofInt 1) else floored
  if product.lt (.ofInt 0) then rounded.neg else rounded

def perUnitDelta (pricing : Value) (answer : String) : PriceConfigDelta :=
  match (pricing.field "amount_minor").safeInteger?, plainNumber answer with
  | some amount, some units =>
    if !units.isFinite || units.le (.ofInt 0) then free
    else if absoluteMaxQuantity.lt units then unpriced (pricing.string "type")
    else if !isSafeInteger units.trunc then unpriced (pricing.string "type")
    else
      let product := units.mul (.ofInt amount)
      if !isSafeInteger product.trunc then unpriced (pricing.string "type")
      else ⟨roundedAway product, none⟩
  | _, _ => free

/-- One turn of `tierAmount`: the tier chosen so far, or this one. -/
def chooseTier (quantity : Binary64) (best : Option (ℤ × ℤ)) (tier : Value) : Option (ℤ × ℤ) :=
  match (tier.field "min_quantity").safeInteger?, (tier.field "amount_minor").safeInteger? with
  | some min, some amount =>
    if quantity.lt (.ofInt min) then best
    else match best with
      | none => some (min, amount)
      | some (bestMin, _) => if bestMin < min then some (min, amount) else best
  | _, _ => best

/-- `tierAmount`: the amount of the highest tier the quantity reaches. -/
def tierAmount (tiers : Value) (quantity : Binary64) : Option ℤ :=
  (tiers.items.foldl (chooseTier quantity) none).map Prod.snd

def tieredDelta (pricing : Value) (answer : String) : PriceConfigDelta :=
  match plainNumber answer with
  | none => free
  | some quantity =>
    if !quantity.isFinite then free
    else match tierAmount (pricing.field "tiers") quantity with
      | none => if (Binary64.ofInt 0).lt quantity then unpriced (pricing.string "type") else free
      | some amount =>
        perUnitDelta (.obj [("type", .str (pricing.string "type")),
          ("amount_minor", .num (.ofInt amount))]) answer

def freeCharacters (pricing : Value) : ℤ :=
  match (pricing.field "free_characters").safeInteger? with
  | some n => if 0 < n then n else 0
  | none => 0

/-- The price by characters, for their count. -/
def perCharDelta (pricing : Value) (count : ℕ) : PriceConfigDelta :=
  match (pricing.field "amount_minor").safeInteger? with
  | none => free
  | some amount =>
    let charged := count - freeCharacters pricing
    if charged ≤ 0 then free
    else
      let delta := (Binary64.ofInt charged).mul (.ofInt amount)
      if !isSafeInteger delta then unpriced (pricing.string "type") else ⟨delta, none⟩

/-- `optionPricingDelta`, for a count of the answer's characters. -/
def optionPricingDelta (measure : String → ℕ) (pricing : Value) (answer : String) :
    PriceConfigDelta :=
  let type := pricing.string "type"
  if type = "" ∨ type = "fixed" then free
  else if type = "per_unit" then perUnitDelta pricing answer
  else if type = "tiered" then tieredDelta pricing answer
  else if type = "per_char" then perCharDelta pricing (measure answer)
  else unpriced type

/-! ## The line total

`max(0, base + sum(deltas))` in the cloud, beside the plugin's. The plugin
tests a sum of two doubles before it adds integers, the cloud tests the double
it has added; both refuse where an amount or a running total leaves the range
in which a double is an exact integer, and there the test and the sum are exact
(`sumDeltas_specified`).
-/

open Engine.Pricing

/-! ## The cloud's sum -/

/-- `clampToZero`; `none` is a `RangeError`. -/
def clampToZero (totalMinor : Binary64) : Option Binary64 :=
  if !isSafeInteger totalMinor then none
  else some (if totalMinor.lt (.ofInt 0) then .ofInt 0 else totalMinor)

/-- The loop of `sumDeltas`. -/
def addDeltas (total : Binary64) : List Binary64 → Option Binary64
  | [] => some total
  | delta :: deltas =>
    if !isSafeInteger delta then none
    else if !isSafeInteger (total.add delta) then none
    else addDeltas (total.add delta) deltas

def sumDeltas (baseMinor : Binary64) (deltaMinor : List Binary64) : Option Binary64 :=
  if !isSafeInteger baseMinor then none
  else (addDeltas baseMinor deltaMinor).bind clampToZero

/-! ## The specified total -/

/-- The base and its running totals. -/
def runningTotals (base : ℤ) (deltas : List ℤ) : List ℤ := deltas.scanl (· + ·) base

/-- **Every amount and every running total is in range.** -/
def Within (base : ℤ) (deltas : List ℤ) : Prop :=
  (∀ delta ∈ deltas, |delta| ≤ maxMinor) ∧ ∀ total ∈ runningTotals base deltas, |total| ≤ maxMinor

instance (base : ℤ) (deltas : List ℤ) : Decidable (Within base deltas) :=
  inferInstanceAs (Decidable (_ ∧ _))

/-- The line total that is specified, where there is one. -/
def lineTotal (base : ℤ) (deltas : List ℤ) : Option ℤ :=
  if Within base deltas then some (max 0 (base + deltas.sum)) else none

variable {base delta total : ℤ} {deltas deltas' : List ℤ}

theorem within_nil : Within base [] ↔ |base| ≤ maxMinor := by
  simp [Within, runningTotals]

theorem within_cons : Within base (delta :: deltas) ↔
    |base| ≤ maxMinor ∧ |delta| ≤ maxMinor ∧ Within (base + delta) deltas := by
  unfold Within runningTotals
  rw [List.forall_mem_cons, List.scanl_cons, List.forall_mem_cons]
  tauto

theorem Within.base_le (h : Within base deltas) : |base| ≤ maxMinor := by
  cases deltas with
  | nil => exact within_nil.1 h
  | cons delta deltas => exact (within_cons.1 h).1

theorem Within.total_le (h : Within base deltas) : |base + deltas.sum| ≤ maxMinor := by
  induction deltas generalizing base with
  | nil =>
    rw [List.sum_nil, add_zero]
    exact within_nil.1 h
  | cons delta deltas ih =>
    rw [List.sum_cons, ← add_assoc]
    exact ih (within_cons.1 h).2.2

/-- **Amounts whose magnitudes add up to no more than the range keep every
running total in it**, in whatever order. -/
theorem within_of_magnitudes (h : |base| + (deltas.map abs).sum ≤ maxMinor) :
    Within base deltas := by
  induction deltas generalizing base with
  | nil =>
    rw [List.map_nil, List.sum_nil, add_zero] at h
    exact within_nil.2 h
  | cons delta deltas ih =>
    rw [List.map_cons, List.sum_cons] at h
    have hrest : 0 ≤ (deltas.map abs).sum := by
      refine List.sum_nonneg fun n hn => ?_
      obtain ⟨d, -, rfl⟩ := List.mem_map.1 hn
      exact abs_nonneg d
    have hbase := abs_nonneg base
    have hdelta := abs_nonneg delta
    have hsum := abs_add_le base delta
    refine within_cons.2 ⟨by omega, by omega, ih ?_⟩
    omega

/-! ## Both compute it -/

theorem plugin_addDeltas (htotal : |total| ≤ maxMinor) :
    Engine.Pricing.addDeltas total deltas =
      if Within total deltas then some (total + deltas.sum) else none := by
  induction deltas generalizing total with
  | nil =>
    rw [if_pos (within_nil.2 htotal), List.sum_nil, add_zero]
    rfl
  | cons delta deltas ih =>
    unfold Engine.Pricing.addDeltas
    by_cases hdelta : |delta| ≤ maxMinor
    · rw [inRange_iff.2 hdelta, Bool.not_true, if_neg Bool.false_ne_true,
        floatInRange_add htotal hdelta]
      by_cases hsum : |total + delta| ≤ maxMinor
      · rw [decide_eq_true hsum, Bool.not_true, if_neg Bool.false_ne_true, ih hsum,
          List.sum_cons, add_assoc]
        exact if_congr (by rw [within_cons]; tauto) rfl rfl
      · rw [decide_eq_false hsum, Bool.not_false, if_pos rfl,
          if_neg fun h => hsum (within_cons.1 h).2.2.base_le]
    · rw [inRange_eq, decide_eq_false hdelta, Bool.not_false, if_pos rfl,
        if_neg fun h => hdelta (within_cons.1 h).2.1]

/-- **The plugin computes the specified total.** -/
theorem plugin_sumDeltas (base : ℤ) (deltas : List ℤ) :
    Engine.Pricing.sumDeltas base deltas = lineTotal base deltas := by
  unfold Engine.Pricing.sumDeltas lineTotal
  by_cases hbase : |base| ≤ maxMinor
  · rw [inRange_iff.2 hbase, Bool.not_true, if_neg Bool.false_ne_true, plugin_addDeltas hbase]
    by_cases hwithin : Within base deltas
    · rw [if_pos hwithin, if_pos hwithin, Option.bind_some]
      unfold Engine.Pricing.clampToZero
      rw [inRange_iff.2 hwithin.total_le, Bool.not_true, if_neg Bool.false_ne_true]
      congr 1
      split <;> omega
    · rw [if_neg hwithin, if_neg hwithin]
      rfl
  · rw [inRange_eq, decide_eq_false hbase, Bool.not_false, if_pos rfl,
      if_neg fun h => hbase h.base_le]

theorem isSafeInteger_eq (n : ℤ) : isSafeInteger (.ofInt n) = decide (|n| ≤ maxMinor) :=
  isSafeInteger_ofInt n

theorem cloud_addDeltas (htotal : |total| ≤ maxMinor) :
    addDeltas (.ofInt total) (deltas.map .ofInt) =
      (if Within total deltas then some (total + deltas.sum) else none).map .ofInt := by
  induction deltas generalizing total with
  | nil =>
    rw [if_pos (within_nil.2 htotal), List.sum_nil, add_zero]
    rfl
  | cons delta deltas ih =>
    rw [List.map_cons]
    unfold addDeltas
    by_cases hdelta : |delta| ≤ maxMinor
    · rw [isSafeInteger_eq, decide_eq_true hdelta, Bool.not_true, if_neg Bool.false_ne_true,
        Binary64.add_ofInt (abs_le_of_inRange htotal) (abs_le_of_inRange hdelta), isSafeInteger_eq]
      by_cases hsum : |total + delta| ≤ maxMinor
      · rw [decide_eq_true hsum, Bool.not_true, if_neg Bool.false_ne_true, ih hsum,
          List.sum_cons, add_assoc]
        exact congrArg _ (if_congr (by rw [within_cons]; tauto) rfl rfl)
      · rw [decide_eq_false hsum, Bool.not_false, if_pos rfl,
          if_neg fun h => hsum (within_cons.1 h).2.2.base_le]
        rfl
    · rw [isSafeInteger_eq, decide_eq_false hdelta, Bool.not_false, if_pos rfl,
        if_neg fun h => hdelta (within_cons.1 h).2.1]
      rfl

/-- **So does the cloud.** -/
theorem cloud_sumDeltas (base : ℤ) (deltas : List ℤ) :
    sumDeltas (.ofInt base) (deltas.map .ofInt) = (lineTotal base deltas).map .ofInt := by
  unfold sumDeltas lineTotal
  by_cases hbase : |base| ≤ maxMinor
  · rw [isSafeInteger_eq, decide_eq_true hbase, Bool.not_true, if_neg Bool.false_ne_true,
      cloud_addDeltas hbase]
    by_cases hwithin : Within base deltas
    · have htotal := hwithin.total_le
      rw [if_pos hwithin, if_pos hwithin, Option.map_some, Option.bind_some]
      unfold clampToZero
      rw [isSafeInteger_eq, decide_eq_true htotal, Bool.not_true, if_neg Bool.false_ne_true,
        Binary64.lt_ofInt (abs_le_of_inRange htotal) (by norm_num), Option.map_some]
      by_cases hneg : base + deltas.sum < 0
      · rw [if_pos (decide_eq_true hneg), max_eq_left hneg.le]
      · rw [if_neg (by simpa using hneg), max_eq_right (not_lt.1 hneg)]
    · rw [if_neg hwithin, if_neg hwithin]
      rfl
  · rw [isSafeInteger_eq, decide_eq_false hbase, Bool.not_false, if_pos rfl,
      if_neg fun h => hbase h.base_le]
    rfl

theorem lineTotal_perm (h : |base| + (deltas.map abs).sum ≤ maxMinor) (hperm : deltas'.Perm deltas) :
    lineTotal base deltas' = lineTotal base deltas := by
  have hsum : (deltas'.map abs).sum = (deltas.map abs).sum := (hperm.map abs).sum_eq
  have hwithin' : Within base deltas' := within_of_magnitudes (by rw [hsum]; exact h)
  unfold lineTotal
  rw [if_pos hwithin', if_pos (within_of_magnitudes h), hperm.sum_eq]

/-- **The line total is the specified one in both languages**: both refuse
exactly where an amount or a running total leaves the range, both return the
same total elsewhere, and the order of the deltas is no matter while all their
magnitudes together are in range. -/
theorem sumDeltas_specified (base : ℤ) (deltas : List ℤ) :
    (Engine.Pricing.sumDeltas base deltas =
        if Within base deltas then some (max 0 (base + deltas.sum)) else none) ∧
    (sumDeltas (.ofInt base) (deltas.map .ofInt) =
        if Within base deltas then some (.ofInt (max 0 (base + deltas.sum))) else none) ∧
    (|base| + (deltas.map abs).sum ≤ maxMinor → ∀ deltas' : List ℤ, deltas'.Perm deltas →
      Engine.Pricing.sumDeltas base deltas' = Engine.Pricing.sumDeltas base deltas ∧
      sumDeltas (.ofInt base) (deltas'.map .ofInt) =
        sumDeltas (.ofInt base) (deltas.map .ofInt)) := by
  refine ⟨plugin_sumDeltas base deltas, ?_, fun h deltas' hperm => ⟨?_, ?_⟩⟩
  · rw [cloud_sumDeltas, lineTotal]
    split <;> rfl
  · rw [plugin_sumDeltas, plugin_sumDeltas, lineTotal_perm h hperm]
  · rw [cloud_sumDeltas, cloud_sumDeltas, lineTotal_perm h hperm]

/-- **A discount that goes below zero is clamped once, in either order.** -/
theorem sumDeltas_discount :
    Engine.Pricing.sumDeltas 3000 [-5000, 400] = some 0 ∧
    Engine.Pricing.sumDeltas 3000 [400, -5000] = Engine.Pricing.sumDeltas 3000 [-5000, 400] := by
  obtain ⟨hplugin, -, horder⟩ := sumDeltas_specified 3000 [-5000, 400]
  refine ⟨hplugin.trans (by decide +kernel), ?_⟩
  exact (horder (by decide +kernel) [400, -5000] (List.Perm.swap ..)).1

end Optionia.Cloud
