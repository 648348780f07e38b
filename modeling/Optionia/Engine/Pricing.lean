import Optionia.Php.Value
/-!
# Money arithmetic in the plugin

`Pricing`: sums, percentages and unit prices over integer minor units. Every
operation refuses what leaves the range in which a double is an exact
integer; it throws, which is `none` here.
-/

namespace Optionia.Engine

/-! ## Price types -/

def priceTypeFixed : String := "fixed"

/-- A share of the base price. -/
def priceTypePercentage : String := "percentage"

/-- An amount for each character of the answer. -/
def priceTypePerChar : String := "per_char"

/-- An amount for each unit of the answer. -/
def priceTypePerUnit : String := "per_unit"

/-- An amount for each unit, by how many there are. -/
def priceTypeTiered : String := "tiered"

/-- The types charged on a value. -/
def valuePricedTypes : List String := [priceTypeFixed, priceTypePercentage]

/-- The types charged on an option. -/
def optionPricedTypes : List String := [priceTypePerChar, priceTypePerUnit, priceTypeTiered]

namespace Pricing

def maxMinor : ℤ := 2 ^ 53 - 1

/-- `assert_in_range`, of a float. -/
def floatInRange (x : Binary64) : Bool := x.abs.le (.ofInt maxMinor)

/-- `assert_in_range`, of an integer. -/
def inRange (n : ℤ) : Bool := floatInRange (.ofInt n)

def clampToZero (total : ℤ) : Option ℤ :=
  if !inRange total then none else some (if total < 0 then 0 else total)

/-- The loop of `sum_deltas`. -/
def addDeltas (total : ℤ) : List ℤ → Option ℤ
  | [] => some total
  | delta :: deltas =>
    if !inRange delta then none
    else if !floatInRange ((Binary64.ofInt total).add (.ofInt delta)) then none
    else addDeltas (total + delta) deltas

def sumDeltas (base : ℤ) (deltas : List ℤ) : Option ℤ :=
  if !inRange base then none else (addDeltas base deltas).bind clampToZero

/-- A ten-thousandth, rounded half away from zero. -/
def tenThousandth (numerator : ℤ) : ℤ :=
  let quotient := |numerator| / 10000
  let remainder := |numerator| % 10000
  let rounded := if 10000 ≤ remainder * 2 then quotient + 1 else quotient
  (if numerator < 0 then -1 else 1) * rounded

def percentageOf (base basisPoints : ℤ) : Option ℤ :=
  if !inRange base || !inRange basisPoints then none
  else if !floatInRange ((Binary64.ofInt base).mul (.ofInt basisPoints)) then none
  else some (tenThousandth (base * basisPoints))

/-- A product, rounded half away from zero. -/
def roundedAway (product : Binary64) : ℤ :=
  let magnitude := product.abs
  let whole := Php.Value.truncate magnitude.floor
  let rounded := if (Binary64.ofRat (1 / 2)).le (magnitude.sub (.ofInt whole)) then whole + 1
    else whole
  if product.lt (.ofInt 0) then -rounded else rounded

def perUnitOf (amount : ℤ) (quantity : Binary64) : Option ℤ :=
  if !inRange amount then none
  else if !quantity.isFinite then none
  else if quantity.le (.ofInt 0) then some 0
  else if !floatInRange quantity then none
  else
    let product := quantity.mul (.ofInt amount)
    if !floatInRange product then none else some (roundedAway product)

/-- `assert_multiplication_in_range`. -/
def multiplicationInRange (left right : ℤ) : Bool :=
  inRange left && inRange right && floatInRange ((Binary64.ofInt left).mul (.ofInt right))

/-! ## What the guards admit -/

/-- **The guard on an integer admits the integers of 53 bits**, though it
compares doubles. -/
theorem inRange_iff {n : ℤ} : inRange n = true ↔ |n| ≤ maxMinor := by
  unfold inRange floatInRange maxMinor
  rw [Binary64.abs_le_ofInt (by norm_num) (by norm_num), Binary64.ofInt_within]

theorem inRange_eq {n : ℤ} : inRange n = decide (|n| ≤ maxMinor) := by
  rw [Bool.eq_iff_iff, inRange_iff, decide_eq_true_eq]

theorem abs_le_of_inRange {n : ℤ} (h : |n| ≤ maxMinor) : |n| ≤ 2 ^ 53 := by
  unfold maxMinor at h
  omega

/-- The guard on a product of two admitted integers admits their exact
product. -/
theorem floatInRange_mul {a b : ℤ} (ha : |a| ≤ maxMinor) (hb : |b| ≤ maxMinor) :
    floatInRange ((Binary64.ofInt a).mul (.ofInt b)) = decide (|a * b| ≤ maxMinor) := by
  rw [Binary64.mul_ofInt (abs_le_of_inRange ha) (abs_le_of_inRange hb)]
  exact inRange_eq

theorem floatInRange_add {a b : ℤ} (ha : |a| ≤ maxMinor) (hb : |b| ≤ maxMinor) :
    floatInRange ((Binary64.ofInt a).add (.ofInt b)) = decide (|a + b| ≤ maxMinor) := by
  rw [Binary64.add_ofInt (abs_le_of_inRange ha) (abs_le_of_inRange hb)]
  exact inRange_eq

/-- **What `percentage_of` returns**: it throws exactly where an operand or
the product is out of range. -/
theorem percentageOf_eq {base basisPoints : ℤ} (hbase : |base| ≤ maxMinor) :
    percentageOf base basisPoints =
      if |basisPoints| ≤ maxMinor ∧ |base * basisPoints| ≤ maxMinor then
        some (tenThousandth (base * basisPoints))
      else none := by
  unfold percentageOf
  by_cases hpoints : |basisPoints| ≤ maxMinor
  · have hin : (!inRange base || !inRange basisPoints) = false := by
      rw [inRange_iff.2 hbase, inRange_iff.2 hpoints]
      rfl
    rw [hin, if_neg Bool.false_ne_true, floatInRange_mul hbase hpoints]
    by_cases hproduct : |base * basisPoints| ≤ maxMinor
    · rw [decide_eq_true hproduct, Bool.not_true, if_neg Bool.false_ne_true,
        if_pos ⟨hpoints, hproduct⟩]
    · rw [decide_eq_false hproduct, Bool.not_false, if_pos rfl, if_neg fun h => hproduct h.2]
  · have hout : (!inRange base || !inRange basisPoints) = true := by
      rw [inRange_eq, inRange_eq, decide_eq_false hpoints, Bool.not_false, Bool.or_true]
    rw [hout]
    simp [hpoints]

/-- **`assert_multiplication_in_range` admits two integers whose product is
in range**, and whose operands are. -/
theorem multiplicationInRange_iff {a b : ℤ} :
    multiplicationInRange a b = true ↔
      |a| ≤ maxMinor ∧ |b| ≤ maxMinor ∧ |a * b| ≤ maxMinor := by
  unfold multiplicationInRange
  rw [Bool.and_eq_true, Bool.and_eq_true, inRange_iff, inRange_iff, and_assoc]
  refine and_congr_right fun ha => and_congr_right fun hb => ?_
  rw [floatInRange_mul ha hb, decide_eq_true_eq]

/-! ## Totals -/

/-- **A sum of deltas that returns is the sum.** -/
theorem addDeltas_eq_some {total n : ℤ} {deltas : List ℤ} (h : addDeltas total deltas = some n) :
    n = total + deltas.sum := by
  induction deltas generalizing total with
  | nil =>
    obtain rfl := Option.some.inj h
    rw [List.sum_nil, add_zero]
  | cons delta deltas ih =>
    unfold addDeltas at h
    split_ifs at h
    rw [ih h, List.sum_cons]
    omega

/-- **A total is the base and its deltas, and never below zero.** -/
theorem sumDeltas_eq_some {base n : ℤ} {deltas : List ℤ} (h : sumDeltas base deltas = some n) :
    n = max 0 (base + deltas.sum) := by
  unfold sumDeltas at h
  split at h
  · simp at h
  obtain ⟨total, hadd, hclamp⟩ := Option.bind_eq_some_iff.1 h
  rw [← addDeltas_eq_some hadd]
  unfold clampToZero at hclamp
  split at hclamp
  · simp at hclamp
  obtain rfl := Option.some.inj hclamp
  split <;> omega

end Pricing

end Optionia.Engine
