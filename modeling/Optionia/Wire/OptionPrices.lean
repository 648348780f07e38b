import Optionia.Wire.Prices
/-!
# An option's price, by its characters and by its quantity

`per_char_delta` and `per_unit_delta` in both languages, as outcomes of one
published price. Characters are counted alike; a quantity is the number an
answer writes.
-/

namespace Optionia.Wire

open Engine (Pricing.maxMinor)
open Engine.Pricing

/-! ## By characters -/

/-- The characters charged for, as the cloud counts them. -/
def charged (es : List (String × Js.Value)) (count : ℕ) : ℤ :=
  count - Cloud.freeCharacters (.obj es)

/-- The price of the characters is out of range. -/
def Overlong (es : List (String × Js.Value)) (count : ℕ) : Prop :=
  ∃ amount, carriedSafe es "amount_minor" = some amount ∧ 0 < charged es count ∧
    maxMinor < |charged es count * amount|

/-- The cloud finds the price in range, and an allowance beyond the range,
which only the plugin grants, changes nothing. -/
def CharsAlike (es : List (String × Js.Value)) (count : ℕ) : Prop :=
  ¬ Overlong es count ∧
    ∀ amount free, carriedSafe es "amount_minor" = some amount →
      carried es "free_characters" = some free → maxMinor < free → (count : ℤ) * amount = 0

/-- What the cloud charges for a count of characters, as an outcome. -/
def charsOutcome (es : List (String × Js.Value)) (count : ℕ) : Option ℤ :=
  match carriedSafe es "amount_minor" with
  | none => some 0
  | some amount =>
    if charged es count ≤ 0 then some 0
    else if |charged es count * amount| ≤ maxMinor then some (charged es count * amount)
    else none

theorem freeCharacters_nonneg (v : Js.Value) : 0 ≤ Cloud.freeCharacters v := by
  unfold Cloud.freeCharacters
  split
  · split <;> omega
  · exact le_rfl

variable {es : List (String × Js.Value)} {count : ℕ} {answer : String} {quantity : Binary64}

theorem abs_le_of_charged (h : 0 < charged es count) (hcount : (count : ℤ) ≤ maxMinor) :
    |charged es count| ≤ maxMinor := by
  have hfree := freeCharacters_nonneg (.obj es)
  rw [abs_of_pos h]
  unfold charged
  omega

/-- **The cloud's price by characters.** -/
theorem perCharDelta_obj (es : List (String × Js.Value)) (hcount : (count : ℤ) ≤ maxMinor) :
    Cloud.perCharDelta (.obj es) count = cloudResult (typeNamed es) (charsOutcome es count) := by
  unfold Cloud.perCharDelta charsOutcome
  rw [safeInteger?_field]
  cases hamount : carriedSafe es "amount_minor" with
  | none => rfl
  | some amount =>
    change (if charged es count ≤ 0 then Cloud.free else _) = _
    dsimp only
    by_cases hcharged : charged es count ≤ 0
    · rw [if_pos hcharged, if_pos hcharged]
      rfl
    rw [if_neg hcharged, if_neg hcharged]
    have hsafe := (carriedSafe_eq_some.1 hamount).2
    have hproduct : (Binary64.ofInt (charged es count)).mul (.ofInt amount) =
        .ofInt (charged es count * amount) :=
      Binary64.mul_ofInt (abs_le_of_inRange (abs_le_of_charged (not_le.1 hcharged) hcount))
        (abs_le_of_inRange hsafe)
    change (if !Js.isSafeInteger ((Binary64.ofInt (charged es count)).mul (.ofInt amount)) then _
      else Cloud.PriceConfigDelta.mk ((Binary64.ofInt (charged es count)).mul (.ofInt amount)) none) = _
    have hint : Js.isSafeInteger (.ofInt (charged es count * amount)) =
        decide (|charged es count * amount| ≤ maxMinor) := Js.isSafeInteger_ofInt _
    rw [hproduct, hint]
    by_cases hrange : |charged es count * amount| ≤ maxMinor
    · rw [decide_eq_true hrange, if_neg (by decide : ¬ (!true) = true), if_pos hrange]
      rfl
    · rw [decide_eq_false hrange, if_pos (by decide : (!false) = true), if_neg hrange]
      rfl

theorem freeCharacters_published (es : List (String × Js.Value)) :
    Engine.freeCharacters (published (.obj es)) =
      match carried es "free_characters" with
      | some n => if 0 < n then n else 0
      | none => 0 := rfl

/-- **The allowances differ only beyond the range**: there the cloud grants
none. -/
theorem freeCharacters_cases (es : List (String × Js.Value)) :
    (Engine.freeCharacters (published (.obj es)) = Cloud.freeCharacters (.obj es) ∧
        ∀ free, carried es "free_characters" = some free → free ≤ maxMinor) ∨
      ∃ free, carried es "free_characters" = some free ∧ maxMinor < free ∧
        Engine.freeCharacters (published (.obj es)) = free ∧
        Cloud.freeCharacters (.obj es) = 0 := by
  rw [freeCharacters_published]
  unfold Cloud.freeCharacters
  rw [safeInteger?_field]
  unfold carriedSafe
  cases carried es "free_characters" with
  | none => exact Or.inl ⟨rfl, fun _ h => absurd h.symm (Option.some_ne_none _)⟩
  | some free =>
    have hpos : (0 : ℤ) ≤ maxMinor := by
      unfold maxMinor
      norm_num
    by_cases hsafe : |free| ≤ maxMinor
    · refine Or.inl ⟨by simp [Option.filter, hsafe], fun n hn => ?_⟩
      obtain rfl := Option.some.inj hn
      exact (le_abs_self free).trans hsafe
    · have hfilter : (some free).filter (fun n => decide (|n| ≤ maxMinor)) = none := by
        simp [Option.filter, hsafe]
      rw [hfilter]
      dsimp only
      by_cases hlarge : maxMinor < free
      · exact Or.inr ⟨free, rfl, hlarge, if_pos (hpos.trans_lt hlarge), rfl⟩
      · have hneg : ¬ 0 < free := by
          intro h
          rw [abs_of_pos h] at hsafe
          exact hsafe (not_lt.1 hlarge)
        refine Or.inl ⟨if_neg hneg, fun n hn => ?_⟩
        obtain rfl := Option.some.inj hn
        exact not_lt.1 hlarge

/-- **The characters cost the same exactly where the price is in range** and
no allowance is beyond it. -/
theorem charsOutcome_eq_iff (es : List (String × Js.Value)) (hcount : (count : ℤ) ≤ maxMinor) :
    some (Engine.perCharDelta (published (.obj es)) count) = charsOutcome es count ↔
      CharsAlike es count := by
  have hfield : ((published (.obj es)).field "amount_minor").int? = carried es "amount_minor" := rfl
  unfold Engine.perCharDelta CharsAlike Overlong charsOutcome
  rw [hfield]
  cases hcarried : carried es "amount_minor" with
  | none =>
    have hnone : carriedSafe es "amount_minor" = none := carriedSafe_of_none hcarried
    simp [hnone]
  | some amount =>
    dsimp only
    by_cases hsafe : |amount| ≤ maxMinor
    · rw [carriedSafe_eq_some.2 ⟨hcarried, hsafe⟩]
      simp only [Option.some.injEq, exists_eq_left']
      rcases freeCharacters_cases es with ⟨hfree, hwithin⟩ | ⟨free, hfree, hbeyond, hplugin, hcloud⟩
      · rw [hfree]
        change (some (if charged es count ≤ 0 then 0 else
          if !multiplicationInRange (charged es count) amount then 0
          else charged es count * amount) = _) ↔ _
        have hvacuous : ∀ amount' free, amount = amount' → carried es "free_characters" = some free →
            maxMinor < free → (count : ℤ) * amount' = 0 :=
          fun _ free _ h h' => absurd (hwithin free h) (not_le.2 h')
        by_cases hcharged : charged es count ≤ 0
        · rw [if_pos hcharged, if_pos hcharged]
          exact ⟨fun _ => ⟨fun h => absurd h.1 (not_lt.2 hcharged), hvacuous⟩, fun _ => rfl⟩
        · have hc := abs_le_of_charged (not_le.1 hcharged) hcount
          rw [if_neg hcharged, if_neg hcharged]
          by_cases hrange : |charged es count * amount| ≤ maxMinor
          · rw [multiplicationInRange_iff.2 ⟨hc, hsafe, hrange⟩, if_pos hrange]
            exact ⟨fun _ => ⟨fun h => absurd h.2 (not_lt.2 hrange), hvacuous⟩, fun _ => rfl⟩
          · rw [if_neg hrange]
            exact ⟨fun h => absurd h (Option.some_ne_none _),
              fun h => absurd ⟨not_le.1 hcharged, not_le.1 hrange⟩ h.1⟩
      · have hcount' : charged es count = count := by
          unfold charged
          rw [hcloud, sub_zero]
        have hnone : (count : ℤ) - free ≤ 0 := by omega
        rw [hplugin, if_pos hnone, hcount']
        by_cases hzero : (count : ℤ) ≤ 0
        · have hc0 : (count : ℤ) = 0 := by omega
          rw [if_pos hzero, hc0]
          simp
        · rw [if_neg hzero]
          by_cases hrange : |(count : ℤ) * amount| ≤ maxMinor
          · rw [if_pos hrange, Option.some.injEq]
            constructor
            · intro h
              refine ⟨fun h' => absurd h'.2 (not_lt.2 hrange), ?_⟩
              rintro _ _ rfl - -
              exact h.symm
            · rintro ⟨-, h⟩
              exact (h amount free rfl hfree hbeyond).symm
          · rw [if_neg hrange]
            exact ⟨fun h => absurd h (Option.some_ne_none _),
              fun h => absurd ⟨not_le.1 hzero, not_le.1 hrange⟩ h.1⟩
    · have hnone : carriedSafe es "amount_minor" = none := carriedSafe_of_beyond hcarried hsafe
      have hrange : ∀ n, multiplicationInRange n amount = false := by
        intro n
        rw [Bool.eq_false_iff]
        exact fun h => hsafe (multiplicationInRange_iff.1 h).2.1
      simp [hnone, hrange]

theorem exact_charsOutcome (es : List (String × Js.Value)) (count : ℕ) :
    Exact (charsOutcome es count) := by
  unfold charsOutcome
  split
  · exact exact_zero
  · split
    · exact exact_zero
    · split
      · next h =>
        intro delta hdelta
        obtain rfl := Option.some.inj hdelta
        exact abs_le_of_inRange h
      · exact exact_none

/-- **The cloud reports the characters exactly where they are overlong.** -/
theorem charsOutcome_eq_none_iff (es : List (String × Js.Value)) (count : ℕ) :
    charsOutcome es count = none ↔ Overlong es count := by
  unfold charsOutcome Overlong
  cases carriedSafe es "amount_minor" with
  | none => simp
  | some amount =>
    simp only [Option.some.injEq, exists_eq_left']
    split_ifs with h1 h2
    · exact ⟨False.elim, fun h => absurd h.1 (not_lt.2 h1)⟩
    · exact ⟨False.elim, fun h => absurd h.2 (not_lt.2 h2)⟩
    · exact ⟨fun _ => ⟨not_le.1 h1, not_le.1 h2⟩, fun _ => rfl⟩

/-! ## By quantity -/

/-- An amount that both languages charge for any quantity but one beyond. -/
def UnitAlike (es : List (String × Js.Value)) (quantity : Binary64) : Prop :=
  ∀ amount, carried es "amount_minor" = some amount → |amount| ≤ maxMinor ∧ quantity.isFinite = true

/-- The cloud reports the quantity: it is beyond what the amount is charged
for. -/
def Overcharged (amount? : Option ℤ) (quantity : Binary64) : Prop :=
  ∃ amount, amount? = some amount ∧ quantity.isFinite = true ∧ Beyond amount quantity

/-- **The cloud's unit price.** -/
theorem perUnitDelta_cloud {pricing : Js.Value} {amount : ℤ} {x : Binary64.Finite}
    (hamount : (pricing.field "amount_minor").safeInteger? = some amount)
    (hsafe : |amount| ≤ maxMinor) (hanswer : Cloud.plainNumber answer = some (.finite x)) :
    Cloud.perUnitDelta pricing answer =
      cloudResult (pricing.string "type") (charge amount (.finite x)) := by
  obtain ⟨z, hz, hz0⟩ := Binary64.exists_ofInt_eq (n := 0) (by norm_num)
  have hquantity : Cloud.absoluteMaxQuantity = .ofInt Engine.absoluteMaxQuantity := rfl
  unfold Cloud.perUnitDelta
  rw [hamount, hanswer, charge_eq hsafe]
  dsimp only
  rw [hquantity]
  by_cases hzero : (Binary64.finite x).le (.ofInt 0) = true
  · have hwithin : (Binary64.ofInt Engine.absoluteMaxQuantity).lt (.finite x) = false := by
      obtain ⟨w, hw, hval⟩ := Binary64.exists_ofInt_eq (n := Engine.absoluteMaxQuantity)
        (by unfold Engine.absoluteMaxQuantity; norm_num)
      rw [hz, Binary64.le, decide_eq_true_eq, hz0] at hzero
      rw [hw, Binary64.lt, decide_eq_false_iff_not, hval, not_lt]
      refine hzero.trans ?_
      unfold Engine.absoluteMaxQuantity
      norm_num
    rw [hzero, hwithin, if_pos (show (!(Binary64.finite x).isFinite || true) = true from rfl),
      if_neg Bool.false_ne_true, if_pos rfl]
    rfl
  have hpos : ¬ x.val ≤ 0 := by
    rw [hz, Binary64.le, decide_eq_true_eq, hz0, Int.cast_zero] at hzero
    exact hzero
  rw [Bool.not_eq_true] at hzero
  rw [hzero, if_neg (show ¬ (!(Binary64.finite x).isFinite || false) = true from
    Bool.false_ne_true)]
  by_cases hmax : (Binary64.ofInt Engine.absoluteMaxQuantity).lt (.finite x) = true
  · rw [if_pos hmax, if_pos hmax]
    rfl
  rw [if_neg hmax, if_neg hmax, if_neg Bool.false_ne_true]
  have htrunc : Js.isSafeInteger (Binary64.finite x).trunc = true := by
    rw [Js.isSafeInteger_trunc]
    exact floatInRange_of_within hpos (Bool.not_eq_true _ ▸ hmax)
  have hproduct : Js.isSafeInteger ((Binary64.finite x).mul (.ofInt amount)).trunc =
      floatInRange ((Binary64.finite x).mul (.ofInt amount)) := Js.isSafeInteger_trunc _
  rw [htrunc, hproduct, if_neg (by decide : ¬ (!true) = true)]
  cases hrange : floatInRange ((Binary64.finite x).mul (.ofInt amount)) with
  | false => rfl
  | true =>
    rw [if_neg (by decide : ¬ (!true) = true), if_pos rfl, (roundedAway_cloud hrange).1]
    rfl

theorem charge_inf (amount : ℤ) (s : Bool) : charge amount (.inf s) = none := by
  unfold charge
  split
  · rfl
  · unfold perUnitOf
    split
    · rfl
    · rfl

theorem perUnitDelta_plugin {pricing : Php.Value} (htype : pricing.text "type" ≠ "")
    (hanswer : Engine.parseNumber answer = some quantity) : Engine.perUnitDelta pricing answer [] =
      match (pricing.field "amount_minor").int? with
      | none => (0, [])
      | some amount => pluginResult (pricing.text "type") (charge amount quantity) := by
  unfold Engine.perUnitDelta
  rw [hanswer, collectNamed_nil htype]
  cases (pricing.field "amount_minor").int? with
  | none => rfl
  | some amount =>
    dsimp only
    unfold charge
    split
    · rfl
    · cases perUnitOf amount quantity <;> rfl

theorem plainNumber_cases (h : Cloud.plainNumber answer = some quantity) :
    (∃ x, quantity = .finite x) ∨ ∃ s, quantity = .inf s := by
  cases quantity with
  | finite x => exact Or.inl ⟨x, rfl⟩
  | inf s => exact Or.inr ⟨s, rfl⟩
  | nan =>
    unfold Cloud.plainNumber at h
    rw [Option.map_eq_some_iff] at h
    obtain ⟨q, -, hq⟩ := h
    unfold Binary64.ofRat at hq
    split at hq <;> cases hq

/-- What the cloud charges for an answer's quantity, as an outcome. -/
def unitOutcome (es : List (String × Js.Value)) (answer : String) : Option ℤ :=
  match carriedSafe es "amount_minor", Cloud.plainNumber answer with
  | some amount, some (.finite x) => charge amount (.finite x)
  | _, _ => some 0

/-- **The cloud's price by quantity.** -/
theorem perUnitDelta_obj (es : List (String × Js.Value)) (answer : String) :
    Cloud.perUnitDelta (.obj es) answer =
      cloudResult (typeNamed es) (unitOutcome es answer) := by
  unfold unitOutcome
  cases hamount : carriedSafe es "amount_minor" with
  | none =>
    unfold Cloud.perUnitDelta
    rw [safeInteger?_field, hamount]
    rfl
  | some amount =>
    have hread : ((Js.Value.obj es).field "amount_minor").safeInteger? = some amount :=
      (safeInteger?_field es _).trans hamount
    cases hanswer : Cloud.plainNumber answer with
    | none =>
      unfold Cloud.perUnitDelta
      rw [hread, hanswer]
      rfl
    | some quantity =>
      rcases plainNumber_cases hanswer with ⟨x, rfl⟩ | ⟨negative, rfl⟩
      · exact perUnitDelta_cloud hread (carriedSafe_eq_some.1 hamount).2 hanswer
      · unfold Cloud.perUnitDelta
        rw [hread, hanswer]
        rfl

theorem exact_unitOutcome (es : List (String × Js.Value)) (answer : String) :
    Exact (unitOutcome es answer) := by
  unfold unitOutcome
  split
  · next amount x hamount _ =>
    exact fun delta hdelta => abs_le_of_charge (carriedSafe_eq_some.1 hamount).2 hdelta
  · exact exact_zero

/-- **The cloud reports exactly the finite quantities beyond** what it reads
an amount for. -/
theorem unitOutcome_eq_none_iff (es : List (String × Js.Value)) (answer : String) :
    unitOutcome es answer = none ↔
      ∃ quantity, Cloud.plainNumber answer = some quantity ∧
        Overcharged (carriedSafe es "amount_minor") quantity := by
  unfold unitOutcome Overcharged
  constructor
  · intro h
    split at h
    · next amount x hamount hanswer =>
      exact ⟨.finite x, hanswer, amount, hamount, rfl,
        (charge_eq_none_iff (carriedSafe_eq_some.1 hamount).2).1 h⟩
    · simp at h
  · rintro ⟨quantity, hanswer, amount, hamount, hfinite, hbeyond⟩
    obtain ⟨x, rfl⟩ := Binary64.isFinite_iff.1 hfinite
    rw [hamount, hanswer]
    exact (charge_eq_none_iff (carriedSafe_eq_some.1 hamount).2).2 hbeyond

/-- **A quantity costs the same exactly where its amount is safe and it is
finite.** -/
theorem unit_agrees_iff (htype : typeRead es = typeNamed es) (hne : typeNamed es ≠ "")
    (hparse : Engine.parseNumber answer = Cloud.plainNumber answer) :
    SamePrice (Engine.perUnitDelta (published (.obj es)) answer [])
        (Cloud.perUnitDelta (.obj es) answer) ↔
      ∀ quantity, Cloud.plainNumber answer = some quantity → UnitAlike es quantity := by
  rw [perUnitDelta_obj]
  cases hanswer : Cloud.plainNumber answer with
  | none =>
    have hplugin : Engine.perUnitDelta (published (.obj es)) answer [] =
        pluginResult (typeNamed es) (some 0) := by
      unfold Engine.perUnitDelta
      rw [hparse, hanswer]
      cases ((published (.obj es)).field "amount_minor").int? <;> rfl
    have hcloud : unitOutcome es answer = some 0 := by
      unfold unitOutcome
      rw [hanswer]
      cases carriedSafe es "amount_minor" <;> rfl
    rw [hplugin, hcloud, samePrice_iff exact_zero]
    exact ⟨fun _ _ h => absurd h.symm (Option.some_ne_none _), fun _ => rfl⟩
  | some quantity =>
    have hone : (∀ q, some quantity = some q → UnitAlike es q) ↔ UnitAlike es quantity :=
      ⟨fun h => h quantity rfl, fun h q hq => Option.some.inj hq ▸ h⟩
    have hplugin : Engine.perUnitDelta (published (.obj es)) answer [] =
        match carried es "amount_minor" with
        | none => (0, [])
        | some amount => pluginResult (typeRead es) (charge amount quantity) :=
      perUnitDelta_plugin (fun h => hne (htype.symm.trans h))
        (hparse.trans hanswer)
    rw [hone, hplugin, htype]
    unfold UnitAlike unitOutcome
    rw [hanswer]
    cases hcarried : carried es "amount_minor" with
    | none =>
      have hnone : carriedSafe es "amount_minor" = none := carriedSafe_of_none hcarried
      rw [hnone]
      change SamePrice (pluginResult (typeNamed es) (some 0)) (cloudResult _ (some 0)) ↔ _
      rw [samePrice_iff exact_zero]
      exact ⟨fun _ _ h => absurd h.symm (Option.some_ne_none _), fun _ => rfl⟩
    | some amount =>
      have hreads : (∀ n, some amount = some n → |n| ≤ maxMinor ∧ quantity.isFinite = true) ↔
          |amount| ≤ maxMinor ∧ quantity.isFinite = true :=
        ⟨fun h => h amount rfl, fun h n hn => Option.some.inj hn ▸ h⟩
      rw [hreads]
      dsimp only
      by_cases hsafe : |amount| ≤ maxMinor
      · rw [carriedSafe_eq_some.2 ⟨hcarried, hsafe⟩]
        rcases plainNumber_cases hanswer with ⟨x, rfl⟩ | ⟨negative, rfl⟩
        · have hexact : Exact (charge amount (.finite x)) :=
            fun delta hdelta => abs_le_of_charge hsafe hdelta
          exact (samePrice_iff hexact).trans ⟨fun _ => ⟨hsafe, rfl⟩, fun _ => rfl⟩
        · rw [charge_inf]
          refine (samePrice_iff exact_zero).trans ⟨fun h => ?_, fun h => ?_⟩
          · simp at h
          · exact absurd h.2 Bool.false_ne_true
      · have hnone : carriedSafe es "amount_minor" = none := carriedSafe_of_beyond hcarried hsafe
        rw [hnone, charge_of_beyond hsafe]
        refine (samePrice_iff exact_zero).trans ⟨fun h => ?_, fun h => absurd h.1 hsafe⟩
        simp at h

end Optionia.Wire
