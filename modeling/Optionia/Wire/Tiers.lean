import Optionia.Wire.OptionPrices
import Mathlib.Data.List.MinMax
/-!
# An option's price, by tiers

`tiered_delta` in both languages. The plugin and the cloud choose a tier by
one rule, each among the tiers it reads, and charge the quantity by it.
-/

namespace Optionia.Wire

open Engine (Pricing.maxMinor)
open Engine.Pricing

/-! ## Reading tiers

A tier is read where its two numbers are integers; the plugin reads any the
machine holds and the cloud the safe ones. Either charges by the highest tier
the quantity reaches. -/

/-- A tier as the plugin reads it: where it starts, and its amount. -/
def tierRead (tier : Php.Value) : Option (ℤ × ℤ) :=
  match (tier.field "min_quantity").int?, (tier.field "amount_minor").int? with
  | some min, some amount => some (min, amount)
  | _, _ => none

/-- Both numbers of a tier are safe integers. -/
def tierSafe (tier : ℤ × ℤ) : Bool := decide (|tier.1| ≤ maxMinor ∧ |tier.2| ≤ maxMinor)

/-- The tiers of a list that a quantity reaches. -/
def reachedOf (tiers : List Php.Value) (quantity : Binary64) : List (ℤ × ℤ) :=
  (tiers.filterMap tierRead).filter fun tier => !quantity.lt (.ofInt tier.1)

/-- The tiers of a published price that a quantity reaches. -/
def reached (es : List (String × Js.Value)) (quantity : Binary64) : List (ℤ × ℤ) :=
  reachedOf (published ((Js.Value.obj es).field "tiers")).items quantity

/-- The same, as the cloud reads them: the safe ones of an array. -/
def reachedSafe (es : List (String × Js.Value)) (quantity : Binary64) : List (ℤ × ℤ) :=
  match (Js.Value.obj es).field "tiers" with
  | .arr _ => (reached es quantity).filter tierSafe
  | _ => []

/-- Keeping the tier chosen so far, or the next. -/
def higher : Option (ℤ × ℤ) → ℤ × ℤ → Option (ℤ × ℤ) :=
  List.argAux fun next best => best.1 < next.1

/-- The highest of the tiers, the first among equals. -/
def highest (tiers : List (ℤ × ℤ)) : Option (ℤ × ℤ) := tiers.foldl higher none

variable {tiers : List (ℤ × ℤ)} {tier : ℤ × ℤ} {es : List (String × Js.Value)} {quantity : Binary64}
  {x : Binary64.Finite} {answer : String}

theorem mem_of_highest (h : highest tiers = some tier) :
    tier ∈ tiers := @List.argmax_mem _ _ _ _ Prod.fst _ _ h

theorem le_of_highest {other : ℤ × ℤ} (h : highest tiers = some tier) (hother : other ∈ tiers) :
    other.1 ≤ tier.1 :=
  @List.le_of_mem_argmax _ _ _ Prod.fst _ _ _ hother h

theorem highest_concat (tiers : List (ℤ × ℤ)) (next : ℤ × ℤ) :
    highest (tiers ++ [next]) = higher (highest tiers) next := by
  unfold highest
  rw [List.foldl_append, List.foldl_cons, List.foldl_nil]

theorem higher_some (best next : ℤ × ℤ) :
    higher (some best) next = if best.1 < next.1 then some next else some best := rfl

theorem foldl_chooseTier (tiers : List Php.Value) (quantity : Binary64) (best : Option (ℤ × ℤ)) :
    tiers.foldl (Engine.chooseTier quantity) best = (reachedOf tiers quantity).foldl higher best := by
  unfold reachedOf
  induction tiers generalizing best with
  | nil => rfl
  | cons tier tiers ih =>
    rw [List.foldl_cons, ih, List.filterMap_cons]
    unfold Engine.chooseTier tierRead
    cases (tier.field "min_quantity").int? with
    | none => rfl
    | some min =>
      cases (tier.field "amount_minor").int? with
      | none => rfl
      | some amount =>
        dsimp only
        rw [List.filter_cons]
        cases hreached : quantity.lt (.ofInt min) with
        | true => rfl
        | false =>
          rw [if_pos (show (!false) = true from rfl), List.foldl_cons]
          cases best <;> rfl

/-- **The plugin charges by the highest tier reached.** -/
theorem tierAmount_plugin (es : List (String × Js.Value)) (quantity : Binary64) :
    Engine.tierAmount ((published (.obj es)).field "tiers") quantity =
      (highest (reached es quantity)).map Prod.snd := by
  unfold Engine.tierAmount
  rw [field_published, foldl_chooseTier]
  rfl

theorem lookup_ofList {vs : List Php.Value} {k : String} (hk : ∀ n : ℕ, toString n ≠ k) :
    (Php.Value.ofList vs).field k = .null := by
  have hnone : ∀ i : ℕ, (vs.mapIdx fun j v => (toString (i + j), v)).lookup k = none := by
    induction vs with
    | nil => exact fun _ => rfl
    | cons v vs ih =>
      intro i
      rw [List.mapIdx_cons, List.lookup_cons]
      have hne : (k == toString (i + 0)) = false := by
        rw [beq_eq_false_iff_ne]
        exact fun h => hk _ h.symm
      rw [hne]
      have hrest := ih (i + 1)
      simpa only [Nat.add_right_comm, Nat.add_assoc, Nat.add_comm 1] using hrest
  have hzero := hnone 0
  simp only [Nat.zero_add] at hzero
  change ((vs.mapIdx fun i v => (toString i, v)).lookup k).getD .null = _
  rw [hzero]
  rfl

theorem toString_ne_word {k : String} (hk : ∃ c ∈ k.toList, c.isDigit = false) (n : ℕ) :
    toString n ≠ k := by
  rintro rfl
  obtain ⟨c, hc, hdigit⟩ := hk
  rw [Nat.toString_eq_repr, Nat.toList_repr] at hc
  exact absurd (Nat.isDigit_of_mem_toDigits (by decide) (by decide) hc)
    (Bool.eq_false_iff.1 hdigit)

/-- **A member named by a word reads as the published member**, of any
published value. -/
theorem field_published_word {k : String} (hk : ∃ c ∈ k.toList, c.isDigit = false)
    (v : Js.Value) : (published v).field k = published (v.field k) := by
  cases v with
  | obj es => exact field_published es k
  | arr vs => exact lookup_ofList (toString_ne_word hk)
  | num x =>
    cases x with
    | finite v =>
      change (publishedNumber (.finite v)).field k = .null
      unfold publishedNumber
      dsimp only
      split
      · rcases Php.Value.ofNumber_cases v.val.num with h | h <;> rw [h] <;> rfl
      · rfl
    | inf s => rfl
    | nan => rfl
  | _ => rfl

theorem chooseTier_cloud (quantity : Binary64) (best : Option (ℤ × ℤ)) (tier : Js.Value) :
    Cloud.chooseTier quantity best tier =
      (((tierRead (published tier)).filter fun t => !quantity.lt (.ofInt t.1)).filter tierSafe).elim
        best (higher best) := by
  have hmin : ∃ c ∈ "min_quantity".toList, c.isDigit = false := ⟨'m', by decide, by decide⟩
  have hamount : ∃ c ∈ "amount_minor".toList, c.isDigit = false := ⟨'m', by decide, by decide⟩
  unfold Cloud.chooseTier tierRead
  rw [safeInteger?_eq, safeInteger?_eq, ← field_published_word hmin, ← field_published_word hamount]
  cases ((published tier).field "min_quantity").int? with
  | none => rfl
  | some min =>
    cases ((published tier).field "amount_minor").int? with
    | none =>
      by_cases hsafe : |min| ≤ maxMinor <;> simp [Option.filter, hsafe]
    | some amount =>
      unfold tierSafe
      by_cases hsafe : |min| ≤ maxMinor <;> by_cases hsafe' : |amount| ≤ maxMinor <;>
        cases hreached : quantity.lt (.ofInt min) <;> cases best <;>
        simp [Option.filter, hsafe, hsafe', hreached, higher, List.argAux]

theorem foldl_chooseTier_cloud (tiers : List Js.Value) (quantity : Binary64)
    (best : Option (ℤ × ℤ)) :
    tiers.foldl (Cloud.chooseTier quantity) best =
      ((reachedOf (tiers.map published) quantity).filter tierSafe).foldl higher best := by
  unfold reachedOf
  induction tiers generalizing best with
  | nil => rfl
  | cons tier tiers ih =>
    rw [List.foldl_cons, ih, chooseTier_cloud, List.map_cons, List.filterMap_cons]
    cases tierRead (published tier) with
    | none => rfl
    | some t =>
      dsimp only
      rw [List.filter_cons, Option.filter_some]
      split
      · rw [List.filter_cons, Option.filter_some]
        split
        · rfl
        · rfl
      · rfl

/-- **The cloud charges by the highest safe tier reached.** -/
theorem tierAmount_cloud (es : List (String × Js.Value)) (quantity : Binary64) :
    Cloud.tierAmount ((Js.Value.obj es).field "tiers") quantity =
      (highest (reachedSafe es quantity)).map Prod.snd := by
  unfold Cloud.tierAmount reachedSafe reached
  cases (Js.Value.obj es).field "tiers" with
  | arr vs =>
    change ((vs.foldl (Cloud.chooseTier quantity) none).map Prod.snd) = _
    rw [foldl_chooseTier_cloud]
    dsimp only
    rw [items_published_arr]
    rfl
  | _ => rfl

/-! ## The highest tier -/

/-- **The highest tier is the highest of those kept**, where it is kept. -/
theorem highest_filter {keep : ℤ × ℤ → Bool} (h : highest tiers = some tier)
    (hkeep : keep tier = true) : highest (tiers.filter keep) = some tier := by
  induction tiers using List.reverseRecOn generalizing tier with
  | nil => exact absurd h.symm (Option.some_ne_none tier)
  | append_singleton tiers next ih =>
    rw [highest_concat] at h
    rw [List.filter_append]
    cases hbest : highest tiers with
    | none =>
      -- Only an empty list has no highest tier.
      have hempty : tiers = [] := List.argmax_eq_none.1 hbest
      rw [hbest] at h
      obtain rfl := Option.some.inj h
      rw [hempty, List.filter_nil, List.filter_cons, if_pos hkeep]
      rfl
    | some best =>
      rw [hbest, higher_some] at h
      by_cases hlt : best.1 < next.1
      · -- The last is higher than all before it, kept or not.
        rw [if_pos hlt] at h
        obtain rfl := Option.some.inj h
        rw [List.filter_cons, if_pos hkeep, List.filter_nil, highest_concat]
        cases hkept : highest (tiers.filter keep) with
        | none => rfl
        | some kept =>
          have hmem := (List.mem_filter.1 (mem_of_highest hkept)).1
          exact if_pos ((le_of_highest hbest hmem).trans_lt hlt)
      · rw [if_neg hlt] at h
        obtain rfl := Option.some.inj h
        have hkept := ih hbest hkeep
        cases hnext : keep next with
        | true =>
          rw [List.filter_cons, if_pos hnext, List.filter_nil, highest_concat, hkept]
          exact if_neg hlt
        | false =>
          rw [List.filter_cons, if_neg (Bool.eq_false_iff.1 hnext), List.filter_nil,
            List.append_nil, hkept]

/-- What a finite quantity costs by the tier chosen for it. -/
def tierOutcome (tier : Option (ℤ × ℤ)) (x : Binary64.Finite) : Option ℤ :=
  match tier with
  | none => if 0 < x.val then none else some 0
  | some (_, amount) => charge amount (.finite x)

/-- A tier that is not charged for a quantity, or none. -/
def Uncharged (tier : Option (ℤ × ℤ)) (quantity : Binary64) : Prop :=
  ∀ min amount, tier = some (min, amount) → |amount| ≤ maxMinor → Beyond amount quantity

/-- Both charge by one tier, or neither charges; and a quantity that is not
positive costs nothing in the plugin either, unless its tier's amount is out
of range. -/
def TierAlike (es : List (String × Js.Value)) : Binary64 → Prop
  | .finite x =>
    if 0 < x.val then
      highest (reached es (.finite x)) = highest (reachedSafe es (.finite x)) ∨
        Uncharged (highest (reached es (.finite x))) (.finite x) ∧
          Uncharged (highest (reachedSafe es (.finite x))) (.finite x)
    else ∀ min amount, highest (reached es (.finite x)) = some (min, amount) → |amount| ≤ maxMinor
  | .inf negative => negative = true
  | .nan => True

/-- The cloud reports a positive quantity. -/
def Untiered (es : List (String × Js.Value)) (quantity : Binary64) : Prop :=
  ∃ x, quantity = .finite x ∧ 0 < x.val ∧ Uncharged (highest (reachedSafe es quantity)) quantity

theorem safe_of_highest (h : highest (reachedSafe es quantity) = some tier) :
    |tier.1| ≤ maxMinor ∧ |tier.2| ≤ maxMinor ∧ tier ∈ reached es quantity ∧
      reachedSafe es quantity = (reached es quantity).filter tierSafe := by
  have hmem := mem_of_highest h
  have hfilter : reachedSafe es quantity = (reached es quantity).filter tierSafe := by
    unfold reachedSafe at hmem ⊢
    split
    · rfl
    · next hother =>
      split at hmem
      · next vs htiers => exact absurd htiers (hother vs)
      · simp at hmem
  rw [hfilter, List.mem_filter] at hmem
  have hsafe : |tier.1| ≤ maxMinor ∧ |tier.2| ≤ maxMinor := of_decide_eq_true hmem.2
  exact ⟨hsafe.1, hsafe.2, hmem.1, hfilter⟩

theorem charge_nonpos {amount : ℤ} (hsafe : |amount| ≤ maxMinor) (hx : ¬ 0 < x.val) :
    charge amount (.finite x) = some 0 := by
  obtain ⟨z, hz, hz0⟩ := Binary64.exists_ofInt_eq (n := 0) (by norm_num)
  obtain ⟨w, hw, hval⟩ := Binary64.exists_ofInt_eq (n := Engine.absoluteMaxQuantity)
    (by unfold Engine.absoluteMaxQuantity; norm_num)
  have hwithin : (Binary64.ofInt Engine.absoluteMaxQuantity).lt (.finite x) = false := by
    rw [hw, Binary64.lt, decide_eq_false_iff_not, hval, not_lt]
    refine (not_lt.1 hx).trans ?_
    unfold Engine.absoluteMaxQuantity
    norm_num
  have hzero : (Binary64.finite x).le (.ofInt 0) = true := by
    rw [hz, Binary64.le, decide_eq_true_eq, hz0, Int.cast_zero]
    exact not_lt.1 hx
  rw [charge_eq hsafe, hwithin, hzero, if_neg Bool.false_ne_true, if_pos rfl]

/-- **A positive quantity is not charged exactly where its tier is not.** -/
theorem tierOutcome_eq_none_iff {tier : Option (ℤ × ℤ)} (hx : 0 < x.val) :
    tierOutcome tier x = none ↔ Uncharged tier (.finite x) := by
  unfold tierOutcome Uncharged
  cases tier with
  | none =>
    rw [if_pos hx]
    exact ⟨fun _ _ _ h => absurd h.symm (Option.some_ne_none _), fun _ => rfl⟩
  | some t =>
    obtain ⟨min, amount⟩ := t
    change charge amount (.finite x) = none ↔ _
    constructor
    · intro h min' amount' heq hsafe
      obtain ⟨rfl, rfl⟩ := Prod.mk.inj (Option.some.inj heq)
      exact (charge_eq_none_iff hsafe).1 h
    · intro h
      by_cases hsafe : |amount| ≤ maxMinor
      · exact (charge_eq_none_iff hsafe).2 (h min amount rfl hsafe)
      · exact charge_of_beyond hsafe

theorem within_of_charge {amount delta : ℤ} (h : charge amount (.finite x) = some delta) :
    x.val ≤ 2 ^ 53 - 1 := by
  obtain ⟨w, hw, hval⟩ := Binary64.exists_ofInt_eq (n := Engine.absoluteMaxQuantity)
    (by unfold Engine.absoluteMaxQuantity; norm_num)
  unfold charge at h
  split at h
  · simp at h
  · next hmax =>
    rw [hw, Binary64.lt, decide_eq_true_eq, not_lt, hval] at hmax
    refine hmax.trans ?_
    unfold Engine.absoluteMaxQuantity
    norm_num

/-- **The tiers cost the same exactly where they are alike.** Where both
charge, the plugin's tier starts no lower than the cloud's and no higher than
the quantity, so it is safe, and the cloud's too. -/
theorem tierOutcome_eq_iff (es : List (String × Js.Value)) (x : Binary64.Finite) :
    tierOutcome (highest (reached es (.finite x))) x =
        tierOutcome (highest (reachedSafe es (.finite x))) x ↔
      TierAlike es (.finite x) := by
  unfold TierAlike
  dsimp only
  by_cases hx : 0 < x.val
  · rw [if_pos hx]
    constructor
    · intro h
      by_cases hnone : tierOutcome (highest (reached es (.finite x))) x = none
      · exact Or.inr ⟨(tierOutcome_eq_none_iff hx).1 hnone,
          (tierOutcome_eq_none_iff hx).1 (h ▸ hnone)⟩
      · left
        obtain ⟨delta, hdelta⟩ := Option.ne_none_iff_exists'.1 hnone
        cases hplugin : highest (reached es (.finite x)) with
        | none =>
          rw [hplugin, tierOutcome, if_pos hx] at hdelta
          simp at hdelta
        | some t =>
          cases hcloud : highest (reachedSafe es (.finite x)) with
          | none =>
            rw [h, hcloud, tierOutcome, if_pos hx] at hdelta
            simp at hdelta
          | some t' =>
            obtain ⟨hmin, -, hmem, hfilter⟩ := safe_of_highest hcloud
            rw [hplugin] at hdelta
            have hamount : |t.2| ≤ maxMinor := by
              by_contra hunsafe
              exact absurd ((charge_of_beyond hunsafe).symm.trans hdelta).symm
                (Option.some_ne_none delta)
            have hle : t'.1 ≤ t.1 := le_of_highest hplugin hmem
            have hreached := (List.mem_filter.1 (mem_of_highest hplugin)).2
            have hupper : t.1 ≤ maxMinor := by
              by_contra hbeyond
              have hlt : (Binary64.finite x).lt (.ofInt t.1) = true :=
                Binary64.lt_ofInt_of_lt (within_of_charge hdelta) (not_le.1 hbeyond)
              rw [hlt] at hreached
              exact Bool.false_ne_true hreached
            have hsafe : tierSafe t = true :=
              decide_eq_true ⟨abs_le.2 ⟨(abs_le.1 hmin).1.trans hle, hupper⟩, hamount⟩
            rw [hfilter, highest_filter hplugin hsafe] at hcloud
            exact hcloud
    · rintro (h | ⟨hplugin, hcloud⟩)
      · rw [h]
      · rw [(tierOutcome_eq_none_iff hx).2 hplugin, (tierOutcome_eq_none_iff hx).2 hcloud]
  · rw [if_neg hx]
    have hcloud : tierOutcome (highest (reachedSafe es (.finite x))) x = some 0 := by
      cases h : highest (reachedSafe es (.finite x)) with
      | none => exact if_neg hx
      | some t => exact charge_nonpos (safe_of_highest h).2.1 hx
    rw [hcloud]
    cases hplugin : highest (reached es (.finite x)) with
    | none =>
      exact ⟨fun _ _ _ h => absurd h.symm (Option.some_ne_none _), fun _ => if_neg hx⟩
    | some t =>
      obtain ⟨min, amount⟩ := t
      change charge amount (.finite x) = some 0 ↔ _
      constructor
      · intro h min' amount' heq
        obtain ⟨rfl, rfl⟩ := Prod.mk.inj (Option.some.inj heq)
        by_contra hunsafe
        exact absurd ((charge_of_beyond hunsafe).symm.trans h).symm (Option.some_ne_none 0)
      · intro h
        exact charge_nonpos (h min amount rfl) hx

/-! ## Quantities without end -/

theorem abs_le_of_published {v : Js.Value} {n : ℤ} (h : (published v).int? = some n) :
    |n| ≤ 2 ^ 63 := by
  cases v with
  | num x =>
    cases x with
    | finite v =>
      change (publishedNumber (.finite v)).int? = some n at h
      unfold publishedNumber Php.Value.ofNumber at h
      dsimp only at h
      split at h
      · split at h
        · next hrange =>
          obtain rfl := Option.some.inj h
          rw [abs_le]
          omega
        · exact absurd h.symm (Option.some_ne_none n)
      · exact absurd h.symm (Option.some_ne_none n)
    | inf s => exact absurd h.symm (Option.some_ne_none n)
    | nan => exact absurd h.symm (Option.some_ne_none n)
  | _ => exact absurd h.symm (Option.some_ne_none n)

theorem exists_of_mem_items {v : Js.Value} {tier : Php.Value} (h : tier ∈ (published v).items) :
    ∃ w, tier = published w := by
  cases v with
  | arr vs =>
    rw [items_published_arr, List.mem_map] at h
    obtain ⟨w, -, rfl⟩ := h
    exact ⟨w, rfl⟩
  | obj es =>
    change tier ∈ (publishedEntries es).map Prod.snd at h
    induction es with
    | nil => exact absurd h List.not_mem_nil
    | cons p es ih =>
      obtain ⟨k, v⟩ := p
      rcases List.mem_cons.1 h with rfl | h
      · exact ⟨v, rfl⟩
      · exact ih h
  | num x =>
    cases x with
    | finite v =>
      change tier ∈ (publishedNumber (.finite v)).items at h
      unfold publishedNumber at h
      dsimp only at h
      split at h
      · rcases Php.Value.ofNumber_cases v.val.num with hn | hn <;> rw [hn] at h <;>
          exact absurd h List.not_mem_nil
      · exact absurd h List.not_mem_nil
    | inf s => exact absurd h List.not_mem_nil
    | nan => exact absurd h List.not_mem_nil
  | _ => exact absurd h List.not_mem_nil

/-- **Nothing is reached from below every number.** -/
theorem reached_neg_inf (es : List (String × Js.Value)) : reached es (.inf true) = [] := by
  unfold reached reachedOf
  rw [List.filter_eq_nil_iff]
  intro t ht
  obtain ⟨tier, htier, hread⟩ := List.mem_filterMap.1 ht
  obtain ⟨w, rfl⟩ := exists_of_mem_items htier
  unfold tierRead at hread
  split at hread
  · next min amount hmin _ =>
    obtain rfl := Option.some.inj hread
    rw [field_published_word ⟨'m', by decide, by decide⟩] at hmin
    obtain ⟨v, hv⟩ := Binary64.exists_finite_ofInt (abs_le_of_published hmin)
    rw [hv]
    exact Bool.false_ne_true
  · simp at hread

/-! ## Agreement -/

/-- **What the plugin charges by tiers**, for a number. -/
theorem tieredDelta_plugin (htype : typeRead es ≠ "")
    (hanswer : Engine.parseNumber answer = some quantity) :
    Engine.tieredDelta (published (.obj es)) answer [] =
      match highest (reached es quantity) with
      | none => pluginResult (typeRead es) (if (Binary64.ofInt 0).lt quantity then none else some 0)
      | some (_, amount) => pluginResult (typeRead es) (charge amount quantity) := by
  -- A type that has a name is set.
  have hisset : (published (.obj es)).isset "type" = true := by
    refine decide_eq_true fun hnull => htype ?_
    unfold typeRead Php.Value.text
    rw [hnull]
    rfl
  unfold Engine.tieredDelta
  rw [hanswer, hisset]
  dsimp only
  rw [tierAmount_plugin]
  cases highest (reached es quantity) with
  | none =>
    change (if (Binary64.ofInt 0).lt quantity = true then
      (0, Engine.collectNamed (typeRead es) []) else (0, [])) = _
    rw [collectNamed_nil htype]
    dsimp only
    split <;> rfl
  | some t => exact perUnitDelta_plugin htype hanswer

theorem safeInteger?_ofInt {n : ℤ} (h : |n| ≤ maxMinor) :
    (Js.Value.num (.ofInt n)).safeInteger? = some n := by
  have hsafe : Js.isSafeInteger (.ofInt n) = true := by
    rw [Js.isSafeInteger_ofInt]
    exact decide_eq_true h
  obtain ⟨v, hv, hval⟩ := Binary64.exists_ofInt_eq (abs_le_of_inRange h)
  rw [hv] at hsafe ⊢
  change (if Js.isSafeInteger (.finite v) then some v.val.num else none) = some n
  rw [if_pos hsafe, hval, Rat.num_intCast]

/-- **What the cloud charges by tiers**, for a finite number. -/
theorem tieredDelta_cloud (hanswer : Cloud.plainNumber answer = some (.finite x)) :
    Cloud.tieredDelta (.obj es) answer =
      cloudResult (typeNamed es) (tierOutcome (highest (reachedSafe es (.finite x))) x) := by
  unfold Cloud.tieredDelta
  rw [hanswer]
  dsimp only
  rw [if_neg (show ¬ (!(Binary64.finite x).isFinite) = true from Bool.false_ne_true),
    tierAmount_cloud]
  cases hchosen : highest (reachedSafe es (.finite x)) with
  | none =>
    obtain ⟨z, hz, hz0⟩ := Binary64.exists_ofInt_eq (n := 0) (by norm_num)
    change (if (Binary64.ofInt 0).lt (.finite x) = true then Cloud.unpriced (typeNamed es)
      else Cloud.free) = _
    rw [hz, Binary64.lt, hz0, Int.cast_zero]
    unfold tierOutcome
    by_cases hx : 0 < x.val
    · rw [if_pos (decide_eq_true hx), if_pos hx]
      rfl
    · rw [if_neg (by rwa [decide_eq_true_eq]), if_neg hx]
      rfl
  | some t =>
    have hsafe := (safe_of_highest hchosen).2.1
    exact perUnitDelta_cloud (safeInteger?_ofInt hsafe) hsafe hanswer

theorem exact_tierOutcome (es : List (String × Js.Value)) (x : Binary64.Finite) :
    Exact (tierOutcome (highest (reachedSafe es (.finite x))) x) := by
  cases hchosen : highest (reachedSafe es (.finite x)) with
  | none =>
    unfold tierOutcome
    dsimp only
    split
    · exact exact_none
    · exact exact_zero
  | some t => exact fun delta hdelta => abs_le_of_charge (safe_of_highest hchosen).2.1 hdelta

/-- **A number's tiers agree exactly where they are alike.** -/
theorem tiered_agrees_iff (htype : typeRead es = typeNamed es) (hne : typeNamed es ≠ "")
    (hparse : Engine.parseNumber answer = Cloud.plainNumber answer) :
    SamePrice (Engine.tieredDelta (published (.obj es)) answer [])
        (Cloud.tieredDelta (.obj es) answer) ↔
      ∀ quantity, Cloud.plainNumber answer = some quantity → TierAlike es quantity := by
  cases hanswer : Cloud.plainNumber answer with
  | none =>
    have hplugin : Engine.tieredDelta (published (.obj es)) answer [] =
        pluginResult (typeNamed es) (some 0) := by
      unfold Engine.tieredDelta
      rw [hparse, hanswer]
      rfl
    have hcloud : Cloud.tieredDelta (.obj es) answer = cloudResult (typeNamed es) (some 0) := by
      unfold Cloud.tieredDelta
      rw [hanswer]
      rfl
    rw [hplugin, hcloud, samePrice_iff exact_zero]
    exact ⟨fun _ _ h => absurd h.symm (Option.some_ne_none _), fun _ => rfl⟩
  | some quantity =>
    have hplugin := @tieredDelta_plugin es quantity answer (fun h => hne (htype.symm.trans h))
      (hparse.trans hanswer)
    rw [htype] at hplugin
    have hone : (∀ q, some quantity = some q → TierAlike es q) ↔ TierAlike es quantity :=
      ⟨fun h => h quantity rfl, fun h q hq => Option.some.inj hq ▸ h⟩
    rw [hone]
    rcases plainNumber_cases hanswer with ⟨x, rfl⟩ | ⟨negative, rfl⟩
    · have hfinite : Engine.tieredDelta (published (.obj es)) answer [] =
          pluginResult (typeNamed es) (tierOutcome (highest (reached es (.finite x))) x) := by
        rw [hplugin]
        obtain ⟨z, hz, hz0⟩ := Binary64.exists_ofInt_eq (n := 0) (by norm_num)
        cases highest (reached es (.finite x)) with
        | none =>
          unfold tierOutcome
          dsimp only
          rw [hz, Binary64.lt, hz0, Int.cast_zero]
          simp only [decide_eq_true_eq]
        | some t => rfl
      rw [hfinite, tieredDelta_cloud hanswer, samePrice_iff (exact_tierOutcome es x)]
      exact tierOutcome_eq_iff es x
    · have hcloud : Cloud.tieredDelta (.obj es) answer = cloudResult (typeNamed es) (some 0) := by
        unfold Cloud.tieredDelta
        rw [hanswer]
        rfl
      obtain ⟨z, hz, -⟩ := Binary64.exists_ofInt_eq (n := 0) (by norm_num)
      rw [hcloud, hplugin]
      cases negative with
      | true =>
        rw [reached_neg_inf]
        change SamePrice (pluginResult _ (if (Binary64.ofInt 0).lt (.inf true) = true then none
          else some 0)) _ ↔ _
        rw [hz]
        exact (samePrice_iff exact_zero).trans ⟨fun _ => rfl, fun _ => rfl⟩
      | false =>
        have hnever : ¬ SamePrice (pluginResult (typeNamed es) none)
            (cloudResult (typeNamed es) (some 0)) :=
          fun h => absurd ((samePrice_iff exact_zero).1 h).symm (Option.some_ne_none 0)
        cases highest (reached es (.inf false)) with
        | none =>
          dsimp only
          rw [hz]
          exact ⟨fun h => absurd h hnever, fun h => absurd h Bool.false_ne_true⟩
        | some t =>
          dsimp only
          rw [charge_inf]
          exact ⟨fun h => absurd h hnever, fun h => absurd h Bool.false_ne_true⟩

/-- **The cloud reports exactly the positive quantities that no safe tier
charges.** -/
theorem untiered_iff (es : List (String × Js.Value)) (answer : String) :
    SamePrice (pluginResult (typeNamed es) none) (Cloud.tieredDelta (.obj es) answer) ↔
      ∃ quantity, Cloud.plainNumber answer = some quantity ∧ Untiered es quantity := by
  have hfree : Cloud.free = cloudResult (typeNamed es) (some 0) := rfl
  have hnever : ¬ SamePrice (pluginResult (typeNamed es) none) Cloud.free := by
    rw [hfree, samePrice_iff exact_zero]
    exact fun h => absurd h.symm (Option.some_ne_none 0)
  unfold Untiered
  cases hanswer : Cloud.plainNumber answer with
  | none =>
    have hcloud : Cloud.tieredDelta (.obj es) answer = Cloud.free := by
      unfold Cloud.tieredDelta
      rw [hanswer]
    rw [hcloud]
    refine ⟨fun h => absurd h hnever, ?_⟩
    rintro ⟨_, h, -⟩
    simp at h
  | some quantity =>
    rcases plainNumber_cases hanswer with ⟨x, rfl⟩ | ⟨negative, rfl⟩
    · rw [tieredDelta_cloud hanswer, samePrice_iff (exact_tierOutcome es x), eq_comm]
      constructor
      · intro h
        have hx : 0 < x.val := by
          by_contra hx
          have hzero : tierOutcome (highest (reachedSafe es (.finite x))) x = some 0 := by
            cases hchosen : highest (reachedSafe es (.finite x)) with
            | none => exact if_neg hx
            | some t => exact charge_nonpos (safe_of_highest hchosen).2.1 hx
          exact absurd (hzero.symm.trans h) (Option.some_ne_none 0)
        exact ⟨_, rfl, x, rfl, hx, (tierOutcome_eq_none_iff hx).1 h⟩
      · rintro ⟨quantity, hquantity, y, rfl, hy, huncharged⟩
        obtain rfl := Binary64.finite.inj (Option.some.inj hquantity)
        exact (tierOutcome_eq_none_iff hy).2 huncharged
    · have hcloud : Cloud.tieredDelta (.obj es) answer = Cloud.free := by
        unfold Cloud.tieredDelta
        rw [hanswer]
        rfl
      rw [hcloud]
      refine ⟨fun h => absurd h hnever, ?_⟩
      rintro ⟨_, hquantity, y, rfl, -⟩
      exact absurd (Option.some.inj hquantity) (by simp)

end Optionia.Wire
