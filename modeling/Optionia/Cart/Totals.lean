import Optionia.Cart.Key
import Optionia.Reporting.LineRows
import Optionia.Support.Money
/-!
# The price of a cart line

`CartTotals::apply` prices a line each time totals are calculated: what is
stored of it is resolved against the configuration of the day, and the line is
charged its base with the deltas it was quoted. Where the quote cannot be
trusted, or cannot be summed, the day's total is charged. So a price is frozen
while its sums stay within the guard, and a line altered after it was signed
is priced as one without a quote (`frozen_or_live`).
-/

namespace Optionia.Cart

open Php Engine Engine.SelectionResolver Support

/-! ## The hook -/

/-- A cart line in a request. -/
structure CartLine where
  data : CartItemData
  productId : Value
  /-- What `get_price` of its product answers. -/
  price : Value
  /-- `$base_prices`: the base remembered in this request. -/
  basePrice : Option ℤ

/-- What the plugin keeps in the data of an item. -/
def optioniaOf (data : CartItemData) : Value :=
  match data.get? cartItemKey with
  | some (.value optionia) => optionia
  | _ => .null

/-- `selections_from` -/
def CartLine.selections (line : CartLine) : List (String × Value) :=
  match (optioniaOf line.data).field cartItemSelections with
  | .arr selections => selections
  | _ => []

/-- `base_price_minor`; `none` is an uncaught `TypeError`. -/
def CartLine.baseMinor (line : CartLine) (decimals : ℕ) : Option ℤ :=
  line.basePrice.or <|
    match Money.tryFromDecimal line.price decimals with
    | .ok (some money) => some money.minor
    | .ok none => some 0
    | .error _ => none

def frozenTotal (wpHash : String → String) (line : CartLine) (base : ℤ) : Option ℤ :=
  (trustedDeltas wpHash (optioniaOf line.data) line.selections).bind fun deltas =>
    Pricing.sumDeltas base (deltas.map Prod.snd)

def CartLine.resolved (P : Platform) (site : Site) (line : CartLine) (base : ℤ) : Result :=
  resolve P (site.optionSetsForProduct (intOf line.productId))
    ((∅ : OrderedMap String Value).setAll line.selections) base site.today

/-- `apply_to_line`, its price. -/
def applyToLine (P : Platform) (wpHash : String → String) (decimals : ℕ) (site : Site)
    (line : CartLine) : CartLine :=
  if line.selections = [] then line
  else if site.optionSetsForProduct (intOf line.productId) = [] then line
  else match line.baseMinor decimals with
    | none => line
    | some base =>
      let remembered := { line with basePrice := some base }
      match line.resolved P site base with
      | .ok r =>
        let total := (frozenTotal wpHash line base).getD r.totalMinor
        { remembered with price := .str (Reporting.decimalString decimals total) }
      | _ => remembered

/-! ## A line over time -/

/-- What happens while a line is in a cart. -/
inductive Event where
  | publish (site : Site)
  /-- A request loads the product, at its price of then. -/
  | load (price : Value)
  /-- Another plugin sets the price of the line's product. -/
  | overrule (price : Value)
  | fire

/-- A line, and the site it is sold on. -/
structure Session where
  site : Site
  line : CartLine

def Session.step (P : Platform) (wpHash : String → String) (decimals : ℕ) (s : Session) :
    Event → Session
  | .publish site => { s with site := site }
  | .load price => { s with line := { s.line with price := price, basePrice := none } }
  | .overrule price => { s with line := { s.line with price := price } }
  | .fire => { s with line := applyToLine P wpHash decimals s.site s.line }

def Session.run (P : Platform) (wpHash : String → String) (decimals : ℕ) (s : Session)
    (events : List Event) : Session :=
  events.foldl (Session.step P wpHash decimals) s

/-! ## What is promised -/

/-- The deltas a resolution quotes, in the order of the options' ids. -/
def quoted (r : Resolution) : List ℤ := (ksort r.deltas).values.filterMap Value.int?

/-- The base and the deltas, added one by one, stay within the guard. -/
def SumsHold (base : ℤ) (deltas : List ℤ) : Prop :=
  ∀ n, |base + (deltas.take n).sum| ≤ Pricing.maxMinor

/-- **A firing keeps the price a resolution quoted**: the current base with
the quoted deltas, and never below zero, whenever what is stored still
resolves. -/
def Frozen (P : Platform) (wpHash : String → String) (decimals : ℕ) (r : Resolution)
    (s : Session) : Prop :=
  ∀ base, s.line.baseMinor decimals = some base →
    (∃ today, s.line.resolved P s.site base = .ok today) →
    (s.step P wpHash decimals .fire).line.price =
      .str (Reporting.decimalString decimals (max 0 (base + (quoted r).sum)))

/-- The same where the sums hold; elsewhere the total of the day. -/
def FrozenWithin (P : Platform) (wpHash : String → String) (decimals : ℕ) (r : Resolution)
    (s : Session) : Prop :=
  ∀ base today, s.line.baseMinor decimals = some base →
    s.line.resolved P s.site base = .ok today →
    (SumsHold base (quoted r) → (s.step P wpHash decimals .fire).line.price =
      .str (Reporting.decimalString decimals (max 0 (base + (quoted r).sum)))) ∧
    (¬ SumsHold base (quoted r) → (s.step P wpHash decimals .fire).line.price =
      .str (Reporting.decimalString decimals today.totalMinor))

/-- **A firing reads no quote**: it leaves the price or charges the total of
the day. -/
def Live (P : Platform) (wpHash : String → String) (decimals : ℕ) (s : Session) : Prop :=
  (s.step P wpHash decimals .fire).line.price = s.line.price ∨
    ∃ base today, s.line.baseMinor decimals = some base ∧
      s.line.resolved P s.site base = .ok today ∧
      (s.step P wpHash decimals .fire).line.price =
        .str (Reporting.decimalString decimals today.totalMinor)

/-- **What was signed was altered**: the signature stands, and the selections,
the deltas or the version beside it are not those of the resolution. -/
structure Altered (wpHash : String → String) (version : ℤ) (r : Resolution) (optionia : Value) :
    Prop where
  signed : optionia.field cartItemSignature = .str (signature wpHash version r)
  differs : ¬ ∃ selections deltas, optionia.field cartItemSelections = .arr selections ∧
    optionia.field cartItemDeltas = .arr deltas ∧
    optionia.field cartItemConfigVersion = .int version ∧
    selections.Perm r.resolved.entries ∧ deltas.Perm r.deltas.entries

/-! ## One firing -/

variable {P : Platform} {wpHash : String → String} {decimals : ℕ}

variable {base version : ℤ} {today : Option String} {r : Resolution} {deltas : List ℤ}
  {optionSets : List Value} {request : OrderedMap String Value}

theorem entries_eq_nil_of_no_sets {selections : OrderedMap String Value}
    (h : resolve P [] selections base today = .ok r) : selections.entries = [] := by
  obtain ⟨-, hconclude⟩ := resolve_eq_ok h
  obtain ⟨herrors, -⟩ := conclude_eq_ok hconclude
  refine List.eq_nil_iff_forall_not_mem.2 fun p hp => ?_
  have haccepted := (errors_takeAll_iff.1 herrors).1 p hp
  have hrefused : ∀ ctx : Context, ctx.options = ∅ → (verdict ctx p).accepted = false := by
    intro ctx hoptions
    unfold verdict
    rw [hoptions]
    rfl
  rw [hrefused _ rfl] at haccepted
  exact Bool.false_ne_true haccepted

/-- **What a firing charges**, where something is stored and resolves. -/
theorem price_fire {s : Session} {today : Resolution} (hne : s.line.selections ≠ [])
    (hkeys : (s.line.selections.map Prod.fst).Nodup) (hbase : s.line.baseMinor decimals = some base)
    (hresolved : s.line.resolved P s.site base = .ok today) :
    (s.step P wpHash decimals .fire).line.price = .str (Reporting.decimalString decimals
      ((frozenTotal wpHash s.line base).getD today.totalMinor)) := by
  have hsets : s.site.optionSetsForProduct (intOf s.line.productId) ≠ [] := by
    intro hnil
    unfold CartLine.resolved at hresolved
    rw [hnil] at hresolved
    have hempty := entries_eq_nil_of_no_sets hresolved
    rw [OrderedMap.entries_setAll_of_nodup (m := ∅) hkeys] at hempty
    exact hne hempty
  change (applyToLine P wpHash decimals s.site s.line).price = _
  unfold applyToLine
  rw [if_neg hne, if_neg hsets, hbase]
  dsimp only
  rw [hresolved]

/-- **A firing without a quote** leaves the price or charges the day's. -/
theorem live_of_frozenTotal {s : Session} (h : ∀ base, frozenTotal wpHash s.line base = none) :
    Live P wpHash decimals s := by
  unfold Live
  change (applyToLine P wpHash decimals s.site s.line).price = _ ∨ ∃ base today, _ ∧ _ ∧
    (applyToLine P wpHash decimals s.site s.line).price = _
  unfold applyToLine
  by_cases hne : s.line.selections = []
  · rw [if_pos hne]
    exact Or.inl rfl
  by_cases hsets : s.site.optionSetsForProduct (intOf s.line.productId) = []
  · rw [if_neg hne, if_pos hsets]
    exact Or.inl rfl
  rw [if_neg hne, if_neg hsets]
  cases hbase : s.line.baseMinor decimals with
  | none => exact Or.inl rfl
  | some base =>
    dsimp only
    cases hresolved : s.line.resolved P s.site base with
    | ok today =>
      refine Or.inr ⟨base, today, rfl, hresolved, ?_⟩
      dsimp only
      rw [h base]
      rfl
    | errors found => exact Or.inl rfl
    | threw => exact Or.inl rfl

/-! ## Sums -/

/-- **Deltas that are all within the guard add up where their sums are.** -/
theorem isSome_addDeltas_iff {total : ℤ} (htotal : |total| ≤ Pricing.maxMinor)
    (hdeltas : ∀ d ∈ deltas, |d| ≤ Pricing.maxMinor) :
    (Pricing.addDeltas total deltas).isSome = true ↔ SumsHold total deltas := by
  unfold SumsHold
  induction deltas generalizing total with
  | nil =>
    refine ⟨fun _ n => ?_, fun _ => rfl⟩
    rw [List.take_nil, List.sum_nil, add_zero]
    exact htotal
  | cons d deltas ih =>
    obtain ⟨hd, hrest⟩ := List.forall_mem_cons.1 hdeltas
    have hin : Pricing.inRange d = true := Pricing.inRange_iff.2 hd
    unfold Pricing.addDeltas
    rw [hin, Bool.not_true, if_neg Bool.false_ne_true, Pricing.floatInRange_add htotal hd]
    by_cases hsum : |total + d| ≤ Pricing.maxMinor
    · rw [decide_eq_true hsum, Bool.not_true, if_neg Bool.false_ne_true, ih hsum hrest]
      constructor
      · intro h n
        cases n with
        | zero =>
          rw [List.take_zero, List.sum_nil, add_zero]
          exact htotal
        | succ n =>
          have hn := h n
          rwa [List.take_succ_cons, List.sum_cons, ← add_assoc]
      · intro h n
        have hn := h (n + 1)
        rwa [List.take_succ_cons, List.sum_cons, ← add_assoc] at hn
    · rw [decide_eq_false hsum, Bool.not_false, if_pos rfl]
      refine iff_of_false Bool.false_ne_true fun h => hsum ?_
      have hone := h 1
      rwa [List.take_succ_cons, List.take_zero, List.sum_singleton] at hone

/-- **The quote is summed exactly where its sums hold.** -/
theorem isSome_sumDeltas_iff (hdeltas : ∀ d ∈ deltas, |d| ≤ Pricing.maxMinor) :
    (Pricing.sumDeltas base deltas).isSome = true ↔ SumsHold base deltas := by
  unfold Pricing.sumDeltas
  by_cases hbase : |base| ≤ Pricing.maxMinor
  · have hin : Pricing.inRange base = true := Pricing.inRange_iff.2 hbase
    rw [hin, Bool.not_true, if_neg Bool.false_ne_true, ← isSome_addDeltas_iff hbase hdeltas]
    cases hadd : Pricing.addDeltas base deltas with
    | none => exact Iff.rfl
    | some total =>
      refine iff_of_true ?_ rfl
      -- The last sum is one of them, so it can be clamped.
      have hholds : SumsHold base deltas :=
        (isSome_addDeltas_iff hbase hdeltas).1 (by rw [hadd]; rfl)
      have hlast := hholds deltas.length
      rw [List.take_length, ← Pricing.addDeltas_eq_some hadd] at hlast
      rw [Option.bind_some]
      unfold Pricing.clampToZero
      rw [Pricing.inRange_iff.2 hlast, Bool.not_true, if_neg Bool.false_ne_true]
      rfl
  · have hout : Pricing.inRange base = false := by
      rw [← Bool.not_eq_true, Pricing.inRange_iff]
      exact hbase
    rw [hout, Bool.not_false, if_pos rfl]
    refine iff_of_false Bool.false_ne_true fun h => hbase ?_
    have hfirst := h 0
    rwa [List.take_zero, List.sum_nil, add_zero] at hfirst

theorem abs_le_of_addDeltas {total n : ℤ} (h : Pricing.addDeltas total deltas = some n) :
    ∀ d ∈ deltas, |d| ≤ Pricing.maxMinor := by
  induction deltas generalizing total with
  | nil => exact fun d hd => absurd hd List.not_mem_nil
  | cons d deltas ih =>
    unfold Pricing.addDeltas at h
    split_ifs at h with hd hsum
    rw [Bool.not_eq_true', Bool.not_eq_false] at hd
    exact List.forall_mem_cons.2 ⟨Pricing.inRange_iff.1 hd, ih h⟩

/-! ## The quote of a resolution -/

/-- What a resolution says of its deltas: those of its answers, in their order,
all integers within the guard. -/
theorem deltas_of_resolve (h : resolve P optionSets request base today = .ok r) :
    r.deltas.keys = r.resolved.keys ∧
      ∃ deltas : List ℤ, r.deltas.values = deltas.map .int ∧
        ∀ d ∈ deltas, |d| ≤ Pricing.maxMinor := by
  obtain ⟨-, hconclude⟩ := resolve_eq_ok h
  have hsound := sound_takeAll
    (context P optionSets base today (evaluation P optionSets request).states) request
  obtain ⟨-, -, totalMinor, htotal, rfl⟩ := conclude_eq_ok hconclude
  obtain ⟨deltas, hdeltas, hsum⟩ := Option.bind_eq_some_iff.1 htotal
  refine ⟨hsound.deltas, deltas, eq_map_int_of_mapM hdeltas, ?_⟩
  unfold Pricing.sumDeltas at hsum
  split at hsum
  · simp at hsum
  obtain ⟨total, hadd, -⟩ := Option.bind_eq_some_iff.1 hsum
  exact abs_le_of_addDeltas hadd

/-- **What a line that was signed is charged of its quote**: the quoted deltas
on the base, where they can be summed. -/
theorem frozenTotal_payload (hnamed : ∀ text, wpHash text ≠ "") {base₀ : ℤ}
    (h : resolve P optionSets request base₀ today = .ok r) (hpriced : r.unpriced = [])
    {line : CartLine} (hline : optioniaOf line.data = payload wpHash version r) (base : ℤ) :
    frozenTotal wpHash line base = Pricing.sumDeltas base (quoted r) := by
  obtain ⟨hkeys, deltas, hvalues, -⟩ := deltas_of_resolve h
  have hints : ∀ v ∈ r.deltas.values, v.int?.isSome = true := by
    intro v hv
    rw [hvalues] at hv
    obtain ⟨d, -, rfl⟩ := List.mem_map.1 hv
    rfl
  have hselections : line.selections = (ksort r.resolved).entries := by
    unfold CartLine.selections
    rw [hline, Reporting.field_payload_selections]
  have htrusted := (@isSome_trustedDeltas r wpHash version
    (fun id hid => hkeys ▸ hid) hints).2 ⟨hpriced, hnamed _⟩
  obtain ⟨trusted, htrusted⟩ := Option.isSome_iff_exists.1 htrusted
  obtain ⟨htrustedKeys, hread⟩ := trustedDeltas_payload htrusted
  unfold frozenTotal
  rw [hline, hselections, htrusted, Option.bind_some]
  -- Both lists are read off the deltas by the same ids, in the same order.
  have hnodup : (trusted.map Prod.fst).Nodup := by
    rw [htrustedKeys]
    exact (ksort r.resolved).nodup
  have hsorted : (ksort r.deltas).keys = trusted.map Prod.fst := by
    rw [htrustedKeys]
    exact keys_ksort_congr hkeys
  have hquoted : quoted r = trusted.map Prod.snd := by
    have hentry : ∀ p ∈ trusted, (ksort r.deltas).get? p.1 = some (.int p.2) := by
      intro p hp
      have hid : p.1 ∈ r.resolved.keys := by
        rw [← mem_keys_ksort, ← htrustedKeys]
        exact List.mem_map_of_mem hp
      obtain ⟨delta, hdelta, hlookup⟩ := hread p.1 hid
      have hself : trusted.lookup p.1 = some p.2 := OrderedMap.lookup_of_mem hnodup hp
      rw [hself] at hlookup
      rw [get?_ksort, hdelta, Option.some.inj hlookup]
    have hentries : (ksort r.deltas).entries = trusted.map fun p => (p.1, .int p.2) := by
      have hlookup : (ksort r.deltas).entries = (ksort r.deltas).keys.map fun id =>
          (id, ((ksort r.deltas).get? id).getD .null) := by
        unfold OrderedMap.keys
        rw [List.map_map]
        refine (List.map_id _).symm.trans (List.map_congr_left fun p hp => ?_)
        have hget : (ksort r.deltas).get? p.1 = some p.2 := OrderedMap.get?_eq_some.2 hp
        rw [Function.comp_apply, hget]
        rfl
      rw [hlookup, hsorted, List.map_map]
      refine List.map_congr_left fun p hp => ?_
      rw [Function.comp_apply, hentry p hp]
      rfl
    unfold quoted OrderedMap.values
    rw [hentries, List.map_map, List.filterMap_map]
    change trusted.filterMap (fun p => some p.2) = trusted.map Prod.snd
    rw [List.filterMap_eq_map']
  rw [hquoted]

theorem abs_le_of_quoted (h : resolve P optionSets request base today = .ok r) :
    ∀ d ∈ quoted r, |d| ≤ Pricing.maxMinor := by
  obtain ⟨-, deltas, hvalues, hbounds⟩ := deltas_of_resolve h
  intro d hd
  obtain ⟨v, hv, hint⟩ := List.mem_filterMap.1 hd
  obtain ⟨p, hp, rfl⟩ := List.mem_map.1 hv
  have hmem : p.2 ∈ r.deltas.values :=
    List.mem_map_of_mem ((entries_ksort r.deltas).mem_iff.1 hp)
  rw [hvalues] at hmem
  obtain ⟨d', hd', heq⟩ := List.mem_map.1 hmem
  rw [← heq] at hint
  obtain rfl : d' = d := Option.some.inj hint
  exact hbounds d' hd'

/-! ## A line that was altered -/

/-- **A hash that tells texts apart tells apart what was signed**: texts for
answers, integers for deltas, and a version. -/
theorem sign_cancel (hinjective : Function.Injective wpHash)
    {selections selections' deltas deltas' : List (String × Value)} {version' : ℤ}
    (hstored : ∀ p ∈ selections, Stored p.2) (hints : ∀ p ∈ deltas, ∃ n, p.2 = .int n)
    (hints' : ∀ p ∈ deltas', ∃ n, p.2 = .int n)
    (h : sign wpHash selections' deltas' version' = sign wpHash selections deltas version) :
    selections'.Perm selections ∧ deltas'.Perm deltas ∧ version' = version := by
  have hsorted : ∀ p ∈ ksortEntries selections, Stored p.2 := fun p hp =>
    hstored p ((ksortEntries_perm selections).mem_iff.1 hp)
  have hsortedInts : ∀ {l : List (String × Value)}, (∀ p ∈ l, ∃ n, p.2 = .int n) →
      ∀ p ∈ ksortEntries l, ∃ n, p.2 = .int n := fun hl p hp =>
    hl p ((ksortEntries_perm _).mem_iff.1 hp)
  have htext := congrArg String.toList (hinjective h).symm
  rw [String.toList_append, String.toList_append, String.toList_append, String.toList_append,
    String.toList_append, String.toList_append, String.toList_append, String.toList_append] at htext
  have hbar : ("|" : String).toList = ['|'] := rfl
  rw [hbar] at htext
  simp only [List.append_assoc, List.singleton_append] at htext
  obtain ⟨htextual, hfits, -⟩ := Reporting.stored_entries_json hsorted
  have hdeltasFit : jsonFits 0 (.arr (ksortEntries deltas)) = true := by
    have hall : ∀ (l : List (String × Value)), (∀ p ∈ l, ∃ n, p.2 = .int n) →
        jsonFitsAll 1 l = true := by
      intro l
      induction l with
      | nil => exact fun _ => rfl
      | cons p l ih =>
        intro hl
        obtain ⟨n, hn⟩ := hl p List.mem_cons_self
        rw [jsonFitsAll, ih fun q hq => hl q (List.mem_cons_of_mem p hq), hn]
        rfl
    rw [jsonFits, hall _ (hsortedInts hints)]
    rfl
  obtain ⟨hselections, hrest⟩ := wpJsonEncode_cancel (by rw [jsonFits, hfits]; rfl) htext
  obtain ⟨hdeltas, hversion⟩ := wpJsonEncode_cancel hdeltasFit hrest
  have hsame := eq_of_tree _ _ (by rw [Value.textual]; exact htextual) hselections
  have hsameDeltas := eq_of_tree_ints (hsortedInts hints) (hsortedInts hints') hdeltas
  refine ⟨?_, ?_, (toString_injective (String.toList_injective hversion)).symm⟩
  · have hentries : ksortEntries selections = ksortEntries selections' := Value.arr.inj hsame
    exact (ksortEntries_perm selections').symm.trans
      (hentries ▸ ksortEntries_perm selections)
  · exact (ksortEntries_perm deltas').symm.trans (hsameDeltas ▸ ksortEntries_perm deltas)

theorem isSome_of_mapM {α β : Type} {f : α → Option β} {l : List α} {l' : List β}
    (h : l.mapM f = some l') : ∀ a ∈ l, (f a).isSome = true := by
  induction l generalizing l' with
  | nil => exact fun a ha => absurd ha List.not_mem_nil
  | cons b l ih =>
    rw [List.mapM_cons] at h
    obtain ⟨c, hc, hrest⟩ := Option.bind_eq_some_iff.1 h
    obtain ⟨rest, hmap, -⟩ := Option.bind_eq_some_iff.1 hrest
    exact List.forall_mem_cons.2 ⟨Option.isSome_of_mem hc, ih hmap⟩

theorem signed_of_verify {optionia : Value} (h : verify wpHash optionia = true) :
    ∃ text selections deltas version, optionia.field cartItemSignature = .str text ∧
      optionia.field cartItemSelections = .arr selections ∧
      optionia.field cartItemDeltas = .arr deltas ∧
      optionia.field cartItemConfigVersion = .int version ∧
      sign wpHash selections deltas version = text := by
  unfold verify at h
  split at h
  · next text selections deltas version htext hselections hdeltas hversion =>
    rw [Bool.and_eq_true, beq_iff_eq] at h
    exact ⟨text, selections, deltas, version, htext, hselections, hdeltas, hversion, h.2⟩
  · simp at h

/-- **A line that was altered has no quote.** -/
theorem frozenTotal_altered (hinjective : Function.Injective wpHash) {base₀ : ℤ}
    (h : resolve P optionSets request base₀ today = .ok r) {line : CartLine}
    (haltered : Altered wpHash version r (optioniaOf line.data)) (base : ℤ) :
    frozenTotal wpHash line base = none := by
  obtain ⟨-, deltas₀, hvalues, -⟩ := deltas_of_resolve h
  have hstored : ∀ p ∈ (ksort r.resolved).entries, Stored p.2 := fun p hp =>
    stored_of_resolve h p.1 p.2
      (OrderedMap.get?_eq_some.2 ((entries_ksort r.resolved).mem_iff.1 hp))
  have hints : ∀ p ∈ (ksort r.deltas).entries, ∃ n, p.2 = .int n := by
    intro p hp
    have hmem : p.2 ∈ r.deltas.values :=
      List.mem_map_of_mem ((entries_ksort r.deltas).mem_iff.1 hp)
    rw [hvalues] at hmem
    obtain ⟨n, -, hn⟩ := List.mem_map.1 hmem
    exact ⟨n, hn.symm⟩
  have huntrusted : frozenDeltas wpHash (optioniaOf line.data) = none := by
    by_contra hsome
    obtain ⟨frozen, hfrozen⟩ := Option.ne_none_iff_exists'.1 hsome
    unfold frozenDeltas at hfrozen
    split at hfrozen
    swap
    · simp at hfrozen
    next hverify =>
    obtain ⟨text, selections, deltas, version', htext, hselections, hdeltas, hversion, hsign⟩ :=
      signed_of_verify hverify
    rw [haltered.signed] at htext
    rw [← Value.str.inj htext] at hsign
    -- Frozen deltas are integers, or nothing would be frozen.
    have hints' : ∀ p ∈ deltas, ∃ n, p.2 = .int n := by
      rw [hdeltas] at hfrozen
      dsimp only at hfrozen
      intro p hp
      have hread := isSome_of_mapM hfrozen p hp
      rw [Option.isSome_map] at hread
      obtain ⟨n, hn⟩ := Option.isSome_iff_exists.1 hread
      exact ⟨n, eq_int_of_int? hn⟩
    obtain ⟨hperm, hpermDeltas, hsame⟩ := sign_cancel hinjective hstored hints hints' hsign
    refine haltered.differs ⟨selections, deltas, hselections, hdeltas, hsame ▸ hversion, ?_, ?_⟩
    · exact hperm.trans (entries_ksort r.resolved)
    · exact hpermDeltas.trans (entries_ksort r.deltas)
  unfold frozenTotal trustedDeltas
  rw [huntrusted]
  rfl

/-! ## Over time -/

/-- **Events leave the line what it is.** -/
theorem run_line (s : Session) (events : List Event) :
    (s.run P wpHash decimals events).line.data = s.line.data ∧
      (s.run P wpHash decimals events).line.productId = s.line.productId := by
  have hstep : ∀ (s : Session) (event : Event),
      (s.step P wpHash decimals event).line.data = s.line.data ∧
        (s.step P wpHash decimals event).line.productId = s.line.productId := by
    intro s event
    cases event with
    | publish site => exact ⟨rfl, rfl⟩
    | load price => exact ⟨rfl, rfl⟩
    | overrule price => exact ⟨rfl, rfl⟩
    | fire =>
      change (applyToLine P wpHash decimals s.site s.line).data = _ ∧
        (applyToLine P wpHash decimals s.site s.line).productId = _
      unfold applyToLine
      split
      · exact ⟨rfl, rfl⟩
      split
      · exact ⟨rfl, rfl⟩
      split
      · exact ⟨rfl, rfl⟩
      · dsimp only
        split
        · exact ⟨rfl, rfl⟩
        · exact ⟨rfl, rfl⟩
  unfold Session.run
  induction events generalizing s with
  | nil => exact ⟨rfl, rfl⟩
  | cons event events ih =>
    obtain ⟨hdata, hproduct⟩ := hstep s event
    obtain ⟨hrest, hrestProduct⟩ := ih (s.step P wpHash decimals event)
    exact ⟨hrest.trans hdata, hrestProduct.trans hproduct⟩

/-- **A price is frozen while its sums hold, and what was altered has no
quote.** Of the line that a request attached, every firing charges the quoted
deltas on the current base where they can be summed, and the day's total
elsewhere; of a line altered since, every firing reads no quote. -/
theorem frozen_or_live (P : Platform) (decimals : ℕ) {wpHash : String → String}
    (hinjective : Function.Injective wpHash) (hnamed : ∀ text, wpHash text ≠ "") {site : Site}
    {request : OrderedMap String Value} {other data : CartItemData} {productId variationId : Value}
    {r : Resolution} (hid : intOf productId ≠ 0)
    (hsets : site.optionSetsForProduct (intOf productId) ≠ [])
    (hresolve : resolve P (site.optionSetsForProduct (intOf productId)) request
      (site.basePrice (intOf productId) (intOf variationId)) site.today = .ok r)
    (hne : r.resolved.entries ≠ []) (hpriced : r.unpriced = [])
    (hattach : attach P wpHash site request other productId variationId = some data) :
    (∀ (s : Session) (events : List Event), s.line.data = data →
      FrozenWithin P wpHash decimals r (s.run P wpHash decimals events)) ∧
      ∀ (s : Session) (events : List Event),
        Altered wpHash site.configVersion r (optioniaOf s.line.data) →
        Live P wpHash decimals (s.run P wpHash decimals events) := by
  rw [attach_eq hid hsets hresolve hne] at hattach
  obtain rfl := Option.some.inj hattach
  constructor
  · rintro s events hdata base today hbase hresolved
    have hoptionia : optioniaOf (s.run P wpHash decimals events).line.data =
        payload wpHash site.configVersion r := by
      rw [(run_line s events).1, hdata]
      unfold optioniaOf
      rw [OrderedMap.get?_set_self]
    have hselections : (s.run P wpHash decimals events).line.selections =
        (ksort r.resolved).entries := by
      unfold CartLine.selections
      rw [hoptionia, Reporting.field_payload_selections]
    have hsome : (s.run P wpHash decimals events).line.selections ≠ [] := by
      rw [hselections]
      intro hnil
      have hperm := entries_ksort r.resolved
      rw [hnil] at hperm
      exact hne (List.nil_perm.1 hperm)
    have hfire := @price_fire P wpHash decimals base _ today hsome
      (by rw [hselections]; exact (ksort r.resolved).nodup) hbase hresolved
    have hfrozen := frozenTotal_payload hnamed hresolve hpriced hoptionia base
    rw [hfrozen] at hfire
    have hsums := @isSome_sumDeltas_iff base (quoted r) (abs_le_of_quoted hresolve)
    refine ⟨fun hholds => ?_, fun hnot => ?_⟩
    · obtain ⟨total, htotal⟩ := Option.isSome_iff_exists.1 (hsums.2 hholds)
      rw [hfire, htotal, Option.getD_some, ← Pricing.sumDeltas_eq_some htotal]
    · rw [← hsums, Option.not_isSome_iff_eq_none] at hnot
      rw [hfire, hnot, Option.getD_none]
  · intro s events haltered
    refine live_of_frozenTotal fun base => ?_
    exact frozenTotal_altered hinjective hresolve ((run_line s events).1 ▸ haltered) base

/-! ## A price within the guard, and one past it -/

/-- A site with one choice for product 7, at a price. -/
def choiceSite (base amount : ℤ) : Site where
  optionSetsForProduct _ := oneGroup [.arr [("id", .str "a"), ("type", .str "radio"),
    ("value_kind", .str "choice"),
    ("values", .ofList [.arr [("id", .str "v"), ("value_key", .str "y"),
      ("price_config", .arr [("type", .str "fixed"), ("amount_minor", .int amount)])]])]] []
  configVersion := 3
  basePrice _ _ := base
  today := none

/-- A hash that keeps all of a text and is never empty. -/
def marked (text : String) : String := "h" ++ text

theorem marked_injective : Function.Injective marked := fun s t h => by
  have htext : 'h' :: s.toList = 'h' :: t.toList := by
    have hlists := congrArg String.toList h
    unfold marked at hlists
    rwa [String.toList_append, String.toList_append] at hlists
  exact String.toList_injective (List.cons.inj htext).2

theorem marked_ne (text : String) : marked text ≠ "" := fun h => by
  have hlist := congrArg String.toList h
  unfold marked at hlist
  rw [String.toList_append] at hlist
  exact List.cons_ne_nil _ _ hlist

/-- The session of the line that the choice attached, without its price. -/
def chosenOn (site : Site) : Session where
  site := site
  line :=
    { data := (attach asciiPlatform marked site (answers "a" "y") ∅ (.int 7) (.int 0)).getD ∅
      productId := .int 7
      price := .null
      basePrice := none }

/-- What the choice resolves to on a site. -/
def chosen (site : Site) : Result :=
  resolve asciiPlatform (site.optionSetsForProduct 7) (answers "a" "y") (site.basePrice 7 0)
    site.today

/-- A line whose delta was made one, and nothing else. -/
def cheapened (s : Session) : Session :=
  let optionia := optioniaOf s.line.data
  let altered : Value := .arr
    [(cartItemSelections, optionia.field cartItemSelections),
      (cartItemDeltas, .arr [("a", .int 1)]),
      (cartItemConfigVersion, optionia.field cartItemConfigVersion),
      (cartItemSignature, optionia.field cartItemSignature)]
  { s with line := { s.line with data := s.line.data.set cartItemKey (.value altered) } }

theorem fields_cheapened (s : Session) :
    (optioniaOf (cheapened s).line.data).field cartItemDeltas = .arr [("a", .int 1)] ∧
      (optioniaOf (cheapened s).line.data).field cartItemSignature =
        (optioniaOf s.line.data).field cartItemSignature := by
  unfold optioniaOf cheapened
  rw [OrderedMap.get?_set_self]
  exact ⟨rfl, rfl⟩

theorem data_chosenOn {site : Site} (hsets : site.optionSetsForProduct 7 ≠ [])
    (h : chosen site = .ok r) (hne : r.resolved.entries ≠ []) :
    attach asciiPlatform marked site (answers "a" "y") ∅ (.int 7) (.int 0) =
        some (chosenOn site).line.data ∧
      optioniaOf (chosenOn site).line.data = payload marked site.configVersion r := by
  have hid : intOf (.int 7) = 7 := rfl
  have hvariation : intOf (.int 0) = 0 := rfl
  have hattach : attach asciiPlatform marked site (answers "a" "y") ∅ (.int 7) (.int 0) =
      some ((∅ : CartItemData).set cartItemKey
        (.value (payload marked site.configVersion r))) := by
    refine attach_eq ?_ ?_ ?_ hne
    · rw [hid]
      decide
    · rw [hid]
      exact hsets
    · rw [hid, hvariation]
      exact h
  have hdata : (chosenOn site).line.data =
      (∅ : CartItemData).set cartItemKey (.value (payload marked site.configVersion r)) := by
    change (attach asciiPlatform marked site (answers "a" "y") ∅ (.int 7) (.int 0)).getD ∅ = _
    rw [hattach]
    rfl
  refine ⟨hdata ▸ hattach, ?_⟩
  rw [hdata]
  unfold optioniaOf
  rw [OrderedMap.get?_set_self]

/-- A price of 2.50 is kept where 9.00 is published and the base is 12.00; with
its delta made 0.01 the line is not charged that. -/
theorem frozen_or_live_chosen :
    ((((chosenOn (choiceSite 1000 250)).run asciiPlatform marked 2
        [.publish (choiceSite 0 900), .load (.str "12.00")]).step asciiPlatform marked 2
          .fire).line.price = .str "14.50") ∧
      Live asciiPlatform marked 2 ((cheapened (chosenOn (choiceSite 1000 250))).run asciiPlatform
        marked 2 [.publish (choiceSite 0 900), .load (.str "12.00")]) := by
  have hsets : (choiceSite 1000 250).optionSetsForProduct 7 ≠ [] := List.cons_ne_nil _ _
  obtain ⟨r, hr⟩ := @eq_ok_of_value (chosen (choiceSite 1000 250)) (by decide +kernel)
  have hread : (chosen (choiceSite 1000 250)).value.map (fun r =>
      (r.resolved.entries.length, r.unpriced, quoted r, r.deltas.get? "a")) =
      some (1, [], [250], some (.int 250)) := by decide +kernel
  rw [hr] at hread
  have hall := Option.some.inj hread
  simp only [Prod.mk.injEq] at hall
  obtain ⟨hlength, hpriced, hquoted, hdelta⟩ := hall
  have hne : r.resolved.entries ≠ [] := by
    intro hnil
    rw [hnil] at hlength
    exact absurd hlength (by decide)
  obtain ⟨hattach, hoptionia⟩ := data_chosenOn hsets hr hne
  obtain ⟨hfrozen, hlive⟩ := frozen_or_live asciiPlatform 2 marked_injective marked_ne
    (show intOf (.int 7) ≠ 0 by decide) hsets hr hne hpriced hattach
  constructor
  · have hwithin := hfrozen (chosenOn (choiceSite 1000 250))
      [.publish (choiceSite 0 900), .load (.str "12.00")] rfl
    have hresolves : (((chosenOn (choiceSite 1000 250)).run asciiPlatform marked 2
        [.publish (choiceSite 0 900), .load (.str "12.00")]).line.resolved asciiPlatform
          (choiceSite 0 900) 1200).value.isSome = true := by decide +kernel
    obtain ⟨today, htoday⟩ := eq_ok_of_value hresolves
    have hprice := (hwithin 1200 today (by decide +kernel) htoday).1 (by
      rw [hquoted]
      intro n
      cases n with
      | zero => decide
      | succ n =>
        rw [List.take_succ_cons, List.take_nil]
        decide)
    rw [hprice, hquoted]
    decide +kernel
  · refine hlive (cheapened (chosenOn (choiceSite 1000 250)))
      [.publish (choiceSite 0 900), .load (.str "12.00")] ⟨?_, ?_⟩
    · rw [(fields_cheapened _).2, hoptionia]
      unfold payload signature
      rw [if_neg fun h => h hpriced]
      rfl
    · rintro ⟨selections, deltas, -, hdeltas, -, -, hperm⟩
      rw [(fields_cheapened _).1] at hdeltas
      have hmem : ("a", Value.int 1) ∈ r.deltas.entries := by
        rw [← hperm.mem_iff, ← Value.arr.inj hdeltas]
        exact List.mem_singleton_self _
      rw [← OrderedMap.get?_eq_some, hdelta] at hmem
      exact absurd (Option.some.inj hmem) (by decide)

/-- **A sum past the guard is not kept**: the day's total is charged. -/
theorem not_frozen_past_guard :
    ∃ r, chosen (choiceSite 0 Pricing.maxMinor) = .ok r ∧ r.unpriced = [] ∧
      attach asciiPlatform marked (choiceSite 0 Pricing.maxMinor) (answers "a" "y") ∅ (.int 7)
        (.int 0) = some (chosenOn (choiceSite 0 Pricing.maxMinor)).line.data ∧
      ¬ Frozen asciiPlatform marked 2 r ((chosenOn (choiceSite 0 Pricing.maxMinor)).run
        asciiPlatform marked 2 [.publish (choiceSite 0 250), .load (.str "0.10")]) := by
  obtain ⟨r, hr⟩ := @eq_ok_of_value (chosen (choiceSite 0 Pricing.maxMinor)) (by decide +kernel)
  have hread : (chosen (choiceSite 0 Pricing.maxMinor)).value.map (fun r =>
      (r.resolved.entries.length, r.unpriced, quoted r)) =
      some (1, [], [Pricing.maxMinor]) := by decide +kernel
  rw [hr] at hread
  have hall := Option.some.inj hread
  simp only [Prod.mk.injEq] at hall
  obtain ⟨hlength, hpriced, hquoted⟩ := hall
  have hne : r.resolved.entries ≠ [] := by
    intro hnil
    rw [hnil] at hlength
    exact absurd hlength (by decide)
  obtain ⟨hattach, -⟩ := data_chosenOn (List.cons_ne_nil _ _) hr hne
  refine ⟨r, hr, hpriced, hattach, fun hfrozen => ?_⟩
  have hresolves : (((chosenOn (choiceSite 0 Pricing.maxMinor)).run asciiPlatform marked 2
      [.publish (choiceSite 0 250), .load (.str "0.10")]).line.resolved asciiPlatform
        (choiceSite 0 250) 10).value.isSome = true := by decide +kernel
  have hclaimed := hfrozen 10 (by decide +kernel) (eq_ok_of_value hresolves)
  rw [hquoted] at hclaimed
  exact absurd hclaimed (by decide +kernel)

end Optionia.Cart
