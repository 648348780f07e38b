import Optionia.Engine.Soundness
import Optionia.Php.JsonText
import Optionia.Php.Keys
/-!
# What a cart line carries

`CartItemData::attach` resolves a request and writes one entry to the data of
a cart item: the selections, and beside them what was quoted, signed. A line
that holds an option without a price carries no quote. `OrderAgain::rebuild`
writes the selections of an order line and nothing else. `prune` takes away
what is no part of a line's identity.
-/

namespace Optionia.Cart

open Php Engine Engine.SelectionResolver

/-! ## Keys -/

def cartItemKey : String := "optionia"

def cartItemSelections : String := "selections"

def cartItemConfigVersion : String := "config_version"

def cartItemDeltas : String := "deltas"

def cartItemSignature : String := "signature"

def cartItemLabels : String := "labels"

def cartItemSetIds : String := "set_ids"

def cartItemOptionSets : String := "option_sets"

def cartItemSkuSuffixes : String := "sku_suffixes"

/-- `AUDIT_KEYS`: the parts that are no identity. -/
def auditKeys : List String :=
  [cartItemConfigVersion, cartItemDeltas, cartItemSignature, cartItemLabels, cartItemSetIds,
    cartItemOptionSets, cartItemSkuSuffixes]

/-! ## The data of a cart item -/

/-- What a plugin contributes to a cart item. -/
inductive Datum where
  | value (v : Value)
  /-- An object, or an array that holds one, by the query that is built from
  it. -/
  | object (query : String)

/-- The data of a cart item, of all plugins. -/
abbrev CartItemData := OrderedMap String Datum

/-- `is_numeric( $v ) ? (int) $v : 0` -/
def intOf (v : Value) : ℤ := if isNumeric v then v.toInt else 0

/-- An array of the map's entries. -/
def ofMap (m : OrderedMap String Value) : Value := .arr m.entries

/-! ## Signing -/

/-- `CartItemPayload::sign`: a hash of the selections, the deltas and the
version, keys in order. -/
def sign (wpHash : String → String) (selections deltas : List (String × Value)) (version : ℤ) :
    String :=
  wpHash (wpJsonEncode (.arr (ksortEntries selections)) ++ "|" ++
    wpJsonEncode (.arr (ksortEntries deltas)) ++ "|" ++ toString version)

/-! ## Attaching -/

/-- The site as a request finds it. -/
structure Site where
  /-- `option_sets_for_product`, of the stored configuration. -/
  optionSetsForProduct : ℤ → List Value
  configVersion : ℤ
  /-- `BasePrice::minor`, of a product and a variation. -/
  basePrice : ℤ → ℤ → ℤ
  today : Option String

/-- The entry of a resolution. A line with what cannot be priced carries no
quote. -/
def payload (wpHash : String → String) (version : ℤ) (r : Resolution) : Value :=
  let selections := ksort r.resolved
  let deltas := ksort r.deltas
  let labels := ofMap (ksort r.labels)
  let setIds := Value.ofList ((sortTexts r.setIds).map .str)
  let optionSets := ofMap ((ksort r.optionSets).mapValues .str)
  let skuSuffixes := ofMap ((ksort r.skuSuffixes).mapValues .str)
  if r.unpriced ≠ [] then
    .arr [(cartItemSelections, ofMap selections), (cartItemLabels, labels),
      (cartItemSetIds, setIds), (cartItemOptionSets, optionSets),
      (cartItemSkuSuffixes, skuSuffixes)]
  else
    .arr [(cartItemSelections, ofMap selections), (cartItemConfigVersion, .int version),
      (cartItemDeltas, ofMap deltas),
      (cartItemSignature, .str (sign wpHash selections.entries deltas.entries version)),
      (cartItemLabels, labels), (cartItemSetIds, setIds), (cartItemOptionSets, optionSets),
      (cartItemSkuSuffixes, skuSuffixes)]

/-- `CartItemData::attach`; `none` is an uncaught `TypeError`. -/
def attach (P : Platform) (wpHash : String → String) (site : Site)
    (request : OrderedMap String Value) (data : CartItemData) (productId variationId : Value) :
    Option CartItemData :=
  let id := intOf productId
  let variation := intOf variationId
  if id = 0 then some data
  else if site.optionSetsForProduct id = [] then some data
  else match resolve P (site.optionSetsForProduct id) request (site.basePrice id variation)
      site.today with
    | .threw => none
    | .errors _ => some data
    | .ok r =>
      if r.resolved.entries = [] then some data
      else some (data.set cartItemKey (.value (payload wpHash site.configVersion r)))

/-! ## Ordering again -/

/-- An answer of an order line, as it is replayed: text, or a list of texts
that is not empty. -/
def replayed? : Value → Option Value
  | .arr es =>
    if es.all (·.2.isScalar) && !es.isEmpty then
      some (.ofList (es.map fun p => .str p.2.castString))
    else none
  | v => if v.isScalar then some (.str v.castString) else none

/-- `OrderAgain::selections_from`, of what the line's meta decodes to. -/
def selectionsFrom : Value → OrderedMap String Value
  | .arr es => es.foldl (fun selections p =>
      (replayed? p.2).elim selections (selections.set p.1)) ∅
  | _ => ∅

def rebuild (data : CartItemData) (decoded : Value) : CartItemData :=
  if (selectionsFrom decoded).entries = [] then data
  else data.set cartItemKey
    (.value (.arr [(cartItemSelections, ofMap (ksort (selectionsFrom decoded)))]))

/-! ## Pruning -/

def prune (data : CartItemData) : CartItemData :=
  match data.get? cartItemKey with
  | some (.value (.arr es)) =>
    data.set cartItemKey (.value (.arr (es.filter fun p => decide (p.1 ∉ auditKeys))))
  | _ => data

/-! ## What is stored -/

/-- A stored answer: text, or a list of texts that is not empty. -/
inductive Stored : Value → Prop
  | one (s : String) : Stored (.str s)
  | many (ss : List String) (hne : ss ≠ []) : Stored (.ofList (ss.map .str))

theorem stored_stored (option : Value) {keys : List String} (hne : keys ≠ []) :
    Stored (stored option keys) := by
  unfold stored
  split
  · exact .many keys hne
  · exact .one _

theorem stored_turned {ctx : Context} {t t' : Taken} {id : String} {raw : Value}
    (h : Turned ctx t id raw t') (ht : ∀ k v, t.chosen.get? k = some v → Stored v) :
    ∀ k v, t'.chosen.get? k = some v → Stored v := by
  cases h with
  | refused bytes violation => exact ht
  | skipped => exact ht
  | answered option keys answer hoption hshown hkeys hread hfits =>
    have hcounted : (t.counted option answer).chosen = t.chosen := by
      unfold Taken.counted
      split <;> rfl
    intro k v hv
    change ((t.counted option answer).chosen.set id (.str answer)).get? k = some v at hv
    rw [hcounted] at hv
    rcases OrderedMap.get?_set_eq_some.1 hv with ⟨-, rfl⟩ | ⟨-, hv⟩
    · exact .one answer
    · exact ht k v hv
  | chosen option keys hoption hshown hkeys hne hread hsound =>
    -- The merchant's order keeps every key that was sent, and some were.
    have hauthored : authored option keys ≠ [] := by
      intro hnil
      have hperm := authored_perm (nodup_keysSent hkeys) (of_choiceViolation hsound).1
      rw [hnil] at hperm
      exact hne (List.Perm.nil_eq hperm).symm
    intro k v hv
    rcases OrderedMap.get?_set_eq_some.1 hv with ⟨-, rfl⟩ | ⟨-, hv⟩
    · exact stored_stored option hauthored
    · exact ht k v hv

variable {r : Resolution} {wpHash : String → String} {version : ℤ}

/-- **Whatever resolves is stored.** -/
theorem stored_of_resolve {P : Platform} {optionSets : List Value}
    {request : OrderedMap String Value} {base : ℤ} {today : Option String}
    (h : resolve P optionSets request base today = .ok r) :
    ∀ k v, r.resolved.get? k = some v → Stored v := by
  obtain ⟨-, hconclude⟩ := resolve_eq_ok h
  obtain ⟨-, -, totalMinor, -, rfl⟩ := conclude_eq_ok hconclude
  change ∀ k v, (takeAll _ request).chosen.get? k = some v → Stored v
  unfold takeAll
  generalize context P optionSets base today (evaluation P optionSets request).states = ctx
  have hfold : ∀ (entries : List (String × Value)) (t : Taken),
      (∀ k v, t.chosen.get? k = some v → Stored v) →
      ∀ k v, (entries.foldl (Taken.turn ctx) t).chosen.get? k = some v → Stored v := by
    intro entries
    induction entries with
    | nil => exact fun t ht => ht
    | cons selection entries ih =>
      exact fun t ht => ih _ (stored_turned (turned ctx t selection) ht)
  exact hfold _ _ fun _ _ hv => absurd hv.symm (Option.some_ne_none _)

theorem stored_of_replayed {v w : Value} (h : replayed? v = some w) : Stored w := by
  have hone : ∀ v : Value, (if v.isScalar then some (Value.str v.castString) else none) = some w →
      Stored w := by
    intro v h
    split at h
    · obtain rfl := Option.some.inj h
      exact .one _
    · simp at h
  cases v with
  | arr es =>
    unfold replayed? at h
    dsimp only at h
    split at h
    · next hall =>
      rw [Bool.and_eq_true] at hall
      obtain rfl := Option.some.inj h
      have hne : es ≠ [] := by
        rintro rfl
        exact absurd hall.2 (by decide)
      have hlist : es.map (fun p => Value.str p.2.castString) =
          (es.map fun p => p.2.castString).map .str := (List.map_map ..).symm
      rw [hlist]
      exact .many _ (by rwa [Ne, List.map_eq_nil_iff])
    · simp at h
  | null => exact hone .null h
  | bool b => exact hone (.bool b) h
  | int n => exact hone (.int n) h
  | float x => exact hone (.float x) h
  | str s => exact hone (.str s) h

/-- **Whatever is replayed is stored.** -/
theorem stored_of_selectionsFrom (decoded : Value) :
    ∀ k v, (selectionsFrom decoded).get? k = some v → Stored v := by
  have hnone : ∀ k v, (∅ : OrderedMap String Value).get? k = some v → Stored v :=
    fun _ _ hv => absurd hv.symm (Option.some_ne_none _)
  cases decoded with
  | arr es =>
    unfold selectionsFrom
    dsimp only
    revert hnone
    generalize (∅ : OrderedMap String Value) = start
    induction es generalizing start with
    | nil => exact fun ht => ht
    | cons p es ih =>
      intro ht
      rw [List.foldl_cons]
      refine ih _ ?_
      cases hreplayed : replayed? p.2 with
      | none => exact ht
      | some w =>
        intro k v hv
        rcases OrderedMap.get?_set_eq_some.1 hv with ⟨-, rfl⟩ | ⟨-, hv⟩
        · exact stored_of_replayed hreplayed
        · exact ht k v hv
  | _ => exact hnone

/-! ## The quote on a cart line

`CartItemPayload`, read back: the deltas a line carries are its price where
the signature verifies and they cover the line's selections, and there is no
quote otherwise. The entry of a resolution carries its own deltas, where all
of it was priced (`trustedDeltas_payload`).
-/

def verify (wpHash : String → String) (optionia : Value) : Bool :=
  match optionia.field cartItemSignature, optionia.field cartItemSelections,
      optionia.field cartItemDeltas, optionia.field cartItemConfigVersion with
  | .str signature, .arr selections, .arr deltas, .int version =>
    signature != "" && sign wpHash selections deltas version == signature
  | _, _, _, _ => false

def frozenDeltas (wpHash : String → String) (optionia : Value) : Option (List (String × ℤ)) :=
  if verify wpHash optionia then
    match optionia.field cartItemDeltas with
    | .arr deltas => deltas.mapM fun p => p.2.int?.map fun delta => (p.1, delta)
    | _ => none
  else none

def trustedDeltas (wpHash : String → String) (optionia : Value)
    (selections : List (String × Value)) : Option (List (String × ℤ)) :=
  (frozenDeltas wpHash optionia).bind fun frozen =>
    selections.mapM fun p => (frozen.lookup p.1).map fun delta => (p.1, delta)

/-! ## The quote of a resolution -/

theorem of_mapM_keyed {α β : Type} {g : String × α → Option β} {l : List (String × α)}
    {l' : List (String × β)} (h : (l.mapM fun p => (g p).map fun b => (p.1, b)) = some l') :
    l'.map Prod.fst = l.map Prod.fst ∧
      ((l.map Prod.fst).Nodup → ∀ p ∈ l, ∃ b, g p = some b ∧ l'.lookup p.1 = some b) := by
  induction l generalizing l' with
  | nil =>
    obtain rfl := Option.some.inj h
    exact ⟨rfl, fun _ p hp => absurd hp List.not_mem_nil⟩
  | cons q l ih =>
    rw [List.mapM_cons] at h
    obtain ⟨first, hfirst, hrest⟩ := Option.bind_eq_some_iff.1 h
    obtain ⟨rest, hmap, hpure⟩ := Option.bind_eq_some_iff.1 hrest
    obtain rfl := Option.some.inj hpure
    obtain ⟨b, hb, rfl⟩ := Option.map_eq_some_iff.1 hfirst
    obtain ⟨hkeys, hread⟩ := ih hmap
    refine ⟨congrArg (q.1 :: ·) hkeys, fun hnodup p hp => ?_⟩
    obtain ⟨hq, hl⟩ := List.nodup_cons.1 hnodup
    rcases List.mem_cons.1 hp with rfl | hp
    · exact ⟨b, hb, List.lookup_cons_self⟩
    · obtain ⟨b', hb', hlookup⟩ := hread hl p hp
      have hne : p.1 ≠ q.1 := fun heq => hq (heq ▸ List.mem_map_of_mem hp)
      refine ⟨b', hb', ?_⟩
      rw [List.lookup_cons, beq_eq_false_iff_ne.2 hne]
      exact hlookup

theorem isSome_lookup {α : Type} {l : List (String × α)} {k : String} :
    (l.lookup k).isSome = true ↔ k ∈ l.map Prod.fst := by
  rw [List.lookup_isSome_iff, List.mem_map]
  constructor
  · rintro ⟨p, hp, hk⟩
    exact ⟨p, hp, (beq_iff_eq.1 hk).symm⟩
  · rintro ⟨p, hp, rfl⟩
    exact ⟨p, hp, beq_self_eq_true _⟩

theorem eq_int_of_int? {v : Value} {n : ℤ} (h : v.int? = some n) : v = .int n := by
  cases v with
  | int m => exact congrArg Value.int (Option.some.inj h)
  | _ => exact nomatch h

theorem isSome_mapM {α β : Type} {f : α → Option β} {l : List α}
    (h : ∀ a ∈ l, (f a).isSome = true) : (l.mapM f).isSome = true := by
  induction l with
  | nil => rfl
  | cons a l ih =>
    obtain ⟨ha, hrest⟩ := List.forall_mem_cons.1 h
    obtain ⟨b, hb⟩ := Option.isSome_iff_exists.1 ha
    obtain ⟨bs, hbs⟩ := Option.isSome_iff_exists.1 (ih hrest)
    rw [List.mapM_cons, hb, hbs]
    rfl

/-- The signature of a resolution's entry. -/
def signature (wpHash : String → String) (version : ℤ) (r : Resolution) : String :=
  sign wpHash (ksort r.resolved).entries (ksort r.deltas).entries version

/-- An entry verifies where all of it was priced, by a signature that is not
empty. -/
theorem verify_payload : verify wpHash (payload wpHash version r) = true ↔
      r.unpriced = [] ∧ signature wpHash version r ≠ "" := by
  unfold payload
  dsimp only
  by_cases hpriced : r.unpriced = []
  · rw [if_neg (not_not.2 hpriced)]
    change (signature wpHash version r != "" &&
      signature wpHash version r == signature wpHash version r) = true ↔ _
    rw [beq_self_eq_true, Bool.and_true, bne_iff_ne]
    exact ⟨fun h => ⟨hpriced, h⟩, fun h => h.2⟩
  · rw [if_pos hpriced]
    exact ⟨fun h => absurd h Bool.false_ne_true, fun h => absurd h.1 hpriced⟩

theorem field_payload_deltas (h : r.unpriced = []) :
    (payload wpHash version r).field cartItemDeltas = .arr (ksort r.deltas).entries := by
  unfold payload
  dsimp only
  rw [if_neg (not_not.2 h)]
  rfl

/-- **The quote of a resolution's entry is its own deltas.** -/
theorem trustedDeltas_payload {deltas : List (String × ℤ)}
    (h : trustedDeltas wpHash (payload wpHash version r) (ksort r.resolved).entries = some deltas) :
    deltas.map Prod.fst = (ksort r.resolved).keys ∧
      ∀ id ∈ r.resolved.keys, ∃ delta, r.deltas.get? id = some (.int delta) ∧
        deltas.lookup id = some delta := by
  obtain ⟨frozen, hfrozen, hcover⟩ := Option.bind_eq_some_iff.1 h
  unfold frozenDeltas at hfrozen
  split at hfrozen
  · next hverify =>
    rw [field_payload_deltas (verify_payload.1 hverify).1] at hfrozen
    obtain ⟨hfrozenKeys, hread⟩ := of_mapM_keyed hfrozen
    obtain ⟨hkeys, htrust⟩ := of_mapM_keyed hcover
    refine ⟨hkeys, fun id hid => ?_⟩
    obtain ⟨p, hp, rfl⟩ := List.mem_map.1 (mem_keys_ksort.2 hid)
    obtain ⟨delta, hdelta, hlookup⟩ := htrust (ksort r.resolved).nodup p hp
    -- The frozen delta is read of the entry that bears the option's id.
    have hmem : p.1 ∈ (ksort r.deltas).entries.map Prod.fst := by
      rw [← hfrozenKeys, ← isSome_lookup, hdelta]
      rfl
    obtain ⟨q, hq, hkey⟩ := List.mem_map.1 hmem
    obtain ⟨frozenDelta, hint, hfrozenLookup⟩ := hread (ksort r.deltas).nodup q hq
    rw [hkey, hdelta] at hfrozenLookup
    obtain rfl := Option.some.inj hfrozenLookup
    refine ⟨delta, ?_, hlookup⟩
    rw [← get?_ksort, ← hkey, ← eq_int_of_int? hint]
    exact OrderedMap.get?_eq_some.2 hq
  · exact nomatch hfrozen

/-- **A resolution's entry is trusted where all of it was priced**, by a
signature that is not empty. -/
theorem isSome_trustedDeltas (hcover : ∀ id ∈ r.resolved.keys, id ∈ r.deltas.keys)
    (hints : ∀ v ∈ r.deltas.values, v.int?.isSome = true) :
    (trustedDeltas wpHash (payload wpHash version r) (ksort r.resolved).entries).isSome = true ↔
      r.unpriced = [] ∧ signature wpHash version r ≠ "" := by
  rw [← verify_payload]
  unfold trustedDeltas frozenDeltas
  constructor
  · intro h
    by_contra hverify
    rw [if_neg hverify] at h
    simp at h
  · intro hverify
    rw [if_pos hverify, field_payload_deltas (verify_payload.1 hverify).1]
    dsimp only
    obtain ⟨frozen, hfrozen⟩ := Option.isSome_iff_exists.1 (isSome_mapM
      (f := fun p : String × Value => p.2.int?.map fun delta => (p.1, delta))
      (l := (ksort r.deltas).entries) fun p hp => by
        rw [Option.isSome_map]
        exact hints p.2 (List.mem_map_of_mem ((entries_ksort r.deltas).mem_iff.1 hp)))
    rw [hfrozen, Option.bind_some]
    refine isSome_mapM fun p hp => ?_
    rw [Option.isSome_map, isSome_lookup, (of_mapM_keyed hfrozen).1]
    exact mem_keys_ksort.2 (hcover p.1 (mem_keys_ksort.1 (List.mem_map_of_mem hp)))

end Optionia.Cart
