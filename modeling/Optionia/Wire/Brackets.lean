import Optionia.Cloud.TypeRegistry
import Optionia.Sets.Published
import Optionia.Wire.Tiers
/-!
# Brackets that cover every quantity

`tieredPricing` compares neighbours after a sort; `tier_amount` and
`tierAmount` walk the tiers as they are stored and read no maximum. What the
schema accepts parts the quantities from one upwards: each is in one bracket,
and both charge by it (`charged_by_one`).
-/

namespace Optionia.Wire

open Cloud Js Sets

/-! ## Brackets -/

/-- A tier that was stored. -/
structure Bracket where
  least : ℤ
  /-- `maxQuantity`, or none where it is open. -/
  greatest : Option ℤ
  amount : ℤ
  deriving DecidableEq

def toBracket (tier : Json) : Bracket where
  least := ((tier.parse.field "minQuantity").safeInteger?).getD 0
  greatest := (tier.parse.field "maxQuantity").safeInteger?
  amount := ((tier.parse.field "amountMinor").safeInteger?).getD 0

/-- The tiers of a stored price. -/
def tiersOf (price : Record) : List Json := elements ((price.lookup "tiers").getD .null)

def brackets (price : Record) : List Bracket := (tiersOf price).map toBracket

/-- **A quantity is in a bracket's interval**: from its least quantity to the
next larger one. -/
def Bracket.Holds (brackets : List Bracket) (quantity : ℚ) (b : Bracket) : Prop :=
  (b.least : ℚ) ≤ quantity ∧ ∀ other ∈ brackets, b.least < other.least → quantity < other.least

/-- A whole quantity is between a bracket's ends. -/
def Bracket.Spans (quantity : ℤ) (b : Bracket) : Prop :=
  b.least ≤ quantity ∧ ∀ greatest, b.greatest = some greatest → quantity ≤ greatest

instance (brackets : List Bracket) (quantity : ℚ) :
    DecidablePred (Bracket.Holds brackets quantity) :=
  fun _ => inferInstanceAs (Decidable (_ ∧ _))

instance (quantity : ℤ) : DecidablePred (Bracket.Spans quantity) := fun b =>
  inferInstanceAs (Decidable (b.least ≤ quantity ∧
    ∀ greatest, b.greatest = some greatest → quantity ≤ greatest))

/-! ## What meets, in order -/

variable {ends : List (ℤ × Option ℤ)}

theorem meetsNext_some {tier next : ℤ × Option ℤ} (h : meetsNext tier (some next) = true) :
    ∃ greatest, tier.2 = some greatest ∧ tier.1 ≤ greatest ∧ next.1 = greatest + 1 := by
  unfold meetsNext at h
  cases hend : tier.2 with
  | none =>
    rw [hend] at h
    simp at h
  | some greatest =>
    rw [hend] at h
    simp only [Option.all_some, Bool.and_eq_true, Bool.not_eq_true', decide_eq_false_iff_not] at h
    obtain ⟨hstart, hoverlap, hgap⟩ := h
    exact ⟨greatest, rfl, by omega, by omega⟩

/-- **Ends that meet lie apart**: each ends before any later one starts. -/
theorem pairwise_of_tiersMeet (h : tiersMeet ends = true) :
    ends.Pairwise fun a b => ∃ greatest, a.2 = some greatest ∧ a.1 ≤ greatest ∧
      greatest < b.1 := by
  induction ends with
  | nil => exact .nil
  | cons tier ends ih =>
    unfold tiersMeet at h
    obtain ⟨hnext, hrest⟩ := Bool.and_eq_true_iff.1 h
    have hpairs := ih hrest
    refine List.pairwise_cons.2 ⟨fun b hb => ?_, hpairs⟩
    cases ends with
    | nil => simp at hb
    | cons next ends =>
      obtain ⟨greatest, hend, hstart, hmeet⟩ := meetsNext_some hnext
      refine ⟨greatest, hend, hstart, ?_⟩
      obtain rfl | hb := List.mem_cons.1 hb
      · omega
      · obtain ⟨last, -, hlast, hbefore⟩ := (List.pairwise_cons.1 hpairs).1 b hb
        omega

/-- **What ends is followed**, where the last is open. -/
theorem followed_of_tiersMeet (h : tiersMeet ends = true)
    (hopen : ends.getLast?.all (fun last => last.2.isNone) = true) {tier : ℤ × Option ℤ}
    (hmem : tier ∈ ends) {greatest : ℤ} (hend : tier.2 = some greatest) :
    tier.1 ≤ greatest ∧ ∃ next ∈ ends, next.1 = greatest + 1 := by
  induction ends with
  | nil => simp at hmem
  | cons first ends ih =>
    unfold tiersMeet at h
    obtain ⟨hnext, hrest⟩ := Bool.and_eq_true_iff.1 h
    cases ends with
    | nil =>
      obtain rfl := List.mem_singleton.1 hmem
      rw [List.getLast?_singleton, Option.all_some, hend] at hopen
      simp at hopen
    | cons second ends =>
      obtain rfl | hmem := List.mem_cons.1 hmem
      · obtain ⟨last, hlast, hstart, hmeet⟩ := meetsNext_some hnext
        obtain rfl : last = greatest := Option.some.inj (hlast.symm.trans hend)
        exact ⟨hstart, second, List.mem_cons_of_mem _ List.mem_cons_self, hmeet⟩
      · rw [List.getLast?_cons_cons] at hopen
        obtain ⟨hstart, next, hin, hmeet⟩ := ih hrest hopen hmem
        exact ⟨hstart, next, List.mem_cons_of_mem _ hin, hmeet⟩

/-! ## Brackets that cover -/

/-- **Brackets that part the quantities from one upwards.** -/
structure Cover (brackets : List Bracket) : Prop where
  distinct : (brackets.map (·.least)).Nodup
  starts : ∃ b ∈ brackets, b.least = 1
  apart : ∀ b ∈ brackets, ∀ other ∈ brackets, b.least < other.least →
    ∃ greatest, b.greatest = some greatest ∧ greatest < other.least
  followed : ∀ b ∈ brackets, ∀ greatest, b.greatest = some greatest →
    b.least ≤ greatest ∧ ∃ next ∈ brackets, next.least = greatest + 1

variable {bs : List Bracket}

theorem Cover.perm (h : Cover bs) {bs' : List Bracket} (hperm : bs'.Perm bs) : Cover bs' where
  distinct := (hperm.map _).nodup_iff.2 h.distinct
  starts := by
    obtain ⟨b, hb, hone⟩ := h.starts
    exact ⟨b, hperm.mem_iff.2 hb, hone⟩
  apart := fun b hb other hother => h.apart b (hperm.mem_iff.1 hb) other (hperm.mem_iff.1 hother)
  followed := fun b hb greatest hend => by
    obtain ⟨hstart, next, hnext, hmeet⟩ := h.followed b (hperm.mem_iff.1 hb) greatest hend
    exact ⟨hstart, next, hperm.mem_iff.2 hnext, hmeet⟩

theorem Cover.eq_of_least (h : Cover bs) {b other : Bracket} (hb : b ∈ bs) (hother : other ∈ bs)
    (hleast : b.least = other.least) : b = other :=
  List.inj_on_of_nodup_map h.distinct hb hother hleast

/-- **A whole quantity is in a bracket's interval where it is between its
ends.** -/
theorem Cover.holds_iff_spans (h : Cover bs) {b : Bracket} (hb : b ∈ bs) (n : ℤ) :
    b.Holds bs n ↔ b.Spans n := by
  unfold Bracket.Holds Bracket.Spans
  constructor
  · rintro ⟨hle, hnext⟩
    refine ⟨by exact_mod_cast hle, fun greatest hend => ?_⟩
    obtain ⟨hstart, next, hin, hmeet⟩ := h.followed b hb greatest hend
    have hbelow : (n : ℚ) < next.least := hnext next hin (by omega)
    have hn : n < next.least := by exact_mod_cast hbelow
    omega
  · rintro ⟨hle, hends⟩
    refine ⟨by exact_mod_cast hle, fun other hother hlt => ?_⟩
    obtain ⟨greatest, hend, hbefore⟩ := h.apart b hb other hother hlt
    have hn : n < other.least := by
      have := hends greatest hend
      omega
    exact_mod_cast hn

theorem eq_singleton_of_forall {α : Type} {l : List α} {a : α} (hnodup : l.Nodup) (ha : a ∈ l)
    (hall : ∀ b ∈ l, b = a) : l = [a] := by
  refine List.perm_singleton.1 ?_
  rw [List.perm_ext_iff_of_nodup hnodup (List.nodup_singleton a)]
  intro b
  rw [List.mem_singleton]
  exact ⟨hall b, fun h => h ▸ ha⟩

/-- A bracket as the evaluators read it. -/
def Bracket.tier (b : Bracket) : ℤ × ℤ := (b.least, b.amount)

/-- **A quantity from one upwards is in one bracket**, the highest it reaches. -/
theorem Cover.exists_holds (h : Cover bs) {quantity : ℚ} (hone : 1 ≤ quantity) :
    ∃ b, bs.filter (fun b => decide (b.Holds bs quantity)) = [b] ∧
      highest ((bs.filter fun b => decide ((b.least : ℚ) ≤ quantity)).map Bracket.tier) =
        some b.tier := by
  obtain ⟨first, hfirst, hstart⟩ := h.starts
  have hreached : first ∈ bs.filter fun b => decide ((b.least : ℚ) ≤ quantity) := by
    rw [List.mem_filter, decide_eq_true_eq, hstart]
    exact ⟨hfirst, by exact_mod_cast hone⟩
  cases hhighest : highest
      ((bs.filter fun b => decide ((b.least : ℚ) ≤ quantity)).map Bracket.tier) with
  | none =>
    have hnil := List.map_eq_nil_iff.1 (List.argmax_eq_none.1 hhighest)
    rw [hnil] at hreached
    simp at hreached
  | some tier =>
    obtain ⟨b, hb, rfl⟩ := List.mem_map.1 (mem_of_highest hhighest)
    obtain ⟨hin, hle⟩ := List.mem_filter.1 hb
    rw [decide_eq_true_eq] at hle
    have hmost : ∀ other ∈ bs, (other.least : ℚ) ≤ quantity → other.least ≤ b.least := by
      intro other hother hreach
      exact le_of_highest hhighest (List.mem_map_of_mem
        (List.mem_filter.2 ⟨hother, decide_eq_true hreach⟩))
    refine ⟨b, eq_singleton_of_forall (h.distinct.of_map.filter _) ?_ ?_, rfl⟩
    · rw [List.mem_filter, decide_eq_true_eq]
      refine ⟨hin, hle, fun other hother hlt => ?_⟩
      by_contra hreach
      exact absurd (hmost other hother (not_lt.1 hreach)) (not_le.2 hlt)
    · intro other hother
      obtain ⟨hmem, hholds⟩ := List.mem_filter.1 hother
      rw [decide_eq_true_eq] at hholds
      have hbelow := hmost other hmem hholds.1
      refine h.eq_of_least hmem hin (le_antisymm hbelow (not_lt.1 fun hlt => ?_))
      exact absurd hle (not_le.2 (hholds.2 b hin hlt))

/-! ## What the schema accepts -/

theorem field_parse (v : Json) (k : String) :
    v.parse.field k = ((v.get? k).map Json.parse).getD .undefined := by
  cases v with
  | obj es => exact Json.field_parse_obj es k
  | _ => rfl

/-- **A tier of the schema**: its start and its amount are safe integers. -/
structure TierShape (tier : Json) : Prop where
  least : (tier.parse.field "minQuantity").safeInteger? = some (toBracket tier).least
  amount : (tier.parse.field "amountMinor").safeInteger? = some (toBracket tier).amount

variable {price : Record}

/-- **What `tieredPricing` accepts**: tiers of a shape, whose ends cover. -/
theorem of_tieredPricing (h : tieredPricing (Json.obj price).parse = true) :
    price.lookup "type" = some (.str "tiered") ∧ tiersOf price ≠ [] ∧
      (∀ tier ∈ tiersOf price, TierShape tier) ∧
      tiersCover (Json.obj price).parse = true := by
  unfold tieredPricing Schema.refine at h
  obtain ⟨hobject, hcover⟩ := Bool.and_eq_true_iff.1 h
  have hall := Js.Schema.all_of_object hobject
  have htype := hall (Schema.required "type" (Schema.oneOf ["tiered"])) List.mem_cons_self
  have htiers := hall _ (List.mem_cons_of_mem _ List.mem_cons_self)
  rw [field_parse] at htype htiers
  have htyped : price.lookup "type" = some (.str "tiered") := by
    change Schema.oneOf ["tiered"] (((price.lookup "type").map Json.parse).getD .undefined) =
      true at htype
    cases hlookup : price.lookup "type" with
    | none =>
      rw [hlookup] at htype
      exact absurd htype Bool.false_ne_true
    | some v =>
      rw [hlookup] at htype
      cases v with
      | str type =>
        have hmem : type ∈ ["tiered"] := List.contains_iff_mem.1 htype
        rw [List.mem_singleton.1 hmem]
      | _ => exact absurd htype Bool.false_ne_true
  obtain ⟨tiers, hlookup, hlength, hshapes⟩ : ∃ tiers, price.lookup "tiers" = some (.arr tiers) ∧
      1 ≤ tiers.length ∧ ∀ tier ∈ tiers, TierShape tier := by
    cases hlookup : price.lookup "tiers" with
    | none =>
      change Schema.array _ 1 50 (((price.lookup "tiers").map Json.parse).getD .undefined) = true
        at htiers
      rw [hlookup] at htiers
      exact absurd htiers Bool.false_ne_true
    | some v =>
      change Schema.array _ 1 50 (((price.lookup "tiers").map Json.parse).getD .undefined) = true
        at htiers
      rw [hlookup] at htiers
      cases v with
      | arr tiers =>
        refine ⟨tiers, rfl, ?_⟩
        change (_ && decide (1 ≤ (Json.parseList tiers).length) && _) = true at htiers
        rw [Bool.and_eq_true, Bool.and_eq_true, decide_eq_true_eq, Json.parseList_eq_map,
          List.length_map, List.all_map, List.all_eq_true] at htiers
        obtain ⟨⟨hshapes, hlength⟩, -⟩ := htiers
        refine ⟨hlength, fun tier htier => ?_⟩
        have hmembers := Js.Schema.all_of_object (Bool.and_eq_true_iff.1 (hshapes tier htier)).1
        exact
          { least := Js.Schema.safeInteger?_of_int (hmembers _ List.mem_cons_self)
            amount := Js.Schema.safeInteger?_of_int (hmembers _
              (List.mem_cons_of_mem _ (List.mem_cons_of_mem _ List.mem_cons_self))) }
      | _ => exact absurd htiers Bool.false_ne_true
  have htiersOf : tiersOf price = tiers := by
    unfold tiersOf
    rw [hlookup]
    rfl
  rw [htiersOf]
  refine ⟨htyped, fun hnil => ?_, hshapes, hcover⟩
  rw [hnil] at hlength
  exact absurd hlength (by decide)

theorem filterMap_tierEnds (h : ∀ tier ∈ tiersOf price, TierShape tier) :
    ((Json.obj price).parse.field "tiers").items.filterMap tierEnds =
      (brackets price).map fun b => (b.least, b.greatest) := by
  have hitems : ((Json.obj price).parse.field "tiers").items = (tiersOf price).map Json.parse := by
    rw [field_parse]
    unfold tiersOf
    change (((price.lookup "tiers").map Json.parse).getD .undefined).items = _
    cases price.lookup "tiers" with
    | none => rfl
    | some v =>
      cases v with
      | arr tiers => exact Json.parseList_eq_map tiers
      | _ => rfl
  rw [hitems]
  unfold brackets
  rw [List.map_map, List.filterMap_map]
  refine List.filterMap_eq_map_iff_forall_eq_some.2 fun tier htier => ?_
  change tierEnds tier.parse = some ((toBracket tier).least, (toBracket tier).greatest)
  unfold tierEnds
  rw [(h tier htier).least]
  rfl

/-- **What the schema accepts covers.** -/
theorem cover_of_tieredPricing (h : tieredPricing (Json.obj price).parse = true) :
    Cover (brackets price) := by
  obtain ⟨-, hne, hshapes, hcover⟩ := of_tieredPricing h
  unfold tiersCover at hcover
  rw [filterMap_tierEnds hshapes] at hcover
  dsimp only at hcover
  rw [Bool.and_eq_true, Bool.and_eq_true] at hcover
  obtain ⟨⟨hfirst, hopen⟩, hmeet⟩ := hcover
  have hperm := List.perm_insertionSort (fun a b : ℤ × Option ℤ => a.1 ≤ b.1)
    ((brackets price).map fun b => (b.least, b.greatest))
  generalize ((brackets price).map fun b => (b.least, b.greatest)).insertionSort
    (fun a b => a.1 ≤ b.1) = ends at hfirst hopen hmeet hperm
  have hpairs := pairwise_of_tiersMeet hmeet
  have hends : ∀ b ∈ brackets price, (b.least, b.greatest) ∈ ends := fun b hb =>
    hperm.mem_iff.2 (List.mem_map_of_mem hb)
  have hstart : ∀ e ∈ ends, ∃ b ∈ brackets price, b.least = e.1 := by
    intro e he
    obtain ⟨b, hb, rfl⟩ := List.mem_map.1 (hperm.mem_iff.1 he)
    exact ⟨b, hb, rfl⟩
  refine ⟨?_, ?_, ?_, ?_⟩
  · have hnodup : (ends.map Prod.fst).Nodup := by
      rw [List.Nodup, List.pairwise_map]
      refine hpairs.imp fun {a b} hab => ?_
      obtain ⟨greatest, -, hle, hlt⟩ := hab
      omega
    have hmap := (hperm.map Prod.fst).nodup_iff.1 hnodup
    rwa [List.map_map] at hmap
  · cases hends' : ends with
    | nil =>
      rw [hends'] at hperm
      have hnil := List.map_eq_nil_iff.1 (List.nil_perm.1 hperm)
      exact absurd (List.map_eq_nil_iff.1 hnil) hne
    | cons first rest =>
      rw [hends', List.head?_cons, Option.all_some, decide_eq_true_eq] at hfirst
      obtain ⟨b, hb, hleast⟩ := hstart first (hends' ▸ List.mem_cons_self)
      exact ⟨b, hb, hleast.trans hfirst⟩
  · intro b hb other hother hlt
    -- One of the two comes first in order, and it is the one that starts lower.
    obtain hfirst | hfirst := Sorting.pairwise_or hpairs (hends b hb) (hends other hother)
      fun heq => absurd (congrArg Prod.fst heq) (by
        change ¬ b.least = other.least
        omega)
    · obtain ⟨greatest, hend, -, hbefore⟩ := hfirst
      exact ⟨greatest, hend, hbefore⟩
    · obtain ⟨greatest, -, hle, hbefore⟩ := hfirst
      dsimp only at hle hbefore
      omega
  · intro b hb greatest hend
    obtain ⟨hle, next, hnext, hmeets⟩ := followed_of_tiersMeet hmeet hopen (hends b hb) hend
    obtain ⟨other, hother, hleast⟩ := hstart next hnext
    exact ⟨hle, other, hother, hleast.trans hmeets⟩

/-! ## What is charged -/

/-- The published tiers of a price. -/
def publishedTiers (price : Record) : Js.Value :=
  (Json.obj (toPublishedPrice price)).parse.field "tiers"

/-- `tier_amount`, over the published tiers. -/
def pluginAmount (price : Record) (quantity : Binary64) : Option ℤ :=
  Engine.tierAmount (published (publishedTiers price)) quantity

/-- `tierAmount`, over the published tiers. -/
def cloudAmount (price : Record) (quantity : Binary64) : Option ℤ :=
  Cloud.tierAmount (publishedTiers price) quantity

def publishedTier (tier : Json) : Json :=
  .obj (member "min_quantity" (tier.get? "minQuantity") ++
    [("max_quantity", orNull (tier.get? "maxQuantity") .null)] ++
      member "amount_minor" (tier.get? "amountMinor"))

theorem publishedTiers_eq (h : price.lookup "type" = some (.str "tiered")) :
    publishedTiers price = .arr ((tiersOf price).map fun tier => (publishedTier tier).parse) := by
  have hprice : toPublishedPrice price =
      [("type", .str "tiered"), ("tiers", toPublishedTiers price)] := by
    unfold toPublishedPrice
    rw [h]
    rfl
  unfold publishedTiers
  rw [hprice]
  change (toPublishedTiers price).parse = _
  unfold toPublishedTiers
  change Js.Value.arr (Json.parseList _) = _
  rw [Json.parseList_eq_map, List.map_map]
  rfl

theorem field_publishedTier (tier : Json) :
    (publishedTier tier).parse.field "min_quantity" = tier.parse.field "minQuantity" ∧
      (publishedTier tier).parse.field "amount_minor" = tier.parse.field "amountMinor" := by
  rw [field_parse, field_parse, field_parse, field_parse]
  unfold publishedTier
  generalize tier.get? "minQuantity" = least
  generalize tier.get? "amountMinor" = amount
  cases least with
  | none =>
    cases amount with
    | none => exact ⟨rfl, rfl⟩
    | some amount => exact ⟨rfl, rfl⟩
  | some least =>
    cases amount with
    | none => exact ⟨rfl, rfl⟩
    | some amount => exact ⟨rfl, rfl⟩

/-- **A published tier is read as its bracket.** -/
theorem tierRead_publishedTier {tier : Json} (h : TierShape tier) :
    tierRead (published (publishedTier tier).parse) = some (toBracket tier).tier ∧
      tierSafe (toBracket tier).tier = true := by
  obtain ⟨hminField, hamountField⟩ := field_publishedTier tier
  obtain ⟨hleast, hleastSafe⟩ := int?_of_safeInteger? h.least
  obtain ⟨hamount, hamountSafe⟩ := int?_of_safeInteger? h.amount
  constructor
  · unfold tierRead
    have hmin : (published (publishedTier tier).parse).field "min_quantity" =
        published (tier.parse.field "minQuantity") := by
      rw [← hminField]
      exact field_published _ _
    have hamt : (published (publishedTier tier).parse).field "amount_minor" =
        published (tier.parse.field "amountMinor") := by
      rw [← hamountField]
      exact field_published _ _
    rw [hmin, hamt, hleast, hamount]
    rfl
  · unfold tierSafe
    exact decide_eq_true ⟨hleastSafe, hamountSafe⟩

theorem lt_ofInt_of_safe {n : ℤ} (h : |n| ≤ Engine.Pricing.maxMinor) (x : Binary64.Finite) :
    (!(Binary64.finite x).lt (.ofInt n)) = decide ((n : ℚ) ≤ x.val) := by
  unfold Engine.Pricing.maxMinor at h
  obtain ⟨w, hw, hval⟩ := Binary64.exists_ofInt_eq (n := n) (by omega)
  rw [hw, Binary64.lt, hval, Bool.eq_iff_iff, Bool.not_eq_true', decide_eq_false_iff_not,
    decide_eq_true_eq, not_lt]

/-- **The tiers a quantity reaches are those brackets.** -/
theorem reached_publishedTiers (hshapes : ∀ tier ∈ tiersOf price, TierShape tier)
    (x : Binary64.Finite) :
    reachedOf ((tiersOf price).map fun tier => published (publishedTier tier).parse) (.finite x) =
      ((brackets price).filter fun b => decide ((b.least : ℚ) ≤ x.val)).map Bracket.tier := by
  have hread : ((tiersOf price).map fun tier => published (publishedTier tier).parse).filterMap
      tierRead = (brackets price).map Bracket.tier := by
    unfold brackets
    rw [List.filterMap_map, List.map_map]
    refine List.filterMap_eq_map_iff_forall_eq_some.2 fun tier htier => ?_
    exact (tierRead_publishedTier (hshapes tier htier)).1
  unfold reachedOf
  rw [hread, List.filter_map]
  refine congrArg (List.map Bracket.tier) (List.filter_congr fun b hb => ?_)
  obtain ⟨tier, htier, rfl⟩ := List.mem_map.1 hb
  have hsafe := of_decide_eq_true (tierRead_publishedTier (hshapes tier htier)).2
  exact lt_ofInt_of_safe hsafe.1 x

/-- **Both charge by the highest bracket that is reached.** -/
theorem amounts_eq (htype : price.lookup "type" = some (.str "tiered"))
    (hshapes : ∀ tier ∈ tiersOf price, TierShape tier) (x : Binary64.Finite) :
    let reached := ((brackets price).filter fun b => decide ((b.least : ℚ) ≤ x.val)).map
      Bracket.tier
    pluginAmount price (.finite x) = (highest reached).map Prod.snd ∧
      cloudAmount price (.finite x) = (highest reached).map Prod.snd := by
  intro reached
  have hreached := reached_publishedTiers hshapes x
  constructor
  · unfold pluginAmount Engine.tierAmount
    rw [publishedTiers_eq htype, items_published_arr, foldl_chooseTier, List.map_map]
    exact congrArg (fun tiers => (highest tiers).map Prod.snd) hreached
  · unfold cloudAmount Cloud.tierAmount
    rw [publishedTiers_eq htype]
    change ((((tiersOf price).map fun tier => (publishedTier tier).parse).foldl
      (Cloud.chooseTier (.finite x)) none).map Prod.snd) = _
    rw [foldl_chooseTier_cloud, List.map_map]
    have hall : reached.filter tierSafe = reached := by
      refine List.filter_eq_self.2 fun t ht => ?_
      obtain ⟨b, hb, rfl⟩ := List.mem_map.1 ht
      obtain ⟨tier, htier, rfl⟩ := List.mem_map.1 (List.mem_of_mem_filter hb)
      exact (tierRead_publishedTier (hshapes tier htier)).2
    refine congrArg (fun tiers => (highest tiers).map Prod.snd) (Eq.trans ?_ hall)
    exact congrArg (List.filter tierSafe) hreached

/-- **Every quantity from one upwards is charged by the one bracket it is in**,
whatever the order of the tiers: of any price the schema accepts, by the plugin
and by the cloud, and a whole quantity by the bracket it is between the ends
of. -/
theorem charged_by_one (h : tieredPricing (Json.obj price).parse = true) {x : Binary64.Finite}
    (hone : 1 ≤ x.val) :
    ∃ b, (brackets price).filter (fun b => decide (b.Holds (brackets price) x.val)) = [b] ∧
      (∀ n : ℤ, x.val = n → (brackets price).filter (fun b => decide (b.Spans n)) = [b]) ∧
      pluginAmount price (.finite x) = some b.amount ∧
      cloudAmount price (.finite x) = some b.amount ∧
      ∀ price' : Record, price'.lookup "type" = some (.str "tiered") →
        (tiersOf price').Perm (tiersOf price) →
        pluginAmount price' (.finite x) = some b.amount ∧
          cloudAmount price' (.finite x) = some b.amount := by
  obtain ⟨htype, -, hshapes, -⟩ := of_tieredPricing h
  have hcover := cover_of_tieredPricing h
  obtain ⟨b, hholds, hhighest⟩ := hcover.exists_holds hone
  -- The same bracket is the highest in any order of the tiers.
  have hordered : ∀ price' : Record, price'.lookup "type" = some (.str "tiered") →
      (tiersOf price').Perm (tiersOf price) →
      pluginAmount price' (.finite x) = some b.amount ∧
        cloudAmount price' (.finite x) = some b.amount := by
    intro price' htype' hperm
    have hbrackets : (brackets price').Perm (brackets price) := hperm.map _
    obtain ⟨b', hholds', hhighest'⟩ := (hcover.perm hbrackets).exists_holds hone
    have hsame : b' = b := by
      have hmem : b' ∈ (brackets price).filter fun b =>
          decide (b.Holds (brackets price) x.val) := by
        have hb' : b' ∈ (brackets price').filter fun b =>
            decide (b.Holds (brackets price') x.val) := hholds' ▸ List.mem_singleton_self b'
        obtain ⟨hin, hheld⟩ := List.mem_filter.1 hb'
        obtain ⟨hle, hnext⟩ := of_decide_eq_true hheld
        refine List.mem_filter.2 ⟨hbrackets.mem_iff.1 hin, decide_eq_true ⟨hle, ?_⟩⟩
        exact fun other hother => hnext other (hbrackets.mem_iff.2 hother)
      rw [hholds] at hmem
      exact List.mem_singleton.1 hmem
    obtain ⟨hplugin, hcloud⟩ := amounts_eq htype'
      (fun tier htier => hshapes tier (hperm.mem_iff.1 htier)) x
    rw [hplugin, hcloud, hhighest', hsame]
    exact ⟨rfl, rfl⟩
  obtain ⟨hplugin, hcloud⟩ := hordered price htype (List.Perm.refl _)
  refine ⟨b, hholds, fun n hn => ?_, hplugin, hcloud, hordered⟩
  rw [← hholds]
  refine List.filter_congr fun other hother => ?_
  rw [decide_eq_decide, hn]
  exact (hcover.holds_iff_spans hother n).symm

def twoTiers : Record :=
  [("type", .str "tiered"),
    ("tiers", .arr [
      .obj [("minQuantity", .int 10), ("maxQuantity", .null), ("amountMinor", .int 80)],
      .obj [("minQuantity", .int 1), ("maxQuantity", .int 9), ("amountMinor", .int 100)]])]

def nineAndAHalf : Binary64.Finite :=
  ⟨19 / 2, by decide +kernel, by decide +kernel⟩

/-- Between nine and ten the lower tier charges. -/
theorem charged_by_one_twoTiers :
    pluginAmount twoTiers (.finite nineAndAHalf) = some 100 ∧
      cloudAmount twoTiers (.finite nineAndAHalf) = some 100 := by
  obtain ⟨b, hholds, -, hplugin, hcloud, -⟩ :=
    @charged_by_one twoTiers (by decide +kernel) nineAndAHalf (by decide +kernel)
  have hb : b ∈ (brackets twoTiers).filter fun b =>
      decide (b.Holds (brackets twoTiers) nineAndAHalf.val) := hholds ▸ List.mem_singleton_self b
  have hlower : (brackets twoTiers).filter (fun b =>
      decide (b.Holds (brackets twoTiers) nineAndAHalf.val)) = [⟨1, some 9, 100⟩] := by
    decide +kernel
  rw [hlower, List.mem_singleton] at hb
  rw [hplugin, hcloud, hb]
  exact ⟨rfl, rfl⟩

end Optionia.Wire
