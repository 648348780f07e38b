import Optionia.Lib.Upsert
import Optionia.Billing.Enforcement
import Optionia.Delivery.Writers
/-!
# Assigning, against the allowance of a plan

`AssignmentsService.assign` counts which of the targets asked for have no row
yet, asks `PlanLimitGuard.assertWithinPlan` once for each of them, and inserts
the rows. What the guard counts is `UsageCounterService.count`: the live
assignments of the tenant's live sets. `unassign`, `unassignMany` and the two
deletions of a set take assignments away.
-/

namespace Optionia.Usage

open Delivery (AssignmentTarget AssignmentTargetType OptionSetAssignment)

/-! ## The tables -/

/-- A row of `option_sets`. -/
structure OptionSet where
  tenantId : String
  storeId : String
  isLive : Bool
  deriving DecidableEq

/-- What the unique key of the assignments compares: the set, the type and what
the column compares of the reference. -/
abbrev Cell := String × AssignmentTargetType × String

section Cells

variable (collate : String → String)

/-- That of a target of a set. -/
def cell (optionSetId : String) (target : AssignmentTarget) : Cell :=
  (optionSetId, target.targetType, collate target.targetRef)

/-- That of a row: none once it is deleted, and none without a target, as `NULL`
is unlike every `NULL`. -/
def cellOf (row : OptionSetAssignment) : Option Cell :=
  if row.isLive then
    row.targetType.bind fun type => row.targetRef.map fun ref => (row.optionSetId, type, collate ref)
  else none

end Cells

/-- The tables that an assignment reads or writes, where `collate` is what the
columns compare of a text. -/
structure Tables (collate : String → String) where
  billing : Billing.Database
  optionSets : OrderedMap String OptionSet
  /-- `store_products`: the store and the external id. -/
  storeProducts : List (String × String)
  assignments : List OptionSetAssignment
  unique : Upsert.Unique (cellOf collate) assignments

/-- Why a request is refused. -/
inductive Refusal where
  | notFound
  /-- `VALIDATION_FAILED`: no such product in the set's store. -/
  | noProduct (targetRef : String)
  | planLimit (exceeded : Billing.PlanLimitExceeded)

namespace Tables

variable {collate : String → String} (db : Tables collate)

/-- `OptionSetsRepository.findById` -/
def requireSet (tenantId optionSetId : String) : Option OptionSet :=
  (db.optionSets.get? optionSetId).filter fun set => set.tenantId == tenantId && set.isLive

def existsInStore (tenantId storeId externalId : String) : Bool :=
  (db.billing.stores.get? storeId).any (·.tenantId == tenantId) &&
    db.storeProducts.any fun row => row.1 == storeId && collate row.2 == collate externalId

/-- A row counts for a tenant. -/
def countsFor (tenantId : String) (row : OptionSetAssignment) : Bool :=
  row.isLive && (db.requireSet tenantId row.optionSetId).isSome

/-- `UsageCounterService.count`, of `products_assigned`. -/
def count (tenantId : String) : ℕ := db.assignments.countP (db.countsFor tenantId)

/-! ## The requests -/

/-- The targets asked for, each once: `new Map`, by type and reference. -/
def wanted (targets : List (String × AssignmentTarget)) : List (String × AssignmentTarget) :=
  ((∅ : OrderedMap AssignmentTarget (String × AssignmentTarget)).setAll
    (targets.map fun target => (target.2, target))).values

/-- How many of them have a live row. -/
def liveOf (optionSetId : String) (wanted : List (String × AssignmentTarget)) : ℕ :=
  db.assignments.countP fun row =>
    (cellOf collate row).any (· ∈ wanted.map fun target => cell collate optionSetId target.2)

/-- The loop of `assertWithinPlan`. -/
def assertEach (tenantId : String) : ℕ → Except Billing.PlanLimitExceeded Unit
  | 0 => .ok ()
  | additions + 1 => do
    Billing.assertWithinPlan db.billing tenantId "products_assigned" (db.count tenantId)
    assertEach tenantId additions

/-- The row of a target, with the id that it gets. -/
def rowFor (optionSetId : String) (target : String × AssignmentTarget) : OptionSetAssignment :=
  ⟨target.1, optionSetId, .manual, some target.2.targetType, some target.2.targetRef, 0, true⟩

/-- `ON DUPLICATE KEY UPDATE`, one row after the other. -/
def insertAll (optionSetId : String) (wanted : List (String × AssignmentTarget)) :
    Tables collate :=
  { db with
    assignments := Upsert.upsertAll (cellOf collate) db.assignments
      (wanted.map (rowFor optionSetId))
    unique := db.unique.upsertAll _ }

def assign (tenantId optionSetId : String) (targets : List (String × AssignmentTarget)) :
    Except Refusal (Tables collate) :=
  match db.requireSet tenantId optionSetId with
  | none => .error .notFound
  | some set =>
    let wanted := wanted targets
    match wanted.find? fun target => target.2.targetType = .product ∧
        ¬ db.existsInStore tenantId set.storeId target.2.targetRef with
    | some target => .error (.noProduct target.2.targetRef)
    | none =>
      let additions := wanted.length - db.liveOf optionSetId wanted
      match db.assertEach tenantId additions with
      | .error exceeded => .error (.planLimit exceeded)
      | .ok () => .ok (db.insertAll optionSetId wanted)

def deleteAssignments (which : OptionSetAssignment → Bool) : Tables collate :=
  { db with
    assignments := db.assignments.map fun row =>
      if which row then { row with isLive := false } else row
    unique := db.unique.map fun row => by
      split_ifs
      · exact Or.inr rfl
      · exact Or.inl rfl }

/-- What `unassign` and `unassignMany` match of a target. -/
def isFor (collate : String → String) (optionSetId : String) (target : AssignmentTarget)
    (row : OptionSetAssignment) : Bool :=
  row.mode == .manual && cellOf collate row == some (cell collate optionSetId target)

def unassign (tenantId optionSetId : String) (target : AssignmentTarget) :
    Except Refusal (Tables collate) :=
  match db.requireSet tenantId optionSetId with
  | none => .error .notFound
  | some _ =>
    if db.assignments.any (isFor collate optionSetId target) then
      .ok (db.deleteAssignments (isFor collate optionSetId target))
    else .error .notFound

def unassignMany (tenantId optionSetId : String) (targets : List AssignmentTarget) :
    Except Refusal (Tables collate) :=
  match db.requireSet tenantId optionSetId with
  | none => .error .notFound
  | some _ => .ok (db.deleteAssignments fun row => targets.any (isFor collate optionSetId · row))

def remove (tenantId optionSetId : String) : Except Refusal (Tables collate) :=
  match db.requireSet tenantId optionSetId with
  | none => .error .notFound
  | some set =>
    .ok { db.deleteAssignments fun row => row.isLive && row.optionSetId == optionSetId with
      optionSets := db.optionSets.set optionSetId { set with isLive := false } }

/-- `OptionSetsService.purge`, of a set that no order names. -/
def purge (tenantId optionSetId : String) : Except Refusal (Tables collate) :=
  match (db.optionSets.get? optionSetId).filter (·.tenantId == tenantId) with
  | none => .error .notFound
  | some _ =>
    .ok { db with
      optionSets := db.optionSets.erase optionSetId
      assignments := db.assignments.filter fun row => row.optionSetId ≠ optionSetId
      unique := db.unique.filter _ }

end Tables

/-- A request, in the context of a tenant. -/
inductive Request where
  /-- `assign`, to each of some targets, with the id its row would get. -/
  | assign (tenantId optionSetId : String) (targets : List (String × AssignmentTarget))
  | unassign (tenantId optionSetId : String) (target : AssignmentTarget)
  | unassignMany (tenantId optionSetId : String) (targets : List AssignmentTarget)
  | remove (tenantId optionSetId : String)
  | purge (tenantId optionSetId : String)

variable {collate : String → String}

def outcome (db : Tables collate) : Request → Except Refusal (Tables collate)
  | .assign tenantId id targets => db.assign tenantId id targets
  | .unassign tenantId id target => db.unassign tenantId id target
  | .unassignMany tenantId id targets => db.unassignMany tenantId id targets
  | .remove tenantId id => db.remove tenantId id
  | .purge tenantId id => db.purge tenantId id

/-- One request; a refused one is rolled back. -/
def serve (db : Tables collate) (request : Request) : Tables collate :=
  match outcome db request with
  | .ok db' => db'
  | .error _ => db

end Optionia.Usage

/-! ## The allowance of a plan

Nothing but an `assign` adds to what is counted, and it adds a row for each
target that had none (`count_insertAll`). But `assertWithinPlan` is asked for
each of them before the first row is written, of the same count each time: a
request that starts below the limit is never refused. So the limit holds in
the runs whose requests do not step over it (`limit_kept_iff`).
-/

namespace Optionia.Usage

open Delivery (AssignmentTarget AssignmentTargetType OptionSetAssignment)
open Runs

variable {collate : String → String}

namespace Tables

variable (db : Tables collate)

/-- The limit of a tenant's plan. -/
def limit (tenantId : String) : Option ℤ :=
  (db.billing.planOf tenantId).bind fun plan => (plan.limits.lookup "products_assigned").join

/-- A target of a set has a row. -/
def Assigned (optionSetId : String) (target : AssignmentTarget) : Prop :=
  cell collate optionSetId target ∈ Upsert.keys (cellOf collate) db.assignments

/-- How many new targets a request asks for. -/
def newTargets (optionSetId : String) (targets : List (String × AssignmentTarget)) : ℕ :=
  (Upsert.missing (cellOf collate) db.assignments
    (targets.map fun target => cell collate optionSetId target.2)).card

/-- What is left of a limit. -/
def allowance (tenantId : String) (limit : ℤ) : ℤ := max 0 (limit - db.count tenantId)

/-- **A request honours the limit of a tenant**: the count does not rise above
it, a request for new targets is refused exactly where there are more than are
left, and one for targets that have their rows is served. -/
structure Honours (tenantId : String) (limit : ℤ) (request : Request) : Prop where
  count_le : ((serve db request).count tenantId : ℤ) ≤ max limit (db.count tenantId)
  refused_iff : ∀ id targets, request = .assign tenantId id targets →
    (db.requireSet tenantId id).isSome →
      ((∃ refusal, db.assign tenantId id targets = .error refusal) ↔
        db.allowance tenantId limit < db.newTargets id targets)
  repeated : ∀ id targets, request = .assign tenantId id targets →
    (db.requireSet tenantId id).isSome → (∀ target ∈ targets, db.Assigned id target.2) →
      ∃ db', db.assign tenantId id targets = .ok db'

/-- **Every request of a run honours the limit**, in the state that it finds. -/
def AllHonour (tenantId : String) (limit : ℤ) (requests : List Request) : Prop :=
  ∀ before request after, requests = before ++ request :: after →
    (run serve db before).Honours tenantId limit request

/-- Every product asked for is one of the store. -/
def Stocked (tenantId storeId : String) (targets : List (String × AssignmentTarget)) : Prop :=
  ∀ target ∈ targets, target.2.targetType = .product →
    db.existsInStore tenantId storeId target.2.targetRef

instance (tenantId storeId : String) (targets : List (String × AssignmentTarget)) :
    Decidable (db.Stocked tenantId storeId targets) :=
  inferInstanceAs (Decidable (∀ target ∈ targets, _))

/-- One row is asked for under two spellings. -/
def Doubled (collate : String → String) (optionSetId : String)
    (targets : List (String × AssignmentTarget)) : Prop :=
  ∃ target ∈ targets, ∃ target' ∈ targets, target.2 ≠ target'.2 ∧
    cell collate optionSetId target.2 = cell collate optionSetId target'.2

/-- **An assignment stays on its side of the limit.** If it is for products that
the store has, it does not start below the limit and end above it, and if there
is nothing new in it, it does not name one row in two spellings with the limit
reached. If some product is gone, there is more in it than is left. -/
def StaysOnSide (tenantId : String) (limit : ℤ) (optionSetId storeId : String)
    (targets : List (String × AssignmentTarget)) : Prop :=
  if db.Stocked tenantId storeId targets then
    ¬ (db.count tenantId < limit ∧
        limit < db.count tenantId + db.newTargets optionSetId targets) ∧
      ¬ (db.newTargets optionSetId targets = 0 ∧ Doubled collate optionSetId targets ∧
        limit ≤ db.count tenantId)
  else db.allowance tenantId limit < db.newTargets optionSetId targets

/-- A request fits: if it assigns targets to a set of the tenant, it stays on its
side. -/
def Fits (tenantId : String) (limit : ℤ) : Request → Prop
  | .assign caller id targets => caller = tenantId →
      ∀ set ∈ db.requireSet tenantId id, db.StaysOnSide tenantId limit id set.storeId targets
  | .unassign .. | .unassignMany .. | .remove .. | .purge .. => True

instance (optionSetId : String) (targets : List (String × AssignmentTarget)) :
    Decidable (Doubled collate optionSetId targets) :=
  inferInstanceAs (Decidable (∃ target ∈ targets, _))

instance (tenantId : String) (limit : ℤ) (optionSetId storeId : String)
    (targets : List (String × AssignmentTarget)) :
    Decidable (db.StaysOnSide tenantId limit optionSetId storeId targets) :=
  inferInstanceAs (Decidable (if db.Stocked tenantId storeId targets then _ ∧ _ else _))

instance (tenantId : String) (limit : ℤ) : DecidablePred (db.Fits tenantId limit)
  | .assign _ _ _ => inferInstanceAs (Decidable (_ → ∀ set ∈ _, _))
  | .unassign .. | .unassignMany .. | .remove .. | .purge .. => .isTrue trivial

/-! ## What is asked for -/

theorem wanted_targets (targets : List (String × AssignmentTarget)) :
    ((wanted targets).map (·.2)).Nodup ∧
      ∀ x, x ∈ (wanted targets).map (·.2) ↔ x ∈ targets.map (·.2) := by
  have hall : ∀ (targets : List (String × AssignmentTarget))
      (m : OrderedMap AssignmentTarget (String × AssignmentTarget)),
      (∀ p ∈ m.entries, p.2.2 = p.1) →
        (∀ p ∈ (m.setAll (targets.map fun t => (t.2, t))).entries, p.2.2 = p.1) ∧
          ∀ x, x ∈ (m.setAll (targets.map fun t => (t.2, t))).keys ↔
            x ∈ m.keys ∨ x ∈ targets.map (·.2) := by
    intro targets
    induction targets with
    | nil => exact fun m hm => ⟨hm, fun x => by simp [OrderedMap.setAll]⟩
    | cons t targets ih =>
      intro m hm
      have hset : ∀ p ∈ (m.set t.2 t).entries, p.2.2 = p.1 := by
        rintro ⟨k, a⟩ hp
        rcases OrderedMap.get?_set_eq_some.1 (OrderedMap.get?_eq_some.2 hp) with ⟨rfl, rfl⟩ | ⟨-, h⟩
        · rfl
        · exact hm _ (OrderedMap.get?_eq_some.1 h)
      obtain ⟨hentries, hkeys⟩ := ih (m.set t.2 t) hset
      refine ⟨hentries, fun x => (hkeys x).trans ?_⟩
      rw [OrderedMap.mem_keys_set, List.map_cons, List.mem_cons, or_assoc, or_left_comm]
  obtain ⟨hentries, hkeys⟩ := hall targets ∅ fun _ h => absurd h List.not_mem_nil
  have hmap : (wanted targets).map (·.2) =
      ((∅ : OrderedMap AssignmentTarget (String × AssignmentTarget)).setAll
        (targets.map fun t => (t.2, t))).keys := by
    unfold wanted OrderedMap.values OrderedMap.keys
    rw [List.map_map]
    exact List.map_congr_left hentries
  rw [hmap]
  exact ⟨OrderedMap.keys_nodup _, fun x => (hkeys x).trans (or_iff_right List.not_mem_nil)⟩

theorem cells_wanted (optionSetId : String) (targets : List (String × AssignmentTarget)) :
    ((wanted targets).map fun target => cell collate optionSetId target.2).toFinset =
      (targets.map fun target => cell collate optionSetId target.2).toFinset := by
  have hmap : ∀ l : List (String × AssignmentTarget),
      (l.map fun target => cell collate optionSetId target.2) =
        (l.map (·.2)).map (cell collate optionSetId) := fun l => by
    rw [List.map_map]
    rfl
  rw [hmap, hmap]
  ext c
  simp only [List.mem_toFinset, List.mem_map (f := cell collate optionSetId),
    (wanted_targets targets).2]

/-- **The targets counted as additions**: the new ones, and any further spelling
of a row. -/
theorem additions_pos_iff (optionSetId : String) (targets : List (String × AssignmentTarget)) :
    0 < (wanted targets).length - db.liveOf optionSetId (wanted targets) ↔
      0 < db.newTargets optionSetId targets ∨ Doubled collate optionSetId targets := by
  have hlive : db.liveOf optionSetId (wanted targets) =
      (Upsert.found (cellOf collate) db.assignments
        (targets.map fun target => cell collate optionSetId target.2)).card := by
    have hfound := Upsert.countP_key_mem db.unique
      ((wanted targets).map fun target => cell collate optionSetId target.2)
    unfold Upsert.found at hfound ⊢
    rw [cells_wanted] at hfound
    unfold liveOf
    convert hfound
  have hall := Upsert.card_found_add_card_missing (cellOf collate) db.assignments
    (targets.map fun target => cell collate optionSetId target.2)
  -- The targets, and what the columns compare of them.
  have hlength : (wanted targets).length = (targets.map (·.2)).toFinset.card := by
    have hsame : (targets.map (·.2)).toFinset = ((wanted targets).map (·.2)).toFinset := by
      ext x
      rw [List.mem_toFinset, List.mem_toFinset, (wanted_targets targets).2]
    rw [hsame, List.toFinset_card_of_nodup (wanted_targets targets).1, List.length_map]
  have himage : (targets.map fun target => cell collate optionSetId target.2).toFinset =
      (targets.map (·.2)).toFinset.image (cell collate optionSetId) := by
    ext c
    simp only [List.mem_toFinset, List.mem_map, Finset.mem_image, exists_exists_and_eq_and]
  have hle : (targets.map fun target => cell collate optionSetId target.2).toFinset.card ≤
      (targets.map (·.2)).toFinset.card := by
    rw [himage]
    exact Finset.card_image_le
  have hdoubled : Doubled collate optionSetId targets ↔
      (targets.map fun target => cell collate optionSetId target.2).toFinset.card <
        (targets.map (·.2)).toFinset.card := by
    rw [lt_iff_le_and_ne, and_iff_right hle, himage, Ne, Finset.card_image_iff]
    unfold Doubled Set.InjOn
    constructor
    · rintro ⟨t, ht, t', ht', hne, hcell⟩ hinj
      exact hne (hinj (List.mem_toFinset.2 (List.mem_map_of_mem ht))
        (List.mem_toFinset.2 (List.mem_map_of_mem ht')) hcell)
    · intro hnot
      by_contra hnone
      refine hnot fun x hx y hy hcell => ?_
      obtain ⟨t, ht, rfl⟩ := List.mem_map.1 (List.mem_toFinset.1 hx)
      obtain ⟨t', ht', rfl⟩ := List.mem_map.1 (List.mem_toFinset.1 hy)
      by_contra hne
      exact hnone ⟨t, ht, t', ht', hne, hcell⟩
  rw [hdoubled, hlive, hlength]
  unfold newTargets
  omega

/-! ## What an assignment comes to -/

variable {db} {tenantId optionSetId : String} {limit : ℤ}
  {targets : List (String × AssignmentTarget)} {set : OptionSet}

theorem assertWithinPlan_eq (hlimit : db.limit tenantId = some limit) :
    (∃ e, Billing.assertWithinPlan db.billing tenantId "products_assigned" (db.count tenantId) =
      .error e) ↔ limit ≤ db.count tenantId := by
  unfold Tables.limit at hlimit
  obtain ⟨plan, hplan, hjoin⟩ := Option.bind_eq_some_iff.1 hlimit
  rw [Billing.assertWithinPlan, hplan]
  dsimp only
  rw [Billing.Plan.withinLimit, hjoin]
  dsimp only
  split_ifs with h
  · exact iff_of_false (by simp) (not_le.2 h)
  · exact iff_of_true ⟨_, rfl⟩ (not_lt.1 h)

/-- **The loop asks the same question of the same count each time.** -/
theorem assertEach_error_iff (hlimit : db.limit tenantId = some limit) (additions : ℕ) :
    (∃ e, db.assertEach tenantId additions = .error e) ↔
      0 < additions ∧ limit ≤ db.count tenantId := by
  have hguard := assertWithinPlan_eq hlimit
  induction additions with
  | zero => exact ⟨fun ⟨_, h⟩ => absurd h (by simp [assertEach]), fun h => absurd h.1 (lt_irrefl 0)⟩
  | succ additions ih =>
    rw [assertEach]
    cases hanswer : Billing.assertWithinPlan db.billing tenantId "products_assigned"
        (db.count tenantId) with
    | error e => exact ⟨fun _ => ⟨Nat.succ_pos _, hguard.1 ⟨e, hanswer⟩⟩, fun _ => ⟨e, rfl⟩⟩
    | ok u =>
      -- Where one is within the limit, so are they all.
      have hbelow : ¬ limit ≤ db.count tenantId := fun h => by
        obtain ⟨e, he⟩ := hguard.2 h
        rw [hanswer] at he
        simp at he
      exact ⟨fun h => absurd (ih.1 h).2 hbelow, fun h => absurd h.2 hbelow⟩

theorem find_eq_none_iff :
    ((wanted targets).find? fun target => target.2.targetType = .product ∧
        ¬ db.existsInStore tenantId set.storeId target.2.targetRef) = none ↔
      db.Stocked tenantId set.storeId targets := by
  rw [List.find?_eq_none]
  unfold Stocked
  simp only [decide_eq_true_eq, not_and, not_not]
  constructor
  · intro h target ht hproduct
    obtain ⟨t, hmem, heq⟩ := List.mem_map.1
      (((wanted_targets targets).2 target.2).2 (List.mem_map_of_mem ht))
    rw [← heq]
    exact h t hmem (by rw [heq]; exact hproduct)
  · intro h target ht hproduct
    obtain ⟨t, hmem, heq⟩ := List.mem_map.1
      (((wanted_targets targets).2 target.2).1 (List.mem_map_of_mem ht))
    rw [← heq]
    exact h t hmem (by rw [heq]; exact hproduct)

/-- **What refuses an assignment**: a product that is not there, or something to
add with the limit reached. -/
theorem assign_error_iff (hset : db.requireSet tenantId optionSetId = some set)
    (hlimit : db.limit tenantId = some limit) :
    (∃ refusal, db.assign tenantId optionSetId targets = .error refusal) ↔
      ¬ db.Stocked tenantId set.storeId targets ∨
        (0 < db.newTargets optionSetId targets ∨ Doubled collate optionSetId targets) ∧
          limit ≤ db.count tenantId := by
  unfold assign
  rw [hset, ← additions_pos_iff, ← find_eq_none_iff]
  dsimp only
  cases hfind : (wanted targets).find? fun target => target.2.targetType = .product ∧
      ¬ db.existsInStore tenantId set.storeId target.2.targetRef with
  | some target => exact iff_of_true ⟨_, rfl⟩ (Or.inl (by simp))
  | none =>
    dsimp only
    rw [← assertEach_error_iff hlimit, or_iff_right (not_not.2 rfl)]
    cases db.assertEach tenantId
        ((wanted targets).length - db.liveOf optionSetId (wanted targets)) with
    | error e => exact iff_of_true ⟨_, rfl⟩ ⟨e, rfl⟩
    | ok u => exact iff_of_false (fun ⟨_, h⟩ => absurd h (by simp)) fun ⟨_, h⟩ =>
        absurd h (by simp)

theorem assign_ok {db' : Tables collate}
    (h : db.assign tenantId optionSetId targets = .ok db') :
    (∃ set, db.requireSet tenantId optionSetId = some set) ∧
      db' = db.insertAll optionSetId (wanted targets) := by
  unfold assign at h
  split at h
  · cases h
  · rename_i set hset
    dsimp only at h
    split at h
    · cases h
    · split at h
      · cases h
      · cases h
        exact ⟨⟨set, hset⟩, rfl⟩

/-- **An assignment adds its new targets to what is counted**, for the tenant
whose set it is. -/
theorem count_insertAll (hset : db.requireSet tenantId optionSetId = some set) (other : String) :
    (db.insertAll optionSetId (wanted targets)).count other =
      db.count other + if other = tenantId then db.newTargets optionSetId targets else 0 := by
  obtain ⟨added, heq, hmem, hlength⟩ := Upsert.upsertAll_eq (cellOf collate) db.assignments
    ((wanted targets).map (rowFor optionSetId)) fun row hrow => by
      obtain ⟨t, -, rfl⟩ := List.mem_map.1 hrow
      rfl
  have hkeys : Upsert.keys (cellOf collate) ((wanted targets).map (rowFor optionSetId)) =
      (wanted targets).map fun target => cell collate optionSetId target.2 := by
    unfold Upsert.keys
    rw [List.filterMap_map, ← List.filterMap_eq_map]
    rfl
  have hcount : (db.insertAll optionSetId (wanted targets)).count other =
      (db.assignments ++ added).countP (db.countsFor other) := by
    rw [← heq]
    rfl
  have hadded : ∀ row ∈ added, db.countsFor other row = decide (other = tenantId) := by
    intro row hrow
    obtain ⟨t, -, rfl⟩ := List.mem_map.1 (hmem row hrow)
    unfold requireSet at hset
    obtain ⟨hget, hown⟩ := Option.filter_eq_some_iff.1 hset
    rw [Bool.and_eq_true, beq_iff_eq] at hown
    change (true && ((db.optionSets.get? optionSetId).filter fun set =>
      set.tenantId == other && set.isLive).isSome) = _
    rw [hget, Bool.true_and, Option.isSome_filter, Option.any_some, hown.1, hown.2, Bool.and_true]
    exact Bool.eq_iff_iff.2 (by rw [beq_iff_eq, decide_eq_true_eq, eq_comm])
  rw [hcount, List.countP_append]
  refine congrArg (db.count other + ·) ?_
  split_ifs with hown
  · rw [List.countP_eq_length.2 fun row hrow => by rw [hadded row hrow, decide_eq_true hown],
      hlength, hkeys]
    unfold newTargets Upsert.missing
    rw [cells_wanted]
  · exact List.countP_eq_zero.2 fun row hrow => by rw [hadded row hrow, decide_eq_false hown]; simp

/-! ## What takes assignments away -/

theorem count_deleteAssignments_le (db : Tables collate) (which : OptionSetAssignment → Bool)
    (tenantId : String) :
    (db.deleteAssignments which).count tenantId ≤ db.count tenantId := by
  unfold count deleteAssignments
  dsimp only
  rw [List.countP_map]
  refine List.countP_mono_left fun row _ hrow => ?_
  rw [Function.comp_apply] at hrow
  split_ifs at hrow with hwhich
  · exact absurd hrow (by simp [countsFor])
  · exact hrow

theorem count_mono (db : Tables collate) {db' : Tables collate}
    (hrows : db'.assignments.Sublist db.assignments)
    (hsets : ∀ id, (db'.requireSet tenantId id).isSome → (db.requireSet tenantId id).isSome) :
    db'.count tenantId ≤ db.count tenantId := by
  refine (List.countP_mono_left fun row _ hrow => ?_).trans hrows.countP_le
  unfold countsFor at hrow ⊢
  rw [Bool.and_eq_true] at hrow ⊢
  exact ⟨hrow.1, hsets _ hrow.2⟩

/-- **Nothing but an assignment adds to what is counted.** -/
theorem count_serve_le (request : Request)
    (hother : ∀ caller id targets, request ≠ .assign caller id targets) (tenantId : String) :
    (serve db request).count tenantId ≤ db.count tenantId := by
  unfold serve outcome
  cases request with
  | assign caller id targets => exact absurd rfl (hother caller id targets)
  | unassign caller id target =>
    dsimp only
    unfold unassign
    split
    · rename_i db' hok
      split at hok
      · cases hok
      · split_ifs at hok
        cases hok
        exact db.count_deleteAssignments_le _ tenantId
    · exact le_rfl
  | unassignMany caller id targets =>
    dsimp only
    unfold unassignMany
    split
    · rename_i db' hok
      split at hok
      · cases hok
      · cases hok
        exact db.count_deleteAssignments_le _ tenantId
    · exact le_rfl
  | remove caller id =>
    dsimp only
    unfold remove
    split
    · rename_i db' hok
      split at hok
      · cases hok
      · cases hok
        -- The rows go first, and then the set they are of.
        have hrows := db.count_deleteAssignments_le
          (fun row => row.isLive && row.optionSetId == id) tenantId
        refine Nat.le_trans (count_mono (db.deleteAssignments _) (List.Sublist.refl _)
          fun other hset => ?_) hrows
        unfold requireSet at hset ⊢
        change (((db.optionSets.set id _).get? other).filter _).isSome at hset
        rw [OrderedMap.get?_set] at hset
        split_ifs at hset with hid
        · simp at hset
        · exact hset
    · exact le_rfl
  | purge caller id =>
    dsimp only
    unfold purge
    split
    · rename_i db' hok
      split at hok
      · cases hok
      · cases hok
        refine db.count_mono List.filter_sublist fun other hset => ?_
        unfold requireSet at hset ⊢
        change (((db.optionSets.erase id).get? other).filter _).isSome at hset
        cases hget : (db.optionSets.erase id).get? other with
        | none =>
          rw [hget] at hset
          simp at hset
        | some set =>
          have hmem := List.mem_of_mem_filter (OrderedMap.get?_eq_some.1 hget)
          rw [OrderedMap.get?_eq_some.2 hmem, ← hget]
          exact hset
    · exact le_rfl

theorem limit_serve (request : Request) :
    (serve db request).limit tenantId = db.limit tenantId := by
  have hbilling : (serve db request).billing = db.billing := by
    unfold serve outcome
    cases request with
    | assign caller id targets =>
      dsimp only
      cases hassign : db.assign caller id targets with
      | error e => rfl
      | ok db' => rw [(assign_ok hassign).2]; rfl
    | unassign caller id target =>
      dsimp only
      unfold unassign
      cases db.requireSet caller id with
      | none => rfl
      | some set =>
        dsimp only
        split_ifs <;> rfl
    | unassignMany caller id targets | remove caller id =>
      dsimp only [unassignMany, remove]
      cases db.requireSet caller id <;> rfl
    | purge caller id =>
      dsimp only [purge]
      cases (db.optionSets.get? id).filter (·.tenantId == caller) <;> rfl
  unfold Tables.limit
  rw [hbilling]

/-! ## The limit -/

theorem newTargets_eq_zero (h : ∀ target ∈ targets, db.Assigned optionSetId target.2) :
    db.newTargets optionSetId targets = 0 := by
  unfold newTargets Upsert.missing
  rw [Finset.card_eq_zero, Finset.sdiff_eq_empty_iff_subset]
  intro c hc
  obtain ⟨target, htarget, rfl⟩ := List.mem_map.1 (List.mem_toFinset.1 hc)
  exact List.mem_toFinset.2 (h target htarget)

/-- **An assignment is refused where there is more in it than is left, exactly
where it fits.** -/
theorem refused_iff_fits (hset : db.requireSet tenantId optionSetId = some set)
    (hlimit : db.limit tenantId = some limit) :
    ((∃ refusal, db.assign tenantId optionSetId targets = .error refusal) ↔
        db.allowance tenantId limit < db.newTargets optionSetId targets) ↔
      db.Fits tenantId limit (.assign tenantId optionSetId targets) := by
  have hfits : db.Fits tenantId limit (.assign tenantId optionSetId targets) ↔
      db.StaysOnSide tenantId limit optionSetId set.storeId targets :=
    ⟨fun h => h rfl set hset, fun h _ set' hset' => by
      obtain rfl := Option.some_injective _ (hset.symm.trans hset')
      exact h⟩
  rw [hfits, assign_error_iff hset hlimit]
  unfold StaysOnSide
  split_ifs with hstocked
  · rw [or_iff_right (not_not.2 hstocked)]
    unfold allowance
    by_cases hdoubled : Doubled collate optionSetId targets
    · simp only [hdoubled, or_true, true_and]
      omega
    · simp only [hdoubled, or_false, false_and, and_false, not_false_eq_true, and_true]
      omega
  · exact iff_of_eq (by simp [hstocked])

theorem honours_iff (hlimit : db.limit tenantId = some limit) (request : Request) :
    db.Honours tenantId limit request ↔ db.Fits tenantId limit request := by
  constructor
  · intro h
    cases request with
    | assign caller id targets =>
      rintro rfl set hset
      have hsome : (db.requireSet caller id).isSome := by rw [hset]; rfl
      exact (refused_iff_fits hset hlimit).1 (h.refused_iff id targets rfl hsome) rfl set hset
    | unassign | unassignMany | remove | purge => trivial
  · intro h
    have hrefused : ∀ id targets, request = .assign tenantId id targets →
        (db.requireSet tenantId id).isSome →
          ((∃ refusal, db.assign tenantId id targets = .error refusal) ↔
            db.allowance tenantId limit < db.newTargets id targets) := by
      rintro id targets rfl hsome
      obtain ⟨set, hset⟩ := Option.isSome_iff_exists.1 hsome
      exact (refused_iff_fits hset hlimit).2 h
    refine ⟨?_, hrefused, fun id targets hrequest hsome hassigned => ?_⟩
    · cases request with
      | assign caller id targets =>
        unfold serve outcome
        dsimp only
        cases hassign : db.assign caller id targets with
        | error refusal => exact le_max_right _ _
        | ok db' =>
          obtain ⟨⟨set, hset⟩, rfl⟩ := assign_ok hassign
          dsimp only
          rw [count_insertAll hset]
          split_ifs with hown
          · subst hown
            have hsome : (db.requireSet tenantId id).isSome := by rw [hset]; rfl
            have hleft : ¬ db.allowance tenantId limit < db.newTargets id targets := fun hmore => by
              obtain ⟨refusal, herror⟩ := (hrefused id targets rfl hsome).2 hmore
              rw [hassign] at herror
              simp at herror
            unfold allowance at hleft
            omega
          · exact le_max_right _ _
      | unassign | unassignMany | remove | purge =>
        refine le_trans (Int.ofNat_le.2 (count_serve_le _ (fun _ _ _ h => ?_) tenantId))
          (le_max_right _ _)
        cases h
    · cases hassign : db.assign tenantId id targets with
      | ok db' => exact ⟨db', rfl⟩
      | error refusal =>
        have hmore := (hrefused id targets hrequest hsome).1 ⟨refusal, hassign⟩
        rw [newTargets_eq_zero hassigned] at hmore
        exact absurd hmore (not_lt.2 (le_max_left _ _))

/-- **The limit is honoured by every request of a run exactly where every
request fits**, in the state that it finds. -/
theorem limit_kept_iff (hlimit : db.limit tenantId = some limit) (requests : List Request) :
    db.AllHonour tenantId limit requests ↔
      Throughout serve (fun db request => db.Fits tenantId limit request) db requests := by
  have hsame : Throughout serve (fun db request => db.Honours tenantId limit request) db requests ↔
      Throughout serve (fun db request => db.Fits tenantId limit request) db requests :=
    throughout_congr (I := fun db : Tables collate => db.limit tenantId = some limit)
      (fun db request h => (limit_serve request).trans h)
      (fun db request h => honours_iff h request) hlimit
  rw [← hsame]
  exact ⟨fun h => throughout_of_prefix h,
    fun h before request after hsplit => Throughout.at (hsplit ▸ h)⟩

/-! ## A request that steps over -/

/-- A store whose plan allows one assignment, with one set and none assigned. -/
def allowsOne : Tables id where
  billing :=
    { plans := (∅ : OrderedMap String Billing.Plan).set "p"
        ⟨"free", "Free", [("products_assigned", some 1)], []⟩
      prices := ∅
      tenants := (∅ : OrderedMap String Billing.Tenant).set "t" ⟨"p"⟩
      stores := ∅
      subscriptions := ∅
      invoices := ∅ }
  optionSets := (∅ : OrderedMap String OptionSet).set "s" ⟨"t", "store", true⟩
  storeProducts := []
  assignments := []
  unique := List.nodup_nil

/-- Two categories, where one is left. -/
def twoCategories : Request :=
  .assign "t" "s" [("1", ⟨.category, "summer"⟩), ("2", ⟨.category, "winter"⟩)]

/-- **One request of two targets takes a plan of one to two.** -/
theorem two_of_one : ¬ allowsOne.Honours "t" 1 twoCategories := fun h =>
  absurd h.count_le (by decide +kernel)

/-- After one category the second is refused, and the first can be asked for
again. -/
theorem limit_kept_one_by_one :
    allowsOne.AllHonour "t" 1
      [.assign "t" "s" [("1", ⟨.category, "summer"⟩)],
        .assign "t" "s" [("2", ⟨.category, "winter"⟩)],
        .assign "t" "s" [("3", ⟨.category, "summer"⟩)]] :=
  (limit_kept_iff (by decide +kernel) _).2 (by decide +kernel)

end Tables

end Optionia.Usage
