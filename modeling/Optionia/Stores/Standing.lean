import Optionia.Stores.Transactions
/-!
# What a store's status says of its credentials

A store that is connected or erring holds one live credential, and any other
holds none (`Truthful`). A run from no store keeps to that just when no
approval finds a store that holds one, no exchange a store that is erring, and
no rotation a store that was disconnected since it was read (`truthful_iff`).
-/

namespace Optionia.Stores

open Runs Calls.System

/-! ## What is asked -/

/-- How many live credentials a store holds. -/
def liveOf (credentials : List Credential) (storeId : ℕ) : ℕ :=
  credentials.countP fun credential => credential.storeId = storeId && credential.revokedAt = none

/-- **A store's status tells the truth about its credentials.** -/
def Truthful (tables : Tables) : Prop :=
  ∀ store ∈ tables.stores,
    liveOf tables.credentials store.id = if store.status.holdsCredential then 1 else 0

/-- **What the transactions need of the store they meet.** -/
def Phase.Careful (platform : Platform) (tables : Tables) : Phase → Prop
  | .claiming request tenantId siteUrl =>
    (∃ row ∈ tables.codes, row.id = request ∧ row.approvedAt = none) →
      ∀ store ∈ tables.storeFor platform tenantId siteUrl, store.status.holdsCredential = false
  | .spending row =>
    (∃ other ∈ tables.codes, other.id = row.id ∧ other.redeemedAt = none) →
      ∀ store ∈ tables.stores, row.storeId = some store.id → store.status ≠ .error
  | .rekeying storeId =>
    ∀ store ∈ tables.stores, store.id = storeId → store.status.holdsCredential = true
  | _ => True

/-- Truthful in every state a run reaches. -/
def TruthfulThroughout (platform : Platform) (actions : List Action) : Prop :=
  ∀ before, before <+: actions → Truthful (run (cloud platform).step initial before).data

/-! ## Live credentials -/

variable {platform : Platform} {now : ℤ} {tables tables' : Tables} {credentials : List Credential}
  {storeId other request tenantId : ℕ} {siteUrl : String} {row : ConnectionCode} {store : Store}
  {phase : Phase} {s : State} {action : Action}

theorem liveOf_revokeAll :
    liveOf (revokeAll now credentials storeId) other =
      if other = storeId then 0 else liveOf credentials other := by
  unfold liveOf revokeAll
  rw [List.countP_map]
  split_ifs with hother
  · refine List.countP_eq_zero.2 fun credential _ => ?_
    rw [Function.comp_apply]
    split_ifs with hlive
    · simp
    · simp only [Bool.and_eq_true, decide_eq_true_eq]
      rintro ⟨hid, hnone⟩
      exact hlive ⟨hid.trans hother, hnone⟩
  · refine List.countP_congr fun credential _ => ?_
    rw [Function.comp_apply]
    split_ifs with hlive
    · have hid : credential.storeId ≠ other := fun hid => hother (hid.symm.trans hlive.1)
      simp [hid]
    · exact Iff.rfl

theorem liveOf_append (tokenHash : ℕ) (rotated : Bool) :
    liveOf (credentials ++ [⟨storeId, tokenHash, none, rotated⟩]) other =
      liveOf credentials other + if other = storeId then 1 else 0 := by
  unfold liveOf
  rw [List.countP_append, List.countP_singleton]
  by_cases hother : other = storeId
  · simp [hother]
  · have hne : storeId ≠ other := fun h => hother h.symm
    simp [hother, hne]

theorem liveOf_eq_zero (h : ∀ credential ∈ credentials, credential.storeId < storeId) :
    liveOf credentials storeId = 0 := by
  refine List.countP_eq_zero.2 fun credential hcredential => ?_
  have hlt := h credential hcredential
  simp only [Bool.and_eq_true, decide_eq_true_eq]
  rintro ⟨hid, -⟩
  omega

/-! ## One statement -/

/-- **An approval leaves every status true just when the store it finds holds
no credential.** -/
theorem truthful_approved {withinPlan : Bool} {code : ℕ} (hwf : Wellformed tables)
    (h : Truthful tables)
    (happroved : approve platform now withinPlan tables request tenantId siteUrl =
      some (tables', code, storeId)) :
    (∀ store ∈ tables.storeFor platform tenantId siteUrl, store.status.holdsCredential = false) ↔
      Truthful tables' := by
  have hafter := approved_of_approve hwf happroved
  obtain ⟨existing, hexisting, rfl, hstores⟩ | ⟨hnone, hid, hstores⟩ := hafter.stores
  · rw [hexisting]
    have hmem := (storeFor_spec hexisting).1
    constructor
    · intro hfree store hstore
      rw [hstores] at hstore
      rw [hafter.credentials]
      obtain ⟨old, hold, rfl⟩ := List.mem_map.1 hstore
      split_ifs with hid hholds hholds
      · exact absurd hholds (by simp [Store.moved, StoreStatus.holdsCredential])
      · have heq : old = existing := eq_of_key hwf.storeIds hold hmem hid
        have hlive := h old hold
        rw [heq, hfree existing rfl, if_neg Bool.false_ne_true] at hlive
        rw [heq]
        exact hlive
      · rw [h old hold, if_pos hholds]
      · rw [h old hold, if_neg hholds]
    · intro htruthful store hstore
      obtain rfl := Option.some.inj hstore
      have hafter' := htruthful (existing.moved .connecting) (by
        rw [hstores]
        exact List.mem_map.2 ⟨existing, hmem, if_pos rfl⟩)
      rw [hafter.credentials] at hafter'
      have hbefore := h existing hmem
      change liveOf tables.credentials existing.id = 0 at hafter'
      rw [hafter'] at hbefore
      cases hholds : existing.status.holdsCredential with
      | true =>
        rw [hholds] at hbefore
        simp at hbefore
      | false => rfl
  · rw [hnone]
    refine iff_of_true (fun store hstore => absurd hstore (by simp)) fun store hstore => ?_
    rw [hstores] at hstore
    rw [hafter.credentials]
    obtain hold | hnew := List.mem_append.1 hstore
    · exact h store hold
    · rw [List.mem_singleton.1 hnew]
      refine liveOf_eq_zero fun credential hcredential => ?_
      have hdrawn := hwf.credentialDrawn credential hcredential
      dsimp only
      omega

/-- **An exchange leaves every status true just when the store it connects is
not erring.** -/
theorem truthful_redeemed {token : ℕ} (hwf : Wellformed tables) (h : Truthful tables)
    (hredeemed : redeem platform now tables row = some (tables', token, storeId)) :
    (∀ store ∈ tables.stores, row.storeId = some store.id → store.status ≠ .error) ↔
      Truthful tables' := by
  have hafter := redeemed_of_redeem hwf hredeemed
  obtain ⟨store, hstore, rfl, hmoved⟩ := hafter.moved
  have hsame : ∀ old ∈ tables.stores, old.id = store.id → old = store :=
    fun old hold hid => eq_of_key hwf.storeIds hold hstore hid
  have hlive : ∀ id, liveOf tables'.credentials id =
      liveOf tables.credentials id + if id = store.id then 1 else 0 := fun id => by
    rw [hafter.credentials, liveOf_append]
  constructor
  · intro hcalm old' hold'
    rw [hafter.stores] at hold'
    obtain ⟨old, hold, rfl⟩ := List.mem_map.1 hold'
    have hbefore := h old hold
    by_cases hid : old.id = store.id
    · obtain rfl := hsame old hold hid
      rw [if_pos ⟨rfl, hmoved⟩, hlive]
      have hconnecting : old.status = .connecting := by
        have herror := hcalm old hstore hafter.store
        simp only [allowedFrom, List.mem_cons, List.not_mem_nil, or_false] at hmoved
        exact hmoved.resolve_right herror
      rw [hconnecting] at hbefore
      change liveOf tables.credentials old.id + (if old.id = old.id then 1 else 0) = 1
      rw [if_pos rfl, hbefore]
      rfl
    · rw [if_neg fun hfits => hid hfits.1, hlive, if_neg hid, hbefore]
      exact Nat.add_zero _
  · intro htruthful old hold hrow herror
    have hid : old.id = store.id := Option.some.inj (hrow.symm.trans hafter.store)
    obtain rfl := hsame old hold hid
    have hnew : old.moved .connected ∈ tables'.stores := by
      rw [hafter.stores]
      exact List.mem_map.2 ⟨old, hold, if_pos ⟨rfl, hmoved⟩⟩
    have hone := htruthful _ hnew
    change liveOf tables'.credentials old.id = 1 at hone
    rw [hlive, if_pos rfl, h old hold, herror] at hone
    exact absurd hone (by decide)

/-- **A disconnect leaves every status true.** -/
theorem truthful_cleared (h : Truthful tables) (hcleared : clear now tables storeId = some tables') :
    Truthful tables' := by
  obtain ⟨-, hcredentials, hstores, -⟩ := clear_eq_some hcleared
  intro store hstore
  rw [hstores] at hstore
  rw [hcredentials, liveOf_revokeAll]
  obtain ⟨old, hold, rfl⟩ := List.mem_map.1 hstore
  by_cases hid : old.id = storeId
  · rw [if_pos hid]
    exact if_pos hid
  · rw [if_neg hid, if_neg hid]
    exact h old hold

/-- **A rotation leaves every status true just when its store is one that holds
a credential.** -/
theorem truthful_rekeyed (h : Truthful tables) :
    (∀ store ∈ tables.stores, store.id = storeId → store.status.holdsCredential = true) ↔
      Truthful (rekey platform now tables storeId) := by
  have hlive : ∀ id, liveOf (rekey platform now tables storeId).credentials id =
      if id = storeId then 1 else liveOf tables.credentials id := fun id => by
    unfold rekey
    rw [liveOf_append, liveOf_revokeAll]
    split_ifs
    · rfl
    · exact Nat.add_zero _
  constructor
  · intro hholds store hstore
    rw [hlive]
    split_ifs with hid hone hone
    · rfl
    · exact absurd (hholds store hstore hid) hone
    · rw [h store hstore, if_pos hone]
    · rw [h store hstore, if_neg hone]
  · intro htruthful store hstore hid
    have hone := htruthful store hstore
    rw [hlive, if_pos hid] at hone
    cases hholds : store.status.holdsCredential with
    | true => rfl
    | false =>
      rw [hholds] at hone
      simp at hone

/-- **A statement leaves every status true just when it is careful.** -/
theorem careful_iff (input : Input) (hwf : Wellformed tables) (h : Truthful tables) :
    phase.Careful platform tables ↔ Truthful (statement platform input tables phase).1 := by
  cases phase with
  | claiming request tenantId siteUrl =>
    unfold statement Phase.Careful
    dsimp only
    cases hresult : approve platform input.now input.withinPlan tables request tenantId siteUrl with
    | some result =>
      have happroved := approved_of_approve hwf hresult
      rw [forall_prop_of_true happroved.claimable]
      exact truthful_approved hwf h hresult
    | none =>
      refine iff_of_true (fun hclaimable store hstore => ?_) h
      obtain ⟨result, hsome⟩ : ∃ result, approve platform input.now input.withinPlan tables request
          tenantId siteUrl = some result := approve_isSome hwf hclaimable hstore
      exact absurd (hresult.symm.trans hsome).symm (Option.some_ne_none _)
  | spending row =>
    unfold statement Phase.Careful
    dsimp only
    cases hresult : redeem platform input.now tables row with
    | some result =>
      have hredeemed := redeemed_of_redeem hwf hresult
      rw [forall_prop_of_true hredeemed.unspent]
      exact truthful_redeemed hwf h hresult
    | none =>
      refine iff_of_true (fun hunspent store hstore hid herror => ?_) h
      obtain ⟨result, hsome⟩ : ∃ result, redeem platform input.now tables row = some result :=
        redeem_isSome hwf hid hunspent ⟨store, hstore, rfl, by rw [herror]; decide⟩
      exact absurd (hresult.symm.trans hsome).symm (Option.some_ne_none _)
  | clearing storeId =>
    unfold statement
    dsimp only
    cases hresult : clear input.now tables storeId with
    | some tables' => exact iff_of_true trivial (truthful_cleared h hresult)
    | none => exact iff_of_true trivial h
  | rekeying storeId => exact truthful_rekeyed h
  | initiating dto =>
    unfold statement initiate
    dsimp only
    split
    · exact iff_of_true trivial h
    · split_ifs
      · exact iff_of_true trivial h
      · exact iff_of_true trivial h
      · exact iff_of_true trivial h
  | _ => exact iff_of_true trivial h

/-! ## Runs -/

/-- **A store's status tells the truth about its credentials in every state a
run reaches, just when no approval finds a store that holds one, no exchange a
store that is erring, and no rotation a store that holds none.** -/
theorem truthful_iff (platform : Platform) (actions : List Action) :
    TruthfulThroughout platform actions ↔
      Throughout (cloud platform).step (Asks (Phase.Careful platform)) initial actions := by
  have hmay : Throughout (cloud platform).step (fun _ _ => True) initial actions :=
    throughout_of_forall (fun _ _ => trivial) initial actions
  have hiff : ∀ (s : State) action, Kept s ∧ Truthful s.data →
      (Asks (Phase.Careful platform) s action ↔ Truthful ((cloud platform).step s action).data) :=
    fun s action h => asks_iff h.2 fun i input request phase hcall =>
      careful_iff input h.1.wellformed h.2
  have hstart : Truthful initial.data := fun store hstore => absurd hstore List.not_mem_nil
  refine forall_prefix_iff (P := fun s => Truthful s.data)
    (I := fun s : State => Kept s ∧ Truthful s.data) (fun s action _ hcareful h => ?_)
    (fun s action _ h => hiff s action h) hmay ⟨kept_initial, hstart⟩ hstart
  exact ⟨kept_step platform action h.1, (hiff s action h).1 hcareful⟩

/-! ## A store that is connected again -/

instance decidableCareful (platform : Platform) (tables : Tables) (phase : Phase) :
    Decidable (phase.Careful platform tables) := by
  unfold Phase.Careful
  split
  · infer_instance
  · infer_instance
  · infer_instance
  · infer_instance

/-- **Approving a store that is connected leaves it connecting with its old
credential live.** -/
theorem reconnecting_with_live_credential :
    ¬ ∀ (platform : Platform) (actions : List Action), TruthfulThroughout platform actions := by
  intro h
  have hstore : (⟨2, 9, "https://shop.example", .connecting⟩ : Store) ∈
      (run (cloud plain).step initial (connects 0 0 ++ approves 3 4)).data.stores := by
    decide +kernel
  have hlive : liveOf (run (cloud plain).step initial
      (connects 0 0 ++ approves 3 4)).data.credentials 2 = 1 := by
    decide +kernel
  have hnone := h plain (connects 0 0 ++ approves 3 4) _ (List.prefix_refl _) _ hstore
  exact absurd (hlive.symm.trans hnone) (by decide)

/-- **The status of a store that is disconnected before it connects again tells
the truth throughout.** -/
theorem truthful_of_disconnect_first : TruthfulThroughout plain rotatedAndReconnected ∧
    (run (cloud plain).step initial rotatedAndReconnected).data.stores =
      [⟨2, 9, "https://shop.example", .connected⟩] ∧
    (run (cloud plain).step initial rotatedAndReconnected).data.credentials.length = 3 :=
  ⟨(truthful_iff plain rotatedAndReconnected).2 (by decide +kernel), by decide +kernel,
    by decide +kernel⟩

end Optionia.Stores
