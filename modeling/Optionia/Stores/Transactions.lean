import Mathlib.Data.List.Nodup
import Optionia.Stores.Handshake
/-!
# What the transactions of a handshake do

Keys are used once and drawn before they are used (`Wellformed`). Where they
are, a transaction that commits leaves what `Approved`, `Redeemed` and
`clear_eq_some` say, and every statement keeps the tables so.
-/

namespace Optionia.Stores

open Calls.System

/-! ## What a transaction does -/

/-- **The tables as their keys have them**: no key is used twice, and none is
yet to be drawn. -/
structure Wellformed (tables : Tables) : Prop where
  codeIds : (tables.codes.map (·.id)).Nodup
  storeIds : (tables.stores.map (·.id)).Nodup
  codeDrawn : ∀ row ∈ tables.codes, row.id < tables.next
  storeDrawn : ∀ store ∈ tables.stores, store.id < tables.next
  /-- A credential is for a store whose key was drawn. -/
  credentialDrawn : ∀ credential ∈ tables.credentials, credential.storeId < tables.next

variable {platform} {now : ℤ} {withinPlan : Bool} {tables tables' : Tables}
  {request tenantId storeId code token : ℕ} {siteUrl : String} {row : ConnectionCode} {store : Store}

variable {α : Type*} {rows : List α} {key : α → ℕ} {target : StoreStatus} {phase : Phase}
  {result : Tables × Phase}

theorem countP_eq_one_iff {p : α → Bool} {k : ℕ} (hnodup : (rows.map key).Nodup)
    (hp : ∀ a, p a = true → key a = k) : rows.countP p = 1 ↔ ∃ a ∈ rows, p a = true := by
  rw [← List.countP_pos_iff]
  refine ⟨fun h => by omega, fun hpos => ?_⟩
  have hle : rows.countP p ≤ 1 := by
    rw [List.countP_eq_length_filter]
    have hfiltered : ((rows.filter p).map key).Nodup :=
      hnodup.sublist (List.filter_sublist.map key)
    have hkeys : ∀ a ∈ rows.filter p, key a = k := fun a ha => hp a (List.of_mem_filter ha)
    match hrows : rows.filter p with
    | [] => exact Nat.zero_le 1
    | [a] => exact Nat.le_refl 1
    | a :: b :: rest =>
      rw [hrows] at hfiltered hkeys
      have hab : key a = key b :=
        (hkeys a List.mem_cons_self).trans (hkeys b (by simp)).symm
      simp [hab] at hfiltered
  omega

theorem eq_of_key (hnodup : (rows.map key).Nodup) {a b : α} (ha : a ∈ rows) (hb : b ∈ rows)
    (h : key a = key b) : a = b :=
  List.inj_on_of_nodup_map hnodup ha hb h

/-- **A store moves** where it is in a state the machine allows. -/
theorem transition_moved_iff (hnodup : (tables.stores.map (·.id)).Nodup) :
    (transition tables.stores storeId target).2 = true ↔
      ∃ store ∈ tables.stores, store.id = storeId ∧ store.status ∈ allowedFrom target := by
  unfold transition
  rw [beq_iff_eq, countP_eq_one_iff hnodup (k := storeId)
    fun store h => by simp only [Bool.and_eq_true, decide_eq_true_eq] at h; exact h.1]
  simp only [Bool.and_eq_true, decide_eq_true_eq]

theorem mem_allowedFrom_connecting (status : StoreStatus) : status ∈ allowedFrom .connecting := by
  cases status with
  | _ => decide

theorem mem_allowedFrom_disconnected (status : StoreStatus) :
    status ∈ allowedFrom .disconnected := by
  cases status with
  | _ => decide

def Store.moved (target : StoreStatus) (store : Store) : Store := { store with status := target }

/-- Where every state may be left for `target`, a transition moves the store
whatever it is in. -/
theorem transition_all (hall : ∀ status, status ∈ allowedFrom target) :
    (transition tables.stores storeId target).1 =
      tables.stores.map fun store => if store.id = storeId then store.moved target else store := by
  refine List.map_congr_left fun store _ => ?_
  by_cases hid : store.id = storeId
  · rw [if_pos ⟨hid, hall store.status⟩, if_pos hid]
    rfl
  · rw [if_neg fun h => hid h.1, if_neg hid]

theorem storeFor_spec (h : tables.storeFor platform tenantId siteUrl = some store) :
    store ∈ tables.stores ∧ store.tenantId = tenantId := by
  have hfits := List.find?_some h
  exact ⟨List.mem_of_find?_eq_some h, (of_decide_eq_true hfits).1⟩

def ConnectionCode.approved (row : ConnectionCode) (now : ℤ) (codeHash tenantId storeId : ℕ) :
    ConnectionCode :=
  { row with
    approvedAt := some now
    codeHash := some codeHash
    codeExpiresAt := some (now + codeTtlMs)
    tenantId := some tenantId
    storeId := some storeId }

/-- **What an approval leaves.** -/
structure Approved (platform : Platform) (now : ℤ) (tables : Tables) (request tenantId : ℕ)
    (siteUrl : String) (tables' : Tables) (code storeId : ℕ) : Prop where
  claimable : ∃ row ∈ tables.codes, row.id = request ∧ row.approvedAt = none
  fresh : code = tables.next
  next : tables'.next = tables.next + 2
  credentials : tables'.credentials = tables.credentials
  codes : tables'.codes = tables.codes.map fun row =>
    if row.id = request then row.approved now (platform.hashToken code) tenantId storeId else row
  /-- The tenant's store connects, or it has a new one. -/
  stores : (∃ existing, tables.storeFor platform tenantId siteUrl = some existing ∧
      storeId = existing.id ∧ tables'.stores = tables.stores.map fun store =>
        if store.id = storeId then store.moved .connecting else store) ∨
    (tables.storeFor platform tenantId siteUrl = none ∧ storeId = tables.next + 1 ∧
      tables'.stores = tables.stores ++ [⟨storeId, tenantId, siteUrl, .connecting⟩])

theorem claimable_iff (hwf : Wellformed tables) :
    tables.codes.countP (ConnectionCode.claimable request) = 1 ↔
      ∃ row ∈ tables.codes, row.id = request ∧ row.approvedAt = none := by
  rw [countP_eq_one_iff hwf.codeIds (k := request)
    fun row h => by simp only [ConnectionCode.claimable, Bool.and_eq_true, decide_eq_true_eq] at h
                    exact h.1]
  simp only [ConnectionCode.claimable, Bool.and_eq_true, decide_eq_true_eq]

theorem unspent_iff (hwf : Wellformed tables) {id : ℕ} :
    tables.codes.countP (ConnectionCode.unspent id) = 1 ↔
      ∃ row ∈ tables.codes, row.id = id ∧ row.redeemedAt = none := by
  rw [countP_eq_one_iff hwf.codeIds (k := id)
    fun row h => by simp only [ConnectionCode.unspent, Bool.and_eq_true, decide_eq_true_eq] at h
                    exact h.1]
  simp only [ConnectionCode.unspent, Bool.and_eq_true, decide_eq_true_eq]

theorem createOrReuseStore_existing (hwf : Wellformed tables)
    (h : tables.storeFor platform tenantId siteUrl = some store) :
    createOrReuseStore platform withinPlan tables tenantId siteUrl =
      some ((transition tables.stores store.id .connecting).1, store.id) := by
  have hmoved : (transition tables.stores store.id .connecting).2 = true :=
    (transition_moved_iff hwf.storeIds).2
      ⟨store, (storeFor_spec h).1, rfl, mem_allowedFrom_connecting store.status⟩
  rw [createOrReuseStore, h]
  dsimp only
  rw [if_pos hmoved]

/-- **What an approval does**, where it commits. -/
theorem approved_of_approve (hwf : Wellformed tables)
    (h : approve platform now withinPlan tables request tenantId siteUrl =
      some (tables', code, storeId)) :
    Approved platform now tables request tenantId siteUrl tables' code storeId := by
  unfold approve at h
  by_cases hclaim : tables.codes.countP (ConnectionCode.claimable request) = 1
  swap
  · rw [if_pos hclaim] at h
    simp at h
  rw [if_neg (not_not_intro hclaim)] at h
  have hclaimable := (claimable_iff hwf).1 hclaim
  obtain ⟨claimed, hclaimed, hid, happroved⟩ := hclaimable
  -- The row of the request is the one that is claimed.
  have hcodes : ∀ storeId : ℕ, ((tables.codes.map fun row =>
        if row.claimable request then
          { row with
            approvedAt := some now
            codeHash := some (platform.hashToken tables.next)
            codeExpiresAt := some (now + codeTtlMs)
            tenantId := some tenantId }
        else row).map fun row =>
          if row.id = request then { row with storeId := some storeId } else row) =
      tables.codes.map fun row => if row.id = request then
        row.approved now (platform.hashToken tables.next) tenantId storeId else row := by
    intro storeId
    rw [List.map_map]
    refine List.map_congr_left fun row hrow => ?_
    rw [Function.comp_apply]
    by_cases hrequest : row.id = request
    · obtain rfl := eq_of_key hwf.codeIds hrow hclaimed (hrequest.trans hid.symm)
      have hfits : row.claimable request = true := by
        simp [ConnectionCode.claimable, hrequest, happroved]
      rw [if_pos hfits, if_pos hrequest]
      exact (if_pos hrequest).symm
    · have hnot : row.claimable request = false := by
        simp [ConnectionCode.claimable, hrequest]
      rw [hnot, if_neg hrequest]
      exact if_neg hrequest
  cases hstore : tables.storeFor platform tenantId siteUrl with
  | some existing =>
    rw [createOrReuseStore_existing hwf hstore] at h
    obtain ⟨rfl, rfl, rfl⟩ : _ ∧ _ ∧ _ := by
      obtain ⟨htables, hrest⟩ := Prod.mk.inj (Option.some.inj h)
      obtain ⟨hcode, hid⟩ := Prod.mk.inj hrest
      exact ⟨htables, hcode, hid⟩
    exact ⟨⟨claimed, hclaimed, hid, happroved⟩, rfl, rfl, rfl, hcodes existing.id,
      .inl ⟨existing, hstore, rfl, transition_all mem_allowedFrom_connecting⟩⟩
  | none =>
    rw [createOrReuseStore, hstore] at h
    dsimp only at h
    cases withinPlan with
    | false => simp at h
    | true =>
      obtain ⟨htables, hrest⟩ := Prod.mk.inj (Option.some.inj h)
      obtain ⟨rfl, rfl⟩ := Prod.mk.inj hrest
      subst htables
      exact ⟨⟨claimed, hclaimed, hid, happroved⟩, rfl, rfl, rfl, hcodes _,
        .inr ⟨hstore, rfl, rfl⟩⟩

/-- An approval of a store that is there commits where the request can be
claimed. -/
theorem approve_isSome (hwf : Wellformed tables)
    (hclaimable : ∃ row ∈ tables.codes, row.id = request ∧ row.approvedAt = none)
    (hstore : tables.storeFor platform tenantId siteUrl = some store) :
    ∃ result, approve platform now withinPlan tables request tenantId siteUrl = some result := by
  unfold approve
  rw [if_neg (not_not_intro ((claimable_iff hwf).2 hclaimable)),
    createOrReuseStore_existing hwf hstore]
  exact ⟨_, rfl⟩

/-- **What an exchange leaves.** -/
structure Redeemed (platform : Platform) (now : ℤ) (tables : Tables) (row : ConnectionCode)
    (tables' : Tables) (token storeId : ℕ) : Prop where
  store : row.storeId = some storeId
  unspent : ∃ other ∈ tables.codes, other.id = row.id ∧ other.redeemedAt = none
  fresh : token = tables.next
  next : tables'.next = tables.next + 1
  codes : tables'.codes = tables.codes.map fun other =>
    if other.unspent row.id then { other with redeemedAt := some now } else other
  credentials : tables'.credentials =
    tables.credentials ++ [⟨storeId, platform.hashToken token, none, false⟩]
  moved : ∃ store ∈ tables.stores, store.id = storeId ∧ store.status ∈ allowedFrom .connected
  stores : tables'.stores = (transition tables.stores storeId .connected).1

/-- **What an exchange does**, where it commits. -/
theorem redeemed_of_redeem (hwf : Wellformed tables)
    (h : redeem platform now tables row = some (tables', token, storeId)) :
    Redeemed platform now tables row tables' token storeId := by
  unfold redeem at h
  cases hstore : row.storeId with
  | none =>
    rw [hstore] at h
    simp at h
  | some other =>
    rw [hstore] at h
    dsimp only at h
    by_cases hspent : tables.codes.countP (ConnectionCode.unspent row.id) = 1
    · rw [if_neg (not_not_intro hspent)] at h
      by_cases hmoved : (transition tables.stores other .connected).2 = true
      · rw [if_pos hmoved] at h
        obtain ⟨htables, hrest⟩ := Prod.mk.inj (Option.some.inj h)
        obtain ⟨rfl, rfl⟩ := Prod.mk.inj hrest
        subst htables
        exact ⟨hstore, (unspent_iff hwf).1 hspent, rfl, rfl, rfl, rfl,
          (transition_moved_iff hwf.storeIds).1 hmoved, rfl⟩
      · rw [if_neg hmoved] at h
        simp at h
    · rw [if_pos hspent] at h
      simp at h

theorem redeem_isSome (hwf : Wellformed tables) (hstore : row.storeId = some storeId)
    (hunspent : ∃ other ∈ tables.codes, other.id = row.id ∧ other.redeemedAt = none)
    (hmoved : ∃ store ∈ tables.stores, store.id = storeId ∧
      store.status ∈ allowedFrom .connected) :
    ∃ result, redeem platform now tables row = some result := by
  unfold redeem
  rw [hstore]
  dsimp only
  rw [if_neg (not_not_intro ((unspent_iff hwf).2 hunspent)),
    if_pos ((transition_moved_iff hwf.storeIds).2 hmoved)]
  exact ⟨_, rfl⟩

/-- **What a disconnect does**, where it commits. -/
theorem clear_eq_some (h : clear now tables storeId = some tables') :
    tables'.next = tables.next ∧
      tables'.credentials = revokeAll now tables.credentials storeId ∧
      (tables'.stores = tables.stores.map fun store =>
        if store.id = storeId then store.moved .disconnected else store) ∧
      tables'.codes = tables.codes.map fun row =>
        if row.storeId = some storeId ∧ row.redeemedAt = none then
          { row with redeemedAt := some now }
        else row := by
  unfold clear at h
  by_cases hmoved : (transition tables.stores storeId .disconnected).2 = true
  · dsimp only at h
    rw [if_pos hmoved] at h
    obtain rfl := Option.some.inj h
    exact ⟨rfl, rfl, transition_all mem_allowedFrom_disconnected, rfl⟩
  · dsimp only at h
    rw [if_neg hmoved] at h
    simp at h

/-! ## What a statement does -/

/-- The row of a handshake that is begun. -/
def begun (platform : Platform) (now : ℤ) (tables : Tables) (dto : InitiateDto) (siteUrl : String) :
    ConnectionCode where
  id := tables.next
  siteUrl := siteUrl
  callback := dto.callback
  stateHash := platform.hashToken dto.state
  challenge := dto.challenge
  requestExpiresAt := now + requestTtlMs

/-- **What the statements of requests do**, each with what it found. -/
inductive Takes (platform : Platform) (input : Input) (tables : Tables) :
    Phase → Tables × Phase → Prop where
  | stays (phase : Phase) (h : ∀ storeId, phase ≠ .rekeying storeId) :
    Takes platform input tables phase (tables, phase)
  | refuses (phase : Phase) : Takes platform input tables phase (tables, .refused)
  | begins (dto : InitiateDto) (siteUrl : String) :
    Takes platform input tables (.initiating dto)
      ({ tables with
          codes := tables.codes ++ [begun platform input.now tables dto siteUrl]
          next := tables.next + 1 }, .initiated tables.next)
  | reads (dto : AuthorizeDto) (tenantId : ℕ) (siteUrl : String) :
    Takes platform input tables (.authorizing dto tenantId)
      (tables, .claiming dto.request tenantId siteUrl)
  | approves {request tenantId : ℕ} {siteUrl : String} {tables' : Tables} {code storeId : ℕ}
      (h : Approved platform input.now tables request tenantId siteUrl tables' code storeId) :
    Takes platform input tables (.claiming request tenantId siteUrl)
      (tables', .approved code storeId)
  | finds {dto : ExchangeDto} {row : ConnectionCode} (hrow : row ∈ tables.codes)
      (hcode : row.codeHash = some (platform.hashToken dto.code))
      (hverifier : platform.pkceChallenge dto.verifier = row.challenge)
      (hsite : platform.normaliseUrl dto.siteUrl = some row.siteUrl) :
    Takes platform input tables (.exchanging dto) (tables, .spending row)
  | redeems {row : ConnectionCode} {tables' : Tables} {token storeId : ℕ}
      (h : Redeemed platform input.now tables row tables' token storeId) :
    Takes platform input tables (.spending row) (tables', .connected token storeId)
  | meets (storeId : ℕ) :
    Takes platform input tables (.disconnecting storeId) (tables, .clearing storeId)
  | clears {storeId : ℕ} {tables' : Tables} (h : clear input.now tables storeId = some tables') :
    Takes platform input tables (.clearing storeId) (tables', .disconnected storeId)
  /-- A store whose credential may be replaced is found. -/
  | looks {store : Store} (hstore : store ∈ tables.stores) :
    Takes platform input tables (.rotating store.id) (tables, .rekeying store.id)
  | rekeys (storeId : ℕ) :
    Takes platform input tables (.rekeying storeId)
      (rekey platform input.now tables storeId, .rotated tables.next)

/-- **Every statement does one of these.** -/
theorem takes_statement (platform : Platform) (input : Input) (phase : Phase)
    (hwf : Wellformed tables) :
    Takes platform input tables phase (statement platform input tables phase) := by
  cases phase with
  | initiating dto =>
    unfold statement initiate
    dsimp only
    split
    · exact .refuses _
    · split_ifs
      · exact .refuses _
      · exact .refuses _
      · exact .begins dto _
  | authorizing dto tenantId =>
    unfold statement authorize
    dsimp only
    split
    · exact .refuses _
    · split_ifs
      · exact .refuses _
      · exact .reads dto tenantId _
  | claiming request tenantId siteUrl =>
    unfold statement
    dsimp only
    split
    · rename_i hresult
      exact .approves (approved_of_approve hwf hresult)
    · exact .refuses _
  | exchanging dto =>
    unfold statement exchange
    dsimp only
    split
    · exact .refuses _
    · rename_i row hfound
      split_ifs with hrefused
      · exact .refuses _
      · obtain ⟨-, -, hverifier, hsite⟩ : _ ∧ _ ∧ _ ∧ _ := by
          simpa only [not_or, not_not] using hrefused
        have hfits := List.find?_some hfound
        exact .finds (List.mem_of_find?_eq_some hfound) (of_decide_eq_true hfits).1 hverifier hsite
  | spending row =>
    unfold statement
    dsimp only
    split
    · rename_i hresult
      exact .redeems (redeemed_of_redeem hwf hresult)
    · exact .refuses _
  | disconnecting storeId =>
    unfold statement
    dsimp only
    split_ifs
    · exact .meets storeId
    · exact .refuses _
  | clearing storeId =>
    unfold statement
    dsimp only
    split
    · rename_i hresult
      exact .clears hresult
    · exact .refuses _
  | rotating storeId =>
    unfold statement
    dsimp only
    split_ifs with hany
    · obtain ⟨store, hstore, hfits⟩ := List.any_eq_true.1 hany
      obtain rfl : store.id = storeId := of_decide_eq_true (Bool.and_eq_true_iff.1 hfits).1
      exact .looks hstore
    · exact .refuses _
  | rekeying storeId => exact .rekeys storeId
  | _ => exact .stays _ (by simp)

/-! ## The tables stay as their keys have them -/

theorem map_key_map {f : α → α} (hf : ∀ a, key (f a) = key a) :
    (rows.map f).map key = rows.map key := by
  rw [List.map_map]
  exact List.map_congr_left fun a _ => hf a

theorem drawn_map {f : α → α} {next next' : ℕ} (hf : ∀ a, key (f a) = key a) (hle : next ≤ next')
    (h : ∀ a ∈ rows, key a < next) : ∀ a ∈ rows.map f, key a < next' := by
  intro a ha
  obtain ⟨b, hb, rfl⟩ := List.mem_map.1 ha
  rw [hf]
  exact lt_of_lt_of_le (h b hb) hle

theorem nodup_append_fresh {a : α} (hnodup : (rows.map key).Nodup)
    (hfresh : ∀ b ∈ rows, key b < key a) : ((rows ++ [a]).map key).Nodup := by
  rw [List.map_append, List.map_singleton]
  refine List.nodup_append'.2 ⟨hnodup, List.nodup_singleton _, fun k hk hka => ?_⟩
  obtain ⟨b, hb, rfl⟩ := List.mem_map.1 hk
  have hlt := hfresh b hb
  rw [List.mem_singleton.1 hka] at hlt
  omega

theorem storeId_revokeAll {credentials : List Credential} :
    ∀ credential ∈ revokeAll now credentials storeId, ∃ old ∈ credentials,
      credential.storeId = old.storeId ∧ credential.tokenHash = old.tokenHash ∧
        credential.rotated = old.rotated := by
  intro credential hcredential
  obtain ⟨old, hold, rfl⟩ := List.mem_map.1 hcredential
  refine ⟨old, hold, ?_⟩
  split_ifs
  · exact ⟨rfl, rfl, rfl⟩
  · exact ⟨rfl, rfl, rfl⟩

theorem map_id_transition (stores : List Store) (storeId : ℕ) (target : StoreStatus) :
    (transition stores storeId target).1.map (·.id) = stores.map (·.id) := by
  unfold transition
  refine map_key_map fun store => ?_
  split_ifs
  · rfl
  · rfl

/-- The key of a store whose credential is to be replaced was drawn. -/
def Phase.Drawn (next : ℕ) : Phase → Prop
  | .rekeying storeId => storeId < next
  | _ => True

theorem Phase.Drawn.mono {next next' : ℕ} (h : phase.Drawn next) (hle : next ≤ next') :
    phase.Drawn next' := by
  cases phase with
  | rekeying storeId => exact lt_of_lt_of_le h hle
  | _ => trivial

/-- **A statement keeps the tables as their keys have them**, and draws no
number twice. -/
theorem Takes.wellformed {input : Input} (h : Takes platform input tables phase result)
    (hwf : Wellformed tables) (hdrawn : phase.Drawn tables.next) :
    Wellformed result.1 ∧ tables.next ≤ result.1.next := by
  cases h with
  | begins dto siteUrl =>
    refine ⟨⟨nodup_append_fresh hwf.codeIds hwf.codeDrawn, hwf.storeIds, fun row hrow => ?_,
      fun store hstore => ?_, fun credential hcredential => ?_⟩, Nat.le_succ _⟩
    · obtain hrow | hrow := List.mem_append.1 hrow
      · exact Nat.lt_succ_of_lt (hwf.codeDrawn row hrow)
      · rw [List.mem_singleton.1 hrow]
        exact Nat.lt_succ_self _
    · exact Nat.lt_succ_of_lt (hwf.storeDrawn store hstore)
    · exact Nat.lt_succ_of_lt (hwf.credentialDrawn credential hcredential)
  | @approves request tenantId siteUrl tables' code storeId h =>
    have hle : tables.next ≤ tables'.next := by
      rw [h.next]
      omega
    have hcode : ∀ row : ConnectionCode, (if row.id = request then
        row.approved input.now (platform.hashToken code) tenantId storeId else row).id =
          row.id := fun row => by
      split_ifs
      · rfl
      · rfl
    have hstore : ∀ store : Store, (if store.id = storeId then
        store.moved .connecting else store).id = store.id := fun store => by
      split_ifs
      · rfl
      · rfl
    refine ⟨⟨by rw [h.codes, map_key_map hcode]; exact hwf.codeIds, ?_,
      by rw [h.codes]; exact drawn_map hcode hle hwf.codeDrawn, ?_,
      fun credential hcredential => ?_⟩, hle⟩
    · obtain ⟨existing, -, -, hstores⟩ | ⟨-, hid, hstores⟩ := h.stores
      · rw [hstores, map_key_map hstore]
        exact hwf.storeIds
      · rw [hstores]
        refine nodup_append_fresh hwf.storeIds fun store hstore => ?_
        have hlt := hwf.storeDrawn store hstore
        dsimp only
        omega
    · obtain ⟨existing, -, -, hstores⟩ | ⟨-, hid, hstores⟩ := h.stores
      · rw [hstores]
        exact drawn_map hstore hle hwf.storeDrawn
      · intro store hmem
        rw [hstores] at hmem
        rw [h.next]
        obtain hmem | hmem := List.mem_append.1 hmem
        · have hlt := hwf.storeDrawn store hmem
          omega
        · rw [List.mem_singleton.1 hmem]
          dsimp only
          omega
    · rw [h.credentials] at hcredential
      exact lt_of_lt_of_le (hwf.credentialDrawn credential hcredential) hle
  | @redeems row tables' token storeId h =>
    have hle : tables.next ≤ tables'.next := by
      rw [h.next]
      omega
    have hcode : ∀ other : ConnectionCode, (if other.unspent row.id then
        { other with redeemedAt := some input.now } else other).id = other.id := fun other => by
      split_ifs
      · rfl
      · rfl
    have hids := map_id_transition tables.stores storeId .connected
    refine ⟨⟨by rw [h.codes, map_key_map hcode]; exact hwf.codeIds,
      by rw [h.stores, hids]; exact hwf.storeIds,
      by rw [h.codes]; exact drawn_map hcode hle hwf.codeDrawn, fun store hstore => ?_,
      fun credential hcredential => ?_⟩, hle⟩
    · have hid : store.id ∈ tables.stores.map (·.id) := by
        rw [← hids, ← h.stores]
        exact List.mem_map_of_mem hstore
      obtain ⟨old, hold, hsame⟩ := List.mem_map.1 hid
      rw [← hsame]
      exact lt_of_lt_of_le (hwf.storeDrawn old hold) hle
    · rw [h.credentials] at hcredential
      obtain hold | hnew := List.mem_append.1 hcredential
      · exact lt_of_lt_of_le (hwf.credentialDrawn credential hold) hle
      · obtain ⟨store, hstore, hid, -⟩ := h.moved
        rw [List.mem_singleton.1 hnew]
        dsimp only
        rw [← hid]
        exact lt_of_lt_of_le (hwf.storeDrawn store hstore) hle
  | @clears storeId tables' h =>
    obtain ⟨hnext, hcredentials, hstores, hcodes⟩ := clear_eq_some h
    have hcode : ∀ row : ConnectionCode, (if row.storeId = some storeId ∧ row.redeemedAt = none then
        { row with redeemedAt := some input.now } else row).id = row.id := fun row => by
      split_ifs
      · rfl
      · rfl
    have hstore : ∀ store : Store, (if store.id = storeId then
        store.moved .disconnected else store).id = store.id := fun store => by
      split_ifs
      · rfl
      · rfl
    have hle : tables.next ≤ tables'.next := hnext.ge
    refine ⟨⟨by rw [hcodes, map_key_map hcode]; exact hwf.codeIds,
      by rw [hstores, map_key_map hstore]; exact hwf.storeIds,
      by rw [hcodes]; exact drawn_map hcode hle hwf.codeDrawn,
      by rw [hstores]; exact drawn_map hstore hle hwf.storeDrawn,
      fun credential hcredential => ?_⟩, hle⟩
    rw [hcredentials] at hcredential
    obtain ⟨old, hold, hid, -⟩ := storeId_revokeAll credential hcredential
    rw [hid]
    exact lt_of_lt_of_le (hwf.credentialDrawn old hold) hle
  | rekeys storeId =>
    refine ⟨⟨hwf.codeIds, hwf.storeIds, fun row hrow => Nat.lt_succ_of_lt (hwf.codeDrawn row hrow),
      fun store hstore => Nat.lt_succ_of_lt (hwf.storeDrawn store hstore),
      fun credential hcredential => Nat.lt_succ_of_lt ?_⟩, Nat.le_succ _⟩
    obtain hold | hnew := List.mem_append.1 hcredential
    · obtain ⟨old, hold, hid, -⟩ := storeId_revokeAll credential hold
      rw [hid]
      exact hwf.credentialDrawn old hold
    · rw [List.mem_singleton.1 hnew]
      exact hdrawn
  | _ => exact ⟨hwf, Nat.le_refl _⟩

theorem Takes.drawn {input : Input} (h : Takes platform input tables phase result)
    (hwf : Wellformed tables) : result.2.Drawn result.1.next := by
  cases h with
  | stays phase h =>
    cases phase with
    | rekeying storeId => exact absurd rfl (h storeId)
    | _ => trivial
  | looks hstore => exact hwf.storeDrawn _ hstore
  | _ => trivial

/-! ## Runs -/

/-- The tables are as their keys have them, and what is to be done of a store
that was drawn. -/
structure Kept (s : State) : Prop where
  wellformed : Wellformed s.data
  /-- A store whose credential is to be replaced was drawn. -/
  drawn : ∀ (i : ℕ) request phase, s.calls[i]? = some (request, phase) →
    phase.Drawn s.data.next

/-- **Every action keeps this.** -/
theorem kept_step (platform : Platform) {s : State} (action : Action) (h : Kept s) :
    Kept ((cloud platform).step s action) := by
  constructor
  · cases action with
    | start request =>
      rw [data_start]
      exact h.wellformed
    | advance i input =>
      cases hcall : s.calls[i]? with
      | none =>
        rw [step_of_none hcall]
        exact h.wellformed
      | some call =>
        rw [step_advance hcall]
        exact ((takes_statement platform input call.2 h.wellformed).wellformed h.wellformed
          (h.drawn i call.1 call.2 hcall)).1
  · refine forall_calls (K := fun (tables : Tables) _ phase => Phase.Drawn tables.next phase) ?_ ?_ ?_ h.drawn
    · intro request phase _ henter
      cases request with
      | _ =>
        obtain rfl := Option.some.inj henter
        trivial
    · exact fun _ input _ phase _ _ _ => (takes_statement platform input phase h.wellformed).drawn
        h.wellformed
    · intro i input request phase _ hcall request' phase' hdrawn
      exact hdrawn.mono ((takes_statement platform input phase h.wellformed).wellformed h.wellformed
        (h.drawn i request phase hcall)).2

theorem kept_initial : Kept initial :=
  ⟨⟨List.nodup_nil, List.nodup_nil, fun _ h => absurd h List.not_mem_nil,
    fun _ h => absurd h List.not_mem_nil, fun _ h => absurd h List.not_mem_nil⟩,
    fun _ _ _ h => absurd h (by simp [initial])⟩

end Optionia.Stores
