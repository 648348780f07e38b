import Mathlib.Logic.Function.Basic
import Optionia.Stores.Transactions
/-!
# A code is good once

In every state that requests, interleaved in any way, reach from no store, a
credential that an exchange minted belongs to one exchange, which presented the
code of a request that was approved for the tenant of the store, a verifier of
its challenge and its site (`GoodOnce`); and a disconnect leaves no code that
was approved before it good for its store (`goodOnce`).
-/

namespace Optionia.Stores

open Runs Calls.System

/-! ## What is claimed -/

/-- **What an exchange presented**: the code of a request that was approved for
the tenant of the store, a verifier of its challenge, and its site. -/
def Bound (platform : Platform) (s : State) (dto : ExchangeDto) (storeId : ℕ) : Prop :=
  ∃ (j : ℕ) (approval : AuthorizeDto) (tenantId : ℕ),
    s.calls[j]? = some (.authorize approval tenantId, .approved dto.code storeId) ∧
      (∃ store ∈ s.data.stores, store.id = storeId ∧ store.tenantId = tenantId) ∧
        ∃ row ∈ s.data.codes, row.id = approval.request ∧
          platform.pkceChallenge dto.verifier = row.challenge ∧
            platform.normaliseUrl dto.siteUrl = some row.siteUrl

/-- **A code is good once, for one tenant, one verifier and one site.** -/
structure GoodOnce (platform : Platform) (s : State) : Prop where
  /-- A credential an exchange minted belongs to one exchange. -/
  minted : ∀ credential ∈ s.data.credentials, credential.rotated = false →
    ∃! i : ℕ, ∃ dto token,
      s.calls[i]? = some (.exchange dto, .connected token credential.storeId) ∧
        platform.hashToken token = credential.tokenHash ∧ Bound platform s dto credential.storeId
  requests : ∀ (j j' : ℕ) dto dto' tenantId tenantId' code code' storeId storeId',
    s.calls[j]? = some (.authorize dto tenantId, .approved code storeId) →
      s.calls[j']? = some (.authorize dto' tenantId', .approved code' storeId') →
        dto.request = dto'.request → j = j'
  codes : ∀ (i i' : ℕ) dto dto' token token' storeId storeId',
    s.calls[i]? = some (.exchange dto, .connected token storeId) →
      s.calls[i']? = some (.exchange dto', .connected token' storeId') →
        dto.code = dto'.code → i = i'
  tokens : (s.data.credentials.map (·.tokenHash)).Nodup

/-- **A code that was approved before is good for a store no more**: an exchange
that comes by a credential for it with such a code had it before. -/
def Spent (s later : State) (storeId : ℕ) : Prop :=
  ∀ (i j : ℕ) approval tenantId approvedFor dto token,
    s.calls[j]? = some (.authorize approval tenantId, .approved dto.code approvedFor) →
      later.calls[i]? = some (.exchange dto, .connected token storeId) →
        s.calls[i]? = some (.exchange dto, .connected token storeId)

/-! ## What stays as it is -/

variable {platform : Platform} {input : Input} {tables tables' : Tables} {phase : Phase}
  {result : Tables × Phase} {request : Request} {row row' : ConnectionCode} {s : State}
  {action : Action}

/-- What a handshake's row keeps: where it began, and once it is approved its
code and its store. -/
structure ConnectionCode.Keeps (row row' : ConnectionCode) : Prop where
  id : row'.id = row.id
  siteUrl : row'.siteUrl = row.siteUrl
  challenge : row'.challenge = row.challenge
  /-- Once approved it stays so, with its code and its store. -/
  approved : row.approvedAt ≠ none →
    row'.approvedAt ≠ none ∧ row'.codeHash = row.codeHash ∧ row'.storeId = row.storeId
  redeemed : row.redeemedAt ≠ none → row'.redeemedAt ≠ none

theorem ConnectionCode.Keeps.refl (row : ConnectionCode) : row.Keeps row :=
  ⟨rfl, rfl, rfl, fun h => ⟨h, rfl, rfl⟩, fun h => h⟩

/-- **A statement leaves every handshake as it was**, but that it may be
approved or spent. -/
theorem Takes.keeps (h : Takes platform input tables phase result) (hwf : Wellformed tables)
    (hrow : row ∈ tables.codes) : ∃ row' ∈ result.1.codes, row.Keeps row' := by
  cases h with
  | begins dto siteUrl => exact ⟨row, List.mem_append_left _ hrow, .refl row⟩
  | approves h =>
    rw [h.codes]
    refine ⟨_, List.mem_map_of_mem hrow, ?_⟩
    split_ifs with hid
    · refine ⟨rfl, rfl, rfl, fun happroved => ?_, fun hredeemed => hredeemed⟩
      -- The row that is approved was not.
      obtain ⟨claimed, hclaimed, hid', hnone⟩ := h.claimable
      obtain rfl := eq_of_key hwf.codeIds hrow hclaimed (hid.trans hid'.symm)
      exact absurd hnone happroved
    · exact .refl row
  | redeems h =>
    rw [h.codes]
    refine ⟨_, List.mem_map_of_mem hrow, ?_⟩
    split_ifs
    · exact ⟨rfl, rfl, rfl, fun happroved => ⟨happroved, rfl, rfl⟩,
        fun _ => Option.some_ne_none input.now⟩
    · exact .refl row
  | clears h =>
    obtain ⟨-, -, -, hcodes⟩ := clear_eq_some h
    rw [hcodes]
    refine ⟨_, List.mem_map_of_mem hrow, ?_⟩
    split_ifs
    · exact ⟨rfl, rfl, rfl, fun happroved => ⟨happroved, rfl, rfl⟩,
        fun _ => Option.some_ne_none input.now⟩
    · exact .refl row
  | _ => exact ⟨row, hrow, .refl row⟩

theorem Takes.tenants (h : Takes platform input tables phase result) {store : Store}
    (hstore : store ∈ tables.stores) :
    ∃ store' ∈ result.1.stores, store'.id = store.id ∧ store'.tenantId = store.tenantId := by
  have hmap : ∀ f : Store → Store, (∀ old, (f old).id = old.id ∧ (f old).tenantId = old.tenantId) →
      ∃ store' ∈ tables.stores.map f, store'.id = store.id ∧ store'.tenantId = store.tenantId :=
    fun f hf => ⟨f store, List.mem_map_of_mem hstore, hf store⟩
  cases h with
  | approves h =>
    obtain ⟨existing, -, -, hstores⟩ | ⟨-, -, hstores⟩ := h.stores
    · rw [hstores]
      refine hmap _ fun old => ?_
      split_ifs
      · exact ⟨rfl, rfl⟩
      · exact ⟨rfl, rfl⟩
    · rw [hstores]
      exact ⟨store, List.mem_append_left _ hstore, rfl, rfl⟩
  | redeems h =>
    rw [h.stores]
    refine hmap _ fun old => ?_
    split_ifs
    · exact ⟨rfl, rfl⟩
    · exact ⟨rfl, rfl⟩
  | clears h =>
    obtain ⟨-, -, hstores, -⟩ := clear_eq_some h
    rw [hstores]
    refine hmap _ fun old => ?_
    split_ifs
    · exact ⟨rfl, rfl⟩
    · exact ⟨rfl, rfl⟩
  | _ => exact ⟨store, hstore, rfl, rfl⟩

/-! ## What is known of a request -/

/-- The row of a code that was approved, for what an exchange presented. -/
structure Shown (platform : Platform) (dto : ExchangeDto) (row : ConnectionCode) : Prop where
  approved : row.approvedAt ≠ none
  code : row.codeHash = some (platform.hashToken dto.code)
  verifier : platform.pkceChallenge dto.verifier = row.challenge
  /-- And the site is the one it began for. -/
  site : platform.normaliseUrl dto.siteUrl = some row.siteUrl

theorem Shown.mono {dto : ExchangeDto} (h : Shown platform dto row) (hkeeps : row.Keeps row') :
    Shown platform dto row' :=
  ⟨(hkeeps.approved h.approved).1, (hkeeps.approved h.approved).2.1.trans h.code,
    h.verifier.trans hkeeps.challenge.symm, h.site.trans (by rw [hkeeps.siteUrl])⟩

/-- **What is known of a request by how far it is.** -/
def Phase.Holds (platform : Platform) (tables : Tables) (request : Request) : Phase → Prop
  | .authorizing dto tenantId => request = .authorize dto tenantId
  | .claiming id tenantId _ => ∃ dto, request = .authorize dto tenantId ∧ dto.request = id
  | .approved code storeId => ∃ dto tenantId, request = .authorize dto tenantId ∧
      code < tables.next ∧ (∃ store ∈ tables.stores, store.id = storeId ∧ store.tenantId = tenantId) ∧
        ∃ row ∈ tables.codes, row.id = dto.request ∧ row.approvedAt ≠ none ∧
          row.codeHash = some (platform.hashToken code) ∧ row.storeId = some storeId
  | .exchanging dto => request = .exchange dto
  | .spending row => ∃ dto, request = .exchange dto ∧
      ∃ row' ∈ tables.codes, row'.id = row.id ∧ row'.storeId = row.storeId ∧ Shown platform dto row'
  | .connected token storeId => ∃ dto, request = .exchange dto ∧ token < tables.next ∧
      ∃ row ∈ tables.codes, row.storeId = some storeId ∧ row.redeemedAt ≠ none ∧
        Shown platform dto row
  | _ => True

/-- **It is known as long.** -/
theorem Phase.Holds.mono {other : Phase} (h : other.Holds platform tables request)
    (hkeeps : ∀ row ∈ tables.codes, ∃ row' ∈ tables'.codes, row.Keeps row')
    (htenants : ∀ store ∈ tables.stores,
      ∃ store' ∈ tables'.stores, store'.id = store.id ∧ store'.tenantId = store.tenantId)
    (hle : tables.next ≤ tables'.next) : other.Holds platform tables' request := by
  cases other with
  | approved code storeId =>
    obtain ⟨dto, tenantId, hrequest, hcode, ⟨store, hstore, rfl, htenant⟩, row, hrow, hid, happroved,
      hhash, hrowStore⟩ := h
    obtain ⟨store', hstore', hid', htenant'⟩ := htenants store hstore
    obtain ⟨row', hrow', hkept⟩ := hkeeps row hrow
    obtain ⟨happroved', hhash', hrowStore'⟩ := hkept.approved happroved
    exact ⟨dto, tenantId, hrequest, lt_of_lt_of_le hcode hle,
      ⟨store', hstore', hid', htenant'.trans htenant⟩, row', hrow', hkept.id.trans hid, happroved',
      hhash'.trans hhash, hrowStore'.trans hrowStore⟩
  | spending row =>
    obtain ⟨dto, hrequest, old, hold, hid, hstore, hshown⟩ := h
    obtain ⟨row', hrow', hkept⟩ := hkeeps old hold
    exact ⟨dto, hrequest, row', hrow', hkept.id.trans hid,
      (hkept.approved hshown.approved).2.2.trans hstore, hshown.mono hkept⟩
  | connected token storeId =>
    obtain ⟨dto, hrequest, htoken, row, hrow, hstore, hredeemed, hshown⟩ := h
    obtain ⟨row', hrow', hkept⟩ := hkeeps row hrow
    exact ⟨dto, hrequest, lt_of_lt_of_le htoken hle, row', hrow',
      (hkept.approved hshown.approved).2.2.trans hstore, hkept.redeemed hredeemed,
      hshown.mono hkept⟩
  | _ => exact h

/-- **A request's own statement comes to what is known of it after.** -/
theorem Takes.holds (h : Takes platform input tables phase result)
    (htidy : ∀ row ∈ tables.codes, row.approvedAt = none → row.codeHash = none)
    (hholds : phase.Holds platform tables request) :
    result.2.Holds platform result.1 request := by
  cases h with
  | stays => exact hholds
  | reads dto tenantId siteUrl => exact ⟨dto, hholds, rfl⟩
  | @approves id tenantId siteUrl tables' code storeId h =>
    obtain ⟨dto, hrequest, rfl⟩ := hholds
    obtain ⟨claimed, hclaimed, hid, -⟩ := h.claimable
    refine ⟨dto, tenantId, hrequest, ?_, ?_, ?_⟩
    · rw [h.next, h.fresh]
      omega
    · obtain ⟨existing, hexisting, hstoreId, hstores⟩ | ⟨-, -, hstores⟩ := h.stores
      · obtain ⟨hmem, htenant⟩ := storeFor_spec hexisting
        rw [hstores]
        exact ⟨existing.moved .connecting, List.mem_map.2 ⟨existing, hmem, if_pos hstoreId.symm⟩,
          hstoreId.symm, htenant⟩
      · rw [hstores]
        exact ⟨_, List.mem_append_right _ List.mem_cons_self, rfl, rfl⟩
    · rw [h.codes]
      exact ⟨_, List.mem_map.2 ⟨claimed, hclaimed, if_pos hid⟩, hid, Option.some_ne_none _, rfl, rfl⟩
  | finds hrow hcode hverifier hsite =>
    refine ⟨_, hholds, _, hrow, rfl, rfl, fun hnone => ?_, hcode, hverifier, hsite⟩
    exact absurd ((htidy _ hrow hnone).symm.trans hcode).symm (Option.some_ne_none _)
  | @redeems row tables' token storeId h =>
    obtain ⟨dto, hrequest, old, hold, hid, hstore, hshown⟩ := hholds
    refine ⟨dto, hrequest, ?_, ?_⟩
    · rw [h.next, h.fresh]
      omega
    · rw [h.codes]
      refine ⟨_, List.mem_map_of_mem hold, ?_⟩
      split_ifs with hunspent
      · exact ⟨hstore.trans h.store, Option.some_ne_none input.now,
          hshown.approved, hshown.code, hshown.verifier, hshown.site⟩
      · refine ⟨hstore.trans h.store, fun hnone => hunspent ?_, hshown⟩
        simp [ConnectionCode.unspent, hid, hnone]
  | _ => trivial

/-! ## What is drawn once -/

def approvedRequest : Request → Phase → Option ℕ
  | .authorize dto _, .approved _ _ => some dto.request
  | _, _ => none

/-- The code it was approved with. -/
def approvedCode : Request → Phase → Option ℕ
  | _, .approved code _ => some code
  | _, _ => none

def spentCode : Request → Phase → Option ℕ
  | .exchange dto, .connected _ _ => some dto.code
  | _, _ => none

def mintedToken : Request → Phase → Option ℕ
  | _, .connected token _ => some token
  | _, _ => none

/-- **What holds in every state of the handshakes.** -/
structure Sound (platform : Platform) (s : State) : Prop where
  kept : Kept s
  calls : ∀ (i : ℕ) request phase, s.calls[i]? = some (request, phase) →
    phase.Holds platform s.data request
  /-- A request that is not approved has no code. -/
  tidy : ∀ row ∈ s.data.codes, row.approvedAt = none → row.codeHash = none
  approvals : ∀ row ∈ s.data.codes, row.approvedAt ≠ none →
    ∃ (j : ℕ) (dto : AuthorizeDto) (tenantId code storeId : ℕ),
      s.calls[j]? = some (.authorize dto tenantId, .approved code storeId) ∧ dto.request = row.id
  oneRequest : OnePer approvedRequest s
  oneCode : OnePer approvedCode s
  oneSpent : OnePer spentCode s
  oneToken : OnePer mintedToken s
  /-- A credential an exchange minted was given to a call. -/
  minted : ∀ credential ∈ s.data.credentials, credential.rotated = false →
    ∃ (i : ℕ) (dto : ExchangeDto) (token : ℕ),
      s.calls[i]? = some (.exchange dto, .connected token credential.storeId) ∧
        platform.hashToken token = credential.tokenHash
  hashes : (s.data.credentials.map (·.tokenHash)).Nodup
  drawn : ∀ credential ∈ s.data.credentials,
    ∃ token < s.data.next, credential.tokenHash = platform.hashToken token

/-- **A code is for one row.** -/
theorem Sound.row_of_code (hinj : Function.Injective platform.hashToken) (h : Sound platform s)
    {code : ℕ} (hrow : row ∈ s.data.codes) (hrow' : row' ∈ s.data.codes)
    (hcode : row.codeHash = some (platform.hashToken code))
    (hcode' : row'.codeHash = some (platform.hashToken code)) : row = row' := by
  -- The call that approved a row with the code returned the code.
  have hcall : ∀ row ∈ s.data.codes, row.codeHash = some (platform.hashToken code) →
      ∃ (j : ℕ) (dto : AuthorizeDto) (tenantId storeId : ℕ),
        s.calls[j]? = some (.authorize dto tenantId, .approved code storeId) ∧
          dto.request = row.id := by
    intro row hrow hcode
    have happroved : row.approvedAt ≠ none := fun hnone =>
      absurd ((h.tidy row hrow hnone).symm.trans hcode).symm (Option.some_ne_none _)
    obtain ⟨j, dto, tenantId, code', storeId, hj, hid⟩ := h.approvals row hrow happroved
    obtain ⟨dto', tenantId', hrequest, -, -, other, hother, hid', -, hhash, -⟩ := h.calls j _ _ hj
    obtain ⟨rfl, rfl⟩ := Request.authorize.inj hrequest
    obtain rfl := eq_of_key h.kept.wellformed.codeIds hother hrow (hid'.trans hid)
    obtain rfl := hinj (Option.some.inj (hhash.symm.trans hcode))
    exact ⟨j, dto, tenantId, storeId, hj, hid⟩
  obtain ⟨j, dto, tenantId, storeId, hj, hid⟩ := hcall row hrow hcode
  obtain ⟨j', dto', tenantId', storeId', hj', hid'⟩ := hcall row' hrow' hcode'
  obtain rfl := h.oneCode j j' _ _ code hj hj' rfl rfl
  obtain ⟨hrequest, -⟩ := Prod.mk.inj (Option.some.inj (hj.symm.trans hj'))
  obtain ⟨rfl, -⟩ := Request.authorize.inj hrequest
  exact eq_of_key h.kept.wellformed.codeIds hrow hrow' (hid.symm.trans hid')

/-! ## What a statement brings -/

theorem Takes.rows_back (h : Takes platform input tables phase result) (hrow : row ∈ result.1.codes) :
    (∃ old ∈ tables.codes, old.id = row.id ∧ (row.approvedAt ≠ none → old.approvedAt ≠ none) ∧
        (row.approvedAt = none → row.codeHash = old.codeHash ∧ old.approvedAt = none)) ∨
      (row.approvedAt = none ∧ row.codeHash = none) ∨
        row.approvedAt ≠ none ∧ ∃ tenantId siteUrl code storeId,
          phase = .claiming row.id tenantId siteUrl ∧ result.2 = .approved code storeId := by
  have hsame : ∀ old ∈ tables.codes, old.id = row.id → row.approvedAt = old.approvedAt →
      row.codeHash = old.codeHash →
        (∃ old ∈ tables.codes, old.id = row.id ∧ (row.approvedAt ≠ none → old.approvedAt ≠ none) ∧
          (row.approvedAt = none → row.codeHash = old.codeHash ∧ old.approvedAt = none)) :=
    fun old hold hid happroved hcode => ⟨old, hold, hid, fun hne => by rwa [← happroved],
      fun hnone => ⟨hcode, happroved.symm.trans hnone⟩⟩
  cases h with
  | begins dto siteUrl =>
    obtain hold | hnew := List.mem_append.1 hrow
    · exact .inl (hsame row hold rfl rfl rfl)
    · rw [List.mem_singleton.1 hnew]
      exact .inr (.inl ⟨rfl, rfl⟩)
  | @approves id tenantId siteUrl tables' code storeId h =>
    rw [h.codes] at hrow
    obtain ⟨old, hold, rfl⟩ := List.mem_map.1 hrow
    split_ifs at hsame ⊢ with hid
    · subst hid
      exact .inr (.inr ⟨Option.some_ne_none _, tenantId, siteUrl, code, storeId, rfl, rfl⟩)
    · exact .inl (hsame old hold rfl rfl rfl)
  | redeems h =>
    rw [h.codes] at hrow
    obtain ⟨old, hold, rfl⟩ := List.mem_map.1 hrow
    split_ifs at hsame ⊢
    · exact .inl (hsame old hold rfl rfl rfl)
    · exact .inl (hsame old hold rfl rfl rfl)
  | clears h =>
    obtain ⟨-, -, -, hcodes⟩ := clear_eq_some h
    rw [hcodes] at hrow
    obtain ⟨old, hold, rfl⟩ := List.mem_map.1 hrow
    split_ifs at hsame ⊢
    · exact .inl (hsame old hold rfl rfl rfl)
    · exact .inl (hsame old hold rfl rfl rfl)
  | _ => exact .inl (hsame row hrow rfl rfl rfl)

/-- A credential was there, or was minted: by an exchange, which was given its
token, or by a rotation. -/
theorem Takes.credentials_back (h : Takes platform input tables phase result)
    {credential : Credential} (hcredential : credential ∈ result.1.credentials) :
    (∃ old ∈ tables.credentials, credential.storeId = old.storeId ∧
        credential.tokenHash = old.tokenHash ∧ credential.rotated = old.rotated) ∨
      (credential.tokenHash = platform.hashToken tables.next ∧ tables.next < result.1.next) ∧
        (credential.rotated = false → ∃ row, phase = .spending row ∧
          result.2 = .connected tables.next credential.storeId) := by
  cases h with
  | approves h =>
    rw [h.credentials] at hcredential
    exact .inl ⟨credential, hcredential, rfl, rfl, rfl⟩
  | @redeems row tables' token storeId h =>
    rw [h.credentials] at hcredential
    obtain hold | hnew := List.mem_append.1 hcredential
    · exact .inl ⟨credential, hold, rfl, rfl, rfl⟩
    · rw [List.mem_singleton.1 hnew, h.fresh]
      refine .inr ⟨⟨rfl, ?_⟩, fun _ => ⟨row, rfl, rfl⟩⟩
      rw [h.next]
      omega
  | clears h =>
    obtain ⟨-, hcredentials, -, -⟩ := clear_eq_some h
    rw [hcredentials] at hcredential
    exact .inl (storeId_revokeAll credential hcredential)
  | rekeys storeId =>
    obtain hold | hnew := List.mem_append.1 hcredential
    · exact .inl (storeId_revokeAll credential hold)
    · rw [List.mem_singleton.1 hnew]
      exact .inr ⟨⟨rfl, Nat.lt_succ_self _⟩, fun hrotated => absurd hrotated (by simp)⟩
  | _ => exact .inl ⟨credential, hcredential, rfl, rfl, rfl⟩

/-- The credentials' hashes are what they were, perhaps with that of the next
number. -/
theorem Takes.hashes (h : Takes platform input tables phase result) :
    result.1.credentials.map (·.tokenHash) = tables.credentials.map (·.tokenHash) ∨
      result.1.credentials.map (·.tokenHash) =
        tables.credentials.map (·.tokenHash) ++ [platform.hashToken tables.next] := by
  have hrevoked : ∀ storeId, (revokeAll input.now tables.credentials storeId).map (·.tokenHash) =
      tables.credentials.map (·.tokenHash) := fun storeId => by
    refine map_key_map fun credential => ?_
    split_ifs
    · rfl
    · rfl
  cases h with
  | approves h =>
    rw [h.credentials]
    exact .inl rfl
  | redeems h =>
    rw [h.credentials, List.map_append, h.fresh]
    exact .inr rfl
  | clears h =>
    obtain ⟨-, hcredentials, -, -⟩ := clear_eq_some h
    rw [hcredentials, hrevoked]
    exact .inl rfl
  | rekeys storeId =>
    refine .inr ?_
    rw [rekey, List.map_append, hrevoked]
    rfl
  | _ => exact .inl rfl

/-! ## Runs -/

theorem done_approved (platform : Platform) (code storeId : ℕ) :
    (cloud platform).Done (.approved code storeId) := fun _ _ => rfl

theorem done_connected (platform : Platform) (token storeId : ℕ) :
    (cloud platform).Done (.connected token storeId) := fun _ _ => rfl

theorem start_draws_none {request : Request} (h : (cloud platform).enter s request = some phase) :
    approvedRequest request phase = none ∧ approvedCode request phase = none ∧
      spentCode request phase = none ∧ mintedToken request phase = none ∧
        ∀ tables, phase.Holds platform tables request := by
  cases request with
  | _ =>
    obtain rfl := Option.some.inj h
    exact ⟨rfl, rfl, rfl, rfl, fun _ => by first | rfl | trivial⟩

theorem Sound.takes (h : Sound platform s) (phase : Phase) (input : Input) :
    Takes platform input s.data phase (statement platform input s.data phase) :=
  takes_statement platform input phase h.kept.wellformed

/-- **An approval approves what no call has.** -/
theorem Sound.oneRequest_step (h : Sound platform s) :
    OnePer approvedRequest ((cloud platform).step s action) := by
  refine h.oneRequest.step (fun _ _ henter => (start_draws_none henter).1) ?_
  intro i input request phase k _ hcall hk
  have htakes := h.takes phase input
  have hholds := h.calls i request phase hcall
  change approvedRequest request (statement platform input s.data phase).2 = some k at hk
  generalize statement platform input s.data phase = result at htakes hk
  cases htakes with
  | stays => exact .inl hk
  | approves happroved =>
    obtain ⟨dto, rfl, rfl⟩ := hholds
    obtain rfl := Option.some.inj hk
    refine .inr fun j request' phase' hcall' hk' => ?_
    cases phase' with
    | approved code' storeId' =>
      obtain ⟨dto', tenantId', rfl, -, -, row, hrow, hid, hne, -, -⟩ := h.calls j _ _ hcall'
      obtain ⟨claimed, hclaimed, hid', hnone⟩ := happroved.claimable
      obtain rfl := eq_of_key h.kept.wellformed.codeIds hrow hclaimed
        (hid.trans ((Option.some.inj hk').trans hid'.symm))
      exact hne hnone
    | _ => exact absurd hk' (by simp [approvedRequest])
  | _ => exact absurd hk (by simp [approvedRequest])

theorem Sound.oneCode_step (h : Sound platform s) :
    OnePer approvedCode ((cloud platform).step s action) := by
  refine h.oneCode.step (fun _ _ henter => (start_draws_none henter).2.1) ?_
  intro i input request phase k _ hcall hk
  have htakes := h.takes phase input
  change approvedCode request (statement platform input s.data phase).2 = some k at hk
  generalize statement platform input s.data phase = result at htakes hk
  cases htakes with
  | stays => exact .inl hk
  | approves happroved =>
    obtain rfl := Option.some.inj hk
    refine .inr fun j request' phase' hcall' hk' => ?_
    cases phase' with
    | approved code' storeId' =>
      obtain ⟨_, _, -, hlt, -⟩ := h.calls j _ _ hcall'
      have heq : code' = _ := (Option.some.inj hk').trans happroved.fresh
      omega
    | _ => exact absurd hk' (by simp [approvedCode])
  | _ => exact absurd hk (by simp [approvedCode])

theorem Sound.oneToken_step (h : Sound platform s) :
    OnePer mintedToken ((cloud platform).step s action) := by
  refine h.oneToken.step (fun _ _ henter => (start_draws_none henter).2.2.2.1) ?_
  intro i input request phase k _ hcall hk
  have htakes := h.takes phase input
  change mintedToken request (statement platform input s.data phase).2 = some k at hk
  generalize statement platform input s.data phase = result at htakes hk
  cases htakes with
  | stays => exact .inl hk
  | redeems hredeemed =>
    obtain rfl := Option.some.inj hk
    refine .inr fun j request' phase' hcall' hk' => ?_
    cases phase' with
    | connected token' storeId' =>
      obtain ⟨_, -, hlt, -⟩ := h.calls j _ _ hcall'
      have heq : token' = _ := (Option.some.inj hk').trans hredeemed.fresh
      omega
    | _ => exact absurd hk' (by simp [mintedToken])
  | _ => exact absurd hk (by simp [mintedToken])

/-- **And spends a code none has.** -/
theorem Sound.oneSpent_step (hinj : Function.Injective platform.hashToken) (h : Sound platform s) :
    OnePer spentCode ((cloud platform).step s action) := by
  refine h.oneSpent.step (fun _ _ henter => (start_draws_none henter).2.2.1) ?_
  intro i input request phase k _ hcall hk
  have htakes := h.takes phase input
  have hholds := h.calls i request phase hcall
  change spentCode request (statement platform input s.data phase).2 = some k at hk
  generalize statement platform input s.data phase = result at htakes hk
  cases htakes with
  | stays => exact .inl hk
  | redeems hredeemed =>
    obtain ⟨dto, rfl, row, hrow, hid, -, hshown⟩ := hholds
    obtain rfl := Option.some.inj hk
    refine .inr fun j request' phase' hcall' hk' => ?_
    cases phase' with
    | connected token' storeId' =>
      obtain ⟨dto', rfl, -, row', hrow', -, hspent, hshown'⟩ := h.calls j _ _ hcall'
      -- One code is for one row, which is spent, and was not.
      have hcode : row'.codeHash = some (platform.hashToken dto.code) := by
        rw [hshown'.code, Option.some.inj hk']
      obtain rfl := h.row_of_code hinj hrow hrow' hshown.code hcode
      obtain ⟨other, hother, hid', hnone⟩ := hredeemed.unspent
      obtain rfl := eq_of_key h.kept.wellformed.codeIds hrow hother (hid.trans hid'.symm)
      exact hspent hnone
    | _ => exact absurd hk' (by simp [spentCode])
  | _ => exact absurd hk (by simp [spentCode])

/-- **What is known of the requests stays known.** -/
theorem Sound.calls_step (h : Sound platform s) :
    ∀ (i : ℕ) request phase, ((cloud platform).step s action).calls[i]? = some (request, phase) →
      phase.Holds platform ((cloud platform).step s action).data request := by
  refine forall_calls (K := fun tables request phase => Phase.Holds platform tables request phase)
    (fun _ _ _ henter => (start_draws_none henter).2.2.2.2 _) ?_ ?_ h.calls
  · exact fun i input request phase _ _ hholds => (h.takes phase input).holds h.tidy hholds
  · intro i input request phase _ hcall request' phase' hholds
    have htakes := h.takes phase input
    exact hholds.mono (fun row hrow => htakes.keeps h.kept.wellformed hrow)
      (fun store hstore => htakes.tenants hstore)
      (htakes.wellformed h.kept.wellformed (h.kept.drawn i request phase hcall)).2

/-- **An action leaves the rows alone, or is a statement of a call**, which is
then where the statement left it. -/
theorem Sound.step_takes (platform : Platform) (s : State) (action : Action) :
    ((cloud platform).step s action).data = s.data ∨
      ∃ (i : ℕ) (input : Input) (request : Request) (phase : Phase),
        s.calls[i]? = some (request, phase) ∧
          ((cloud platform).step s action).data = (statement platform input s.data phase).1 ∧
            ((cloud platform).step s action).calls[i]? =
              some (request, (statement platform input s.data phase).2) := by
  cases action with
  | start request => exact .inl (data_start _ s request)
  | advance i input =>
    cases hcall : s.calls[i]? with
    | none => exact .inl (by rw [step_of_none hcall])
    | some call =>
      rw [step_advance hcall]
      exact .inr ⟨i, input, call.1, call.2, hcall, rfl, getElem?_set_self hcall⟩

theorem Sound.tidy_step (h : Sound platform s) :
    ∀ row ∈ ((cloud platform).step s action).data.codes,
      row.approvedAt = none → row.codeHash = none := by
  obtain hsame | ⟨i, input, request, phase, hcall, hdata, -⟩ := Sound.step_takes platform s action
  · rw [hsame]
    exact h.tidy
  · rw [hdata]
    intro row hrow hnone
    obtain ⟨old, hold, -, -, hback⟩ | ⟨-, hcode⟩ | ⟨happroved, -⟩ :=
      (h.takes phase input).rows_back hrow
    · obtain ⟨hcode, hnone'⟩ := hback hnone
      rw [hcode]
      exact h.tidy old hold hnone'
    · exact hcode
    · exact absurd hnone happroved

theorem Sound.approvals_step (h : Sound platform s) :
    ∀ row ∈ ((cloud platform).step s action).data.codes, row.approvedAt ≠ none →
      ∃ (j : ℕ) (dto : AuthorizeDto) (tenantId code storeId : ℕ),
        ((cloud platform).step s action).calls[j]? =
          some (.authorize dto tenantId, .approved code storeId) ∧ dto.request = row.id := by
  have hbefore : ∀ row ∈ s.data.codes, row.approvedAt ≠ none →
      ∃ (j : ℕ) (dto : AuthorizeDto) (tenantId code storeId : ℕ),
        ((cloud platform).step s action).calls[j]? =
          some (.authorize dto tenantId, .approved code storeId) ∧ dto.request = row.id := by
    intro row hrow happroved
    obtain ⟨j, dto, tenantId, code, storeId, hj, hid⟩ := h.approvals row hrow happroved
    exact ⟨j, dto, tenantId, code, storeId,
      (done_approved platform code storeId).step hj action, hid⟩
  obtain hsame | ⟨i, input, request, phase, hcall, hdata, hnow⟩ :=
    Sound.step_takes platform s action
  · rw [hsame]
    exact hbefore
  · rw [hdata]
    intro row hrow happroved
    obtain ⟨old, hold, hid, hback, -⟩ | ⟨hnone, -⟩ |
      ⟨-, tenantId, siteUrl, code, storeId, rfl, hresult⟩ := (h.takes phase input).rows_back hrow
    · rw [← hid]
      exact hbefore old hold (hback happroved)
    · exact absurd hnone happroved
    · obtain ⟨dto, rfl, hid⟩ := h.calls i _ _ hcall
      rw [hresult] at hnow
      exact ⟨i, dto, tenantId, code, storeId, hnow, hid⟩

theorem Sound.minted_step (h : Sound platform s) :
    ∀ credential ∈ ((cloud platform).step s action).data.credentials,
      credential.rotated = false → ∃ (i : ℕ) (dto : ExchangeDto) (token : ℕ),
        ((cloud platform).step s action).calls[i]? =
          some (.exchange dto, .connected token credential.storeId) ∧
            platform.hashToken token = credential.tokenHash := by
  have hbefore : ∀ credential ∈ s.data.credentials, credential.rotated = false →
      ∃ (i : ℕ) (dto : ExchangeDto) (token : ℕ), ((cloud platform).step s action).calls[i]? =
        some (.exchange dto, .connected token credential.storeId) ∧
          platform.hashToken token = credential.tokenHash := by
    intro credential hcredential hrotated
    obtain ⟨i, dto, token, hi, htoken⟩ := h.minted credential hcredential hrotated
    exact ⟨i, dto, token, (done_connected platform token _).step hi action, htoken⟩
  obtain hsame | ⟨i, input, request, phase, hcall, hdata, hnow⟩ :=
    Sound.step_takes platform s action
  · rw [hsame]
    exact hbefore
  · rw [hdata]
    intro credential hcredential hrotated
    obtain ⟨old, hold, hstore, hhash, hsame⟩ | ⟨⟨hhash, -⟩, hnew⟩ :=
      (h.takes phase input).credentials_back hcredential
    · rw [hstore, hhash]
      exact hbefore old hold (hsame.symm.trans hrotated)
    · obtain ⟨row, rfl, hresult⟩ := hnew hrotated
      obtain ⟨dto, rfl, -⟩ := h.calls i _ _ hcall
      rw [hresult] at hnow
      exact ⟨i, dto, s.data.next, hnow, hhash.symm⟩

theorem Sound.hashes_step (hinj : Function.Injective platform.hashToken) (h : Sound platform s) :
    (((cloud platform).step s action).data.credentials.map (·.tokenHash)).Nodup := by
  obtain hsame | ⟨i, input, request, phase, hcall, hdata, -⟩ := Sound.step_takes platform s action
  · rw [hsame]
    exact h.hashes
  · rw [hdata]
    obtain hsame | hmore := (h.takes phase input).hashes
    · rw [hsame]
      exact h.hashes
    · rw [hmore]
      refine List.nodup_append'.2 ⟨h.hashes, List.nodup_singleton _, fun hash hold hnew => ?_⟩
      obtain ⟨credential, hcredential, rfl⟩ := List.mem_map.1 hold
      obtain ⟨token, hlt, heq⟩ := h.drawn credential hcredential
      have hnext : token = s.data.next := hinj (heq.symm.trans (List.mem_singleton.1 hnew))
      omega

theorem Sound.drawn_step (h : Sound platform s) :
    ∀ credential ∈ ((cloud platform).step s action).data.credentials,
      ∃ token < ((cloud platform).step s action).data.next,
        credential.tokenHash = platform.hashToken token := by
  obtain hsame | ⟨i, input, request, phase, hcall, hdata, -⟩ := Sound.step_takes platform s action
  · rw [hsame]
    exact h.drawn
  · rw [hdata]
    intro credential hcredential
    have htakes := h.takes phase input
    have hle := (htakes.wellformed h.kept.wellformed (h.kept.drawn i request phase hcall)).2
    obtain ⟨old, hold, -, hhash, -⟩ | ⟨⟨hhash, hlt⟩, -⟩ := htakes.credentials_back hcredential
    · obtain ⟨token, hlt, heq⟩ := h.drawn old hold
      exact ⟨token, lt_of_lt_of_le hlt hle, hhash.trans heq⟩
    · exact ⟨s.data.next, hlt, hhash⟩

/-- **Every action keeps a state sound.** -/
theorem sound_step (hinj : Function.Injective platform.hashToken) (action : Action)
    (h : Sound platform s) : Sound platform ((cloud platform).step s action) where
  kept := kept_step platform action h.kept
  calls := h.calls_step
  tidy := h.tidy_step
  approvals := h.approvals_step
  oneRequest := h.oneRequest_step
  oneCode := h.oneCode_step
  oneSpent := h.oneSpent_step hinj
  oneToken := h.oneToken_step
  minted := h.minted_step
  hashes := h.hashes_step hinj
  drawn := h.drawn_step

theorem sound_initial (platform : Platform) : Sound platform initial where
  kept := kept_initial
  calls _ _ _ h := absurd h (by simp [initial])
  tidy _ h := absurd h List.not_mem_nil
  approvals _ h := absurd h List.not_mem_nil
  oneRequest _ _ _ _ _ h := absurd h (by simp [initial])
  oneCode _ _ _ _ _ h := absurd h (by simp [initial])
  oneSpent _ _ _ _ _ h := absurd h (by simp [initial])
  oneToken _ _ _ _ _ h := absurd h (by simp [initial])
  minted _ h := absurd h List.not_mem_nil
  hashes := List.nodup_nil
  drawn _ h := absurd h List.not_mem_nil

/-- **In a sound state a code is good once.** -/
theorem Sound.good_once (hinj : Function.Injective platform.hashToken) (h : Sound platform s) :
    GoodOnce platform s where
  minted credential hcredential hrotated := by
    obtain ⟨i, dto, token, hi, htoken⟩ := h.minted credential hcredential hrotated
    refine ⟨i, ⟨dto, token, hi, htoken, ?_⟩, ?_⟩
    · obtain ⟨dto', hrequest, -, row, hrow, hstore, -, hshown⟩ := h.calls i _ _ hi
      obtain rfl := Request.exchange.inj hrequest
      obtain ⟨j, approval, tenantId, code, storeId, hj, hid⟩ :=
        h.approvals row hrow hshown.approved
      obtain ⟨_, _, hrequest', -, htenant, row', hrow', hid', -, hcode, hstore'⟩ := h.calls j _ _ hj
      obtain ⟨rfl, rfl⟩ := Request.authorize.inj hrequest'
      obtain rfl := eq_of_key h.kept.wellformed.codeIds hrow' hrow (hid'.trans hid)
      obtain rfl : dto.code = code :=
        hinj (Option.some.inj (hshown.code.symm.trans hcode))
      obtain rfl := Option.some.inj (hstore.symm.trans hstore')
      exact ⟨j, approval, tenantId, hj, htenant, row', hrow', hid', hshown.verifier, hshown.site⟩
    · rintro i' ⟨dto', token', hi', htoken', -⟩
      obtain rfl : token' = token := hinj (htoken'.trans htoken.symm)
      exact h.oneToken i' i _ _ token' hi' hi rfl rfl
  requests j j' dto dto' _ _ _ _ _ _ hj hj' hsame :=
    h.oneRequest j j' _ _ dto.request hj hj' rfl (congrArg some hsame.symm)
  codes i i' dto dto' _ _ _ _ hi hi' hsame :=
    h.oneSpent i i' _ _ dto.code hi hi' rfl (congrArg some hsame.symm)
  tokens := h.hashes

/-! ## Disconnecting -/

/-- **What a spent code has yielded**: nothing that it had not before. -/
structure Yielded (platform : Platform) (s : State) (code : ℕ) (later : State) : Prop where
  sound : Sound platform later
  spent : ∃ row ∈ later.data.codes, row.codeHash = some (platform.hashToken code) ∧
    row.redeemedAt ≠ none
  /-- An exchange that was given a token for it was before. -/
  before : ∀ (i : ℕ) (dto : ExchangeDto) (token storeId : ℕ), dto.code = code →
    later.calls[i]? = some (.exchange dto, .connected token storeId) →
      s.calls[i]? = some (.exchange dto, .connected token storeId)

/-- **Every action keeps to that.** -/
theorem yielded_step (hinj : Function.Injective platform.hashToken) {later : State} {code : ℕ}
    (action : Action) (h : Yielded platform s code later) :
    Yielded platform s code ((cloud platform).step later action) := by
  obtain ⟨row, hrow, hcode, hspent⟩ := h.spent
  refine ⟨sound_step hinj action h.sound, ?_, fun i dto token storeId hdto hcall => ?_⟩
  · obtain hsame | ⟨i, input, request, phase, -, hdata, -⟩ :=
      Sound.step_takes platform later action
    · rw [hsame]
      exact ⟨row, hrow, hcode, hspent⟩
    · have happroved : row.approvedAt ≠ none := fun hnone =>
        absurd ((h.sound.tidy row hrow hnone).symm.trans hcode).symm (Option.some_ne_none _)
      obtain ⟨row', hrow', hkept⟩ :=
        (h.sound.takes phase input).keeps h.sound.kept.wellformed hrow
      rw [hdata]
      exact ⟨row', hrow', (hkept.approved happroved).2.1.trans hcode, hkept.redeemed hspent⟩
  · obtain hold | ⟨-, -, henter⟩ | ⟨input, phase, -, hold, hphase⟩ := getElem?_step hcall
    · exact h.before i dto token storeId hdto hold
    · exact absurd (start_draws_none henter).2.2.2.1 (by simp [mintedToken])
    · have htakes := h.sound.takes phase input
      have hholds := h.sound.calls i _ phase hold
      change Phase.connected token storeId = (statement platform input later.data phase).2 at hphase
      generalize statement platform input later.data phase = result at htakes hphase
      cases htakes with
      | stays =>
        subst hphase
        exact h.before i dto token storeId hdto hold
      | redeems hredeemed =>
        -- The code an exchange spends was not spent.
        obtain ⟨dto', hrequest, row', hrow', hid, -, hshown⟩ := hholds
        obtain rfl := Request.exchange.inj hrequest
        subst hdto
        obtain rfl := h.sound.row_of_code hinj hrow hrow' hcode hshown.code
        obtain ⟨other, hother, hid', hnone⟩ := hredeemed.unspent
        obtain rfl := eq_of_key h.sound.kept.wellformed.codeIds hrow hother (hid.trans hid'.symm)
        exact absurd hnone hspent
      | _ => simp at hphase

theorem spent_of_disconnected {i : ℕ} {storeId : ℕ}
    (hcall : s.calls[i]? = some (request, .clearing storeId))
    (hdone : ((cloud platform).step s (.advance i input)).calls[i]? =
      some (request, .disconnected storeId)) :
    ∀ row ∈ ((cloud platform).step s (.advance i input)).data.codes,
      row.storeId = some storeId → row.redeemedAt ≠ none := by
  rw [step_advance hcall] at hdone ⊢
  rw [getElem?_set_self hcall] at hdone
  have hphase := (Prod.mk.inj (Option.some.inj hdone)).2
  change (statement platform input s.data (.clearing storeId)).2 = .disconnected storeId at hphase
  change ∀ row ∈ (statement platform input s.data (.clearing storeId)).1.codes,
    row.storeId = some storeId → row.redeemedAt ≠ none
  unfold statement at hphase ⊢
  dsimp only at hphase ⊢
  cases hresult : clear input.now s.data storeId with
  | none =>
    rw [hresult] at hphase
    simp at hphase
  | some tables' =>
    obtain ⟨-, -, -, hcodes⟩ := clear_eq_some hresult
    dsimp only
    rw [hcodes]
    intro row hrow hstore
    obtain ⟨old, hold, rfl⟩ := List.mem_map.1 hrow
    by_cases hfits : old.storeId = some storeId ∧ old.redeemedAt = none
    · rw [if_pos hfits]
      exact Option.some_ne_none input.now
    · rw [if_neg hfits] at hstore ⊢
      exact fun hnone => hfits ⟨hstore, hnone⟩

/-- **From there on none of them is good for it.** -/
theorem spent_run (hinj : Function.Injective platform.hashToken) {storeId : ℕ}
    (hsound : Sound platform s)
    (hspent : ∀ row ∈ s.data.codes, row.storeId = some storeId → row.redeemedAt ≠ none)
    (after : List Action) : Spent s (run (cloud platform).step s after) storeId := by
  intro i j approval tenantId approvedFor dto token hj hi
  have hlater : Sound platform (run (cloud platform).step s after) :=
    invariant_of_forall (fun _ action h => sound_step hinj action h) hsound after
  -- The code was approved for the store of the credential.
  obtain ⟨dto', hrequest, -, row, hrow, hstore, -, hshown⟩ := hlater.calls i _ _ hi
  obtain rfl := Request.exchange.inj hrequest
  obtain ⟨_, _, -, -, -, row', hrow', -, -, hcode, hstore'⟩ :=
    hlater.calls j _ _ ((done_approved platform dto.code approvedFor).run hj after)
  obtain rfl := hlater.row_of_code hinj hrow hrow' hshown.code hcode
  obtain rfl := Option.some.inj (hstore.symm.trans hstore')
  -- So it is spent, and yields nothing that it had not.
  obtain ⟨_, _, -, -, -, old, hold, -, -, holdCode, holdStore⟩ := hsound.calls j _ _ hj
  have hyielded : Yielded platform s dto.code s :=
    ⟨hsound, ⟨old, hold, holdCode, hspent old hold holdStore⟩, fun _ _ _ _ _ hcall => hcall⟩
  have hafter : Yielded platform s dto.code (run (cloud platform).step s after) :=
    invariant_of_forall (fun _ action h => yielded_step hinj action h) hyielded after
  exact hafter.before i dto token storeId rfl hi

/-- **A connection code is good once, for one tenant, one verifier and one
site**, in every state that any interleaving of requests reaches; and once a
disconnect of a store has committed, no code that was approved before yields a
credential for it. -/
theorem goodOnce (hinj : Function.Injective platform.hashToken) (actions : List Action) :
    GoodOnce platform (run (cloud platform).step initial actions) ∧
      ∀ (before after : List Action) (i : ℕ) (input : Input) (request : Request) (storeId : ℕ),
        actions = before ++ .advance i input :: after →
        (run (cloud platform).step initial before).calls[i]? = some (request, .clearing storeId) →
        (run (cloud platform).step initial (before ++ [.advance i input])).calls[i]? =
          some (request, .disconnected storeId) →
        Spent (run (cloud platform).step initial (before ++ [.advance i input]))
          (run (cloud platform).step initial actions) storeId := by
  have hsound : ∀ actions, Sound platform (run (cloud platform).step initial actions) :=
    invariant_of_forall (fun _ action h => sound_step hinj action h) (sound_initial platform)
  refine ⟨(hsound actions).good_once hinj, ?_⟩
  rintro before after i input request storeId rfl hcall hdone
  have hrun : run (cloud platform).step initial (before ++ .advance i input :: after) =
      run (cloud platform).step
        (run (cloud platform).step initial (before ++ [.advance i input])) after := by
    rw [← run_append, List.append_assoc, List.singleton_append]
  rw [hrun]
  refine spent_run hinj (hsound _) ?_ after
  rw [run_concat] at hdone ⊢
  exact spent_of_disconnected hcall hdone

/-- What happens until the store of the shop is disconnected. -/
def disconnectedStore : List Action :=
  connects 0 0 ++ [.start (.rotate 2), .advance 3 morning, .advance 3 morning,
    .start (.disconnect 2), .advance 4 morning]

/-- **So are the codes of a shop that connects, disconnects and connects
again**, and the first of them is spent by the disconnect. -/
theorem goodOnce_rotatedAndReconnected :
    GoodOnce plain (run (cloud plain).step initial rotatedAndReconnected) ∧
      Spent (run (cloud plain).step initial (disconnectedStore ++ [.advance 4 morning]))
        (run (cloud plain).step initial rotatedAndReconnected) 2 :=
  ⟨(goodOnce Function.injective_id rotatedAndReconnected).1,
    (goodOnce Function.injective_id rotatedAndReconnected).2 disconnectedStore (connects 5 5) 4
      morning (.disconnect 2) 2 rfl (by decide +kernel) (by decide +kernel)⟩

end Optionia.Stores
