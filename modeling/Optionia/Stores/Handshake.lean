import Mathlib.Data.Int.Notation
import Optionia.Lib.Calls
/-!
# Connecting a store

The cloud's half of the handshake. A plugin initiates a request, a merchant
authorises it for a tenant, and the plugin exchanges the code for a credential;
a merchant disconnects the store, or rotates its credential. Each reads first
and then writes in one transaction, which is taken at once or not at all;
between the two anything else may run.

Ids, tokens and codes are numbers, and those the cloud draws are fresh. Anyone
may present any number.
-/

namespace Optionia.Stores

/-! ## The state machine -/

/-- The states of a store. -/
inductive StoreStatus where
  | connecting | connected | error | disconnected | revoked
  deriving DecidableEq, Repr

/-- Which states may precede each state. -/
def allowedFrom : StoreStatus → List StoreStatus
  | .connecting => [.disconnected, .connecting, .connected, .error, .revoked]
  | .connected => [.connecting, .error]
  | .error => [.connected, .error]
  | .disconnected => [.connecting, .connected, .error, .revoked, .disconnected]
  | .revoked => [.connecting, .connected, .error, .revoked]

/-! ## Tables -/

/-- What the cloud takes from its platform. -/
structure Platform where
  hashToken : ℕ → ℕ
  pkceChallenge : ℕ → ℕ
  /-- A URL reduced to what identifies the site, or none where it is no URL. -/
  normaliseUrl : String → Option String
  /-- Scheme, host and port, or nothing where it is no URL. -/
  originOf : String → String
  collate : String → String

/-- One connection handshake. -/
structure ConnectionCode where
  id : ℕ
  siteUrl : String
  callback : String
  /-- The hash of the value echoed through the browser. -/
  stateHash : ℕ
  challenge : ℕ
  requestExpiresAt : ℤ
  approvedAt : Option ℤ := none
  codeHash : Option ℕ := none
  codeExpiresAt : Option ℤ := none
  tenantId : Option ℕ := none
  storeId : Option ℕ := none
  redeemedAt : Option ℤ := none
  deriving DecidableEq

/-- A store. -/
structure Store where
  id : ℕ
  tenantId : ℕ
  storeUrl : String
  status : StoreStatus
  deriving DecidableEq

/-- A store's credential. Whether a rotation minted it is no column, and only
the statements read it. -/
structure Credential where
  storeId : ℕ
  tokenHash : ℕ
  revokedAt : Option ℤ := none
  rotated : Bool
  deriving DecidableEq

/-- The rows, and the next number that is drawn. -/
structure Tables where
  codes : List ConnectionCode := []
  stores : List Store := []
  credentials : List Credential := []
  next : ℕ := 0

/-! ## Statements of a transaction -/

/-- A row of a request that is not approved. -/
def ConnectionCode.claimable (request : ℕ) (row : ConnectionCode) : Bool :=
  row.id = request && row.approvedAt = none

/-- A row whose code is not spent. -/
def ConnectionCode.unspent (id : ℕ) (row : ConnectionCode) : Bool :=
  row.id = id && row.redeemedAt = none

/-- Move a store to `target`, but only from a state the machine allows, and
say whether it moved. -/
def transition (stores : List Store) (storeId : ℕ) (target : StoreStatus) : List Store × Bool :=
  (stores.map fun store =>
      if store.id = storeId ∧ store.status ∈ allowedFrom target then { store with status := target }
      else store,
    stores.countP (fun store => store.id = storeId && store.status ∈ allowedFrom target) == 1)

def revokeAll (now : ℤ) (credentials : List Credential) (storeId : ℕ) : List Credential :=
  credentials.map fun credential =>
    if credential.storeId = storeId ∧ credential.revokedAt = none then
      { credential with revokedAt := some now }
    else credential

variable (platform : Platform)

/-- The tenant's store for a site. -/
def Tables.storeFor (tables : Tables) (tenantId : ℕ) (siteUrl : String) : Option Store :=
  tables.stores.find? fun store =>
    store.tenantId = tenantId ∧ platform.collate store.storeUrl = platform.collate siteUrl

/-- The store an approval refers to, creating it only if the tenant has none. -/
def createOrReuseStore (withinPlan : Bool) (tables : Tables) (tenantId : ℕ) (siteUrl : String) :
    Option (List Store × ℕ) :=
  match tables.storeFor platform tenantId siteUrl with
  | some existing =>
    let (stores, reconnecting) := transition tables.stores existing.id .connecting
    if reconnecting then some (stores, existing.id) else none
  | none =>
    if withinPlan then
      some (tables.stores ++ [⟨tables.next + 1, tenantId, siteUrl, .connecting⟩], tables.next + 1)
    else none

/-- How long a code is honoured, in milliseconds. -/
def codeTtlMs : ℤ := 5 * 60000

/-- How long a request is honoured, in milliseconds. -/
def requestTtlMs : ℤ := 30 * 60000

/-- **The transaction of an approval**: claim the request, find or create the
store, and say which it is. -/
def approve (now : ℤ) (withinPlan : Bool) (tables : Tables) (request tenantId : ℕ)
    (siteUrl : String) : Option (Tables × ℕ × ℕ) :=
  if tables.codes.countP (ConnectionCode.claimable request) ≠ 1 then none
  else
    let claimed := tables.codes.map fun row =>
      if row.claimable request then
        { row with
          approvedAt := some now
          codeHash := some (platform.hashToken tables.next)
          codeExpiresAt := some (now + codeTtlMs)
          tenantId := some tenantId }
      else row
    match createOrReuseStore platform withinPlan tables tenantId siteUrl with
    | none => none
    | some (stores, storeId) =>
      some ({ tables with
          codes := claimed.map fun row =>
            if row.id = request then { row with storeId := some storeId } else row
          stores := stores
          next := tables.next + 2 }, tables.next, storeId)

/-- **The transaction of an exchange**: spend the code, mint the credential and
connect the store. -/
def redeem (now : ℤ) (tables : Tables) (row : ConnectionCode) : Option (Tables × ℕ × ℕ) :=
  match row.storeId with
  | none => none
  | some storeId =>
    if tables.codes.countP (ConnectionCode.unspent row.id) ≠ 1 then none
    else
      let (stores, connected) := transition tables.stores storeId .connected
      if connected then
        some ({ codes := tables.codes.map fun other =>
                  if other.unspent row.id then { other with redeemedAt := some now } else other
                stores := stores
                credentials := tables.credentials ++
                  [⟨storeId, platform.hashToken tables.next, none, false⟩]
                next := tables.next + 1 }, tables.next, storeId)
      else none

/-- **The transaction of a disconnect**: revoke every live credential, move the
store, and spend what codes are pending for it. -/
def clear (now : ℤ) (tables : Tables) (storeId : ℕ) : Option Tables :=
  let (stores, moved) := transition tables.stores storeId .disconnected
  if moved then
    some { tables with
      codes := tables.codes.map fun row =>
        if row.storeId = some storeId ∧ row.redeemedAt = none then
          { row with redeemedAt := some now }
        else row
      stores := stores
      credentials := revokeAll now tables.credentials storeId }
  else none

/-- **The transaction of a rotation**: revoke what the store holds, and mint
another. -/
def rekey (now : ℤ) (tables : Tables) (storeId : ℕ) : Tables :=
  { tables with
    credentials := revokeAll now tables.credentials storeId ++
      [⟨storeId, platform.hashToken tables.next, none, true⟩]
    next := tables.next + 1 }

/-! ## Requests -/

/-- What a plugin sends to begin. -/
structure InitiateDto where
  siteUrl : String
  callback : String
  pushUrl : Option String
  state : ℕ
  challenge : ℕ
  deriving DecidableEq

/-- What a merchant sends to approve. -/
structure AuthorizeDto where
  request : ℕ
  state : ℕ
  deriving DecidableEq

/-- What a plugin sends to redeem a code. -/
structure ExchangeDto where
  code : ℕ
  verifier : ℕ
  siteUrl : String
  deriving DecidableEq

/-- What the cloud is asked. An approval comes from a member of a tenant. -/
inductive Request where
  | initiate (dto : InitiateDto)
  | authorize (dto : AuthorizeDto) (tenantId : ℕ)
  | exchange (dto : ExchangeDto)
  | disconnect (storeId : ℕ)
  | rotate (storeId : ℕ)
  deriving DecidableEq

/-- How far a request is: what it does next, or what it came to. -/
inductive Phase where
  | initiating (dto : InitiateDto)
  | authorizing (dto : AuthorizeDto) (tenantId : ℕ)
  /-- It may be approved, for the site it was begun for. -/
  | claiming (request tenantId : ℕ) (siteUrl : String)
  | exchanging (dto : ExchangeDto)
  | spending (row : ConnectionCode)
  | disconnecting (storeId : ℕ)
  | clearing (storeId : ℕ)
  /-- The store whose credential to replace is to be read. -/
  | rotating (storeId : ℕ)
  | rekeying (storeId : ℕ)
  | refused
  | initiated (request : ℕ)
  | approved (code storeId : ℕ)
  | connected (token storeId : ℕ)
  | disconnected (storeId : ℕ)
  | rotated (token : ℕ)
  deriving DecidableEq

/-- What a statement meets. -/
structure Input where
  now : ℤ
  withinPlan : Bool

def initiate (now : ℤ) (tables : Tables) (dto : InitiateDto) : Tables × Phase :=
  match platform.normaliseUrl dto.siteUrl with
  | none => (tables, .refused)
  | some siteUrl =>
    if platform.originOf dto.callback ≠ platform.originOf siteUrl then (tables, .refused)
    else if dto.pushUrl.any fun pushUrl => platform.originOf pushUrl ≠ platform.originOf siteUrl then
      (tables, .refused)
    else
      ({ tables with
          codes := tables.codes ++
            [{ id := tables.next
               siteUrl := siteUrl
               callback := dto.callback
               stateHash := platform.hashToken dto.state
               challenge := dto.challenge
               requestExpiresAt := now + requestTtlMs }]
          next := tables.next + 1 }, .initiated tables.next)

def authorize (now : ℤ) (tables : Tables) (dto : AuthorizeDto) (tenantId : ℕ) : Phase :=
  match tables.codes.find? (·.id = dto.request) with
  | none => .refused
  | some row =>
    if row.approvedAt ≠ none ∨ row.requestExpiresAt ≤ now ∨
        platform.hashToken dto.state ≠ row.stateHash then .refused
    else .claiming dto.request tenantId row.siteUrl

def exchange (now : ℤ) (tables : Tables) (dto : ExchangeDto) : Phase :=
  match tables.codes.find? fun row =>
      row.codeHash = some (platform.hashToken dto.code) ∧ row.tenantId ≠ none with
  | none => .refused
  | some row =>
    if row.redeemedAt ≠ none ∨ (row.codeExpiresAt.all fun expiry => expiry ≤ now) ∨
        platform.pkceChallenge dto.verifier ≠ row.challenge ∨
        platform.normaliseUrl dto.siteUrl ≠ some row.siteUrl then .refused
    else .spending row

/-- The states a rotation is made in. -/
def StoreStatus.holdsCredential (status : StoreStatus) : Bool :=
  status = .connected || status = .error

/-- **The next statement of a request.** -/
def statement (input : Input) (tables : Tables) : Phase → Tables × Phase
  | .initiating dto => initiate platform input.now tables dto
  | .authorizing dto tenantId => (tables, authorize platform input.now tables dto tenantId)
  | .claiming request tenantId siteUrl =>
    match approve platform input.now input.withinPlan tables request tenantId siteUrl with
    | some (tables', code, storeId) => (tables', .approved code storeId)
    | none => (tables, .refused)
  | .exchanging dto => (tables, exchange platform input.now tables dto)
  | .spending row =>
    match redeem platform input.now tables row with
    | some (tables', token, storeId) => (tables', .connected token storeId)
    | none => (tables, .refused)
  | .disconnecting storeId =>
    (tables, if tables.stores.any (·.id = storeId) then .clearing storeId else .refused)
  | .clearing storeId =>
    match clear input.now tables storeId with
    | some tables' => (tables', .disconnected storeId)
    | none => (tables, .refused)
  | .rotating storeId =>
    (tables, if tables.stores.any fun store =>
        store.id = storeId && store.status.holdsCredential then .rekeying storeId else .refused)
  | .rekeying storeId => (rekey platform input.now tables storeId, .rotated tables.next)
  | phase => (tables, phase)

/-- The phase a request starts in. -/
def enter (_ : Calls.State Tables Request Phase) : Request → Option Phase
  | .initiate dto => some (.initiating dto)
  | .authorize dto tenantId => some (.authorizing dto tenantId)
  | .exchange dto => some (.exchanging dto)
  | .disconnect storeId => some (.disconnecting storeId)
  | .rotate storeId => some (.rotating storeId)

/-- The cloud's half of the handshake, statement by statement. -/
def cloud : Calls.System Tables Request Phase Input := ⟨enter, statement platform⟩

/-- The rows, and the requests being served. -/
abbrev State := Calls.State Tables Request Phase

abbrev Action := Calls.Action Request Input

def initial : State := ⟨{}, []⟩

/-! ## A shop that connects -/

/-- A platform on which a token is its own hash, and a URL its own normal form. -/
def plain : Platform := ⟨id, id, some, fun _ => "https://shop.example", id⟩

/-- What a statement meets at nine o'clock, with room in the plan. -/
def morning : Input := ⟨32400000, true⟩

/-- A handshake begun with the value 5 to echo, for the verifier 6. -/
def handshake : InitiateDto :=
  ⟨"https://shop.example", "https://shop.example/wp-admin", none, 5, 6⟩

/-- A merchant of tenant 9 approves a request. -/
def approves (call request : ℕ) : List Action :=
  [.start (.initiate handshake), .advance call morning, .start (.authorize ⟨request, 5⟩ 9),
    .advance (call + 1) morning, .advance (call + 1) morning]

/-- And the plugin exchanges its code. -/
def connects (call request : ℕ) : List Action :=
  approves call request ++ [.start (.exchange ⟨request + 1, 6, "https://shop.example"⟩),
    .advance (call + 2) morning, .advance (call + 2) morning]

/-- A store connects, its credential is rotated, it is disconnected, and
connects again. -/
def rotatedAndReconnected : List Action :=
  connects 0 0 ++ [.start (.rotate 2), .advance 3 morning, .advance 3 morning,
    .start (.disconnect 2), .advance 4 morning, .advance 4 morning] ++ connects 5 5

end Optionia.Stores
