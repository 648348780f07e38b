import Mathlib.Data.Int.Notation
import Optionia.Lib.Calls
/-!
# The plugin's connection

The options the plugin keeps about its connection, the state machine that
guards one of them, and the requests that write them: a handshake begun, a
callback from the cloud, the merchant's disconnect, a sync of the
configuration, and any other request to the cloud. Each is a sequence of
statements between which others run: what it asks the cloud, what it reads,
and each option it writes. A transition reads the state and then writes it.
-/

namespace Optionia.Connection

/-! ## The state machine -/

/-- The states of the plugin's connection. -/
inductive ConnectionState where
  | disconnected | connecting | connected | error | revoked
  deriving DecidableEq, Repr

/-- Which states may precede each state. -/
def allowedFrom : ConnectionState → List ConnectionState
  | .connecting => [.disconnected, .connecting, .connected, .error, .revoked]
  | .connected => [.connecting, .error]
  | .error => [.connected, .error]
  | .disconnected => [.connecting, .connected, .error, .revoked, .disconnected]
  | .revoked => [.connecting, .connected, .error, .revoked]

/-- Whether the machine permits a move. -/
def can (source target : ConnectionState) : Bool := (allowedFrom target).contains source

/-- A pending handshake. -/
structure Handshake where
  state : String
  verifier : String
  expires : ℤ

/-- The options the plugin keeps about its connection. -/
structure Options where
  storeToken : Option String := none
  connectionState : Option ConnectionState := none
  handshake : Option Handshake := none
  connectionStore : Option String := none
  connectionTenant : Option String := none

/-- The plugin's current belief about its connection. -/
def Options.current (options : Options) : ConnectionState :=
  options.connectionState.getD .disconnected

/-- What PHP's `empty` says of a string. -/
def phpEmpty (s : String) : Bool := s = "" || s = "0"

/-- How long a pending handshake is honoured, in seconds. -/
def ttlSeconds : ℤ := 1800

/-- The pending handshake, or none when there is none or it has expired, and
whether it is to be forgotten. -/
def pending (options : Options) (now : ℤ) : Option Handshake × Bool :=
  match options.handshake with
  | none => (none, false)
  | some stored =>
    if phpEmpty stored.state || phpEmpty stored.verifier then (none, false)
    else if stored.expires ≤ now then (none, true)
    else (some stored, false)

/-! ## What the cloud answers -/

/-- The fields of an answer that are read, where they are strings. -/
structure Body where
  authorizeUrl : Option String := none
  token : Option String := none
  storeId : Option String := none
  tenantName : Option String := none

/-- What a request to the cloud came to. -/
inductive Response where
  | success (notModified : Bool) (body : Body)
  /-- It failed, perhaps with a 401 the client announced. -/
  | failure (unauthorized : Bool)

/-! ## Writes -/

/-- One statement on the options. -/
inductive Write where
  | forget
  | remember (state verifier : String)
  | storeToken (token : String)
  | deleteToken
  | store (storeId : Option String)
  | tenant (tenantName : Option String)
  /-- Move on to a state where the machine permits it: the read. -/
  | transition (target : ConnectionState)
  | transitionFrom (sources : List ConnectionState) (target : ConnectionState)
  /-- Write the state: what a permitted transition goes on to do. -/
  | put (target : ConnectionState)

/-- **A statement**: what it makes of the options, and what is left to do. -/
def Write.apply (now : ℤ) (options : Options) (rest : List Write) : Write → Options × List Write
  | .forget => ({ options with handshake := none }, rest)
  | .remember state verifier =>
    ({ options with handshake := some ⟨state, verifier, now + ttlSeconds⟩ }, rest)
  | .storeToken token => ({ options with storeToken := some token }, rest)
  | .deleteToken => ({ options with storeToken := none }, rest)
  | .store storeId => ({ options with connectionStore := storeId }, rest)
  | .tenant tenantName => ({ options with connectionTenant := tenantName }, rest)
  | .transition target =>
    (options, if can options.current target then .put target :: rest else rest)
  | .transitionFrom sources target =>
    (options, if options.current ∈ sources then .transition target :: rest else rest)
  | .put target => ({ options with connectionState := some target }, rest)

@[simp] theorem current_put (now : ℤ) (options : Options) (rest : List Write)
    (target : ConnectionState) : ((Write.put target).apply now options rest).1.current = target :=
  rfl

/-- A request was refused as unauthenticated. -/
def onUnauthorized : List Write := [.transitionFrom [.connected, .error] .revoked]

/-- A sync succeeded, so a store that was erroring is no longer. -/
def recover : List Write := [.transitionFrom [.error] .connected]

/-- A sync failed, so a connected store is now erroring. -/
def degrade : List Write := [.transitionFrom [.connected] .error]

/-- The merchant's disconnect, once the cloud was told. -/
def clearLocally : List Write :=
  [.deleteToken, .store none, .tenant none, .forget, .transition .disconnected]

/-- What the client announces of an answer. -/
def announced : Response → List Write
  | .failure true => onUnauthorized
  | _ => []

/-- A handshake begun, once the cloud has answered. -/
def afterInitiate (state verifier : String) : Response → List Write
  | .success _ body =>
    match body.authorizeUrl with
    | some url => if phpEmpty url then [] else [.remember state verifier, .transition .connecting]
    | none => []
  | .failure _ => []

/-! ## The callback -/

/-- What a callback came to. -/
inductive Result where
  | none | connected | refused | failed
  deriving DecidableEq, Repr

/-- The parameters of a request, where they are strings. -/
structure Query where
  code : Option String
  state : Option String

/-- A callback, once the exchange was answered. -/
def afterExchange : Response → List Write × Result
  | .success _ body =>
    match body.token with
    | some token =>
      if phpEmpty token then ([.forget, .transition .disconnected], .failed)
      else ([.forget, .storeToken token] ++
        (body.storeId.map fun storeId => Write.store (some storeId)).toList ++
        (body.tenantName.map fun name => Write.tenant (some name)).toList ++
        [.transition .connected], .connected)
    | none => ([.forget, .transition .disconnected], .failed)
  | .failure _ => ([.forget, .transition .disconnected], .failed)

/-! ## Requests -/

/-- What the plugin is asked to do. -/
inductive Request where
  | begin (state verifier : String)
  /-- Handle a callback, for a user who may or may not manage the shop. -/
  | handle (query : Query) (userCanManage : Bool)
  | disconnect
  | sync
  | other

/-- What a request waits for or does next. -/
inductive Phase where
  | initiating (state verifier : String)
  | handling (query : Query) (userCanManage : Bool)
  | exchanging (code verifier : String)
  | telling
  | starting
  | fetching
  | asking
  /-- These statements are left, and what is returned then. -/
  | writing (writes : List Write) (result : Option Result)
  /-- It returned, and left the connection in this state. -/
  | returned (result : Option Result) (left : ConnectionState)

/-- What a statement meets. -/
structure Input where
  now : ℤ
  response : Response
  hasConfig : Bool
  stored : Bool

/-- On to the statements that are left, or done. -/
def proceed (options : Options) (result : Option Result) : List Write → Phase
  | [] => .returned result options.current
  | write :: rest => .writing (write :: rest) result

/-- What a sync goes on to do with its answer. -/
def afterFetch (input : Input) : List Write :=
  match input.response with
  | .success true _ => if input.hasConfig then recover else degrade
  | .success false _ => if input.stored then recover else degrade
  | .failure _ => announced input.response ++ degrade

/-- What a callback does before it asks the cloud. -/
def handle (now : ℤ) (options : Options) (query : Query) (userCanManage : Bool) : Phase :=
  if query.code.getD "" = "" ∨ query.state.getD "" = "" then .returned (some .none) options.current
  else if !userCanManage then .returned (some .refused) options.current
  else
    match pending options now with
    | (none, true) => .writing [.forget] (some .refused)
    | (none, false) => .returned (some .refused) options.current
    | (some stored, _) =>
      if stored.state = query.state.getD "" then .exchanging (query.code.getD "") stored.verifier
      else .returned (some .refused) options.current

/-- **The next statement of a request.** -/
def statement (input : Input) (options : Options) : Phase → Options × Phase
  | .initiating state verifier => (options, proceed options none
      (announced input.response ++ afterInitiate state verifier input.response))
  | .handling query userCanManage => (options, handle input.now options query userCanManage)
  | .exchanging _ _ => (options, proceed options (some (afterExchange input.response).2)
      (announced input.response ++ (afterExchange input.response).1))
  | .telling => (options, proceed options none (announced input.response ++ clearLocally))
  | .starting => (options,
      if options.current = .disconnected ∨ options.current = .revoked then
        .returned none options.current
      else .fetching)
  | .fetching => (options, proceed options none (afterFetch input))
  | .asking => (options, proceed options none (announced input.response))
  | .writing (write :: rest) result =>
    let (options', rest') := write.apply input.now options rest
    (options', proceed options' result rest')
  | .writing [] result => (options, .returned result options.current)
  | .returned result left => (options, .returned result left)

/-- The phase a request starts in. -/
def enter (_ : Calls.State Options Request Phase) : Request → Option Phase
  | .begin state verifier => some (.initiating state verifier)
  | .handle query userCanManage => some (.handling query userCanManage)
  | .disconnect => some .telling
  | .sync => some .starting
  | .other => some .asking

/-- The plugin's requests, statement by statement. -/
def plugin : Calls.System Options Request Phase Input := ⟨enter, statement⟩

/-- The options, and the requests being handled. -/
abbrev State := Calls.State Options Request Phase

abbrev Action := Calls.Action Request Input

def fresh : State := ⟨{}, []⟩

end Optionia.Connection
