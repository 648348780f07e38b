import Optionia.Config.Repository
/-!
# Keeping the cache current

`Synchroniser::sync`: one conditional request, and what its answer makes of
the cache. A run is the list of writes it makes and what it returns, so that
a run that dies is a prefix of its writes.
-/

namespace Optionia.Config

open Php

namespace StateMachine

open ConnectionState

/-- The states a transition may start from. -/
def allowedFrom : ConnectionState → List ConnectionState
  | connecting => [disconnected, connecting, connected, error, revoked]
  | connected => [connecting, error]
  | error => [connected, error]
  | disconnected => [connecting, connected, error, revoked, disconnected]
  | revoked => [connecting, connected, error, revoked]

/-- `transition`, as the writes it makes. -/
def transition (target : ConnectionState) (o : Options) : List Write :=
  if o.connection ∈ allowedFrom target then [.connection target] else []

end StateMachine

/-- `Api\Response`. -/
structure Response where
  status : ℕ
  data : Value
  errorCode : Option String
  etag : Option String

namespace Response

def isOk (r : Response) : Bool := r.errorCode.isNone

def isNotModified (r : Response) : Bool := r.status == 304

end Response

namespace Synchroniser

/-- `conditional_headers`: the `If-None-Match` sent. -/
def ifNoneMatch (o : Options) : Option String := (Repository.etag o).filter (· ≠ "")

def record (ok : Bool) (outcome : String) : List Write := [.lastSync ok outcome]

def recover (o : Options) : List Write :=
  if o.connection = .error then StateMachine.transition .connected o else []

def degrade (o : Options) : List Write :=
  if o.connection = .connected then StateMachine.transition .error o else []

/-- What is made of an answer: the writes, and whether the cache is current. -/
def settle (now : ℤ) (response : Response) (o : Options) : List Write × Bool :=
  if response.isNotModified then
    if !Repository.hasConfig o then (record false "not_modified_without_cache" ++ degrade o, false)
    else (record true "unchanged" ++ recover o, true)
  else if !response.isOk then
    (record false (response.errorCode.getD "http_error") ++ degrade o, false)
  else
    let stored := Repository.storeWrites response.data response.etag now o
    if Repository.accepts response.data then (stored ++ (record true "updated" ++ recover o), true)
    else (stored ++ (record false "refused" ++ degrade o), false)

/-- `sync`, against a cloud that answers a request by its `If-None-Match`. -/
def sync (now : ℤ) (answer : Option String → Response) (o : Options) : List Write × Bool :=
  if o.connection = .disconnected ∨ o.connection = .revoked then ([], false)
  else settle now (answer (ifNoneMatch o)) o

end Synchroniser

/-! ## The cloud's side -/

def configEtag (storeId : String) (configVersion : ℤ) : String :=
  "W/\"" ++ storeId ++ "-" ++ toString configVersion ++ "\""

/-- What the cloud publishes for a store. -/
structure Published where
  storeId : String
  document : Value
  version : ℤ
  version_eq : document.field "config_version" = .int version

namespace Published

def etag (p : Published) : String := configEtag p.storeId p.version

/-- The cloud's answer: nothing, to a request that holds the ETag, and the
document otherwise. -/
def answer (p : Published) (ifNoneMatch : Option String) : Response :=
  if ifNoneMatch = some p.etag then ⟨304, .arr [], none, some p.etag⟩
  else ⟨200, p.document, none, some p.etag⟩

end Published

end Optionia.Config
