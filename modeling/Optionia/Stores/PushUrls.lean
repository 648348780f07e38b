import Optionia.Stores.Transactions
/-!
# Where a store is pushed to

`initiate` writes the address it is given on the request, and
`createOrReuseStore` writes one on the store, new or old, as the request is
approved. Between the two is what `authorize` selects of the request, and the
address is not among it: every approval leaves its store without one. The two
columns are kept beside the tables, which go on as they do without them; a store
is pushed to where the latest handshake said exactly where it said nothing
(`notified_iff`).
-/

namespace Optionia.Stores.PushUrls

open Runs Calls.System

/-! ## The columns -/

/-- The rows, with the address columns. -/
structure Rows where
  tables : Tables := {}
  codePushUrl : ℕ → Option String := fun _ => none
  storePushUrl : ℕ → Option String := fun _ => none

/-- What `authorize` selects of a request. -/
def authorizeColumns : List String :=
  ["id", "siteUrl", "callback", "stateHash", "requestExpiresAt", "approvedAt"]

/-- `request.pushUrl ?? null`, of a row selected so. -/
def Rows.selectPushUrl (rows : Rows) (request : ℕ) : Option String :=
  if "pushUrl" ∈ authorizeColumns then rows.codePushUrl request else none

/-- How far a request is, and the address it has read. -/
@[ext] structure Stage where
  phase : Phase
  pushUrl : Option String

/-- What is written beside the tables as a request gets to another phase. -/
def write (rows : Rows) (tables : Tables) (stage : Stage) (phase : Phase) : Rows × Stage :=
  match stage.phase, phase with
  | .initiating dto, .initiated request =>
    ({ rows with
        tables := tables
        codePushUrl := Function.update rows.codePushUrl request dto.pushUrl }, ⟨phase, none⟩)
  | .authorizing dto _, .claiming .. =>
    ({ rows with tables := tables }, ⟨phase, rows.selectPushUrl dto.request⟩)
  -- A new store is inserted with the address, and one that is reused is given it.
  | .claiming .., .approved _ storeId =>
    ({ rows with
        tables := tables
        storePushUrl := Function.update rows.storePushUrl storeId stage.pushUrl }, ⟨phase, none⟩)
  | _, _ => ({ rows with tables := tables }, ⟨phase, none⟩)

/-- The next statement of a request. -/
def statement (platform : Platform) (input : Input) (rows : Rows) (stage : Stage) : Rows × Stage :=
  let result := Stores.statement platform input rows.tables stage.phase
  write rows result.1 stage result.2

/-- The rows, and the requests being served. -/
abbrev State := Calls.State Rows Request Stage

/-- The phase a request starts in. -/
def enter (_ : State) (request : Request) : Option Stage :=
  (Stores.enter ⟨{}, []⟩ request).map fun phase => ⟨phase, none⟩

/-- The cloud's half of the handshake, with the addresses. -/
def cloud (platform : Platform) : Calls.System Rows Request Stage Input :=
  ⟨enter, statement platform⟩

def initial : State := ⟨{}, []⟩

theorem write_phase (rows : Rows) (tables : Tables) (stage : Stage) (phase : Phase) :
    (write rows tables stage phase).2.phase = phase := by
  unfold write
  split
  · rfl
  · rfl
  · rfl
  · rfl

/-! ## The statement -/

/-- A plugin began the request with this. -/
def Begun (s : State) (request : ℕ) (dto : InitiateDto) : Prop :=
  ∃ (i : ℕ) (pushUrl : Option String),
    s.calls[i]? = some (.initiate dto, ⟨.initiated request, pushUrl⟩)

/-- The action approves the request, for the store. -/
structure Approves (platform : Platform) (s : State) (a : Action) (request storeId : ℕ) : Prop where
  /-- It takes the transaction of an approval, which commits. -/
  commits : ∃ (i : ℕ) (input : Input) (call : Request) (stage : Stage) (tenantId : ℕ)
    (siteUrl : String) (code : ℕ), a = .advance i input ∧ s.calls[i]? = some (call, stage) ∧
      stage.phase = .claiming request tenantId siteUrl ∧
        (statement platform input s.data stage).2.phase = .approved code storeId

/-- **Pushes go where the latest handshake said**: an approval leaves its store
with the address its request was begun with, and no action changes another's. -/
structure Notified (platform : Platform) (s : State) (a : Action) : Prop where
  approved : ∀ request storeId, Approves platform s a request storeId → ∀ dto,
    Begun s request dto → ((cloud platform).step s a).data.storePushUrl storeId = dto.pushUrl
  others : ∀ storeId, (∀ request, ¬ Approves platform s a request storeId) →
    ((cloud platform).step s a).data.storePushUrl storeId = s.data.storePushUrl storeId

/-- **The request that is approved was begun without an address.** -/
def WithoutPushUrl (platform : Platform) (s : State) (a : Action) : Prop :=
  ∀ request storeId, Approves platform s a request storeId → ∀ dto,
    Begun s request dto → dto.pushUrl = none

/-! ## What an approval writes -/

variable {platform : Platform} {s : State} {a : Action}

theorem selectPushUrl_eq (rows : Rows) (request : ℕ) : rows.selectPushUrl request = none :=
  if_neg (by decide)

theorem write_pushUrl (rows : Rows) (tables : Tables) (stage : Stage) (phase : Phase) :
    (write rows tables stage phase).2.pushUrl = none := by
  unfold write
  split
  · rfl
  · dsimp only
    rw [selectPushUrl_eq]
  · rfl
  · rfl

/-- No request ever knows an address. -/
def Unread (s : State) : Prop :=
  ∀ (i : ℕ) (request : Request) (stage : Stage), s.calls[i]? = some (request, stage) →
    stage.pushUrl = none

theorem unread_step (a : Action) (h : Unread s) : Unread ((cloud platform).step s a) := by
  intro i request stage hcall
  obtain hold | ⟨-, -, henter⟩ | ⟨input, stage', -, -, rfl⟩ := getElem?_step hcall
  · exact h i request stage hold
  · obtain ⟨phase, -, rfl⟩ := Option.map_eq_some_iff.1 henter
    rfl
  · exact write_pushUrl _ _ _ _

theorem write_approved (rows : Rows) (tables : Tables) {stage : Stage} {request tenantId : ℕ}
    {siteUrl : String} (h : stage.phase = .claiming request tenantId siteUrl) (code storeId : ℕ) :
    (write rows tables stage (.approved code storeId)).1.storePushUrl =
      Function.update rows.storePushUrl storeId stage.pushUrl := by
  unfold write
  rw [h]

theorem write_others (rows : Rows) (tables : Tables) {stage : Stage} {phase : Phase} {storeId : ℕ}
    (h : ∀ request tenantId siteUrl code, stage.phase = .claiming request tenantId siteUrl →
      phase ≠ .approved code storeId) :
    (write rows tables stage phase).1.storePushUrl storeId = rows.storePushUrl storeId := by
  unfold write
  split
  · rfl
  · rfl
  · next hphase =>
    refine Function.update_of_ne (fun hsame => ?_) _ _
    exact h _ _ _ _ hphase (by rw [hsame])
  · rfl

/-- **An approved store has no address.** -/
theorem storePushUrl_of_approves {request storeId : ℕ} (hunread : Unread s)
    (h : Approves platform s a request storeId) :
    ((cloud platform).step s a).data.storePushUrl storeId = none := by
  obtain ⟨i, input, call, stage, tenantId, siteUrl, code, rfl, hcall, hphase, hresult⟩ := h.commits
  have happroved : (Stores.statement platform input s.data.tables stage.phase).2 =
      .approved code storeId := (write_phase _ _ _ _).symm.trans hresult
  rw [step_advance hcall]
  show (write s.data _ stage
    (Stores.statement platform input s.data.tables stage.phase).2).1.storePushUrl storeId = none
  rw [happroved, write_approved _ _ hphase, Function.update_self]
  exact hunread i call stage hcall

theorem storePushUrl_of_not_approves {storeId : ℕ}
    (h : ∀ request, ¬ Approves platform s a request storeId) :
    ((cloud platform).step s a).data.storePushUrl storeId = s.data.storePushUrl storeId := by
  cases a with
  | start request => rw [data_start]
  | advance i input =>
    cases hcall : s.calls[i]? with
    | none => rw [step_of_none hcall]
    | some call =>
      rw [step_advance hcall]
      refine write_others s.data _ fun request tenantId siteUrl code hphase hresult => ?_
      refine h request ⟨i, input, call.1, call.2, tenantId, siteUrl, code, rfl, hcall, hphase, ?_⟩
      exact (write_phase _ _ _ _).trans hresult

/-! ## What a request was begun with -/

/-! ## Where pushes go -/

/-- **Pushes go where the latest handshake said exactly where no request that is
approved was begun with an address.** Every approval takes its store's address
away. -/
theorem notified_iff (platform : Platform) (actions : List Action) :
    Throughout (cloud platform).step (Notified platform) initial actions ↔
      Throughout (cloud platform).step (WithoutPushUrl platform) initial actions := by
  have hstart : Unread initial := fun i request stage hcall =>
    absurd hcall.symm (Option.some_ne_none _)
  refine throughout_congr (I := Unread) (fun _ a h => unread_step a h)
    (fun s a hunread => ?_) hstart
  constructor
  · intro h request storeId happroves dto hbegun
    rw [← h.approved request storeId happroves dto hbegun]
    exact storePushUrl_of_approves hunread happroves
  · intro h
    refine ⟨fun request storeId happroves dto hbegun => ?_, fun storeId =>
      storePushUrl_of_not_approves⟩
    rw [h request storeId happroves dto hbegun]
    exact storePushUrl_of_approves hunread happroves

/-- The shop's plugin says where to push. -/
def pushed : InitiateDto :=
  { handshake with pushUrl := some "https://shop.example/wp-json/optionia/v1/push" }

/-- A merchant of tenant 9 is about to approve its request. -/
def awaiting : List Action :=
  [.start (.initiate pushed), .advance 0 morning, .start (.authorize ⟨0, 5⟩ 9), .advance 1 morning]

/-- **A store that is connected for the first time** is never pushed to. -/
theorem address_lost : ¬ ∀ (platform : Platform) (actions : List Action),
    Throughout (cloud platform).step (Notified platform) initial actions := by
  intro h
  have hnotified : Notified plain (run (cloud plain).step initial awaiting) (.advance 1 morning) :=
    (h plain (awaiting ++ [.advance 1 morning])).at
  have happroves : Approves plain (run (cloud plain).step initial awaiting) (.advance 1 morning)
      0 2 := ⟨1, morning, _, _, _, _, _, rfl, rfl, rfl, rfl⟩
  have hbegun : Begun (run (cloud plain).step initial awaiting) 0 pushed := ⟨0, none, rfl⟩
  have haddress := hnotified.approved 0 2 happroves pushed hbegun
  exact absurd haddress.symm (Option.some_ne_none _)

end Optionia.Stores.PushUrls
