import Mathlib.Data.Int.Notation
import Optionia.Lib.Calls
/-!
# Emailed links

`AuthTokensService`: a verification link and a reset link are each written to
a table of their own, and redeemed once. Issuing consumes the links of the
user that are there and then inserts the new one; redeeming reads the row,
tests it and saves it; `resetPassword` redeems and then consumes what is left.

The two tables stand as one, with the kind of its table in every row. A random
text stands as a natural number that was never given out before, and a hash as
the text it is of; whoever redeems presents any number at all.
-/

namespace Optionia.Auth.Links

/-! ## The tables -/

/-- The table a link is in. -/
inductive Kind where
  | verification
  | reset
  deriving DecidableEq

/-- `EmailVerificationToken` and `PasswordResetToken` -/
structure LinkToken where
  kind : Kind
  id : ℕ
  userId : String
  tokenHash : ℕ
  consumedAt : Option ℤ
  expiresAt : ℤ
  deriving DecidableEq

inductive RedemptionFailure where
  | not_found
  | expired
  | already_used
  deriving DecidableEq

/-- The tables, and the random texts given out so far. -/
structure Tables where
  rows : List LinkToken
  next : ℕ

/-- `VERIFICATION_TTL_MINUTES` and `RESET_TTL_MINUTES` -/
def Kind.ttlMinutes : Kind → ℤ
  | .verification => 24 * 60
  | .reset => 30

/-- `expiresIn`, in milliseconds. -/
def expiresIn (minutes now : ℤ) : ℤ := now + minutes * 60000

def hasExpired (expiresAt now : ℤ) : Bool := decide (expiresAt ≤ now)

def failureFor (row : LinkToken) (now : ℤ) : Option RedemptionFailure :=
  if row.consumedAt ≠ none then some .already_used
  else if hasExpired row.expiresAt now then some .expired
  else none

def consume (rows : List LinkToken) (fits : LinkToken → Bool) (now : ℤ) : List LinkToken :=
  rows.map fun row => if fits row then { row with consumedAt := some now } else row

/-- The links of a user that are not consumed. -/
def outstanding (kind : Kind) (userId : String) (row : LinkToken) : Bool :=
  decide (row.kind = kind ∧ row.userId = userId ∧ row.consumedAt = none)

/-- The row that `save` finds by its key. -/
def sameRow (current row : LinkToken) : Bool :=
  decide (row.kind = current.kind ∧ row.id = current.id)

/-! ## Calls -/

/-- What is asked of the service. -/
inductive Request where
  | issueVerification (userId : String)
  | redeemVerification (presented : ℕ)
  | issueReset (userId : String)
  | redeemReset (presented : ℕ)
  | revokeResets (userId : String)
  | resetPassword (presented : ℕ)
  deriving DecidableEq

/-- Who redeems. -/
inductive Redeemer where
  | verification
  | reset
  | password
  deriving DecidableEq

def Redeemer.kind : Redeemer → Kind
  | .verification => .verification
  | .reset | .password => .reset

/-- What a call is about to do. -/
inductive Phase where
  | consuming (kind : Kind) (userId : String)
  | inserting (kind : Kind) (userId : String)
  | issued (token : ℕ)
  | looking (redeemer : Redeemer) (presented : ℕ)
  | saving (redeemer : Redeemer) (row : LinkToken)
  | refused (failure : RedemptionFailure)
  | redeemed (row : LinkToken)
  /-- `resetPassword` has redeemed, and calls `revokeResets`. -/
  | closing (row : LinkToken)
  | changed (row : LinkToken)
  /-- `revokeResets` consumes the user's outstanding links. -/
  | revoking (userId : String)
  | revoked
  deriving DecidableEq

/-- The row of a link that is issued now. -/
def linkRow (next : ℕ) (kind : Kind) (userId : String) (now : ℤ) : LinkToken where
  kind := kind
  id := next
  userId := userId
  tokenHash := next
  consumedAt := none
  expiresAt := expiresIn kind.ttlMinutes now

/-- What follows a redemption that has succeeded. -/
def Redeemer.done : Redeemer → LinkToken → Phase
  | .password, row => .closing row
  | _, row => .redeemed row

/-- The next statement of a call. -/
def statement (now : ℤ) (tables : Tables) : Phase → Tables × Phase
  | .consuming kind userId =>
    ({ tables with rows := consume tables.rows (outstanding kind userId) now },
      .inserting kind userId)
  | .inserting kind userId =>
    ({ rows := tables.rows ++ [linkRow tables.next kind userId now], next := tables.next + 1 },
      .issued tables.next)
  | .looking redeemer presented =>
    match tables.rows.find? fun row =>
        decide (row.kind = redeemer.kind ∧ row.tokenHash = presented) with
    | none => (tables, .refused .not_found)
    | some row =>
      match failureFor row now with
      | some failure => (tables, .refused failure)
      | none => (tables, .saving redeemer row)
  | .saving redeemer row =>
    -- Saved by its key, whatever became of the row since it was read.
    ({ tables with rows := consume tables.rows (sameRow row) now }, redeemer.done row)
  | .closing row =>
    ({ tables with rows := consume tables.rows (outstanding .reset row.userId) now }, .changed row)
  | .revoking userId =>
    ({ tables with rows := consume tables.rows (outstanding .reset userId) now }, .revoked)
  | phase => (tables, phase)

/-- The phase a call starts in. -/
def enter : Request → Phase
  | .issueVerification userId => .consuming .verification userId
  | .redeemVerification presented => .looking .verification presented
  | .issueReset userId => .consuming .reset userId
  | .redeemReset presented => .looking .reset presented
  | .revokeResets userId => .revoking userId
  | .resetPassword presented => .looking .password presented

def service : Calls.System Tables Request Phase ℤ where
  enter := fun _ request => some (enter request)
  statement := statement

abbrev State := Calls.State Tables Request Phase

def State.start : State := ⟨⟨[], 0⟩, []⟩

abbrev Action := Calls.Action Request ℤ

/-- The state after a run from before the first link. -/
abbrev served (actions : List Action) : State := Runs.run service.step State.start actions

/-! ## The statement -/

/-- The row that a call has redeemed. -/
def Phase.spent : Phase → Option LinkToken
  | .redeemed row | .closing row | .changed row => some row
  | _ => none

/-- A call has redeemed a token. -/
def Redeemed (s : State) (i token : ℕ) : Prop :=
  ∃ request phase row, s.calls[i]? = some (request, phase) ∧ phase.spent = some row ∧
    row.tokenHash = token

/-- A reset link that can be redeemed. -/
def Redeemable (userId : String) (now : ℤ) (row : LinkToken) : Prop :=
  row.kind = .reset ∧ row.userId = userId ∧ failureFor row now = none

/-- A call is issuing a reset link. -/
def Phase.issues (userId : String) : Phase → Prop
  | .consuming kind user | .inserting kind user => kind = .reset ∧ user = userId
  | _ => False

/-- **Links are single use and superseded.** -/
structure SingleUse (actions : List Action) : Prop where
  once : ∀ i j token, Redeemed (served actions) i token → Redeemed (served actions) j token → i = j
  /-- While no reset link of a user is being issued, one can be redeemed at most. -/
  superseded : ∀ userId, (∀ c ∈ (served actions).calls, ¬ c.2.issues userId) →
    ∀ now, ∀ row ∈ (served actions).data.rows, ∀ row' ∈ (served actions).data.rows,
      Redeemable userId now row → Redeemable userId now row' → row = row'
  /-- Once a password is changed, none is redeemed that was issued before. -/
  final : ∀ before middle after, actions = before ++ middle ++ after → ∀ (i : ℕ) request row,
    (served (before ++ middle)).calls[i]? = some (request, .changed row) →
    (served before).calls[i]? ≠ some (request, .changed row) →
    ∀ link ∈ (served before).data.rows, link.kind = .reset → link.userId = row.userId →
      ∀ j, ¬ Redeemed (served (before ++ middle)) j link.tokenHash →
        ¬ Redeemed (served actions) j link.tokenHash

/-! ## When it holds -/

/-- The row that a redemption has read and not saved. -/
def Phase.reading : Phase → Option LinkToken
  | .saving _ row => some row
  | _ => none

/-- The rows that the next statement of a call consumes. -/
def Phase.consumes : Phase → LinkToken → Bool
  | .consuming kind userId, row => decide (row.kind = kind ∧ row.userId = userId)
  | .saving _ current, row => sameRow current row
  | .closing current, row => decide (row.kind = .reset ∧ row.userId = current.userId)
  | .revoking userId, row => decide (row.kind = .reset ∧ row.userId = userId)
  | _, _ => false

/-- Whose links an issue is about to consume. -/
def Phase.clears : Phase → Option (Kind × String)
  | .consuming kind userId => some (kind, userId)
  | _ => none

/-- For whom it is about to insert one. -/
def Phase.writes : Phase → Option (Kind × String)
  | .inserting kind userId => some (kind, userId)
  | _ => none

/-- **Calls keep out of each other's way**: none consumes what another has
read and not saved, and no issue starts where another of the same user is
between its two statements. -/
def Careful (s : State) : Action → Prop
  | .start _ => True
  | .advance call _ => ∀ c ∈ s.calls[call]?, ∀ c' ∈ s.calls.eraseIdx call,
      (∀ row ∈ c'.2.reading, c.2.consumes row = false) ∧
        ∀ slot ∈ c.2.clears, c'.2.writes ≠ some slot

instance (s : State) : ∀ a : Action, Decidable (Careful s a)
  | .start _ => inferInstanceAs (Decidable True)
  | .advance call _ => inferInstanceAs
      (Decidable (∀ c ∈ s.calls[call]?, ∀ c' ∈ s.calls.eraseIdx call, _ ∧ _))

end Optionia.Auth.Links
