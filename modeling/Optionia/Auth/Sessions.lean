import Mathlib.Data.Int.Notation
import Mathlib.Data.List.Nodup
import Optionia.Lib.Calls
/-!
# Sessions

`SessionsService`: a login opens a family of refresh tokens, a rotation spends
a token and writes its replacement into the same family, a logout revokes the
family and a password change all of a user's. Each method is a sequence of
single statements on `refresh_tokens`, and any number of calls are under way
at once.

A random text stands as a natural number that was never given out before, and
a hash as the text it is of. Whoever presents a token has been handed it, or
presents a text that is no token at all.
-/

namespace Optionia.Auth

/-! ## The table -/

structure RefreshToken where
  id : ℕ
  userId : String
  tokenHash : ℕ
  familyId : ℕ
  rotatedAt : Option ℤ
  replacedById : Option ℕ
  revokedAt : Option ℤ
  revokedReason : String
  expiresAt : ℤ
  deriving DecidableEq

inductive RevokeReason where
  | LOGOUT
  | REUSE_DETECTED
  | PASSWORD_CHANGED

def RevokeReason.text : RevokeReason → String
  | .LOGOUT => "logout"
  | .REUSE_DETECTED => "reuse_detected"
  | .PASSWORD_CHANGED => "password_changed"

inductive RefreshFailure where
  | not_found
  | expired
  | revoked
  | reused
  deriving DecidableEq

structure RefreshOutcome where
  token : Option ℕ
  userId : Option String
  failure : Option RefreshFailure
  deriving DecidableEq

/-- `refresh_tokens`, and the random texts given out so far. -/
structure Table where
  rows : List RefreshToken
  next : ℕ

/-- `update`: the rows that fit, changed. -/
def updateWhere (rows : List RefreshToken) (fits : RefreshToken → Bool)
    (change : RefreshToken → RefreshToken) : List RefreshToken :=
  rows.map fun row => if fits row then change row else row

def revokeFamily (rows : List RefreshToken) (familyId : ℕ) (reason : RevokeReason) (now : ℤ) :
    List RefreshToken :=
  updateWhere rows (fun row => decide (row.familyId = familyId ∧ row.revokedAt = none)) fun row =>
    { row with revokedAt := some now, revokedReason := reason.text }

/-- The statement of `revokeAllForUser`. -/
def revokeUser (rows : List RefreshToken) (userId : String) (reason : RevokeReason) (now : ℤ) :
    List RefreshToken :=
  updateWhere rows (fun row => decide (row.userId = userId ∧ row.revokedAt = none)) fun row =>
    { row with revokedAt := some now, revokedReason := reason.text }

def hasExpired (expiresAt now : ℤ) : Bool := decide (expiresAt ≤ now)

/-- A row that the claim of a rotation takes. -/
def claimable (tokenHash : ℕ) (row : RefreshToken) : Bool :=
  decide (row.tokenHash = tokenHash ∧ row.rotatedAt = none ∧ row.revokedAt = none)

/-- A row of a family that reuse revoked. -/
def reuseRevoked (familyId : ℕ) (row : RefreshToken) : Bool :=
  decide (row.familyId = familyId ∧ row.revokedReason = RevokeReason.REUSE_DETECTED.text)

/-! ## Calls -/

/-- What is asked of the service. -/
inductive Request where
  /-- `rotate`, of a token or of some other text. -/
  | rotate (presented : Option ℕ)
  | revoke (presented : Option ℕ)
  | resetPassword (userId : String)
  | issue (userId : String)
  deriving DecidableEq

/-- What a call is about to do. -/
inductive Phase where
  /-- `rotate` looks the token up. -/
  | looking (presented : Option ℕ)
  | claiming (current : RefreshToken)
  /-- The claim took no row: it revokes the family. -/
  | replayed (current : RefreshToken)
  /-- The claim took the row: it writes the replacement. -/
  | replacing (current : RefreshToken)
  | linking (current replacement : RefreshToken)
  | rechecking (current replacement : RefreshToken)
  | withdrawing (current replacement : RefreshToken)
  | rotated (outcome : RefreshOutcome)
  /-- `revoke` looks the token up. -/
  | leaving (presented : Option ℕ)
  | revoking (row : RefreshToken)
  | left (userId : Option String)
  /-- `resetPassword` is about to revoke all of a user's tokens. -/
  | resetting (userId : String)
  | reset
  /-- `issue` writes the token. -/
  | issuing (userId : String)
  | issued (token : ℕ)
  deriving DecidableEq

/-- The token that a call has given its caller. -/
def Phase.handed : Phase → Option ℕ
  | .rotated outcome => outcome.token
  | .issued token => some token
  | _ => none

def Phase.finished : Phase → Bool
  | .rotated _ | .left _ | .reset | .issued _ => true
  | _ => false

section Service

variable (ttl : ℤ)

/-- The row of a token that is given out now, for `refreshTtlMs`. -/
def tokenRow (next : ℕ) (userId : String) (familyId : ℕ) (now : ℤ) : RefreshToken where
  id := next
  userId := userId
  tokenHash := next
  familyId := familyId
  rotatedAt := none
  replacedById := none
  revokedAt := none
  revokedReason := ""
  expiresAt := now + ttl

/-- The next statement of a call. -/
def statement (now : ℤ) (table : Table) : Phase → Table × Phase
  | .looking presented =>
    match table.rows.find? fun row => decide (some row.tokenHash = presented) with
    | none => (table, .rotated ⟨none, none, some .not_found⟩)
    | some current =>
      if current.revokedAt ≠ none then (table, .rotated ⟨none, none, some .revoked⟩)
      else if hasExpired current.expiresAt now then (table, .rotated ⟨none, none, some .expired⟩)
      else (table, .claiming current)
  | .claiming current =>
    if table.rows.any (claimable current.tokenHash) then
      ({ table with
          rows := updateWhere table.rows (claimable current.tokenHash) fun row =>
            { row with rotatedAt := some now } }, .replacing current)
    else (table, .replayed current)
  | .replayed current =>
    ({ table with rows := revokeFamily table.rows current.familyId .REUSE_DETECTED now },
      .rotated ⟨none, some current.userId, some .reused⟩)
  | .replacing current =>
    -- Same family: this is the same session continuing.
    ({ rows := table.rows ++ [tokenRow ttl table.next current.userId current.familyId now]
       next := table.next + 1 },
      .linking current (tokenRow ttl table.next current.userId current.familyId now))
  | .linking current replacement =>
    ({ table with
        rows := updateWhere table.rows (fun row => decide (row.id = current.id)) fun row =>
          { row with replacedById := some replacement.id } }, .rechecking current replacement)
  | .rechecking current replacement =>
    if table.rows.any (reuseRevoked current.familyId) then (table, .withdrawing current replacement)
    else (table, .rotated ⟨some replacement.tokenHash, some current.userId, none⟩)
  | .withdrawing current _ =>
    ({ table with rows := revokeFamily table.rows current.familyId .REUSE_DETECTED now },
      .rotated ⟨none, some current.userId, some .reused⟩)
  | .leaving presented =>
    match table.rows.find? fun row => decide (some row.tokenHash = presented) with
    | none => (table, .left none)
    | some row => (table, .revoking row)
  | .revoking row =>
    ({ table with rows := revokeFamily table.rows row.familyId .LOGOUT now },
      .left (some row.userId))
  | .resetting userId =>
    ({ table with rows := revokeUser table.rows userId .PASSWORD_CHANGED now }, .reset)
  | .issuing userId =>
    ({ rows := table.rows ++ [tokenRow ttl table.next userId table.next now]
       next := table.next + 1 }, .issued table.next)
  | phase => (table, phase)

abbrev Sessions := Calls.State Table Request Phase

/-- Some call has given the token to its caller. -/
def Handed (s : Sessions) (token : ℕ) : Prop := ∃ c ∈ s.calls, c.2.handed = some token

instance (s : Sessions) (token : ℕ) : Decidable (Handed s token) :=
  inferInstanceAs (Decidable (∃ c ∈ s.calls, c.2.handed = some token))

/-- The phase a call starts in: who presents a token was handed it. -/
def enter (s : Sessions) : Request → Option Phase
  | .rotate (some token) => if Handed s token then some (.looking (some token)) else none
  | .rotate none => some (.looking none)
  | .revoke (some token) => if Handed s token then some (.leaving (some token)) else none
  | .revoke none => some (.leaving none)
  | .resetPassword userId => some (.resetting userId)
  | .issue userId => some (.issuing userId)

def service : Calls.System Table Request Phase ℤ where
  enter := enter
  statement := statement ttl

end Service

def Sessions.start : Sessions := ⟨⟨[], 0⟩, []⟩

abbrev Sessions.Action := Calls.Action Request ℤ

/-- A token that a rotation would exchange. -/
def RefreshToken.Usable (row : RefreshToken) (now : ℤ) : Prop :=
  row.rotatedAt = none ∧ row.revokedAt = none ∧ hasExpired row.expiresAt now = false

/-- A token that nothing has spent or revoked. -/
def RefreshToken.Live (row : RefreshToken) : Prop := row.rotatedAt = none ∧ row.revokedAt = none

end Optionia.Auth
