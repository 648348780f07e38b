import Mathlib.Data.Int.Notation
import Optionia.Lib.Calls
import Optionia.Lib.Keyed
/-!
# Team membership

Invite, accept, change a role, remove. Each statement is taken at once, and
accepting an invitation writes in one transaction; what a request read before
its write is in its phase, and anything may run in between.

The owner count is inside the statement that demotes or removes an owner. Which
statement a request runs is decided by the role it read before.
-/

namespace Optionia.Tenants

/-! ## Roles -/

/-- The roles of a member. -/
inductive TenantRole where
  | owner | admin | editor | viewer | billing
  deriving DecidableEq, Repr

/-- What of the permission matrix is asked of a caller here. -/
inductive Capability where
  | membersInvite | membersChangeRole
  deriving DecidableEq, Repr

def tenantCapabilities : TenantRole → List Capability
  | .owner => [.membersInvite, .membersChangeRole]
  | .admin => [.membersInvite]
  | .editor => []
  | .viewer => []
  | .billing => []

/-- Whether a tenant role holds a capability. -/
def tenantRoleCan (role : TenantRole) (capability : Capability) : Bool :=
  (tenantCapabilities role).contains capability

def grantable : TenantRole → List TenantRole
  | .owner => [.owner, .admin, .editor, .viewer, .billing]
  | .admin => [.admin, .editor, .viewer, .billing]
  | .editor => []
  | .viewer => []
  | .billing => []

/-! ## Members -/

/-- Membership of a person in a tenant, with a role. -/
structure TenantMember where
  id : ℕ
  tenantId : ℕ
  userId : ℕ
  role : TenantRole
  revokedAt : Option ℤ := none
  deriving DecidableEq

/-- The columns an update writes, where it writes them. -/
structure Patch where
  role : Option TenantRole := none
  /-- When it was revoked, or that it is not. -/
  revokedAt : Option (Option ℤ) := none
  deriving DecidableEq

/-- A row with the columns written. -/
def TenantMember.patch (member : TenantMember) (patch : Patch) : TenantMember :=
  { member with
    role := patch.role.getD member.role
    revokedAt := patch.revokedAt.getD member.revokedAt }

/-- The members, each under its own key. -/
abbrev Members := Keyed.Table TenantMember.id

/-- Write columns of the rows that fit. -/
def Members.update (members : Members) (fits : TenantMember → Bool) (patch : Patch) : Members :=
  members.modify fits (·.patch patch) fun _ => rfl

/-- An owner of a tenant who was not removed. -/
def TenantMember.LiveOwner (tenantId : ℕ) (member : TenantMember) : Prop :=
  member.tenantId = tenantId ∧ member.role = .owner ∧ member.revokedAt = none

instance (tenantId : ℕ) (member : TenantMember) : Decidable (member.LiveOwner tenantId) :=
  inferInstanceAs (Decidable (_ ∧ _ ∧ _))

/-- How many live owners a tenant has. -/
def Members.owners (members : Members) (tenantId : ℕ) : ℕ :=
  members.rows.countP fun member => member.LiveOwner tenantId

/-- The condition of a statement that counts: the row is a live owner of the
tenant, and not the last. -/
def Members.spare (members : Members) (tenantId memberId : ℕ) (member : TenantMember) : Bool :=
  member.id = memberId && member.LiveOwner tenantId && decide (1 < members.owners tenantId)

/-- Write columns of an owner, refusing if they are the last. -/
def Members.updateSafely (members : Members) (tenantId memberId : ℕ) (patch : Patch) :
    Option Members :=
  if members.rows.any (members.spare tenantId memberId) then
    some (members.update (members.spare tenantId memberId) patch)
  else none

/-- Demote an owner, refusing if they are the last. -/
def Members.demoteLastOwnerSafely (members : Members) (tenantId memberId : ℕ) (role : TenantRole) :
    Option Members :=
  members.updateSafely tenantId memberId { role := some role }

/-- Remove an owner, refusing if they are the last. -/
def Members.removeOwnerSafely (now : ℤ) (members : Members) (tenantId memberId : ℕ) :
    Option Members :=
  members.updateSafely tenantId memberId { revokedAt := some (some now) }

/-! ## Invitations -/

/-- A pending invitation to join a tenant. -/
structure TenantInvitation where
  id : ℕ
  tenantId : ℕ
  email : String
  role : TenantRole
  tokenHash : ℕ
  expiresAt : ℤ
  acceptedAt : Option ℤ := none
  revokedAt : Option ℤ := none
  deriving DecidableEq

def TenantInvitation.outstanding (invitation : TenantInvitation) : Bool :=
  invitation.acceptedAt.isNone && invitation.revokedAt.isNone

/-- The invitations, each under its own key. -/
abbrev Invitations := Keyed.Table TenantInvitation.id

/-- Revoke the outstanding invitations that fit. -/
def Invitations.revoke (now : ℤ) (invitations : Invitations) (fits : TenantInvitation → Bool) :
    Invitations :=
  invitations.modify (fun row => fits row && row.outstanding)
    (fun row => { row with revokedAt := some now }) fun _ => rfl

/-- How long an invitation lasts, in milliseconds. -/
def invitationTtlMs : ℤ := 7 * 24 * 60 * 60000

/-- The rows of both tables. -/
structure Tables where
  members : Members
  invitations : Invitations := ⟨[], List.nodup_nil⟩

/-- What the service takes from its platform. -/
structure Platform where
  hashToken : ℕ → ℕ
  address : String → String
  emailOf : ℕ → Option String
  /-- What a caller who removes a member must be able to. -/
  removal : Capability

/-- What a statement meets. -/
structure Input where
  now : ℤ
  withinPlan : Bool := true
  /-- Whether the statement is the victim of a deadlock. -/
  deadlock : Bool := false
  uuid : ℕ := 0
  token : ℕ := 0

/-- Whether an invitation is still claimed by whoever accepts it. -/
def Tables.claimable (tables : Tables) (invitation : TenantInvitation) : Bool :=
  tables.invitations.rows.any fun row => row.id = invitation.id && row.acceptedAt.isNone

/-- A person's membership of a tenant, revoked or not. -/
def Tables.membership (tables : Tables) (tenantId userId : ℕ) : Option TenantMember :=
  tables.members.rows.find? fun member => member.tenantId = tenantId ∧ member.userId = userId

/-- The members after an acceptance: a membership that is there is reused. -/
def Tables.admit (input : Input) (tables : Tables) (invitation : TenantInvitation) (userId : ℕ) :
    Option Members :=
  match tables.membership invitation.tenantId userId with
  | some revoked =>
    some (tables.members.update (fun member => member.id = revoked.id)
      { role := some invitation.role, revokedAt := some none })
  | none => tables.members.insert? ⟨input.uuid, invitation.tenantId, userId, invitation.role, none⟩

/-- **The transaction of an acceptance**: claim the invitation, and admit the
person. -/
def Tables.join (input : Input) (tables : Tables) (invitation : TenantInvitation) (userId : ℕ) :
    Option Tables :=
  if tables.claimable invitation then
    ( tables.admit input invitation userId).map fun members =>
      { members
        invitations := tables.invitations.modify
          (fun row => row.id = invitation.id && row.acceptedAt.isNone)
          (fun row => { row with acceptedAt := some input.now }) fun _ => rfl }
  else none

/-! ## Requests -/

/-- What is asked. Accepting comes from someone signed in; all else from a
member of the tenant. -/
inductive Request where
  | changeRole (caller tenantId memberId : ℕ) (role : TenantRole)
  | remove (caller tenantId memberId : ℕ)
  | invite (caller tenantId : ℕ) (email : String) (role : TenantRole)
  | revokeInvitation (caller tenantId invitationId : ℕ)
  | accept (plaintext userId : ℕ) (userEmail : String)
  deriving DecidableEq

/-- How far a request is: what it does next, or what it came to. -/
inductive Phase where
  | guarding (caller tenantId : ℕ) (capability : Capability) (allowed : TenantRole → Phase)
  | requiring (tenantId memberId : ℕ) (found : TenantMember → Phase)
  | demoting (tenantId memberId : ℕ) (role : TenantRole)
  | removingOwner (tenantId memberId : ℕ)
  /-- A member who was read as no owner, or stays one, gets a role. -/
  | changing (memberId : ℕ) (role : TenantRole)
  /-- A member who was read as no owner is to be removed. -/
  | revoking (memberId : ℕ)
  /-- Whether the address is a member's is to be read. -/
  | addressing (tenantId : ℕ) (address : String) (role : TenantRole)
  | seating (tenantId : ℕ) (address : String) (role : TenantRole)
  /-- Outstanding invitations to the address are to be revoked. -/
  | superseding (tenantId : ℕ) (address : String) (role : TenantRole)
  | saving (tenantId : ℕ) (address : String) (role : TenantRole)
  | cancelling (tenantId invitationId : ℕ)
  | accepting (plaintext userId : ℕ) (userEmail : String)
  | joining (invitation : TenantInvitation) (userId : ℕ)
  | refused
  | done
  | invited (token : ℕ)

/-- What a role change does with the member it read. -/
def changeRole (tenantId : ℕ) (role : TenantRole) (member : TenantMember) : Phase :=
  if member.role = .owner ∧ role ≠ .owner then .demoting tenantId member.id role
  else .changing member.id role

/-- What a removal does with the member it read. -/
def remove (tenantId : ℕ) (member : TenantMember) : Phase :=
  if member.role = .owner then .removingOwner tenantId member.id
  else .revoking member.id

variable (platform : Platform)

/-- What an invitation does with the role of its sender. -/
def invite (tenantId : ℕ) (email : String) (role inviterRole : TenantRole) : Phase :=
  if role ∈ grantable inviterRole then .addressing tenantId (platform.address email) role
  else .refused

/-- The phase a request starts in. -/
def enter : Request → Phase
  | .changeRole caller tenantId memberId role =>
    .guarding caller tenantId .membersChangeRole fun _ =>
      .requiring tenantId memberId (changeRole tenantId role)
  | .remove caller tenantId memberId =>
    .guarding caller tenantId platform.removal fun _ => .requiring tenantId memberId (remove tenantId)
  | .invite caller tenantId email role =>
    .guarding caller tenantId .membersInvite (invite platform tenantId email role)
  | .revokeInvitation caller tenantId invitationId =>
    .guarding caller tenantId .membersInvite fun _ => .cancelling tenantId invitationId
  | .accept plaintext userId userEmail => .accepting plaintext userId userEmail

/-- What a guarded statement came to. -/
def Tables.guarded (tables : Tables) (input : Input) (members : Option Members) : Tables × Phase :=
  if input.deadlock then (tables, .refused)
  else
    match members with
    | some members => ({ tables with members }, .done)
    | none => (tables, .refused)

/-- Whether an invitation that was found may be accepted by someone. -/
def acceptable (input : Input) (invitation : TenantInvitation) (userEmail : String) : Bool :=
  invitation.outstanding && !decide (invitation.expiresAt ≤ input.now)
    && invitation.email = platform.address userEmail

/-- **A request's next statement.** -/
def statement (input : Input) (tables : Tables) : Phase → Tables × Phase
  | .guarding caller tenantId capability allowed =>
    match tables.members.rows.find? fun member =>
        member.tenantId = tenantId ∧ member.userId = caller ∧ member.revokedAt = none with
    | some membership =>
      (tables, if tenantRoleCan membership.role capability then allowed membership.role else .refused)
    | none => (tables, .refused)
  | .requiring tenantId memberId found =>
    match tables.members.rows.find? fun member =>
        member.id = memberId ∧ member.tenantId = tenantId ∧ member.revokedAt = none with
    | some member => (tables, found member)
    | none => (tables, .refused)
  | .demoting tenantId memberId role =>
    tables.guarded input (tables.members.demoteLastOwnerSafely tenantId memberId role)
  | .removingOwner tenantId memberId =>
    tables.guarded input (tables.members.removeOwnerSafely input.now tenantId memberId)
  | .changing memberId role =>
    ({ tables with
        members := tables.members.update (fun member => member.id = memberId)
          { role := some role } }, .done)
  | .revoking memberId =>
    ({ tables with
        members := tables.members.update (fun member => member.id = memberId)
          { revokedAt := some (some input.now) } }, .done)
  | .addressing tenantId address role =>
    if tables.members.rows.any fun member =>
        member.tenantId = tenantId && platform.emailOf member.userId = some address
          && member.revokedAt.isNone then
      (tables, .refused)
    else (tables, .seating tenantId address role)
  | .seating tenantId address role =>
    (tables, if input.withinPlan then .superseding tenantId address role else .refused)
  | .superseding tenantId address role =>
    ({ tables with
        invitations := tables.invitations.revoke input.now fun row =>
          row.tenantId = tenantId && row.email = address }, .saving tenantId address role)
  | .saving tenantId address role =>
    match tables.invitations.insert?
        { id := input.uuid
          tenantId
          email := address
          role
          tokenHash := platform.hashToken input.token
          expiresAt := input.now + invitationTtlMs } with
    | some invitations => ({ tables with invitations }, .invited input.token)
    | none => (tables, .refused)
  | .cancelling tenantId invitationId =>
    ({ tables with
        invitations := tables.invitations.revoke input.now fun row =>
          row.id = invitationId && row.tenantId = tenantId }, .done)
  | .accepting plaintext userId userEmail =>
    match tables.invitations.rows.find? fun row => row.tokenHash = platform.hashToken plaintext with
    | some invitation =>
      (tables, if acceptable platform input invitation userEmail then .joining invitation userId
        else .refused)
    | none => (tables, .refused)
  | .joining invitation userId =>
    match tables.join input invitation userId with
    | some joined => (joined, .done)
    | none => (tables, .refused)
  | .refused => (tables, .refused)
  | .done => (tables, .done)
  | .invited token => (tables, .invited token)

/-- **The service.** Any request can be made at any time. -/
def teamService : Calls.System Tables Request Phase Input where
  enter _ request := some (enter platform request)
  statement := statement platform

/-- The rows, and the requests under way. -/
abbrev State := Calls.State Tables Request Phase

abbrev Action := Calls.Action Request Input

end Optionia.Tenants
