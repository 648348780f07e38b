import Optionia.Tenants.LastOwner
/-!
# An invitation grants once

The transaction of an acceptance claims its invitation, and so asks again
whether anyone accepted it; whether it was revoked was asked when it was read.
An invite supersedes the outstanding invitations to an address in one statement
and saves its own in another. So in every run an invitation grants at most once;
a withdrawal counts just where it meets no acceptance that has read what it
withdraws; and one invitation at a time may be accepted where each is saved with
no other outstanding (`granted_once`).
-/

namespace Optionia.Tenants

open Runs Calls.System

variable {platform : Platform} {s : State} {tables : Tables} {phase : Phase} {input : Input}
  {invitation row : TenantInvitation} {id userId : ℕ}

/-! ## What is asked -/

/-- The invitations that a withdrawing statement is about. -/
def Phase.covers : Phase → TenantInvitation → Bool
  | .superseding tenantId address _, row => row.tenantId = tenantId && row.email = address
  | .cancelling tenantId invitationId, row => row.id = invitationId && row.tenantId = tenantId
  | _, _ => false

/-- The invitation that was read, and is to be claimed. -/
def Phase.claims : Phase → Option ℕ
  | .joining invitation _ => some invitation.id
  | _ => none

/-- A request that has come to its end. -/
def Phase.ended : Phase → Bool
  | .refused | .done | .invited _ => true
  | _ => false

def Request.invites (tenantId : ℕ) : Request → Bool
  | .invite _ other _ _ => other = tenantId
  | _ => false

/-- The transaction of an acceptance commits. -/
def Accepts (s : State) (a : Action) (id : ℕ) : Prop :=
  ∃ i input request invitation userId, a = .advance i input ∧
    s.calls[i]? = some (request, .joining invitation userId) ∧ invitation.id = id ∧
      (s.data.join input invitation userId).isSome = true

/-- An invitation is cancelled, or superseded by a later one to its address. -/
def Withdraws (s : State) (a : Action) (id : ℕ) : Prop :=
  ∃ i input request phase, a = .advance i input ∧ s.calls[i]? = some (request, phase) ∧
    ∃ row ∈ s.data.invitations.rows, row.id = id ∧ phase.covers row = true

/-- No invite to the tenant is in progress. -/
def Quiet (s : State) (tenantId : ℕ) : Prop :=
  ∀ call ∈ s.calls, call.1.invites tenantId = true → call.2.ended = true

instance (s : State) (tenantId : ℕ) : Decidable (Quiet s tenantId) :=
  inferInstanceAs (Decidable (∀ call ∈ s.calls, _))

section

variable (platform) (s) (actions : List Action)

/-- **Each invitation is accepted at most once.** -/
def AcceptedOnce : Prop :=
  ∀ before a between a' after id, actions = before ++ a :: between ++ a' :: after →
    Accepts (run (teamService platform).step s before) a id →
      ¬ Accepts (run (teamService platform).step s (before ++ a :: between)) a' id

/-- **A withdrawal counts**: an acceptance whose transaction comes after it is
refused, and changes nothing. -/
def WithdrawalsCount : Prop :=
  ∀ before a between id, before ++ a :: between <+: actions →
    Withdraws (run (teamService platform).step s before) a id →
      ∀ (i : ℕ) request invitation userId,
        (run (teamService platform).step s (before ++ a :: between)).calls[i]? =
          some (request, .joining invitation userId) → invitation.id = id → ∀ input,
            statement platform input (run (teamService platform).step s (before ++ a :: between)).data
                (.joining invitation userId) =
              ((run (teamService platform).step s (before ++ a :: between)).data, .refused)

/-- **While no invite is in progress, one invitation per address may be
accepted.** -/
def OneAcceptable : Prop :=
  ∀ before, before <+: actions → ∀ tenantId,
    Quiet (run (teamService platform).step s before) tenantId → ∀ input userEmail,
      (run (teamService platform).step s before).data.invitations.rows.countP (fun row =>
        row.tenantId = tenantId && acceptable platform input row userEmail) ≤ 1

end

/-! ## What the code does not see to -/

/-- **What a withdrawal needs**: nobody who read what it revokes is yet to claim
it. -/
def MeetsNone (s : State) : Action → Prop
  | .start _ => True
  | .advance i _ => ∀ call ∈ s.calls[i]?, ∀ row ∈ s.data.invitations.rows,
      call.2.covers row = true → row.outstanding = true →
        ∀ other ∈ s.calls, other.2.claims ≠ some row.id

instance (s : State) : ∀ a : Action, Decidable (MeetsNone s a)
  | .start _ => isTrue trivial
  | .advance i _ => inferInstanceAs (Decidable (∀ call ∈ s.calls[i]?, _))

/-- **What an invite needs when it saves**: none to its address is
outstanding. -/
def Phase.SavedAlone (tables : Tables) : Phase → Prop
  | .saving tenantId address _ => ∀ row ∈ tables.invitations.rows,
      row.tenantId = tenantId ∧ row.email = address → row.outstanding = false
  | _ => True

instance (tables : Tables) (phase : Phase) : Decidable (phase.SavedAlone tables) := by
  unfold Phase.SavedAlone
  split
  · infer_instance
  · infer_instance

/-- At most one invitation per address is outstanding. -/
def Tables.OneOutstanding (tables : Tables) : Prop :=
  ∀ tenantId address, tables.invitations.rows.countP (fun row =>
    row.tenantId = tenantId && row.email = address && row.outstanding) ≤ 1

/-! ## One statement -/

/-- A phase from which no invitation is read. -/
def Phase.Aside : Phase → Prop
  | .guarding _ _ _ allowed => ∀ role, (allowed role).Aside
  | .requiring _ _ found => ∀ member, (found member).Aside
  | .accepting .. | .joining .. => False
  | _ => True

/-- The transaction of an acceptance, where it is next, commits. -/
def Phase.commits (input : Input) (tables : Tables) : Phase → Bool
  | .joining invitation userId => (tables.join input invitation userId).isSome
  | _ => false

/-- What a statement makes of an invitation. -/
def Phase.touch (input : Input) (tables : Tables) (phase : Phase) (row : TenantInvitation) :
    TenantInvitation :=
  if phase.covers row && row.outstanding then { row with revokedAt := some input.now }
  else if phase.commits input tables && (phase.claims = some row.id && row.acceptedAt.isNone) then
    { row with acceptedAt := some input.now }
  else row

@[simp] theorem touch_id : (phase.touch input tables row).id = row.id := by
  unfold Phase.touch
  split_ifs <;> rfl

@[simp] theorem touch_tenantId : (phase.touch input tables row).tenantId = row.tenantId := by
  unfold Phase.touch
  split_ifs <;> rfl

@[simp] theorem touch_email : (phase.touch input tables row).email = row.email := by
  unfold Phase.touch
  split_ifs <;> rfl

theorem touch_of_covers (hcovers : phase.covers row = true) (h : row.outstanding = true) :
    phase.touch input tables row = { row with revokedAt := some input.now } :=
  if_pos (Bool.and_eq_true_iff.2 ⟨hcovers, h⟩)

theorem touch_accepted (h : row.acceptedAt.isSome = true) :
    (phase.touch input tables row).acceptedAt.isSome = true := by
  unfold Phase.touch
  split_ifs
  · exact h
  · rfl
  · exact h

theorem outstanding_of_touch (h : (phase.touch input tables row).outstanding = true) :
    row.outstanding = true := by
  unfold Phase.touch at h
  split_ifs at h with hcovers
  · simp [TenantInvitation.outstanding] at h
  · simp [TenantInvitation.outstanding] at h
  · exact h

theorem rows_join {joined : Tables} (h : tables.join input invitation userId = some joined) :
    tables.claimable invitation = true ∧
      joined.invitations.rows = tables.invitations.rows.map fun row =>
        if row.id = invitation.id && row.acceptedAt.isNone then
          { row with acceptedAt := some input.now }
        else row := by
  unfold Tables.join at h
  split_ifs at h with hclaimable
  obtain ⟨members, -, rfl⟩ := Option.map_eq_some_iff.1 h
  exact ⟨hclaimable, rfl⟩

theorem statement_of_join {joined : Tables}
    (h : tables.join input invitation userId = some joined) :
    statement platform input tables (.joining invitation userId) = (joined, .done) := by
  unfold statement
  dsimp only
  rw [h]

theorem statement_of_join_eq_none (h : tables.join input invitation userId = none) :
    statement platform input tables (.joining invitation userId) = (tables, .refused) := by
  unfold statement
  dsimp only
  rw [h]

/-- A statement that counts owners leaves the invitations alone, and is a
request's last. -/
theorem guarded_spec (members : Option Members) :
    (tables.guarded input members).1.invitations = tables.invitations ∧
      (tables.guarded input members).2.Aside := by
  unfold Tables.guarded
  split_ifs
  · exact ⟨rfl, trivial⟩
  · cases members with
    | none => exact ⟨rfl, trivial⟩
    | some members => exact ⟨rfl, trivial⟩

/-- **What a statement does to the invitations**: it touches those that are
there, and an invite adds its own. -/
theorem rows_statement (platform : Platform) (input : Input) (tables : Tables) (phase : Phase) :
    ∃ new, (statement platform input tables phase).1.invitations.rows =
        tables.invitations.rows.map (phase.touch input tables) ++ new ∧
      ∀ row ∈ new, new = [row] ∧ ∃ role, phase = .saving row.tenantId row.email role := by
  suffices h : (statement platform input tables phase).1.invitations.rows =
        tables.invitations.rows.map (phase.touch input tables) ∨
      ∃ row role, phase = .saving row.tenantId row.email role ∧
        (statement platform input tables phase).1.invitations.rows =
          tables.invitations.rows.map (phase.touch input tables) ++ [row] by
    obtain hrows | ⟨row, role, hphase, hrows⟩ := h
    · exact ⟨[], by rw [hrows, List.append_nil], fun row hrow => absurd hrow List.not_mem_nil⟩
    · refine ⟨[row], hrows, fun row' hrow' => ?_⟩
      obtain rfl := List.mem_singleton.1 hrow'
      exact ⟨rfl, role, hphase⟩
  have hsame : ∀ {phase : Phase}, (∀ row, phase.covers row = false) →
      phase.commits input tables = false →
        tables.invitations.rows.map (phase.touch input tables) = tables.invitations.rows := by
    intro phase hcovers hcommits
    refine List.map_id'' (fun row => ?_) _
    simp [Phase.touch, hcovers, hcommits]
  cases phase with
  | superseding tenantId address role =>
    refine .inl (List.map_congr_left fun row _ => ?_)
    exact (if_congr Iff.rfl rfl (if_neg Bool.false_ne_true)).symm
  | cancelling tenantId invitationId =>
    refine .inl (List.map_congr_left fun row _ => ?_)
    exact (if_congr Iff.rfl rfl (if_neg Bool.false_ne_true)).symm
  | saving tenantId address role =>
    rw [hsame (fun _ => rfl) rfl]
    unfold statement
    dsimp only
    split
    · next hinsert => exact .inr ⟨_, role, rfl, Keyed.Table.rows_insert? hinsert⟩
    · exact .inl rfl
  | joining invitation userId =>
    left
    cases hjoin : tables.join input invitation userId with
    | some joined =>
      rw [statement_of_join hjoin]
      refine (rows_join hjoin).2.trans (List.map_congr_left fun row _ => ?_)
      have hclaims : (Phase.joining invitation userId).claims = some row.id ↔
          row.id = invitation.id := by
        rw [Phase.claims, Option.some.injEq, eq_comm]
      simp [Phase.touch, Phase.covers, Phase.commits, hjoin, hclaims]
    | none =>
      rw [statement_of_join_eq_none hjoin]
      exact (hsame (fun _ => rfl) (by rw [Phase.commits, hjoin]; rfl)).symm
  | demoting tenantId memberId role =>
    rw [hsame (fun _ => rfl) rfl]
    exact .inl (congrArg Keyed.Table.rows (guarded_spec _).1)
  | removingOwner tenantId memberId =>
    rw [hsame (fun _ => rfl) rfl]
    exact .inl (congrArg Keyed.Table.rows (guarded_spec _).1)
  | _ =>
    -- The others read, or write members.
    rw [hsame (fun _ => rfl) rfl]
    unfold statement
    dsimp only
    first
      | exact .inl rfl
      | (split <;> exact .inl rfl)

/-! ## What lasts -/

def Tables.Spent (tables : Tables) (id : ℕ) : Prop :=
  ∃ row ∈ tables.invitations.rows, row.id = id ∧ row.acceptedAt.isSome = true

def Tables.Shut (tables : Tables) (id : ℕ) : Prop :=
  ∃ row ∈ tables.invitations.rows, row.id = id ∧ row.outstanding = false

theorem touch_mem (h : row ∈ tables.invitations.rows) :
    phase.touch input tables row ∈ (statement platform input tables phase).1.invitations.rows := by
  obtain ⟨new, hrows, -⟩ := rows_statement platform input tables phase
  rw [hrows]
  exact List.mem_append_left _ (List.mem_map_of_mem h)

theorem Tables.Spent.run (h : s.data.Spent id) (actions : List Action) :
    (run (teamService platform).step s actions).data.Spent id := by
  refine invariant_of_forall (I := fun s : State => s.data.Spent id) (fun s a h => ?_) h actions
  refine data_step (Q := fun tables : Tables => tables.Spent id) h fun i input request phase _ _ => ?_
  obtain ⟨row, hrow, hid, haccepted⟩ := h
  exact ⟨_, touch_mem hrow, by rw [touch_id, hid], touch_accepted haccepted⟩

theorem Tables.Shut.run (h : s.data.Shut id) (actions : List Action) :
    (run (teamService platform).step s actions).data.Shut id := by
  refine invariant_of_forall (I := fun s : State => s.data.Shut id) (fun s a h => ?_) h actions
  refine data_step (Q := fun tables : Tables => tables.Shut id) h fun i input request phase _ _ => ?_
  obtain ⟨row, hrow, hid, hshut⟩ := h
  refine ⟨_, touch_mem hrow, by rw [touch_id, hid], ?_⟩
  cases htouched : (phase.touch input s.data row).outstanding with
  | false => rfl
  | true => exact absurd (outstanding_of_touch htouched) (by rw [hshut]; simp)

theorem Tables.Spent.join_eq_none (h : tables.Spent invitation.id) (input : Input) (userId : ℕ) :
    tables.join input invitation userId = none := by
  refine if_neg fun hclaimable => ?_
  obtain ⟨row, hrow, hid, haccepted⟩ := h
  obtain ⟨other, hother, hfits⟩ := List.any_eq_true.1 hclaimable
  simp only [Bool.and_eq_true, decide_eq_true_eq] at hfits
  obtain rfl := tables.invitations.eq_of_key hrow hother (hid.trans hfits.1.symm)
  rw [Option.isNone_iff_eq_none.1 hfits.2] at haccepted
  cases haccepted

theorem spent_of_join (h : (tables.join input invitation userId).isSome = true) :
    (statement platform input tables (.joining invitation userId)).1.Spent invitation.id := by
  obtain ⟨joined, hjoin⟩ := Option.isSome_iff_exists.1 h
  obtain ⟨row, hrow, hfits⟩ := List.any_eq_true.1 (rows_join hjoin).1
  simp only [Bool.and_eq_true, decide_eq_true_eq] at hfits
  refine ⟨_, touch_mem hrow, by rw [touch_id, hfits.1], ?_⟩
  simp [Phase.touch, Phase.covers, Phase.commits, Phase.claims, h, hfits]

theorem shut_of_covers (hrow : row ∈ tables.invitations.rows) (hcovers : phase.covers row = true) :
    (statement platform input tables phase).1.Shut row.id := by
  refine ⟨_, touch_mem hrow, touch_id, ?_⟩
  cases houtstanding : row.outstanding with
  | true =>
    rw [touch_of_covers hcovers houtstanding]
    simp [TenantInvitation.outstanding]
  | false =>
    cases htouched : (phase.touch input tables row).outstanding with
    | false => rfl
    | true => exact absurd (outstanding_of_touch htouched) (by rw [houtstanding]; simp)

/-- **In every run an invitation is accepted at most once.** -/
theorem acceptedOnce (platform : Platform) (s : State) (actions : List Action) :
    AcceptedOnce platform s actions := by
  rintro before a between a' after id - ⟨i, input, request, invitation, userId, rfl, hcall, rfl, h⟩
    ⟨i', input', request', invitation', userId', -, -, hid, hagain⟩
  rw [run_append, run_cons] at hagain
  have hspent : ((teamService platform).step (run (teamService platform).step s before)
      (.advance i input)).data.Spent invitation.id := by
    rw [step_advance hcall]
    exact spent_of_join h
  rw [← hid] at hspent
  rw [(hspent.run between).join_eq_none] at hagain
  cases hagain

/-! ## Withdrawals -/

/-- What was read is outstanding, or was accepted since. -/
def Phase.Upheld (tables : Tables) : Phase → Prop
  | .accepting .. => True
  | .joining invitation _ => ∃ row ∈ tables.invitations.rows, row.id = invitation.id ∧
      (row.outstanding = true ∨ row.acceptedAt.isSome = true)
  | phase => phase.Aside

def Upheld (s : State) : Prop :=
  ∀ (i : ℕ) request phase, s.calls[i]? = some (request, phase) → phase.Upheld s.data

theorem upheld_of_aside (h : phase.Aside) : phase.Upheld tables := by
  cases phase with
  | joining invitation userId => exact absurd h id
  | _ => trivial

theorem upheld_enter (request : Request) : (enter platform request).Upheld tables := by
  cases request with
  | accept plaintext userId userEmail => trivial
  | invite caller tenantId email role =>
    refine upheld_of_aside fun inviter => ?_
    unfold invite
    split_ifs <;> trivial
  | changeRole caller tenantId memberId role =>
    refine upheld_of_aside fun _ member => ?_
    unfold changeRole
    split_ifs <;> trivial
  | remove caller tenantId memberId =>
    refine upheld_of_aside fun _ member => ?_
    unfold remove
    split_ifs <;> trivial
  | revokeInvitation caller tenantId invitationId => exact upheld_of_aside fun _ => trivial

theorem upheld_statement (h : phase.Upheld tables) :
    (statement platform input tables phase).2.Upheld
      (statement platform input tables phase).1 := by
  cases phase with
  | guarding caller tenantId capability allowed =>
    unfold statement
    dsimp only
    split
    · next membership _ =>
      dsimp only
      split_ifs
      · exact upheld_of_aside (h membership.role)
      · trivial
    · trivial
  | requiring tenantId memberId found =>
    unfold statement
    dsimp only
    split
    · next member _ => exact upheld_of_aside (h member)
    · trivial
  | accepting plaintext userId userEmail =>
    unfold statement
    dsimp only
    split
    · next invitation hfound =>
      dsimp only
      split_ifs with hacceptable
      · -- What is read now is outstanding now.
        simp only [acceptable, Bool.and_eq_true] at hacceptable
        exact ⟨invitation, List.mem_of_find?_eq_some hfound, rfl, .inl hacceptable.1.1⟩
      · trivial
    · trivial
  | joining invitation userId =>
    unfold statement
    dsimp only
    split <;> trivial
  | demoting tenantId memberId role => exact upheld_of_aside (guarded_spec _).2
  | removingOwner tenantId memberId => exact upheld_of_aside (guarded_spec _).2
  | _ =>
    unfold statement
    dsimp only
    first
      | trivial
      | (split_ifs <;> trivial)
      | (split <;> trivial)

/-- **A statement that meets none upholds what others read.** -/
theorem upheld_of_meetsNone {other : Phase} (h : other.Upheld tables)
    (hmeets : ∀ row ∈ tables.invitations.rows, phase.covers row = true →
      row.outstanding = true → other.claims ≠ some row.id) :
    other.Upheld (statement platform input tables phase).1 := by
  cases other with
  | joining invitation userId =>
    obtain ⟨row, hrow, hid, hstands⟩ := h
    refine ⟨_, touch_mem hrow, by rw [touch_id, hid], ?_⟩
    obtain houtstanding | haccepted := hstands
    · unfold Phase.touch
      split_ifs with hcovers
      · simp only [Bool.and_eq_true] at hcovers
        exact absurd (congrArg some hid.symm) (hmeets row hrow hcovers.1 hcovers.2)
      · exact .inr rfl
      · exact .inl houtstanding
    · exact .inr (touch_accepted haccepted)
  | _ => exact h

theorem upheld_step (a : Action) (hmeets : MeetsNone s a) (h : Upheld s) :
    Upheld ((teamService platform).step s a) := by
  refine forall_calls_of (K := fun (data : Tables) (_ : Request) (phase : Phase) =>
    phase.Upheld data) ?_ ?_ ?_ h
  · intro request phase _ henter
    obtain rfl := Option.some.inj henter
    exact upheld_enter request
  · intro i input request phase _ _ hupheld
    exact upheld_statement hupheld
  · rintro i input request phase rfl hcall j request' phase' hother - hupheld
    exact upheld_of_meetsNone hupheld fun row hrow hcovers houtstanding =>
      hmeets _ hcall row hrow hcovers houtstanding _ (List.mem_of_getElem? hother)

/-- An acceptance of what is there and was not accepted commits, with a new
key for the membership. -/
theorem exists_join (hclaimable : tables.claimable invitation = true) (userId : ℕ) :
    ∃ input, (tables.join input invitation userId).isSome = true := by
  obtain ⟨fresh, hfresh⟩ := Keyed.exists_fresh (tables.members.rows.map (·.id))
  refine ⟨{ now := 0, uuid := fresh }, ?_⟩
  unfold Tables.join
  rw [if_pos hclaimable, Option.isSome_map]
  unfold Tables.admit
  split
  · rfl
  · exact congrArg Option.isSome (dif_neg hfresh)

/-- **Withdrawals count exactly where each meets no acceptance that has read
what it withdraws.** -/
theorem withdrawalsCount_iff (platform : Platform) (tables : Tables) (actions : List Action) :
    WithdrawalsCount platform ⟨tables, []⟩ actions ↔
      Throughout (teamService platform).step MeetsNone ⟨tables, []⟩ actions := by
  have hinitial : Upheld ⟨tables, []⟩ := fun i request phase hcall => by cases hcall
  constructor
  · refine fun hcount => throughout_of_prefix fun before a after hsplit => ?_
    cases a with
    | start request => trivial
    | advance i input =>
      rintro ⟨request, phase⟩ hcall row hrow hcovers houtstanding ⟨request', other⟩ hother hclaims
      set s := run (teamService platform).step ⟨tables, []⟩ before with hs
      obtain ⟨j, hj⟩ := List.mem_iff_getElem?.1 hother
      have hprefix : before ++ [.advance i input] <+: actions :=
        ⟨after, by rw [hsplit, List.append_assoc]; rfl⟩
      have hnow : run (teamService platform).step ⟨tables, []⟩ (before ++ [.advance i input]) =
          { data := (statement platform input s.data phase).1
            calls := s.calls.set i (request, (statement platform input s.data phase).2) } := by
        rw [run_concat, ← hs, step_advance hcall]
        rfl
      -- The acceptance is another call, and still about to begin.
      cases other with
      | joining invitation userId =>
        have hid : invitation.id = row.id := Option.some.inj hclaims
        have hne : i ≠ j := by
          rintro rfl
          obtain ⟨-, rfl⟩ := Prod.mk.inj (Option.some.inj (hcall.symm.trans hj))
          cases hcovers
        have hwaits : (run (teamService platform).step ⟨tables, []⟩
            (before ++ [.advance i input])).calls[j]? =
              some (request', .joining invitation userId) := by
          rw [hnow, List.getElem?_set_ne hne, hj]
        have hclaimable : (statement platform input s.data phase).1.claimable invitation = true := by
          refine List.any_eq_true.2 ⟨_, touch_mem hrow, ?_⟩
          have hunaccepted := (Bool.and_eq_true_iff.1 houtstanding).1
          rw [touch_of_covers hcovers houtstanding]
          simp [hid, hunaccepted]
        obtain ⟨later, hjoin⟩ := exists_join hclaimable userId
        obtain ⟨joined, hjoined⟩ := Option.isSome_iff_exists.1 hjoin
        have hrefused := hcount before (.advance i input) [] row.id hprefix
          ⟨i, input, request, phase, rfl, hcall, row, hrow, rfl, hcovers⟩ j request' invitation
          userId hwaits hid later
        rw [hnow, statement_of_join hjoined] at hrefused
        cases congrArg Prod.snd hrefused
      | _ => cases hclaims
  · rintro hmeets before a between id ⟨after, rfl⟩ ⟨i, input, request, phase, rfl, hcall, row, hrow,
      rfl, hcovers⟩ j request' invitation userId hother hid input'
    set later := run (teamService platform).step ⟨tables, []⟩
      (before ++ .advance i input :: between) with hlater
    have hupheld : Upheld later :=
      invariant (fun s a hok h => upheld_step a hok h)
        (hmeets.of_prefix (List.prefix_append _ after)) hinitial
    have hshut : later.data.Shut row.id := by
      have hnow := @shut_of_covers platform _ _ input row hrow hcovers
      rw [hlater, run_append, run_cons, step_advance hcall]
      exact Tables.Shut.run hnow between
    obtain ⟨read, hread, hsame, hstands⟩ := hupheld j request' _ hother
    obtain ⟨shut, hmem, hshutId, hout⟩ := hshut
    obtain rfl := later.data.invitations.eq_of_key hread hmem
      (hsame.trans (hid.trans hshutId.symm))
    have haccepted := hstands.resolve_left (by rw [hout]; simp)
    have hspent : later.data.Spent invitation.id := ⟨read, hread, hsame, haccepted⟩
    exact statement_of_join_eq_none (hspent.join_eq_none input' userId)

/-! ## One at a time -/

theorem oneOutstanding_statement (hone : tables.OneOutstanding) (h : phase.SavedAlone tables) :
    (statement platform input tables phase).1.OneOutstanding := by
  intro tenantId address
  obtain ⟨new, hrows, hnew⟩ := rows_statement platform input tables phase
  have htouched : (tables.invitations.rows.map (phase.touch input tables)).countP (fun row =>
        row.tenantId = tenantId && row.email = address && row.outstanding) ≤
      tables.invitations.rows.countP (fun row =>
        row.tenantId = tenantId && row.email = address && row.outstanding) := by
    rw [List.countP_map]
    refine List.countP_mono_left fun row _ hrow => ?_
    simp only [Function.comp_apply, touch_tenantId, touch_email, Bool.and_eq_true] at hrow ⊢
    exact ⟨hrow.1, outstanding_of_touch hrow.2⟩
  have hwas := hone tenantId address
  rw [hrows, List.countP_append]
  by_cases hempty : new = []
  · rw [hempty, List.countP_nil]
    omega
  · obtain ⟨added, hadded⟩ := List.exists_mem_of_ne_nil new hempty
    obtain ⟨rfl, role, rfl⟩ := hnew added hadded
    by_cases hfits : added.tenantId = tenantId ∧ added.email = address
    · obtain ⟨rfl, rfl⟩ := hfits
      have hnone : tables.invitations.rows.countP (fun row =>
          row.tenantId = added.tenantId && row.email = added.email && row.outstanding) = 0 := by
        refine List.countP_eq_zero.2 fun row hrow hout => ?_
        simp only [Bool.and_eq_true, decide_eq_true_eq] at hout
        rw [h row hrow hout.1] at hout
        exact Bool.false_ne_true hout.2
      have hle := List.countP_le_length (l := [added]) (p := fun row =>
        row.tenantId = added.tenantId && row.email = added.email && row.outstanding)
      rw [List.length_singleton] at hle
      omega
    · have hnone : [added].countP (fun row =>
          row.tenantId = tenantId && row.email = address && row.outstanding) = 0 := by
        refine List.countP_eq_zero.2 fun row hrow hout => hfits ?_
        obtain rfl := List.mem_singleton.1 hrow
        simp only [Bool.and_eq_true, decide_eq_true_eq] at hout
        exact hout.1
      omega

/-- **One invitation per address may be accepted where each is saved alone.** -/
theorem oneAcceptable (hone : tables.OneOutstanding) {actions : List Action}
    (h : Throughout (teamService platform).step (Asks Phase.SavedAlone) ⟨tables, []⟩ actions) :
    OneAcceptable platform ⟨tables, []⟩ actions := by
  intro before hbefore tenantId _ input userEmail
  have hstep : ∀ (s : State) a, Asks Phase.SavedAlone s a → s.data.OneOutstanding →
      ((teamService platform).step s a).data.OneOutstanding := by
    intro s a hok hone
    refine data_step hone fun i input request phase ha hcall => ?_
    subst ha
    exact oneOutstanding_statement hone (hok request phase hcall)
  have hnow := invariant (I := fun s : State => s.data.OneOutstanding) hstep
    (h.of_prefix hbefore) hone
  refine Nat.le_trans (List.countP_mono_left fun row _ hrow => ?_)
    (hnow tenantId (platform.address userEmail))
  simp only [acceptable, Bool.and_eq_true, decide_eq_true_eq] at hrow ⊢
  exact ⟨⟨hrow.1, hrow.2.2⟩, hrow.2.1.1⟩

/-- **What an invitation grants.** It is accepted once at most; withdrawals
count exactly in the runs where each meets no acceptance that has read what it
withdraws; and one invitation per address may be accepted where each is saved
with no other outstanding. -/
theorem granted_once (platform : Platform) (tables : Tables) (hone : tables.OneOutstanding)
    (actions : List Action) :
    AcceptedOnce platform ⟨tables, []⟩ actions ∧
      (WithdrawalsCount platform ⟨tables, []⟩ actions ↔
        Throughout (teamService platform).step MeetsNone ⟨tables, []⟩ actions) ∧
      (Throughout (teamService platform).step (Asks Phase.SavedAlone) ⟨tables, []⟩ actions →
        OneAcceptable platform ⟨tables, []⟩ actions) :=
  ⟨acceptedOnce platform _ actions, withdrawalsCount_iff platform tables actions,
    oneAcceptable hone⟩

/-! ## How an invitation outlives its withdrawal -/

def take (call : ℕ) (inputs : List Input) : List Action := inputs.map (.advance call)

/-- An owner invites someone, who accepts; the acceptance has read the
invitation when the owner cancels it. -/
def staleAcceptance : List Action :=
  [.start (.invite 1 7 "ada" .admin)] ++
    take 0 [{ now := 0 }, { now := 0 }, { now := 0 }, { now := 0 }, { now := 0, uuid := 5, token := 9 }] ++
    [.start (.accept 9 3 "ada"), .advance 1 { now := 1 }, .start (.revokeInvitation 1 7 5)] ++
    take 2 [{ now := 2 }, { now := 2 }]

/-- Two invites to one address, each past its superseding update before the
other is saved. -/
def crossedInvites : List Action :=
  [.start (.invite 1 7 "ada" .admin), .start (.invite 1 7 "ada" .viewer)] ++
    take 0 [{ now := 0 }, { now := 0 }, { now := 0 }, { now := 0 }] ++
    take 1 [{ now := 0 }, { now := 0 }, { now := 0 }, { now := 0 }] ++
    [.advance 0 { now := 0, uuid := 5, token := 9 }, .advance 1 { now := 0, uuid := 6, token := 8 }]

/-- **An invitation outlives its withdrawal** where an acceptance has read it, and
two to one address stand side by side where their invites cross. -/
theorem outlives_withdrawal :
    ¬ WithdrawalsCount bare ⟨twoMembers, []⟩ staleAcceptance ∧
      ¬ OneAcceptable bare ⟨twoMembers, []⟩ crossedInvites := by
  constructor
  · intro hcount
    have hmeets := (withdrawalsCount_iff bare twoMembers staleAcceptance).1 hcount
    exact absurd hmeets (by decide +kernel)
  · intro hone
    have htwo := hone crossedInvites (List.prefix_refl _) 7 (by decide +kernel) { now := 0 } "ada"
    exact absurd htwo (by decide +kernel)

/-- An invite, a second that supersedes it, and the acceptance of either. -/
def invitesInTurn : List Action :=
  [.start (.invite 1 7 "ada" .admin)] ++
    take 0 [{ now := 0 }, { now := 0 }, { now := 0 }, { now := 0 }, { now := 0, uuid := 5, token := 9 }] ++
    [.start (.invite 1 7 "ada" .viewer)] ++
    take 1 [{ now := 1 }, { now := 1 }, { now := 1 }, { now := 1 }, { now := 1, uuid := 6, token := 8 }] ++
    [.start (.accept 9 3 "ada"), .start (.accept 8 3 "ada")] ++
    take 2 [{ now := 2 }] ++ take 3 [{ now := 2 }, { now := 2, uuid := 4 }]

/-- In turn, the later invitation alone grants. -/
theorem granted_in_turn :
    WithdrawalsCount bare ⟨twoMembers, []⟩ invitesInTurn ∧
      OneAcceptable bare ⟨twoMembers, []⟩ invitesInTurn ∧
        (run (teamService bare).step ⟨twoMembers, []⟩ invitesInTurn).data.members.rows =
          twoMembers.members.rows ++ [⟨4, 7, 3, .viewer, none⟩] := by
  have hgranted := granted_once bare twoMembers (fun _ _ => Nat.zero_le _) invitesInTurn
  exact ⟨hgranted.2.1.2 (by decide +kernel), hgranted.2.2 (by decide +kernel), by decide +kernel⟩

end Optionia.Tenants
