import Optionia.Auth.Closed
/-!
# Logout and password change

A revocation finds the rows that are there. A rotation that has claimed its
token and not yet written the replacement writes it afterwards, and looks
again for reuse alone: the replacement outlives a logout and a password change
(`replacement_outlives_logout`). Where no revocation meets a rotation there,
both are final (`final_of_meetsNone`).
-/

namespace Optionia.Auth

open Runs

variable {ttl : ℤ}

/-! ## The statement -/

/-- The state after a run from before the first login. -/
abbrev served (ttl : ℤ) (actions : List Sessions.Action) : Sessions :=
  run (service ttl).step Sessions.start actions

/-- The rotations of a state have returned in a later one. -/
def RotationsReturned (s s' : Sessions) : Prop :=
  ∀ (i : ℕ) presented phase, s.calls[i]? = some (.rotate presented, phase) →
    ∃ outcome, s'.calls[i]? = some (.rotate presented, .rotated outcome)

/-- No token of a row's family is usable, at any time. -/
def FamilyEnded (s : Sessions) (row : RefreshToken) : Prop :=
  ∀ other ∈ s.data.rows, other.familyId = row.familyId → ∀ now, ¬ other.Usable now

/-- **Logout and password change are final.** -/
structure Final (ttl : ℤ) (actions : List Sessions.Action) : Prop where
  /-- Once a logout has returned, and every rotation that had been started
  before, no token of its family is usable. -/
  logout : ∀ before after, actions = before ++ after → ∀ (i : ℕ) token userId,
    (served ttl before).calls[i]? = some (.revoke (some token), .left userId) →
    RotationsReturned (served ttl before) (served ttl actions) →
    ∀ row ∈ (served ttl actions).data.rows, row.tokenHash = token →
      FamilyEnded (served ttl actions) row
  /-- Once a password change has returned, and every such rotation, no token
  is usable that descends from one given out before. -/
  reset : ∀ before middle after, actions = before ++ middle ++ after → ∀ (i : ℕ) userId,
    (served ttl (before ++ middle)).calls[i]? = some (.resetPassword userId, .reset) →
    (served ttl before).calls[i]? ≠ some (.resetPassword userId, .reset) →
    RotationsReturned (served ttl (before ++ middle)) (served ttl actions) →
    ∀ row ∈ (served ttl before).data.rows, row.userId = userId →
      FamilyEnded (served ttl actions) row

/-! ## When it holds -/

/-- A rotation is between its claim and its replacement, in a family where
reuse was not detected. -/
def Meets (s : Sessions) (swept : RefreshToken → Bool) : Prop :=
  ∃ c ∈ s.calls, ∃ current ∈ c.2.claimed,
    swept current = true ∧ ¬ ReuseDetected s.data current.familyId

instance (table : Table) (familyId : ℕ) : Decidable (ReuseDetected table familyId) :=
  inferInstanceAs (Decidable (∃ row ∈ table.rows, _ ∧ _ ∧ _))

instance (s : Sessions) (swept : RefreshToken → Bool) : Decidable (Meets s swept) :=
  inferInstanceAs (Decidable (∃ c ∈ s.calls, ∃ current ∈ c.2.claimed, _ ∧ _))

/-- The rows that the next statement of a call revokes, for a logout or a
password change. -/
def Phase.sweeps : Phase → RefreshToken → Bool
  | .revoking row, current => decide (current.familyId = row.familyId)
  | .resetting userId, current => decide (current.userId = userId)
  | _, _ => false

/-- **No logout or password change meets a rotation there.** -/
def MeetsNone (s : Sessions) : Sessions.Action → Prop
  | .advance call _ => ∀ c ∈ s.calls[call]?, ¬ Meets s c.2.sweeps
  | .start _ => True

instance (s : Sessions) : ∀ a : Sessions.Action, Decidable (MeetsNone s a)
  | .advance call _ => inferInstanceAs (Decidable (∀ c ∈ s.calls[call]?, _))
  | .start _ => inferInstanceAs (Decidable True)

/-! ## A revocation closes families -/

variable {s : Sessions} {familyId : ℕ} {phase : Phase}

/-- **A revocation that meets no rotation closes the family.** -/
theorem closed_of_sweep {i : ℕ} {input : ℤ} {request : Request}
    (hcall : s.calls[i]? = some (request, phase)) (hmeets : ¬ Meets s phase.sweeps)
    (hold : familyId < s.data.next) (hclaims : (statement ttl input s.data phase).2.claimed = none)
    (hsweeps : ∀ current, Known s.data current → current.familyId = familyId →
      phase.sweeps current = true)
    (hdead : ∀ row ∈ (statement ttl input s.data phase).1.rows, row.familyId = familyId → ¬ row.Live)
    (horder : Orderly s) :
    Closed familyId s.calls.length ((service ttl).step s (.advance i input)) := by
  have hstep : (service ttl).step s (.advance i input) =
      { data := (statement ttl input s.data phase).1
        calls := s.calls.set i (request, (statement ttl input s.data phase).2) } := by
    rw [Calls.System.step, hcall]
    rfl
  refine ⟨?_, fun row hrow hfamily hlive => ?_, fun k request' phase' current hcall' hclaimed
    hfamily => ?_⟩
  · rw [hstep]
    exact hold.trans_le next_le_statement
  · rw [hstep] at hrow
    exact absurd hlive (hdead row hrow hfamily)
  · obtain hprev | ⟨-, heq, -⟩ | ⟨input', phase'', heq, hprev, rfl⟩ :=
      Calls.System.getElem?_step hcall'
    · obtain ⟨hlt, -⟩ := List.getElem?_eq_some_iff.1 hprev
      refine ⟨hlt, ?_⟩
      have hknown : Known s.data current := by
        have hheld := horder.held k request' phase' hprev
        cases phase' with
        | replacing current' =>
          obtain rfl := Option.some.inj hclaimed
          exact hheld.2
        | _ => exact absurd hclaimed.symm (Option.some_ne_none _)
      rw [hstep]
      refine ReuseDetected.statement ?_
      by_contra hnone
      exact hmeets ⟨(request', phase'), List.mem_of_getElem? hprev, current, hclaimed,
        hsweeps current hknown hfamily, hfamily.symm ▸ hnone⟩
    · simp at heq
    · obtain ⟨rfl, rfl⟩ := Calls.Action.advance.inj heq
      rw [hcall] at hprev
      obtain ⟨rfl, rfl⟩ := Prod.mk.inj (Option.some.inj hprev)
      exact absurd (hclaimed.symm.trans hclaims) (Option.some_ne_none _)

theorem RefreshToken.Usable.live {row : RefreshToken} {now : ℤ} (h : row.Usable now) : row.Live :=
  ⟨h.1, h.2.1⟩

/-- **In a closed family nothing is usable** once the rotations that were there
have returned. -/
theorem Closed.ended (h : Closed familyId s.calls.length s) (horder : Orderly s)
    (after : List Sessions.Action) (hreturned : RotationsReturned s (Runs.run (service ttl).step s after))
    {row : RefreshToken} (hrow : row ∈ (Runs.run (service ttl).step s after).data.rows)
    (hfamily : row.familyId = familyId) (now : ℤ) : ¬ row.Usable now := by
  intro husable
  obtain ⟨-, i, hi, request, phase, current, replacement, hcall, hwritten, -⟩ :=
    (h.run horder after).live row hrow hfamily husable.live
  obtain ⟨rfl, -⟩ := ((horder.run after).held i request phase hcall).of_written hwritten
  obtain ⟨⟨request', phase'⟩, hthen⟩ : ∃ c, s.calls[i]? = some c :=
    ⟨s.calls[i], List.getElem?_eq_getElem hi⟩
  obtain ⟨phase'', hnow⟩ := Calls.System.exists_getElem?_run (service ttl) hthen after
  rw [hcall] at hnow
  obtain ⟨rfl, rfl⟩ := Prod.mk.inj (Option.some.inj hnow)
  obtain ⟨outcome, hnow⟩ := hreturned i _ phase' hthen
  rw [hcall] at hnow
  obtain ⟨-, rfl⟩ := Prod.mk.inj (Option.some.inj hnow)
  exact Option.some_ne_none _ hwritten.symm

/-! ## Each revocation -/

def LoggedOut (i token : ℕ) (s : Sessions) : Prop :=
  ∃ userId, s.calls[i]? = some (.revoke (some token), .left userId)

/-- The token's family is closed, but for the calls there are. -/
def TokenClosed (token : ℕ) (s : Sessions) : Prop :=
  ∃ row ∈ s.data.rows, row.tokenHash = token ∧ Closed row.familyId s.calls.length s

theorem TokenClosed.step {token : ℕ} (h : TokenClosed token s) (horder : Orderly s)
    (a : Sessions.Action) : TokenClosed token ((service ttl).step s a) := by
  obtain ⟨row, hrow, hhash, hclosed⟩ := h
  obtain ⟨row', hrow', hkept⟩ := exists_kept_step ttl hrow a
  refine ⟨row', hrow', hkept.tokenHash.trans hhash, ?_⟩
  rw [hkept.familyId]
  exact (hclosed.step horder a).mono (Calls.System.length_le_step a)

theorem left_statement {now : ℤ} {table : Table} {userId : Option String}
    (h : (statement ttl now table phase).2 = .left userId) :
    phase = .left userId ∨ (∃ row, phase = .revoking row) ∨
      ∃ presented, phase = .leaving presented ∧
        table.rows.find? (fun row => decide (some row.tokenHash = presented)) = none := by
  cases phase with
  | left userId' => exact .inl h
  | revoking row => exact .inr (.inl ⟨row, rfl⟩)
  | leaving presented =>
    unfold statement at h
    dsimp only at h
    split at h
    · next hnone => exact .inr (.inr ⟨presented, rfl, hnone⟩)
    · simp at h
  | looking presented =>
    unfold statement at h
    dsimp only at h
    split at h
    · simp at h
    · split_ifs at h
  | claiming current =>
    unfold statement at h
    dsimp only at h
    split_ifs at h
  | rechecking current replacement =>
    unfold statement at h
    dsimp only at h
    split_ifs at h
  | _ => exact absurd h (by simp [statement])

/-- **A logout that meets no rotation closes its token's family.** -/
theorem tokenClosed_of_logout {i token : ℕ} {a : Sessions.Action} (horder : Orderly s)
    (hmeets : MeetsNone s a) (hbefore : ¬ LoggedOut i token s)
    (hafter : LoggedOut i token ((service ttl).step s a)) :
    TokenClosed token ((service ttl).step s a) := by
  obtain ⟨userId, hcall⟩ := hafter
  obtain hsame | ⟨-, -, henter⟩ | ⟨input, phase, rfl, hcall', hleft⟩ :=
    Calls.System.getElem?_step hcall
  · exact absurd ⟨userId, hsame⟩ hbefore
  · exact absurd (finished_enter henter).symm Bool.false_ne_true
  · obtain rfl | ⟨row, rfl⟩ | ⟨presented, rfl, hnone⟩ := left_statement hleft.symm
    · exact absurd ⟨userId, hcall'⟩ hbefore
    · obtain ⟨hrequest, known, hknown, hkept⟩ := horder.held i _ _ hcall'
      obtain rfl : token = row.tokenHash := by simpa using hrequest
      obtain ⟨row', hrow', hkept'⟩ := exists_kept_step ttl hknown (.advance i input)
      refine ⟨row', hrow', hkept'.tokenHash.trans hkept.tokenHash, ?_⟩
      rw [hkept'.familyId, hkept.familyId]
      have hold := (horder.fresh known hknown).2
      rw [hkept.familyId] at hold
      have hclosed : Closed row.familyId s.calls.length
          ((service ttl).step s (.advance i input)) :=
        closed_of_sweep hcall' (hmeets _ hcall') hold rfl
        (fun current _ hfamily => decide_eq_true hfamily)
        (fun other hother hfamily => not_live_revokeFamily hother hfamily) horder
      exact hclosed.mono (Calls.System.length_le_step _)
    · -- What was handed out is found.
      obtain rfl := Request.revoke.inj (horder.held i _ _ hcall')
      obtain ⟨row, hrow, rfl⟩ := (horder.presented i _ _ token hcall' rfl).written horder
      exact absurd (List.find?_eq_none.1 hnone row hrow) (by simp)

theorem reset_statement {now : ℤ} {table : Table}
    (h : (statement ttl now table phase).2 = .reset) :
    phase = .reset ∨ ∃ userId, phase = .resetting userId := by
  cases phase with
  | reset => exact .inl rfl
  | resetting userId => exact .inr ⟨userId, rfl⟩
  | leaving presented =>
    unfold statement at h
    dsimp only at h
    split at h
    · simp at h
    · simp at h
  | looking presented =>
    unfold statement at h
    dsimp only at h
    split at h
    · simp at h
    · split_ifs at h
  | claiming current =>
    unfold statement at h
    dsimp only at h
    split_ifs at h
  | rechecking current replacement =>
    unfold statement at h
    dsimp only at h
    split_ifs at h
  | _ => exact absurd h (by simp [statement])

/-- **A password change that meets no rotation closes the families of the
user.** -/
theorem closed_of_reset {i : ℕ} {userId : String} {a : Sessions.Action} (horder : Orderly s)
    (hmeets : MeetsNone s a) (hfamily : ∃ row ∈ s.data.rows, row.familyId = familyId ∧
      row.userId = userId)
    (hbefore : s.calls[i]? ≠ some (.resetPassword userId, .reset))
    (hafter : ((service ttl).step s a).calls[i]? = some (.resetPassword userId, .reset)) :
    Closed familyId s.calls.length ((service ttl).step s a) := by
  obtain ⟨row, hrow, rfl, rfl⟩ := hfamily
  obtain hsame | ⟨-, -, henter⟩ | ⟨input, phase, rfl, hcall, hreset⟩ :=
    Calls.System.getElem?_step hafter
  · exact absurd hsame hbefore
  · exact absurd (finished_enter henter).symm Bool.false_ne_true
  · obtain rfl | hresetting : phase = .reset ∨ ∃ userId, phase = .resetting userId :=
      reset_statement hreset.symm
    · exact absurd hcall hbefore
    · obtain ⟨userId, rfl⟩ := hresetting
      obtain rfl : row.userId = userId := Request.resetPassword.inj (horder.held i _ _ hcall)
      refine closed_of_sweep hcall (hmeets _ hcall) (horder.fresh row hrow).2 rfl ?_ ?_ horder
      · rintro current ⟨known, hknown, hkept⟩ hfamily
        refine decide_eq_true ?_
        rw [← hkept.userId]
        exact horder.users known hknown row hrow (hkept.familyId.trans hfamily)
      · intro other hother hfamily
        obtain ⟨row', hrow', hkept⟩ := exists_kept hrow
        obtain ⟨-, -, husers⟩ := horder.rows_statement ttl input hcall
        refine not_live_revokeUser hother ?_
        exact (husers other hother row' hrow' (hfamily.trans hkept.familyId.symm)).trans hkept.userId

/-! ## Runs -/

/-- **Where no revocation meets a rotation, logout and password change are
final.** -/
theorem final_of_meetsNone {actions : List Sessions.Action}
    (h : Throughout (service ttl).step MeetsNone Sessions.start actions) : Final ttl actions where
  logout := by
    rintro before after rfl i token userId hcall hreturned row hrow rfl other hother hfamily now
    have hbefore := h.of_prefix (List.prefix_append before after)
    have horder : Orderly (served ttl before) := orderly_start.run before
    obtain ⟨row', hrow', hhash, hclosed⟩ : TokenClosed row.tokenHash (served ttl before) :=
      established (I := Orderly) (P := LoggedOut i row.tokenHash) (Q := TokenClosed row.tokenHash)
        (fun _ a _ horder => horder.step a)
        (fun _ _ hmeets horder hnot hnow => tokenClosed_of_logout horder hmeets hnot hnow)
        (fun _ a _ horder hclosed => hclosed.step horder a) hbefore orderly_start
        (fun ⟨_, hnone⟩ => Option.some_ne_none _ hnone.symm) ⟨userId, hcall⟩
    obtain ⟨row'', hrow'', hkept⟩ := exists_kept_run ttl hrow' after
    unfold served at hreturned hrow hother
    rw [run_append] at hreturned hrow hother
    obtain rfl := (horder.run after).eq_of_hash hrow hrow'' (hhash.symm.trans hkept.tokenHash.symm)
    exact hclosed.ended horder after hreturned hother (hfamily.trans hkept.familyId) now
  reset := by
    rintro before middle after rfl i userId hcall hnot hreturned row hrow rfl other hother hfamily
      now
    have horder : Orderly (served ttl before) := orderly_start.run before
    have hmiddle : Throughout (service ttl).step MeetsNone (served ttl before) middle :=
      (throughout_append.1 (h.of_prefix (List.prefix_append (before ++ middle) after))).2
    have hclosed : Closed row.familyId (served ttl (before ++ middle)).calls.length
        (served ttl (before ++ middle)) := by
      unfold served at hcall ⊢
      rw [run_append] at hcall ⊢
      refine established (s := served ttl before) (I := fun s => Orderly s ∧ ∃ row' ∈ s.data.rows, row'.familyId = row.familyId ∧
          row'.userId = row.userId)
        (P := fun s : Sessions => s.calls[i]? = some (.resetPassword row.userId, .reset))
        (Q := fun s : Sessions => Closed row.familyId s.calls.length s)
        (fun _ a _ horder => ⟨horder.1.step a, ?_⟩)
        (fun _ _ hmeets horder hnot hnow =>
          (closed_of_reset horder.1 hmeets horder.2 hnot hnow).mono (Calls.System.length_le_step _))
        (fun _ a _ horder hclosed =>
          (hclosed.step horder.1 a).mono (Calls.System.length_le_step a))
        hmiddle ⟨horder, row, hrow, rfl, rfl⟩ hnot hcall
      obtain ⟨row', hrow', hfamily, huser⟩ := horder.2
      obtain ⟨row'', hrow'', hkept⟩ := exists_kept_step ttl hrow' a
      exact ⟨row'', hrow'', hkept.familyId.trans hfamily, hkept.userId.trans huser⟩
    unfold served at hreturned hother
    rw [run_append (s := Sessions.start)] at hother
    have hrun : run (service ttl).step Sessions.start (before ++ middle ++ after) =
        run (service ttl).step (served ttl (before ++ middle)) after := run_append
    rw [hrun] at hreturned
    exact hclosed.ended (orderly_start.run _) after hreturned hother hfamily now

/-! ## A rotation that logout meets -/

/-- Ann logs in, her token is being rotated, and she logs out between the claim
and the replacement. -/
def logoutMidway : List Sessions.Action :=
  [.start (.issue "ann"), .advance 0 0, .start (.rotate (some 0)), .advance 1 1, .advance 1 1,
    .start (.revoke (some 0)), .advance 2 2, .advance 2 2]

def rotationRest : List Sessions.Action := [.advance 1 3, .advance 1 3, .advance 1 3]

/-- **The replacement outlives the logout**: it is usable once both have
returned. -/
theorem replacement_outlives_logout : ¬ ∀ ttl actions, Final ttl actions := by
  intro h
  have hcalls : (served 1000 logoutMidway).calls =
      [(.issue "ann", .issued 0), (.rotate (some 0), .replacing (tokenRow 1000 0 "ann" 0 0)),
        (.revoke (some 0), .left (some "ann"))] := by
    decide +kernel
  have hreturned : RotationsReturned (served 1000 logoutMidway)
      (served 1000 (logoutMidway ++ rotationRest)) := by
    intro i presented phase hcall
    rw [hcalls] at hcall
    obtain rfl | hi : i = 1 ∨ i ≠ 1 := eq_or_ne i 1
    · obtain ⟨hrequest, -⟩ := Prod.mk.inj (Option.some.inj hcall)
      rw [← hrequest]
      exact ⟨⟨some 1, some "ann", none⟩, by decide +kernel⟩
    · obtain _ | _ | _ | i := i
      · simp at hcall
      · exact absurd rfl hi
      · simp at hcall
      · simp at hcall
  have hfinal := (h 1000 (logoutMidway ++ rotationRest)).logout logoutMidway rotationRest rfl 2 0
    (some "ann") (by rw [hcalls]; rfl) hreturned
  obtain ⟨row, hrow, hhash, other, hother, hfamily, husable⟩ :
      ∃ row ∈ (served 1000 (logoutMidway ++ rotationRest)).data.rows, row.tokenHash = 0 ∧
        ∃ other ∈ (served 1000 (logoutMidway ++ rotationRest)).data.rows,
          other.familyId = row.familyId ∧ other.rotatedAt = none ∧ other.revokedAt = none ∧
            hasExpired other.expiresAt 4 = false := by
    decide +kernel
  exact hfinal row hrow hhash other hother hfamily 4 husable

/-- A rotation, and a logout with the token it gave. -/
theorem final_of_logoutAfter : Final 1000
    [.start (.issue "ann"), .advance 0 0, .start (.rotate (some 0)), .advance 1 1, .advance 1 1,
      .advance 1 1, .advance 1 1, .advance 1 1, .start (.revoke (some 1)), .advance 2 2,
      .advance 2 2] :=
  final_of_meetsNone (by decide +kernel)

end Optionia.Auth
