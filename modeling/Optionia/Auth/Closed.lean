import Optionia.Auth.Orderly
/-!
# Families that are closed

A family is closed when nothing in it is live but what a rotation has just
written and will withdraw: reuse was detected in the family, and the rotation
has yet to look. A closed family stays closed (`Closed.step`), since whoever
could rotate that token was not handed it.
-/

namespace Optionia.Auth

variable {ttl now : ℤ} {s : Sessions} {familyId n : ℕ}

/-- Reuse was detected in a family. -/
def ReuseDetected (table : Table) (familyId : ℕ) : Prop :=
  ∃ row ∈ table.rows, row.familyId = familyId ∧ row.revokedAt ≠ none ∧
    row.revokedReason = RevokeReason.REUSE_DETECTED.text

/-- The replacement that a rotation under way has written. -/
def Phase.written : Phase → Option (RefreshToken × RefreshToken)
  | .linking current replacement | .rechecking current replacement
  | .withdrawing current replacement => some (current, replacement)
  | _ => none

/-- The token that a rotation has claimed and not replaced. -/
def Phase.claimed : Phase → Option RefreshToken
  | .replacing current => some current
  | _ => none

/-- Among the first calls, one is about to withdraw a row it has written. -/
def Withdraws (s : Sessions) (n : ℕ) (row : RefreshToken) : Prop :=
  ∃ i < n, ∃ request phase current replacement, s.calls[i]? = some (request, phase) ∧
    phase.written = some (current, replacement) ∧ replacement.tokenHash = row.tokenHash

/-- **A family is closed**, but for what the first calls withdraw. -/
structure Closed (familyId n : ℕ) (s : Sessions) : Prop where
  old : familyId < s.data.next
  live : ∀ row ∈ s.data.rows, row.familyId = familyId → row.Live →
    ReuseDetected s.data familyId ∧ Withdraws s n row
  /-- And so will be what is written into it. -/
  claimed : ∀ (i : ℕ) request phase current, s.calls[i]? = some (request, phase) →
    phase.claimed = some current → current.familyId = familyId →
      i < n ∧ ReuseDetected s.data familyId

theorem Closed.mono {m : ℕ} (h : Closed familyId n s) (hm : n ≤ m) : Closed familyId m s where
  old := h.old
  live row hrow hfamily hlive := by
    obtain ⟨hreuse, i, hi, hwithdraws⟩ := h.live row hrow hfamily hlive
    exact ⟨hreuse, i, hi.trans_le hm, hwithdraws⟩
  claimed i request phase current hcall hclaimed hfamily := by
    obtain ⟨hi, hreuse⟩ := h.claimed i request phase current hcall hclaimed hfamily
    exact ⟨hi.trans_le hm, hreuse⟩

/-! ## Statements -/

variable {table : Table} {phase : Phase}

theorem ReuseDetected.statement (h : ReuseDetected table familyId) :
    ReuseDetected (statement ttl now table phase).1 familyId := by
  obtain ⟨row, hrow, hfamily, hrevoked, hreason⟩ := h
  obtain ⟨row', hrow', hkept⟩ := exists_kept hrow
  obtain ⟨hat, hreason'⟩ := hkept.revoked hrevoked
  exact ⟨row', hrow', hkept.familyId.trans hfamily, hat ▸ hrevoked, hreason'.trans hreason⟩

theorem ReuseDetected.any (h : ReuseDetected table familyId) :
    table.rows.any (reuseRevoked familyId) = true := by
  obtain ⟨row, hrow, hfamily, -, hreason⟩ := h
  exact List.any_eq_true.2 ⟨row, hrow, decide_eq_true ⟨hfamily, hreason⟩⟩

theorem next_le_statement : table.next ≤ (statement ttl now table phase).1.next := by
  obtain ⟨hnext, -⟩ | ⟨_, _, htable, -⟩ := statement_rows ttl now table phase
  · exact hnext.ge
  · rw [htable]
    exact Nat.le_succ _

variable {rows : List RefreshToken} {reason : RevokeReason} {row current replacement : RefreshToken}
  {request : Request}

theorem revoked_revokeFamily (hrow : row ∈ revokeFamily rows familyId reason now)
    (hfamily : row.familyId = familyId) : row.revokedAt ≠ none := by
  obtain ⟨old, -, rfl⟩ := List.mem_map.1 hrow
  by_cases hfits : decide (old.familyId = familyId ∧ old.revokedAt = none) = true
  · rw [if_pos hfits]
    exact Option.some_ne_none now
  · rw [if_neg hfits] at hfamily ⊢
    exact fun hnone => hfits (decide_eq_true ⟨hfamily, hnone⟩)

theorem not_live_revokeFamily (hrow : row ∈ revokeFamily rows familyId reason now)
    (hfamily : row.familyId = familyId) : ¬ row.Live :=
  fun hlive => revoked_revokeFamily hrow hfamily hlive.2

theorem not_live_revokeUser {userId : String} (hrow : row ∈ revokeUser rows userId reason now)
    (huser : row.userId = userId) : ¬ row.Live := by
  obtain ⟨old, -, rfl⟩ := List.mem_map.1 hrow
  rintro ⟨-, hlive⟩
  by_cases hfits : decide (old.userId = userId ∧ old.revokedAt = none) = true
  · rw [if_pos hfits] at hlive
    exact Option.some_ne_none now hlive
  · rw [if_neg hfits] at huser hlive
    exact hfits (decide_eq_true ⟨huser, hlive⟩)

/-- **A rotation that has written a row goes on to withdraw it**, where reuse
was detected in its family; when it has, nothing in the family is live. -/
theorem written_statement (hwritten : phase.written = some (current, replacement))
    (hreuse : ReuseDetected table current.familyId)
    (hrow : row ∈ (statement ttl now table phase).1.rows)
    (hfamily : row.familyId = current.familyId) (hlive : row.Live) :
    (statement ttl now table phase).2.written = some (current, replacement) := by
  cases phase with
  | linking current' replacement' => exact hwritten
  | rechecking current' replacement' =>
    obtain ⟨rfl, rfl⟩ := Prod.mk.inj (Option.some.inj hwritten)
    unfold statement
    dsimp only
    rw [if_pos hreuse.any]
    rfl
  | withdrawing current' replacement' =>
    obtain ⟨rfl, rfl⟩ := Prod.mk.inj (Option.some.inj hwritten)
    exact absurd hlive (not_live_revokeFamily hrow hfamily)
  | _ => exact absurd hwritten.symm (Option.some_ne_none _)

theorem claimed_statement (h : (statement ttl now table phase).2.claimed = some current) :
    phase = .claiming current ∧
      ∃ row ∈ table.rows, row.tokenHash = current.tokenHash ∧ row.Live := by
  cases phase with
  | claiming current' =>
    unfold statement at h
    dsimp only at h
    split_ifs at h with hany
    · obtain rfl := Option.some.inj h
      obtain ⟨row, hrow, hclaimable⟩ := List.any_eq_true.1 hany
      obtain ⟨hhash, hrotated, hrevoked⟩ := of_decide_eq_true (by exact hclaimable)
      exact ⟨rfl, row, hrow, hhash, hrotated, hrevoked⟩
    · exact absurd h.symm (Option.some_ne_none _)
  | looking presented =>
    unfold statement at h
    dsimp only at h
    split at h
    · exact absurd h.symm (Option.some_ne_none _)
    · split_ifs at h
      · exact absurd h.symm (Option.some_ne_none _)
      · exact absurd h.symm (Option.some_ne_none _)
      · exact absurd h.symm (Option.some_ne_none _)
  | rechecking current' replacement =>
    unfold statement at h
    dsimp only at h
    split_ifs at h
    · exact absurd h.symm (Option.some_ne_none _)
    · exact absurd h.symm (Option.some_ne_none _)
  | leaving presented =>
    unfold statement at h
    dsimp only at h
    split at h
    · exact absurd h.symm (Option.some_ne_none _)
    · exact absurd h.symm (Option.some_ne_none _)
  | _ => exact absurd h.symm (Option.some_ne_none _)

theorem handed_of_written (h : phase.written = some (current, replacement)) :
    phase.handed = none ∧ phase.minted = some replacement.tokenHash := by
  cases phase with
  | linking current' replacement' =>
    obtain ⟨rfl, rfl⟩ := Prod.mk.inj (Option.some.inj h)
    exact ⟨rfl, rfl⟩
  | rechecking current' replacement' =>
    obtain ⟨rfl, rfl⟩ := Prod.mk.inj (Option.some.inj h)
    exact ⟨rfl, rfl⟩
  | withdrawing current' replacement' =>
    obtain ⟨rfl, rfl⟩ := Prod.mk.inj (Option.some.inj h)
    exact ⟨rfl, rfl⟩
  | _ => exact absurd h.symm (Option.some_ne_none _)

theorem Held.of_written (h : Held table request phase)
    (hwritten : phase.written = some (current, replacement)) :
    request = .rotate (some current.tokenHash) ∧ Known table current ∧ Known table replacement ∧
      replacement.familyId = current.familyId := by
  cases phase with
  | linking current' replacement' =>
    obtain ⟨rfl, rfl⟩ := Prod.mk.inj (Option.some.inj hwritten)
    exact h
  | rechecking current' replacement' =>
    obtain ⟨rfl, rfl⟩ := Prod.mk.inj (Option.some.inj hwritten)
    exact h
  | withdrawing current' replacement' =>
    obtain ⟨rfl, rfl⟩ := Prod.mk.inj (Option.some.inj hwritten)
    exact h
  | _ => exact absurd hwritten.symm (Option.some_ne_none _)

/-! ## A closed family stays closed -/

theorem Orderly.family_of_written (h : Orderly s) {i : ℕ}
    (hcall : s.calls[i]? = some (request, phase))
    (hwritten : phase.written = some (current, replacement)) (hrow : row ∈ s.data.rows)
    (hhash : replacement.tokenHash = row.tokenHash) : row.familyId = current.familyId := by
  obtain ⟨-, -, ⟨known, hknown, hkept⟩, hfamily⟩ := (h.held i request phase hcall).of_written hwritten
  obtain rfl := h.eq_of_hash hknown hrow (hkept.tokenHash.trans hhash)
  exact hkept.familyId.trans hfamily

/-- **Nobody claims a token of a closed family**: what is live in it was not
handed out. -/
theorem Closed.not_claimed (h : Closed familyId n s) (horder : Orderly s) {i : ℕ}
    (hcall : s.calls[i]? = some (request, .claiming current))
    (hfamily : current.familyId = familyId)
    (hlive : ∃ row ∈ s.data.rows, row.tokenHash = current.tokenHash ∧ row.Live) : False := by
  obtain ⟨row, hrow, hhash, hrowLive⟩ := hlive
  obtain ⟨rfl, known, hknown, hkept⟩ := horder.held i request _ hcall
  obtain rfl := horder.eq_of_hash hrow hknown (hhash.trans hkept.tokenHash.symm)
  obtain ⟨-, j, -, request', phase', current', replacement, hcall', hwritten, hreplacement⟩ :=
    h.live row hrow (hkept.familyId.trans hfamily) hrowLive
  obtain ⟨c, hc, hhanded⟩ := horder.presented i _ _ _ hcall rfl
  obtain ⟨k, hk⟩ := List.mem_iff_getElem?.1 hc
  obtain ⟨hnone, hminted⟩ := handed_of_written hwritten
  rw [hreplacement, hhash] at hminted
  obtain rfl := horder.once j k request' phase' c.1 c.2 _ hcall' hk hminted (minted_of_handed hhanded)
  rw [hcall'] at hk
  obtain rfl := Option.some.inj hk
  rw [hnone] at hhanded
  exact Option.some_ne_none _ hhanded.symm

/-- **A closed family stays closed.** -/
theorem Closed.step (h : Closed familyId n s) (horder : Orderly s) (a : Sessions.Action) :
    Closed familyId n ((service ttl).step s a) := by
  obtain hsame | ⟨request, phase, rfl, henter, hstep⟩ |
    ⟨i, input, request, phase, rfl, hcall, hstep⟩ := Calls.System.step_cases (service ttl) s a
  · rw [hsame]
    exact h
  · have hdata : ((service ttl).step s (.start request)).data = s.data := by rw [hstep]
    refine ⟨by rw [hdata]; exact h.old, fun row hrow hfamily hlive => ?_,
      fun i request' phase' current hcall hclaimed hfamily => ?_⟩
    · rw [hdata] at hrow ⊢
      obtain ⟨hreuse, i, hi, request', phase', current, replacement, hcall, hwritten⟩ :=
        h.live row hrow hfamily hlive
      refine ⟨hreuse, i, hi, request', phase', current, replacement, ?_, hwritten⟩
      obtain ⟨hlt, -⟩ := List.getElem?_eq_some_iff.1 hcall
      rw [hstep]
      dsimp only
      rw [List.getElem?_append_left hlt]
      exact hcall
    · rw [hdata]
      obtain hold | ⟨-, -, henter'⟩ | ⟨_, _, heq, -⟩ := Calls.System.getElem?_step hcall
      · exact h.claimed i request' phase' current hold hclaimed hfamily
      · -- A call that starts has claimed nothing.
        obtain ⟨_, -, rfl, -⟩ | ⟨_, -, rfl, -⟩ | ⟨_, -, rfl⟩ | ⟨_, -, rfl⟩ := enter_cases henter'
        · exact absurd hclaimed.symm (Option.some_ne_none _)
        · exact absurd hclaimed.symm (Option.some_ne_none _)
        · exact absurd hclaimed.symm (Option.some_ne_none _)
        · exact absurd hclaimed.symm (Option.some_ne_none _)
      · simp at heq
  · have hdata : ((service ttl).step s (.advance i input)).data =
        (statement ttl input s.data phase).1 := by rw [hstep]; rfl
    have hself : ((service ttl).step s (.advance i input)).calls[i]? =
        some (request, (statement ttl input s.data phase).2) := by
      rw [hstep]
      exact Calls.System.getElem?_set_self hcall
    refine ⟨?_, fun row' hrow' hfamily hlive => ?_, fun k request' phase' current hcall' hclaimed
      hfamily => ?_⟩
    · rw [hdata]
      exact h.old.trans_le next_le_statement
    · rw [hdata] at hrow' ⊢
      obtain ⟨row, hrow, hkept⟩ | ⟨userId, family, rfl, hnew⟩ := row_cases hrow'
      · obtain ⟨hreuse, j, hj, request', phase', current, replacement, hcall', hwritten, hhash⟩ :=
          h.live row hrow (hkept.familyId.symm.trans hfamily) (hkept.live hlive)
        have hcurrent := horder.family_of_written hcall' hwritten hrow hhash
        rw [← hkept.familyId, hfamily] at hcurrent
        refine ⟨hreuse.statement, j, hj, request', ?_⟩
        rw [← hkept.tokenHash] at hhash
        by_cases hij : i = j
        · subst hij
          rw [hcall] at hcall'
          obtain ⟨rfl, rfl⟩ := Prod.mk.inj (Option.some.inj hcall')
          exact ⟨_, current, replacement, hself,
            written_statement hwritten (hcurrent ▸ hreuse) hrow' (hfamily.trans hcurrent) hlive, hhash⟩
        · refine ⟨phase', current, replacement, ?_, hwritten, hhash⟩
          rw [hstep]
          dsimp only
          rw [List.getElem?_set_ne hij]
          exact hcall'
      · obtain ⟨current, rfl, rfl, rfl⟩ | ⟨-, rfl⟩ := hnew
        · -- What a rotation writes into the family it will withdraw.
          obtain ⟨hi, hreuse⟩ := h.claimed i request _ current hcall rfl hfamily
          exact ⟨hreuse.statement, i, hi, request, _, current, _, hself, rfl, rfl⟩
        · exact absurd hfamily h.old.ne'
    · rw [hdata]
      obtain hold | ⟨-, heq, -⟩ | ⟨input', phase'', heq, hold, rfl⟩ :=
        Calls.System.getElem?_step hcall'
      · obtain ⟨hk, hreuse⟩ := h.claimed k request' phase' current hold hclaimed hfamily
        exact ⟨hk, hreuse.statement⟩
      · simp at heq
      · obtain ⟨rfl, hlive⟩ := claimed_statement hclaimed
        obtain ⟨rfl, rfl⟩ := Calls.Action.advance.inj heq
        exact (h.not_claimed horder hold hfamily hlive).elim

theorem Closed.run (h : Closed familyId n s) (horder : Orderly s) (actions : List Sessions.Action) :
    Closed familyId n (Runs.run (service ttl).step s actions) := by
  have hboth : Orderly (Runs.run (service ttl).step s actions) ∧
      Closed familyId n (Runs.run (service ttl).step s actions) :=
    Runs.invariant_of_forall (I := fun s => Orderly s ∧ Closed familyId n s)
      (fun _ a h => ⟨h.1.step a, h.2.step h.1 a⟩) ⟨horder, h⟩ actions
  exact hboth.2

end Optionia.Auth
