import Optionia.Auth.Logout
/-!
# A token presented twice

One rotation alone wins a token (`Spent`), and whoever presents it again finds
reuse: the sweep closes the family (`Watched`). Once every rotation has
returned nothing in the family is usable, and nothing becomes so again. A
family has at any time one live token, or one rotation that has claimed it and
not yet replaced it (`Single`).
-/

namespace Optionia.Auth

open Runs

variable {ttl now : ℤ} {s : Sessions} {table : Table} {phase : Phase} {familyId : ℕ}

/-! ## Who wins a token -/

/-- The claim of a rotation took its token. -/
def Phase.won : Phase → Bool
  | .replacing _ | .linking _ _ | .rechecking _ _ | .withdrawing _ _ => true
  | .rotated outcome => decide (outcome.failure = none)
  | _ => false

/-- **A rotation wins by its claim.** -/
theorem won_statement (h : (statement ttl now table phase).2.won = true) :
    phase.won = true ∨
      ∃ current, phase = .claiming current ∧ table.rows.any (claimable current.tokenHash) = true := by
  cases phase with
  | looking presented =>
    unfold statement at h
    dsimp only at h
    split at h
    · exact absurd h Bool.false_ne_true
    · split_ifs at h
      · exact absurd h Bool.false_ne_true
      · exact absurd h Bool.false_ne_true
      · exact absurd h Bool.false_ne_true
  | claiming current =>
    unfold statement at h
    dsimp only at h
    split_ifs at h with hany
    · exact .inr ⟨current, rfl, hany⟩
    · exact absurd h Bool.false_ne_true
  | leaving presented =>
    unfold statement at h
    dsimp only at h
    split at h
    · exact absurd h Bool.false_ne_true
    · exact absurd h Bool.false_ne_true
  | replacing current => exact .inl rfl
  | linking current replacement => exact .inl rfl
  | rechecking current replacement => exact .inl rfl
  | withdrawing current replacement => exact .inl rfl
  | rotated outcome => exact .inl h
  | _ => exact absurd h Bool.false_ne_true

variable {request : Request} {current row' : RefreshToken} {a : Sessions.Action} {token : ℕ}

theorem won_enter (h : (service ttl).enter s request = some phase) : phase.won = false := by
  have henter : enter s request = some phase := h
  obtain ⟨_, -, rfl, -⟩ | ⟨_, -, rfl, -⟩ | ⟨_, -, rfl⟩ | ⟨_, -, rfl⟩ := enter_cases henter
  · rfl
  · rfl
  · rfl
  · rfl

theorem rotated_claiming (hone : ∀ row ∈ table.rows, row.tokenHash = current.tokenHash → row.Live)
    (hrow' : row' ∈ (statement ttl now table (.claiming current)).1.rows)
    (hhash : row'.tokenHash = current.tokenHash)
    (hany : table.rows.any (claimable current.tokenHash) = true) : row'.rotatedAt ≠ none := by
  unfold statement at hrow'
  dsimp only at hrow'
  rw [if_pos hany] at hrow'
  obtain ⟨row, hrow, rfl⟩ := List.mem_map.1 hrow'
  by_cases hclaimable : claimable current.tokenHash row = true
  · rw [if_pos hclaimable]
    exact Option.some_ne_none now
  · rw [if_neg hclaimable] at hhash
    exact absurd (decide_eq_true ⟨hhash, (hone row hrow hhash).1, (hone row hrow hhash).2⟩)
      hclaimable

/-- A call after an action has won its token: it had, or claims it now. -/
theorem won_step (horder : Orderly s) {i : ℕ}
    (hcall : ((service ttl).step s a).calls[i]? = some (.rotate (some token), phase))
    (hwon : phase.won = true) :
    (∃ phase', s.calls[i]? = some (.rotate (some token), phase') ∧ phase'.won = true) ∨
      ∃ input current, a = .advance i input ∧ current.tokenHash = token ∧
        s.calls[i]? = some (.rotate (some token), .claiming current) ∧
          s.data.rows.any (claimable current.tokenHash) = true := by
  obtain hold | ⟨-, -, henter⟩ | ⟨input, phase', rfl, hold, rfl⟩ := Calls.System.getElem?_step hcall
  · exact .inl ⟨phase, hold, hwon⟩
  · rw [won_enter henter] at hwon
    simp at hwon
  · obtain hsame | ⟨current, rfl, hany⟩ := won_statement hwon
    · exact .inl ⟨phase', hold, hsame⟩
    · have hrequest := (horder.held i _ _ hold).1
      obtain rfl : token = current.tokenHash := by simpa using hrequest
      exact .inr ⟨input, current, rfl, rfl, hold, hany⟩

/-- **A token that a rotation has won is spent**, and by that rotation alone. -/
structure Spent (s : Sessions) : Prop where
  rotated : ∀ (i : ℕ) token phase, s.calls[i]? = some (.rotate (some token), phase) →
    phase.won = true → ∀ row ∈ s.data.rows, row.tokenHash = token → row.rotatedAt ≠ none
  winner : ∀ (i j : ℕ) token pi pj, s.calls[i]? = some (.rotate (some token), pi) →
    s.calls[j]? = some (.rotate (some token), pj) → pi.won = true → pj.won = true → i = j

theorem spent_start : Spent Sessions.start where
  rotated := fun _ _ _ h => absurd h.symm (Option.some_ne_none _)
  winner := fun _ _ _ _ _ h => absurd h.symm (Option.some_ne_none _)

theorem Orderly.live_of_any (h : Orderly s) (hany : s.data.rows.any (claimable token) = true) :
    (∃ row ∈ s.data.rows, row.tokenHash = token) ∧
      ∀ row ∈ s.data.rows, row.tokenHash = token → row.Live := by
  obtain ⟨row, hrow, hclaimable⟩ := List.any_eq_true.1 hany
  obtain ⟨hhash, hrotated, hrevoked⟩ := of_decide_eq_true (by exact hclaimable)
  refine ⟨⟨row, hrow, hhash⟩, fun other hother hhash' => ?_⟩
  obtain rfl := h.eq_of_hash hrow hother (hhash.trans hhash'.symm)
  exact ⟨hrotated, hrevoked⟩

theorem Spent.not_any (h : Spent s) (horder : Orderly s) {i : ℕ}
    (hcall : s.calls[i]? = some (.rotate (some token), phase)) (hwon : phase.won = true) :
    s.data.rows.any (claimable token) ≠ true := by
  intro hany
  obtain ⟨⟨row, hrow, hhash⟩, hlive⟩ := horder.live_of_any hany
  exact h.rotated i token phase hcall hwon row hrow hhash (hlive row hrow hhash).1

theorem Spent.step (h : Spent s) (horder : Orderly s) (a : Sessions.Action) :
    Spent ((service ttl).step s a) where
  rotated := by
    intro i token phase hcall hwon row' hrow' hhash
    obtain ⟨phase', hold, hwon'⟩ | ⟨input, current, rfl, rfl, hold, hany⟩ :=
      won_step horder hcall hwon
    · obtain ⟨row, hrow, hkept⟩ := horder.row_presented hold rfl hrow' hhash
      exact fun hnone => h.rotated i token phase' hold hwon' row hrow
        (hkept.tokenHash.symm.trans hhash) (hkept.rotated hnone)
    · have hdata : ((service ttl).step s (.advance i input)).data =
          (statement ttl input s.data (.claiming current)).1 := by
        rw [Calls.System.step, hold]
        rfl
      rw [hdata] at hrow'
      exact rotated_claiming (horder.live_of_any hany).2 hrow' hhash hany
  winner := by
    intro i j token pi pj hi hj hpi hpj
    obtain ⟨pi', hi', hpi'⟩ | ⟨input, current, rfl, rfl, hi', hany⟩ := won_step horder hi hpi
    · obtain ⟨pj', hj', hpj'⟩ | ⟨input, current, rfl, rfl, hj', hany⟩ := won_step horder hj hpj
      · exact h.winner i j token pi' pj' hi' hj' hpi' hpj'
      · exact absurd hany (h.not_any horder hi' hpi')
    · obtain ⟨pj', hj', hpj'⟩ | ⟨input', current', heq, -⟩ := won_step horder hj hpj
      · exact absurd hany (h.not_any horder hj' hpj')
      · exact (Calls.Action.advance.inj heq).1

/-! ## One live token -/

/-- **A family has one live token**, or one rotation that has claimed it and
not replaced it. -/
structure Single (s : Sessions) : Prop where
  live : ∀ row ∈ s.data.rows, ∀ row' ∈ s.data.rows, row.familyId = row'.familyId → row.Live →
    row'.Live → row = row'
  claimed : ∀ (i j : ℕ) ri pi rj pj ci cj, s.calls[i]? = some (ri, pi) →
    s.calls[j]? = some (rj, pj) → pi.claimed = some ci → pj.claimed = some cj →
      ci.familyId = cj.familyId → i = j
  apart : ∀ (i : ℕ) request phase current, s.calls[i]? = some (request, phase) →
    phase.claimed = some current → ∀ row ∈ s.data.rows, row.familyId = current.familyId → ¬ row.Live

theorem single_start : Single Sessions.start where
  live := fun _ hrow => absurd hrow List.not_mem_nil
  claimed := fun _ _ _ _ _ _ _ _ h => absurd h.symm (Option.some_ne_none _)
  apart := fun _ _ _ _ h => absurd h.symm (Option.some_ne_none _)

theorem claimed_enter (h : (service ttl).enter s request = some phase) : phase.claimed = none := by
  have henter : enter s request = some phase := h
  obtain ⟨_, -, rfl, -⟩ | ⟨_, -, rfl, -⟩ | ⟨_, -, rfl⟩ | ⟨_, -, rfl⟩ := enter_cases henter
  · rfl
  · rfl
  · rfl
  · rfl

theorem Held.of_claimed (h : Held table request phase) (hclaimed : phase.claimed = some current) :
    request = .rotate (some current.tokenHash) ∧ Known table current := by
  cases phase with
  | replacing current' =>
    obtain rfl := Option.some.inj hclaimed
    exact h
  | _ => exact absurd hclaimed.symm (Option.some_ne_none _)

theorem Orderly.family_of_known (h : Orderly s) (hknown : Known s.data current) :
    current.familyId < s.data.next := by
  obtain ⟨row, hrow, hkept⟩ := hknown
  have hfresh := (h.fresh row hrow).2
  rwa [hkept.familyId] at hfresh

/-- A call after a statement has claimed a token: it had, and the statement is
not its own, or it claims it now. -/
theorem claimed_step {i k : ℕ} {input : ℤ} {request' : Request} {phase' : Phase}
    (hcall : s.calls[i]? = some (request, phase))
    (hcall' : ((service ttl).step s (.advance i input)).calls[k]? = some (request', phase'))
    (hclaimed : phase'.claimed = some current) : (k ≠ i ∧ s.calls[k]? = some (request', phase')) ∨
      k = i ∧ phase = .claiming current ∧ s.data.rows.any (claimable current.tokenHash) = true := by
  by_cases hk : k = i
  · subst hk
    have hself : ((service ttl).step s (.advance k input)).calls[k]? =
        some (request, (statement ttl input s.data phase).2) := by
      rw [Calls.System.step, hcall]
      exact Calls.System.getElem?_set_self hcall
    obtain ⟨-, rfl⟩ := Prod.mk.inj (Option.some.inj (hcall'.symm.trans hself))
    obtain ⟨rfl, row, hrow, hhash, hlive⟩ := claimed_statement hclaimed
    exact .inr ⟨rfl, rfl, List.any_eq_true.2 ⟨row, hrow, decide_eq_true ⟨hhash, hlive⟩⟩⟩
  · obtain hold | ⟨-, heq, -⟩ | ⟨_, _, heq, -⟩ := Calls.System.getElem?_step hcall'
    · exact .inl ⟨hk, hold⟩
    · simp at heq
    · exact absurd (Calls.Action.advance.inj heq).1.symm hk

/-- Whoever is about to claim a live token finds it the only one of its
family, and none claimed. -/
theorem Single.of_claiming (h : Single s) (horder : Orderly s) {i : ℕ}
    (hcall : s.calls[i]? = some (request, .claiming current))
    (hany : s.data.rows.any (claimable current.tokenHash) = true) :
    (∀ row ∈ s.data.rows, row.familyId = current.familyId → row.Live →
        row.tokenHash = current.tokenHash) ∧
      ∀ (k : ℕ) request' phase' current', s.calls[k]? = some (request', phase') →
        phase'.claimed = some current' → current'.familyId ≠ current.familyId := by
  obtain ⟨⟨row, hrow, hhash⟩, hlive⟩ := horder.live_of_any hany
  obtain ⟨-, known, hknown, hkept⟩ := horder.held i request _ hcall
  obtain rfl := horder.eq_of_hash hrow hknown (hhash.trans hkept.tokenHash.symm)
  refine ⟨fun other hother hfamily hotherLive => ?_, fun k request' phase' current' hcall' hclaimed
    hfamily => ?_⟩
  · rw [h.live other hother row hrow (hfamily.trans hkept.familyId.symm) hotherLive
      (hlive row hrow hhash)]
    exact hhash
  · exact h.apart k request' phase' current' hcall' hclaimed row hrow
      (hkept.familyId.trans hfamily.symm) (hlive row hrow hhash)

theorem Single.step (h : Single s) (horder : Orderly s) (a : Sessions.Action) :
    Single ((service ttl).step s a) := by
  obtain hsame | ⟨request, phase, rfl, henter, hstep⟩ |
    ⟨i, input, request, phase, rfl, hcall, hstep⟩ := Calls.System.step_cases (service ttl) s a
  · rw [hsame]
    exact h
  · have hdata : ((service ttl).step s (.start request)).data = s.data := by rw [hstep]
    have hold : ∀ (k : ℕ) request' phase' current,
        ((service ttl).step s (.start request)).calls[k]? = some (request', phase') →
          phase'.claimed = some current → s.calls[k]? = some (request', phase') := by
      intro k request' phase' current hcall hclaimed
      obtain hold | ⟨-, -, henter'⟩ | ⟨_, _, heq, -⟩ := Calls.System.getElem?_step hcall
      · exact hold
      · rw [claimed_enter henter'] at hclaimed
        simp at hclaimed
      · simp at heq
    refine ⟨by rw [hdata]; exact h.live, fun i j ri pi rj pj ci cj hi hj hci hcj => ?_,
      fun k request' phase' current hcall hclaimed => ?_⟩
    · exact h.claimed i j ri pi rj pj ci cj (hold i ri pi ci hi hci) (hold j rj pj cj hj hcj) hci hcj
    · rw [hdata]
      exact h.apart k request' phase' current (hold k request' phase' current hcall hclaimed)
        hclaimed
  · have hdata : ((service ttl).step s (.advance i input)).data =
        (statement ttl input s.data phase).1 := by rw [hstep]; rfl
    -- A row that is written is the only live one of its family.
    have hnew : ∀ userId family, ((∃ current, phase = .replacing current ∧
        userId = current.userId ∧ family = current.familyId) ∨
          phase = .issuing userId ∧ family = s.data.next) →
        (∀ row ∈ s.data.rows, row.familyId = family → ¬ row.Live) ∧
          ∀ (k : ℕ) request' phase' current, k ≠ i → s.calls[k]? = some (request', phase') →
            phase'.claimed = some current → current.familyId ≠ family := by
      rintro userId family (⟨current, rfl, -, rfl⟩ | ⟨rfl, rfl⟩)
      · exact ⟨h.apart i request _ current hcall rfl, fun k request' phase' current' hk hcall'
          hclaimed hfamily => hk (h.claimed k i _ _ _ _ current' current hcall' hcall hclaimed rfl
            hfamily)⟩
      · refine ⟨fun row hrow hfamily => absurd hfamily (horder.fresh row hrow).2.ne, ?_⟩
        intro k request' phase' current' _ hcall' hclaimed
        exact (horder.family_of_known ((horder.held k request' phase' hcall').of_claimed
          hclaimed).2).ne
    refine ⟨fun row hrow row' hrow' hfamily hlive hlive' => ?_,
      fun j k rj pj rk pk cj ck hj hk hcj hck hfamily => ?_,
      fun k request' phase' current hcall' hclaimed row hrow hfamily hlive => ?_⟩
    · have horder' : Orderly ((service ttl).step s (.advance i input)) := horder.step _
      refine horder'.eq_of_hash hrow hrow' ?_
      rw [hdata] at hrow hrow'
      obtain ⟨old, hold, hkept⟩ | ⟨userId, family, rfl, hphase⟩ := row_cases hrow
      · obtain ⟨old', hold', hkept'⟩ | ⟨userId, family, rfl, hphase⟩ := row_cases hrow'
        · rw [hkept.tokenHash, hkept'.tokenHash, h.live old hold old' hold'
            (hkept.familyId.symm.trans (hfamily.trans hkept'.familyId)) (hkept.live hlive)
            (hkept'.live hlive')]
        · exact absurd (hkept.live hlive) ((hnew userId family hphase).1 old hold
            (hkept.familyId.symm.trans hfamily))
      · obtain ⟨old', hold', hkept'⟩ | ⟨userId', family', rfl, -⟩ := row_cases hrow'
        · exact absurd (hkept'.live hlive') ((hnew userId family hphase).1 old' hold'
            (hkept'.familyId.symm.trans hfamily.symm))
        · rfl
    · obtain ⟨hji, hj'⟩ | ⟨rfl, rfl, hany⟩ := claimed_step hcall hj hcj
      · obtain ⟨hki, hk'⟩ | ⟨rfl, rfl, hany⟩ := claimed_step hcall hk hck
        · exact h.claimed j k rj pj rk pk cj ck hj' hk' hcj hck hfamily
        · exact absurd hfamily ((h.of_claiming horder hcall hany).2 j rj pj cj hj' hcj)
      · obtain ⟨hki, hk'⟩ | ⟨rfl, -⟩ := claimed_step hcall hk hck
        · exact absurd hfamily.symm ((h.of_claiming horder hcall hany).2 k rk pk ck hk' hck)
        · rfl
    · rw [hdata] at hrow
      obtain ⟨hki, hold⟩ | ⟨rfl, rfl, hany⟩ := claimed_step hcall hcall' hclaimed
      · obtain ⟨old, hmem, hkept⟩ | ⟨userId, family, rfl, hphase⟩ := row_cases hrow
        · exact h.apart k request' phase' current hold hclaimed old hmem
            (hkept.familyId.symm.trans hfamily) (hkept.live hlive)
        · exact (hnew userId family hphase).2 k request' phase' current hki hold hclaimed
            hfamily.symm
      · obtain ⟨old, hmem, hkept⟩ | ⟨userId, family, -, ⟨_, heq, -⟩ | ⟨heq, -⟩⟩ := row_cases hrow
        · have hhash := (h.of_claiming horder hcall hany).1 old hmem
            (hkept.familyId.symm.trans hfamily) (hkept.live hlive)
          exact rotated_claiming (horder.live_of_any hany).2 hrow (hkept.tokenHash.trans hhash) hany
            hlive.1
        · simp at heq
        · simp at heq

/-! ## Reuse -/

/-- Nobody logs out of the family or changes its user's password, and no
rotation finds its token expired. -/
def Undisturbed (familyId : ℕ) (s : Sessions) : Sessions.Action → Prop
  | .start _ => True
  | .advance call now => ∀ c ∈ s.calls[call]?, ∀ row ∈ s.data.rows, row.familyId = familyId →
      c.2.sweeps row = false ∧
        (c.2 = .looking (some row.tokenHash) → hasExpired row.expiresAt now = false)

instance (familyId : ℕ) (s : Sessions) : ∀ a : Sessions.Action, Decidable (Undisturbed familyId s a)
  | .start _ => inferInstanceAs (Decidable True)
  | .advance call _ => inferInstanceAs (Decidable (∀ c ∈ s.calls[call]?, ∀ row ∈ s.data.rows, _))

/-- A call about to revoke a family for reuse. -/
def Phase.detects : Phase → Option RefreshToken
  | .replayed current | .withdrawing current _ => some current
  | _ => none

/-- **What revokes a row**: a logout or password change, or reuse. -/
theorem revoked_statement (hrow' : row' ∈ (statement ttl now table phase).1.rows)
    (hrevoked : row'.revokedAt ≠ none) :
    (∃ row ∈ table.rows, Kept row row' ∧ row.revokedAt ≠ none) ∨
      (∃ row ∈ table.rows, Kept row row' ∧ phase.sweeps row = true) ∨
        ∃ current, phase.detects = some current ∧ row'.familyId = current.familyId ∧
          row'.revokedReason = RevokeReason.REUSE_DETECTED.text := by
  have hsame : row' ∈ table.rows → ∃ row ∈ table.rows, Kept row row' ∧ row.revokedAt ≠ none :=
    fun hmem => ⟨row', hmem, Kept.refl row', hrevoked⟩
  have hfamily : ∀ current : RefreshToken,
      row' ∈ revokeFamily table.rows current.familyId .REUSE_DETECTED now →
        (∃ row ∈ table.rows, Kept row row' ∧ row.revokedAt ≠ none) ∨
          row'.familyId = current.familyId ∧
            row'.revokedReason = RevokeReason.REUSE_DETECTED.text := by
    intro current hmem
    obtain ⟨row, hrow, rfl⟩ := List.mem_map.1 hmem
    by_cases hfits : decide (row.familyId = current.familyId ∧ row.revokedAt = none) = true
    · rw [if_pos hfits]
      exact .inr ⟨(of_decide_eq_true hfits).1, rfl⟩
    · rw [if_neg hfits] at hrevoked ⊢
      exact .inl ⟨row, hrow, Kept.refl row, hrevoked⟩
  cases phase with
  | looking presented =>
    unfold statement at hrow'
    dsimp only at hrow'
    split at hrow'
    · exact .inl (hsame hrow')
    · split_ifs at hrow'
      · exact .inl (hsame hrow')
      · exact .inl (hsame hrow')
      · exact .inl (hsame hrow')
  | claiming current =>
    unfold statement at hrow'
    dsimp only at hrow'
    split_ifs at hrow'
    · obtain ⟨row, hrow, rfl⟩ := List.mem_map.1 hrow'
      split_ifs at hrevoked ⊢
      · exact .inl ⟨row, hrow, kept_claim row now, hrevoked⟩
      · exact .inl ⟨row, hrow, Kept.refl row, hrevoked⟩
    · exact .inl (hsame hrow')
  | replayed current =>
    obtain hold | hnew := hfamily current hrow'
    · exact .inl hold
    · exact .inr (.inr ⟨current, rfl, hnew⟩)
  | withdrawing current replacement =>
    obtain hold | hnew := hfamily current hrow'
    · exact .inl hold
    · exact .inr (.inr ⟨current, rfl, hnew⟩)
  | linking current replacement =>
    obtain ⟨row, hrow, rfl⟩ := List.mem_map.1 hrow'
    split_ifs at hrevoked ⊢
    · exact .inl ⟨row, hrow, kept_link row replacement.id, hrevoked⟩
    · exact .inl ⟨row, hrow, Kept.refl row, hrevoked⟩
  | rechecking current replacement =>
    unfold statement at hrow'
    dsimp only at hrow'
    split_ifs at hrow'
    · exact .inl (hsame hrow')
    · exact .inl (hsame hrow')
  | leaving presented =>
    unfold statement at hrow'
    dsimp only at hrow'
    split at hrow'
    · exact .inl (hsame hrow')
    · exact .inl (hsame hrow')
  | revoking row =>
    obtain ⟨old, hold, rfl⟩ := List.mem_map.1 hrow'
    by_cases hfits : decide (old.familyId = row.familyId ∧ old.revokedAt = none) = true
    · rw [if_pos hfits]
      exact .inr (.inl ⟨old, hold, kept_revoke .LOGOUT now (of_decide_eq_true hfits).2,
        decide_eq_true (of_decide_eq_true hfits).1⟩)
    · rw [if_neg hfits] at hrevoked ⊢
      exact .inl ⟨old, hold, Kept.refl old, hrevoked⟩
  | resetting userId =>
    obtain ⟨old, hold, rfl⟩ := List.mem_map.1 hrow'
    by_cases hfits : decide (old.userId = userId ∧ old.revokedAt = none) = true
    · rw [if_pos hfits]
      exact .inr (.inl ⟨old, hold, kept_revoke .PASSWORD_CHANGED now (of_decide_eq_true hfits).2,
        decide_eq_true (of_decide_eq_true hfits).1⟩)
    · rw [if_neg hfits] at hrevoked ⊢
      exact .inl ⟨old, hold, Kept.refl old, hrevoked⟩
  | replacing current =>
    obtain hmem | hmem := List.mem_append.1 hrow'
    · exact .inl (hsame hmem)
    · obtain rfl := List.mem_singleton.1 hmem
      exact absurd rfl hrevoked
  | issuing userId =>
    obtain hmem | hmem := List.mem_append.1 hrow'
    · exact .inl (hsame hmem)
    · obtain rfl := List.mem_singleton.1 hmem
      exact absurd rfl hrevoked
  | rotated outcome => exact .inl (hsame hrow')
  | left userId => exact .inl (hsame hrow')
  | reset => exact .inl (hsame hrow')
  | issued token => exact .inl (hsame hrow')

theorem failed_statement {outcome : RefreshOutcome}
    (h : (statement ttl now table phase).2 = .rotated outcome) (hfailure : outcome.failure ≠ none) :
    phase = .rotated outcome ∨ (∃ current, phase.detects = some current) ∨
      ∃ presented, phase = .looking presented ∧ ∀ current,
        table.rows.find? (fun row => decide (some row.tokenHash = presented)) = some current →
          current.revokedAt ≠ none ∨ hasExpired current.expiresAt now = true := by
  cases phase with
  | looking presented =>
    refine .inr (.inr ⟨presented, rfl, fun current hfound => ?_⟩)
    unfold statement at h
    dsimp only at h
    rw [hfound] at h
    dsimp only at h
    split_ifs at h with hrevoked hexpired
    · exact .inl hrevoked
    · exact .inr hexpired
  | claiming current =>
    unfold statement at h
    dsimp only at h
    split_ifs at h
  | replayed current => exact .inr (.inl ⟨current, rfl⟩)
  | withdrawing current replacement => exact .inr (.inl ⟨current, rfl⟩)
  | rechecking current replacement =>
    unfold statement at h
    dsimp only at h
    split_ifs at h
    obtain rfl := Phase.rotated.inj h
    exact absurd rfl hfailure
  | leaving presented =>
    unfold statement at h
    dsimp only at h
    split at h
    · simp at h
    · simp at h
  | rotated outcome' => exact .inl h
  | _ => exact absurd h (by simp [statement])

variable (ttl now) in
theorem Held.of_detects (h : Held table request phase) (hdetects : phase.detects = some current) :
    request = .rotate (some current.tokenHash) ∧ Known table current ∧
      (Auth.statement ttl now table phase).1.rows =
        revokeFamily table.rows current.familyId .REUSE_DETECTED now := by
  cases phase with
  | replayed current' =>
    obtain rfl := Option.some.inj hdetects
    exact ⟨h.1, h.2, rfl⟩
  | withdrawing current' replacement =>
    obtain rfl := Option.some.inj hdetects
    exact ⟨h.1, h.2.1, rfl⟩
  | _ => exact absurd hdetects.symm (Option.some_ne_none _)

theorem closed_of_detects {i : ℕ} {input : ℤ} (horder : Orderly s)
    (hcall : s.calls[i]? = some (request, phase)) (hdetects : phase.detects = some current)
    (hreuse : ReuseDetected ((service ttl).step s (.advance i input)).data current.familyId) :
    Closed current.familyId ((service ttl).step s (.advance i input)).calls.length
      ((service ttl).step s (.advance i input)) := by
  obtain ⟨-, hknown, hrows⟩ :=
    (horder.held i request phase hcall).of_detects ttl input hdetects
  have hdata : ((service ttl).step s (.advance i input)).data =
      (statement ttl input s.data phase).1 := by
    rw [Calls.System.step, hcall]
    rfl
  refine ⟨?_, fun row hrow hfamily hlive => ?_, fun k request' phase' current' hcall' hclaimed
    hfamily => ?_⟩
  · rw [hdata]
    exact (horder.family_of_known hknown).trans_le next_le_statement
  · rw [hdata, hrows] at hrow
    exact absurd hlive (not_live_revokeFamily hrow hfamily)
  · exact ⟨(List.getElem?_eq_some_iff.1 hcall').1, hreuse⟩

/-- **What is so of a family that nobody logs out of.** -/
structure Watched (familyId : ℕ) (s : Sessions) : Prop where
  reasons : ∀ row ∈ s.data.rows, row.familyId = familyId → row.revokedAt ≠ none →
    row.revokedReason = RevokeReason.REUSE_DETECTED.text
  failed : ∀ (i : ℕ) token outcome, s.calls[i]? = some (.rotate (some token), .rotated outcome) →
    outcome.failure ≠ none → ∀ row ∈ s.data.rows, row.tokenHash = token →
      row.familyId = familyId → ReuseDetected s.data familyId
  closed : ReuseDetected s.data familyId → Closed familyId s.calls.length s

theorem watched_start : Watched familyId Sessions.start where
  reasons := fun _ hrow => absurd hrow List.not_mem_nil
  failed := fun _ _ _ h => absurd h.symm (Option.some_ne_none _)
  closed := fun ⟨_, hrow, _⟩ => absurd hrow List.not_mem_nil

theorem ReuseDetected.step (h : ReuseDetected s.data familyId) (a : Sessions.Action) :
    ReuseDetected ((service ttl).step s a).data familyId := by
  obtain ⟨row, hrow, hfamily, hrevoked, hreason⟩ := h
  obtain ⟨row', hrow', hkept⟩ := exists_kept_step ttl hrow a
  obtain ⟨hat, hreason'⟩ := hkept.revoked hrevoked
  exact ⟨row', hrow', hkept.familyId.trans hfamily, hat ▸ hrevoked, hreason'.trans hreason⟩

/-- **What comes to be revoked in the family, reuse revokes.** -/
theorem revoked_step (hok : Undisturbed familyId s a)
    (hrow' : row' ∈ ((service ttl).step s a).data.rows) (hfamily : row'.familyId = familyId)
    (hrevoked : row'.revokedAt ≠ none) :
    (∃ row ∈ s.data.rows, Kept row row' ∧ row.revokedAt ≠ none) ∨
      ∃ i input request phase current, a = .advance i input ∧
        s.calls[i]? = some (request, phase) ∧ phase.detects = some current ∧
          current.familyId = familyId ∧
            row'.revokedReason = RevokeReason.REUSE_DETECTED.text := by
  obtain hsame | ⟨_, _, -, -, hstep⟩ | ⟨i, input, request, phase, rfl, hcall, hstep⟩ :=
    Calls.System.step_cases (service ttl) s a
  · rw [hsame] at hrow'
    exact .inl ⟨row', hrow', Kept.refl row', hrevoked⟩
  · rw [hstep] at hrow'
    exact .inl ⟨row', hrow', Kept.refl row', hrevoked⟩
  · rw [hstep] at hrow'
    obtain hold | ⟨row, hrow, hkept, hsweeps⟩ | ⟨current, hdetects, hof, hreason⟩ :=
      revoked_statement hrow' hrevoked
    · exact .inl hold
    · have hnot := (hok (request, phase) hcall row hrow (hkept.familyId.symm.trans hfamily)).1
      exact absurd (hsweeps.symm.trans hnot) (by simp)
    · exact .inr ⟨i, input, request, phase, current, rfl, hcall, hdetects, hof.symm.trans hfamily,
        hreason⟩

/-- **Every action keeps a family watched.** -/
theorem Watched.step (h : Watched familyId s) (horder : Orderly s)
    (hok : Undisturbed familyId s a) : Watched familyId ((service ttl).step s a) := by
  have hreasons : ∀ row ∈ ((service ttl).step s a).data.rows, row.familyId = familyId →
      row.revokedAt ≠ none → row.revokedReason = RevokeReason.REUSE_DETECTED.text := by
    intro row' hrow' hfamily hrevoked
    obtain ⟨row, hrow, hkept, hwas⟩ | ⟨_, _, _, _, _, -, -, -, -, hreason⟩ :=
      revoked_step hok hrow' hfamily hrevoked
    · rw [(hkept.revoked hwas).2]
      exact h.reasons row hrow (hkept.familyId.symm.trans hfamily) hwas
    · exact hreason
  refine ⟨hreasons, ?_, ?_⟩
  · intro i token outcome hcall hfailure row' hrow' hhash hfamily
    obtain hold | ⟨-, -, henter⟩ | ⟨input, phase, rfl, hold, houtcome⟩ :=
      Calls.System.getElem?_step hcall
    · obtain ⟨row, hrow, hkept⟩ := horder.row_presented hold rfl hrow' hhash
      exact (h.failed i token outcome hold hfailure row hrow (hkept.tokenHash.symm.trans hhash)
        (hkept.familyId.symm.trans hfamily)).step _
    · exact absurd (finished_enter henter).symm Bool.false_ne_true
    · obtain ⟨row, hrow, hkept⟩ := horder.row_presented hold rfl hrow' hhash
      have hhash' : row.tokenHash = token := hkept.tokenHash.symm.trans hhash
      have hfamily' : row.familyId = familyId := hkept.familyId.symm.trans hfamily
      obtain rfl | ⟨current, hdetects⟩ | ⟨presented, rfl, hfound⟩ :=
        failed_statement houtcome.symm hfailure
      · exact (h.failed i token outcome hold hfailure row hrow hhash' hfamily').step _
      · -- The sweep leaves the row revoked, and for reuse.
        obtain ⟨hrequest, ⟨known, hknown, hkept'⟩, hrows⟩ :=
          (horder.held i _ _ hold).of_detects ttl input hdetects
        obtain rfl : token = current.tokenHash := by simpa using hrequest
        obtain rfl := horder.eq_of_hash hrow hknown (hhash'.trans hkept'.tokenHash.symm)
        have hrevoked : row'.revokedAt ≠ none := by
          rw [Calls.System.step, hold] at hrow'
          refine revoked_revokeFamily (hrows ▸ hrow') ?_
          exact hkept.familyId.trans hkept'.familyId
        exact ⟨row', hrow', hfamily, hrevoked, hreasons row' hrow' hfamily hrevoked⟩
      · -- What the lookup found was revoked, for it was not expired.
        obtain rfl : some token = presented := Request.rotate.inj (horder.held i _ _ hold)
        have hrevoked : row.revokedAt ≠ none := by
          cases hfind : s.data.rows.find? fun row => decide (some row.tokenHash = some token) with
          | none =>
            exact absurd (decide_eq_true (congrArg some hhash'))
              (List.find?_eq_none.1 hfind row hrow)
          | some found =>
            obtain rfl := horder.eq_of_hash hrow (List.mem_of_find?_eq_some hfind)
              (hhash'.trans (Option.some.inj (known_of_find hfind).2))
            obtain hrevoked | hexpired := hfound row hfind
            · exact hrevoked
            · have hfresh := (hok _ hold row hrow hfamily').2 (by rw [hhash'])
              exact absurd (hexpired.symm.trans hfresh) (by simp)
        exact ReuseDetected.step
          ⟨row, hrow, hfamily', hrevoked, h.reasons row hrow hfamily' hrevoked⟩ _
  · intro hafter
    by_cases hbefore : ReuseDetected s.data familyId
    · exact ((h.closed hbefore).step horder a).mono (Calls.System.length_le_step a)
    · obtain ⟨row', hrow', hfamily, hrevoked, -⟩ := id hafter
      obtain ⟨row, hrow, hkept, hwas⟩ | ⟨i, input, request, phase, current, rfl, hcall, hdetects,
        rfl, -⟩ := revoked_step hok hrow' hfamily hrevoked
      · have hof : row.familyId = familyId := hkept.familyId.symm.trans hfamily
        exact absurd ⟨row, hrow, hof, hwas, h.reasons row hrow hof hwas⟩ hbefore
      · exact closed_of_detects horder hcall hdetects hafter

/-! ## Runs -/

/-- A call of `rotate`. -/
def Request.rotates : Request → Bool
  | .rotate _ => true
  | _ => false

def AllReturned (s : Sessions) : Prop :=
  ∀ c ∈ s.calls, c.1.rotates = true → c.2.finished = true

instance (s : Sessions) : Decidable (AllReturned s) :=
  inferInstanceAs (Decidable (∀ c ∈ s.calls, _ → _))

theorem Held.rotated {presented : Option ℕ} (h : Held table (.rotate presented) phase)
    (hfinished : phase.finished = true) : ∃ outcome, phase = .rotated outcome := by
  cases phase with
  | rotated outcome => exact ⟨outcome, rfl⟩
  | left userId =>
    obtain ⟨presented', heq⟩ := h
    simp at heq
  | reset =>
    obtain ⟨userId, heq⟩ := h
    simp at heq
  | issued token =>
    obtain ⟨⟨userId, heq⟩, -⟩ := h
    simp at heq
  | _ => exact absurd hfinished Bool.false_ne_true

/-- **Where two rotations presented one token and both have returned**, reuse
was detected. -/
theorem Watched.reuseDetected (h : Watched familyId s) (horder : Orderly s) (hspent : Spent s)
    {i j : ℕ} {pi pj : Phase} (hij : i ≠ j) (hi : s.calls[i]? = some (.rotate (some token), pi))
    (hj : s.calls[j]? = some (.rotate (some token), pj)) (hreturned : AllReturned s)
    {row : RefreshToken} (hrow : row ∈ s.data.rows) (hhash : row.tokenHash = token)
    (hfamily : row.familyId = familyId) : ReuseDetected s.data familyId := by
  obtain ⟨oi, rfl⟩ := (horder.held i _ _ hi).rotated (hreturned _ (List.mem_of_getElem? hi) rfl)
  obtain ⟨oj, rfl⟩ := (horder.held j _ _ hj).rotated (hreturned _ (List.mem_of_getElem? hj) rfl)
  by_cases hoi : oi.failure = none
  · by_cases hoj : oj.failure = none
    · exact absurd (hspent.winner i j token _ _ hi hj (decide_eq_true hoi) (decide_eq_true hoj)) hij
    · exact h.failed j token oj hj hoj row hrow hhash hfamily
  · exact h.failed i token oi hi hoi row hrow hhash hfamily

/-- **A token presented twice ends its session.** Once two rotations have
presented a token and every rotation has returned, no token of its family is
usable, whatever happens from then on; and at no time are two. -/
theorem replay_ends {before : List Sessions.Action} (after : List Sessions.Action)
    (h : Throughout (service ttl).step (Undisturbed familyId) Sessions.start before) :
    (∀ (i j : ℕ) token pi pj, i ≠ j →
      (served ttl before).calls[i]? = some (.rotate (some token), pi) →
      (served ttl before).calls[j]? = some (.rotate (some token), pj) →
      AllReturned (served ttl before) →
      ∀ row ∈ (served ttl before).data.rows, row.tokenHash = token → row.familyId = familyId →
        FamilyEnded (served ttl (before ++ after)) row) ∧
      ∀ row ∈ (served ttl (before ++ after)).data.rows,
        ∀ row' ∈ (served ttl (before ++ after)).data.rows, row.familyId = familyId →
          row'.familyId = familyId → ∀ now, row.Usable now → row'.Usable now → row = row' := by
  have hall : Orderly (served ttl before) ∧ Spent (served ttl before) ∧
      Watched familyId (served ttl before) :=
    invariant (I := fun s => Orderly s ∧ Spent s ∧ Watched familyId s)
      (fun _ a hok h => ⟨h.1.step a, h.2.1.step h.1 a, h.2.2.step h.1 hok⟩) h
      ⟨orderly_start, spent_start, watched_start⟩
  obtain ⟨horder, hspent, hwatched⟩ := hall
  refine ⟨fun i j token pi pj hij hi hj hreturned row hrow hhash hfamily other hother hof now => ?_,
    fun row hrow row' hrow' hof hof' now husable husable' => ?_⟩
  · have hreuse := hwatched.reuseDetected horder hspent hij hi hj hreturned hrow hhash hfamily
    have hstay : RotationsReturned (served ttl before)
        (run (service ttl).step (served ttl before) after) := by
      intro k presented phase hcall
      have hfinished := hreturned _ (List.mem_of_getElem? hcall) rfl
      obtain ⟨outcome, rfl⟩ := (horder.held k _ _ hcall).rotated hfinished
      exact ⟨outcome, (done_of_finished hfinished).run hcall after⟩
    unfold served at hother
    rw [run_append] at hother
    exact (hwatched.closed hreuse).ended horder after hstay hother (hof.trans hfamily) now
  · have hboth : Orderly (served ttl (before ++ after)) ∧ Single (served ttl (before ++ after)) :=
      invariant_of_forall (I := fun s => Orderly s ∧ Single s)
        (fun _ a h => ⟨h.1.step a, h.2.step h.1 a⟩) ⟨orderly_start, single_start⟩ _
    exact hboth.2.live row hrow row' hrow' (hof.trans hof'.symm) husable.live husable'.live

/-- Ann and a thief present one token, and both find it unspent. -/
def theft : List Sessions.Action :=
  [.start (.issue "ann"), .advance 0 0, .start (.rotate (some 0)), .start (.rotate (some 0)),
    .advance 1 1, .advance 2 1, .advance 1 2, .advance 2 2, .advance 1 3, .advance 2 3,
    .advance 1 4, .advance 1 4, .advance 1 4]

theorem theft_ends : FamilyEnded (served 1000 (theft ++ []))
    ⟨0, "ann", 0, 0, some 2, some 1, some 3, "reuse_detected", 1000⟩ :=
  (@replay_ends 1000 0 theft [] (by decide +kernel)).1 1 2 0
    (.rotated ⟨none, some "ann", some .reused⟩) (.rotated ⟨none, some "ann", some .reused⟩)
    (by decide) (by decide +kernel) (by decide +kernel) (by decide +kernel) _ (by decide +kernel)
    rfl rfl

end Optionia.Auth
