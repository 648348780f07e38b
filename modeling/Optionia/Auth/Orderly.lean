import Optionia.Auth.Sessions
/-!
# What every call leaves in order

Rows are added and never removed; what is spent stays spent, what is revoked
stays revoked for the reason it was (`statement_rows`). A call holds copies of
rows that are there, a token is given out by one call alone, and whoever
presents one was handed it (`Orderly`).
-/

namespace Optionia.Auth

/-! ## Rows -/

/-- A row as it was, or spent or revoked since. -/
structure Kept (row row' : RefreshToken) : Prop where
  tokenHash : row'.tokenHash = row.tokenHash
  familyId : row'.familyId = row.familyId
  userId : row'.userId = row.userId
  rotated : row'.rotatedAt = none → row.rotatedAt = none
  /-- What is revoked stays so, for the same reason. -/
  revoked : row.revokedAt ≠ none → row'.revokedAt = row.revokedAt ∧
    row'.revokedReason = row.revokedReason

theorem Kept.refl (row : RefreshToken) : Kept row row := ⟨rfl, rfl, rfl, id, fun _ => ⟨rfl, rfl⟩⟩

variable {row row' : RefreshToken} {a : Sessions.Action} {token : ℕ} {request : Request}

theorem Kept.live (h : Kept row row') (hlive : row'.Live) : row.Live := by
  refine ⟨h.rotated hlive.1, ?_⟩
  by_contra hrevoked
  exact hrevoked ((h.revoked hrevoked).1.symm.trans hlive.2)

theorem kept_updateWhere {fits : RefreshToken → Bool} {change : RefreshToken → RefreshToken}
    (h : ∀ row, fits row = true → Kept row (change row)) (row : RefreshToken) :
    Kept row (if fits row then change row else row) := by
  split_ifs with hfits
  · exact h row hfits
  · exact Kept.refl row

theorem kept_revoke (reason : RevokeReason) (now : ℤ) (h : row.revokedAt = none) :
    Kept row { row with revokedAt := some now, revokedReason := reason.text } :=
  ⟨rfl, rfl, rfl, id, fun hrevoked => absurd h hrevoked⟩

theorem kept_claim (row : RefreshToken) (now : ℤ) : Kept row { row with rotatedAt := some now } :=
  ⟨rfl, rfl, rfl, fun hnone => absurd hnone (Option.some_ne_none now), fun _ => ⟨rfl, rfl⟩⟩

theorem kept_link (row : RefreshToken) (id : ℕ) : Kept row { row with replacedById := some id } :=
  ⟨rfl, rfl, rfl, fun hnone => hnone, fun _ => ⟨rfl, rfl⟩⟩

variable {ttl now : ℤ} {table : Table} {phase : Phase} {s : Sessions} {familyId : ℕ}

/-- **What a statement does to the rows**: it keeps them all, or adds the row
of a token that is given out. -/
theorem statement_rows (ttl now : ℤ) (table : Table) (phase : Phase) :
    ((statement ttl now table phase).1.next = table.next ∧
        ∃ change : RefreshToken → RefreshToken, (∀ row, Kept row (change row)) ∧
          (statement ttl now table phase).1.rows = table.rows.map change) ∨
      ∃ userId familyId, (statement ttl now table phase).1 =
          ⟨table.rows ++ [tokenRow ttl table.next userId familyId now], table.next + 1⟩ ∧
        ((∃ current, phase = .replacing current ∧ userId = current.userId ∧
            familyId = current.familyId) ∨
          phase = .issuing userId ∧ familyId = table.next) := by
  have hsame : (table.next = table.next ∧ ∃ change : RefreshToken → RefreshToken,
      (∀ row, Kept row (change row)) ∧ table.rows = table.rows.map change) :=
    ⟨rfl, id, Kept.refl, (List.map_id _).symm⟩
  have hrevoked : ∀ (familyId : ℕ) (reason : RevokeReason), ∃ change : RefreshToken → RefreshToken,
      (∀ row, Kept row (change row)) ∧
        revokeFamily table.rows familyId reason now = table.rows.map change :=
    fun familyId reason => ⟨_, kept_updateWhere fun row hfits =>
      kept_revoke reason now (of_decide_eq_true hfits).2, rfl⟩
  cases phase with
  | looking presented =>
    unfold statement
    dsimp only
    split
    · exact .inl hsame
    · split_ifs
      · exact .inl hsame
      · exact .inl hsame
      · exact .inl hsame
  | claiming current =>
    unfold statement
    dsimp only
    split_ifs
    · exact .inl ⟨rfl, _, kept_updateWhere fun row _ => kept_claim row now, rfl⟩
    · exact .inl hsame
  | replayed current => exact .inl ⟨rfl, hrevoked current.familyId .REUSE_DETECTED⟩
  | replacing current =>
    exact .inr ⟨current.userId, current.familyId, rfl, .inl ⟨current, rfl, rfl, rfl⟩⟩
  | linking current replacement =>
    exact .inl ⟨rfl, _, kept_updateWhere fun row _ => kept_link row replacement.id, rfl⟩
  | rechecking current replacement =>
    unfold statement
    dsimp only
    split_ifs
    · exact .inl hsame
    · exact .inl hsame
  | withdrawing current replacement =>
    exact .inl ⟨rfl, hrevoked current.familyId .REUSE_DETECTED⟩
  | leaving presented =>
    unfold statement
    dsimp only
    split
    · exact .inl hsame
    · exact .inl hsame
  | revoking row => exact .inl ⟨rfl, hrevoked row.familyId .LOGOUT⟩
  | resetting userId =>
    exact .inl ⟨rfl, _, kept_updateWhere fun row hfits =>
      kept_revoke .PASSWORD_CHANGED now (of_decide_eq_true hfits).2, rfl⟩
  | issuing userId => exact .inr ⟨userId, table.next, rfl, .inr ⟨rfl, rfl⟩⟩
  | rotated outcome => exact .inl hsame
  | left userId => exact .inl hsame
  | reset => exact .inl hsame
  | issued token => exact .inl hsame

theorem exists_kept (hrow : row ∈ table.rows) :
    ∃ row' ∈ (statement ttl now table phase).1.rows, Kept row row' := by
  obtain ⟨-, change, hkept, hrows⟩ | ⟨userId, familyId, htable, -⟩ :=
    statement_rows ttl now table phase
  · exact ⟨change row, by rw [hrows]; exact List.mem_map_of_mem hrow, hkept row⟩
  · exact ⟨row, by rw [htable]; exact List.mem_append_left _ hrow, Kept.refl row⟩

theorem row_cases (hrow : row' ∈ (statement ttl now table phase).1.rows) :
    (∃ row ∈ table.rows, Kept row row') ∨
      ∃ userId familyId, row' = tokenRow ttl table.next userId familyId now ∧
        ((∃ current, phase = .replacing current ∧ userId = current.userId ∧
            familyId = current.familyId) ∨
          phase = .issuing userId ∧ familyId = table.next) := by
  obtain ⟨-, change, hkept, hrows⟩ | ⟨userId, familyId, htable, hnew⟩ :=
    statement_rows ttl now table phase
  · rw [hrows] at hrow
    obtain ⟨row, hmem, rfl⟩ := List.mem_map.1 hrow
    exact .inl ⟨row, hmem, hkept row⟩
  · rw [htable] at hrow
    obtain hmem | hmem := List.mem_append.1 hrow
    · exact .inl ⟨row', hmem, Kept.refl row'⟩
    · exact .inr ⟨userId, familyId, List.mem_singleton.1 hmem, hnew⟩

/-! ## What a call holds -/

theorem Kept.trans {a b c : RefreshToken} (h : Kept a b) (h' : Kept b c) : Kept a c where
  tokenHash := h'.tokenHash.trans h.tokenHash
  familyId := h'.familyId.trans h.familyId
  userId := h'.userId.trans h.userId
  rotated := fun hnone => h.rotated (h'.rotated hnone)
  revoked := fun hrevoked => by
    obtain ⟨hat, hreason⟩ := h.revoked hrevoked
    obtain ⟨hat', hreason'⟩ := h'.revoked (hat ▸ hrevoked)
    exact ⟨hat'.trans hat, hreason'.trans hreason⟩

/-- A copy of a row that is there. -/
def Known (table : Table) (copy : RefreshToken) : Prop := ∃ row ∈ table.rows, Kept copy row

/-- A token that has a row. -/
def Written (table : Table) (token : ℕ) : Prop := ∃ row ∈ table.rows, row.tokenHash = token

theorem Known.statement {copy : RefreshToken} (h : Known table copy) :
    Known (statement ttl now table phase).1 copy := by
  obtain ⟨row, hrow, hkept⟩ := h
  obtain ⟨row', hrow', hkept'⟩ := exists_kept hrow
  exact ⟨row', hrow', hkept.trans hkept'⟩

theorem Written.statement (h : Written table token) :
    Written (statement ttl now table phase).1 token := by
  obtain ⟨row, hrow, rfl⟩ := h
  obtain ⟨row', hrow', hkept⟩ := exists_kept hrow
  exact ⟨row', hrow', hkept.tokenHash⟩

theorem Known.written {copy : RefreshToken} (h : Known table copy) :
    Written table copy.tokenHash := by
  obtain ⟨row, hrow, hkept⟩ := h
  exact ⟨row, hrow, hkept.tokenHash⟩

/-- The token that a request presents. -/
def Request.presented : Request → Option ℕ
  | .rotate presented | .revoke presented => presented
  | _ => none

/-- **What a call holds**: its request, and copies of rows that are there. -/
def Held (table : Table) (request : Request) : Phase → Prop
  | .looking presented => request = .rotate presented
  | .claiming current | .replayed current | .replacing current =>
    request = .rotate (some current.tokenHash) ∧ Known table current
  | .linking current replacement | .rechecking current replacement
  | .withdrawing current replacement =>
    request = .rotate (some current.tokenHash) ∧ Known table current ∧ Known table replacement ∧
      replacement.familyId = current.familyId
  | .rotated outcome => (∃ presented, request = .rotate presented) ∧
      ∀ token ∈ outcome.token, Written table token
  | .leaving presented => request = .revoke presented
  | .revoking row => request = .revoke (some row.tokenHash) ∧ Known table row
  | .left _ => ∃ presented, request = .revoke presented
  | .resetting userId => request = .resetPassword userId
  | .reset => ∃ userId, request = .resetPassword userId
  | .issuing userId => request = .issue userId
  | .issued token => (∃ userId, request = .issue userId) ∧ Written table token

theorem known_of_find {presented : Option ℕ}
    (h : table.rows.find? (fun row => decide (some row.tokenHash = presented)) = some row) :
    Known table row ∧ presented = some row.tokenHash :=
  ⟨⟨row, List.mem_of_find?_eq_some h, Kept.refl row⟩,
    (of_decide_eq_true (List.find?_some h :)).symm⟩

/-- **How a call starts**: who presents a token was handed it. -/
theorem enter_cases (h : enter s request = some phase) :
    (∃ presented, request = .rotate presented ∧ phase = .looking presented ∧
        ∀ token ∈ presented, Handed s token) ∨
      (∃ presented, request = .revoke presented ∧ phase = .leaving presented ∧
        ∀ token ∈ presented, Handed s token) ∨
      (∃ userId, request = .resetPassword userId ∧ phase = .resetting userId) ∨
      ∃ userId, request = .issue userId ∧ phase = .issuing userId := by
  have hnone : ∀ token ∈ (none : Option ℕ), Handed s token :=
    fun token htoken => absurd htoken (Option.not_mem_none token)
  cases request with
  | rotate presented =>
    cases presented with
    | none => exact .inl ⟨none, rfl, (Option.some.inj h).symm, hnone⟩
    | some token =>
      unfold enter at h
      dsimp only at h
      split_ifs at h with hhanded
      refine .inl ⟨some token, rfl, (Option.some.inj h).symm, fun other hother => ?_⟩
      obtain rfl := Option.some.inj hother
      exact hhanded
  | revoke presented =>
    cases presented with
    | none => exact .inr (.inl ⟨none, rfl, (Option.some.inj h).symm, hnone⟩)
    | some token =>
      unfold enter at h
      dsimp only at h
      split_ifs at h with hhanded
      refine .inr (.inl ⟨some token, rfl, (Option.some.inj h).symm, fun other hother => ?_⟩)
      obtain rfl := Option.some.inj hother
      exact hhanded
  | resetPassword userId => exact .inr (.inr (.inl ⟨userId, rfl, (Option.some.inj h).symm⟩))
  | issue userId => exact .inr (.inr (.inr ⟨userId, rfl, (Option.some.inj h).symm⟩))

theorem held_enter (h : enter s request = some phase) : Held s.data request phase := by
  obtain ⟨_, rfl, rfl, -⟩ | ⟨_, rfl, rfl, -⟩ | ⟨_, rfl, rfl⟩ | ⟨_, rfl, rfl⟩ := enter_cases h
  · rfl
  · rfl
  · rfl
  · rfl

theorem Held.statement {other : Phase} (h : Held table request phase) :
    Held (statement ttl now table other).1 request phase := by
  cases phase with
  | claiming current => exact ⟨h.1, h.2.statement⟩
  | replayed current => exact ⟨h.1, h.2.statement⟩
  | replacing current => exact ⟨h.1, h.2.statement⟩
  | linking current replacement => exact ⟨h.1, h.2.1.statement, h.2.2.1.statement, h.2.2.2⟩
  | rechecking current replacement => exact ⟨h.1, h.2.1.statement, h.2.2.1.statement, h.2.2.2⟩
  | withdrawing current replacement => exact ⟨h.1, h.2.1.statement, h.2.2.1.statement, h.2.2.2⟩
  | rotated outcome => exact ⟨h.1, fun token htoken => (h.2 token htoken).statement⟩
  | revoking row => exact ⟨h.1, h.2.statement⟩
  | issued token => exact ⟨h.1, h.2.statement⟩
  | looking presented => exact h
  | leaving presented => exact h
  | left userId => exact h
  | resetting userId => exact h
  | reset => exact h
  | issuing userId => exact h

theorem Held.own (h : Held table request phase) :
    Held (Auth.statement ttl now table phase).1 request (Auth.statement ttl now table phase).2 := by
  have hkept : Held (Auth.statement ttl now table phase).1 request phase := h.statement
  cases phase with
  | looking presented =>
    obtain rfl : request = .rotate presented := h
    unfold Auth.statement
    dsimp only
    split
    · exact ⟨⟨_, rfl⟩, fun token htoken => absurd htoken (Option.not_mem_none token)⟩
    · next current hfound =>
      obtain ⟨hknown, rfl⟩ := known_of_find hfound
      split_ifs
      · exact ⟨⟨_, rfl⟩, fun token htoken => absurd htoken (Option.not_mem_none token)⟩
      · exact ⟨⟨_, rfl⟩, fun token htoken => absurd htoken (Option.not_mem_none token)⟩
      · exact ⟨rfl, hknown⟩
  | claiming current =>
    unfold Auth.statement at hkept ⊢
    dsimp only at hkept ⊢
    split_ifs at hkept ⊢
    · exact hkept
    · exact hkept
  | replayed current =>
    exact ⟨⟨_, h.1⟩, fun token htoken => absurd htoken (Option.not_mem_none token)⟩
  | replacing current =>
    refine ⟨h.1, hkept.2, ⟨_, List.mem_append_right _ (List.mem_singleton.2 rfl), Kept.refl _⟩, rfl⟩
  | linking current replacement => exact hkept
  | rechecking current replacement =>
    unfold Auth.statement at hkept ⊢
    dsimp only at hkept ⊢
    split_ifs at hkept ⊢
    · exact hkept
    · refine ⟨⟨_, h.1⟩, fun token htoken => ?_⟩
      obtain rfl := Option.some.inj htoken
      exact h.2.2.1.written
  | withdrawing current replacement =>
    exact ⟨⟨_, h.1⟩, fun token htoken => absurd htoken (Option.not_mem_none token)⟩
  | rotated outcome => exact h
  | leaving presented =>
    obtain rfl : request = .revoke presented := h
    unfold Auth.statement
    dsimp only
    split
    · exact ⟨_, rfl⟩
    · next row hfound =>
      obtain ⟨hknown, rfl⟩ := known_of_find hfound
      exact ⟨rfl, hknown⟩
  | revoking row => exact ⟨_, h.1⟩
  | left userId => exact h
  | resetting userId => exact ⟨userId, h⟩
  | reset => exact h
  | issuing userId =>
    exact ⟨⟨userId, h⟩, _, List.mem_append_right _ (List.mem_singleton.2 rfl), rfl⟩
  | issued token => exact h

/-! ## Tokens -/

/-- The token that a call has written, whether or not it has given it out. -/
def Phase.minted : Phase → Option ℕ
  | .linking _ replacement | .rechecking _ replacement | .withdrawing _ replacement =>
    some replacement.tokenHash
  | phase => phase.handed

theorem minted_of_handed (h : phase.handed = some token) : phase.minted = some token := by
  cases phase with
  | rotated outcome => exact h
  | issued token => exact h
  | _ => exact absurd h.symm (Option.some_ne_none token)

theorem done_of_handed (h : phase.handed = some token) : (service ttl).Done phase := by
  cases phase with
  | rotated outcome => exact fun _ _ => rfl
  | issued token => exact fun _ _ => rfl
  | _ => exact absurd h.symm (Option.some_ne_none token)

theorem done_of_finished (h : phase.finished = true) : (service ttl).Done phase := by
  cases phase with
  | rotated outcome => exact fun _ _ => rfl
  | left userId => exact fun _ _ => rfl
  | reset => exact fun _ _ => rfl
  | issued token => exact fun _ _ => rfl
  | _ => exact absurd h Bool.false_ne_true

theorem Held.minted (h : Held table request phase) (htoken : phase.minted = some token) :
    Written table token := by
  cases phase with
  | linking current replacement =>
    obtain rfl := Option.some.inj htoken
    exact h.2.2.1.written
  | rechecking current replacement =>
    obtain rfl := Option.some.inj htoken
    exact h.2.2.1.written
  | withdrawing current replacement =>
    obtain rfl := Option.some.inj htoken
    exact h.2.2.1.written
  | rotated outcome => exact h.2 token htoken
  | issued written =>
    obtain rfl := Option.some.inj htoken
    exact h.2
  | _ => exact absurd htoken.symm (Option.some_ne_none token)

theorem minted_enter (h : enter s request = some phase) : phase.minted = none := by
  obtain ⟨_, rfl, rfl, -⟩ | ⟨_, rfl, rfl, -⟩ | ⟨_, rfl, rfl⟩ | ⟨_, rfl, rfl⟩ := enter_cases h
  · rfl
  · rfl
  · rfl
  · rfl

theorem finished_enter (h : (service ttl).enter s request = some phase) :
    phase.finished = false := by
  have henter : enter s request = some phase := h
  obtain ⟨_, -, rfl, -⟩ | ⟨_, -, rfl, -⟩ | ⟨_, -, rfl⟩ | ⟨_, -, rfl⟩ := enter_cases henter
  · rfl
  · rfl
  · rfl
  · rfl

/-- **What a statement writes** is a text that was never given out. -/
theorem minted_statement (h : (statement ttl now table phase).2.minted = some token) :
    phase.minted = some token ∨ token = table.next := by
  cases phase with
  | looking presented =>
    unfold statement at h
    dsimp only at h
    split at h
    · exact absurd h.symm (Option.some_ne_none token)
    · split_ifs at h
      · exact absurd h.symm (Option.some_ne_none token)
      · exact absurd h.symm (Option.some_ne_none token)
      · exact absurd h.symm (Option.some_ne_none token)
  | claiming current =>
    unfold statement at h
    dsimp only at h
    split_ifs at h
    · exact absurd h.symm (Option.some_ne_none token)
    · exact absurd h.symm (Option.some_ne_none token)
  | replacing current => exact .inr (Option.some.inj h).symm
  | rechecking current replacement =>
    unfold statement at h
    dsimp only at h
    split_ifs at h
    · exact .inl h
    · exact .inl h
  | leaving presented =>
    unfold statement at h
    dsimp only at h
    split at h
    · exact absurd h.symm (Option.some_ne_none token)
    · exact absurd h.symm (Option.some_ne_none token)
  | issuing userId => exact .inr (Option.some.inj h).symm
  | linking current replacement => exact .inl h
  | rotated outcome => exact .inl h
  | issued token => exact .inl h
  | _ => exact absurd h.symm (Option.some_ne_none token)

theorem Handed.step (h : Handed s token) (a : Sessions.Action) :
    Handed ((service ttl).step s a) token := by
  obtain ⟨c, hc, htoken⟩ := h
  obtain ⟨i, hi⟩ := List.mem_iff_getElem?.1 hc
  exact ⟨c, List.mem_of_getElem? ((done_of_handed htoken).step hi a), htoken⟩

theorem handed_of_enter (h : enter s request = some phase)
    (htoken : request.presented = some token) : Handed s token := by
  obtain ⟨_, rfl, -, hhanded⟩ | ⟨_, rfl, -, hhanded⟩ | ⟨_, rfl, -⟩ | ⟨_, rfl, -⟩ := enter_cases h
  · exact hhanded token htoken
  · exact hhanded token htoken
  · exact absurd htoken.symm (Option.some_ne_none token)
  · exact absurd htoken.symm (Option.some_ne_none token)

/-! ## Order -/

/-- **What every call leaves in order.** -/
structure Orderly (s : Sessions) : Prop where
  hashes : (s.data.rows.map (·.tokenHash)).Nodup
  fresh : ∀ row ∈ s.data.rows, row.tokenHash < s.data.next ∧ row.familyId < s.data.next
  users : ∀ row ∈ s.data.rows, ∀ row' ∈ s.data.rows, row.familyId = row'.familyId →
    row.userId = row'.userId
  /-- A call holds its request and rows that are there. -/
  held : ∀ (i : ℕ) request phase, s.calls[i]? = some (request, phase) → Held s.data request phase
  once : ∀ (i j : ℕ) ri pi rj pj token, s.calls[i]? = some (ri, pi) → s.calls[j]? = some (rj, pj) →
    pi.minted = some token → pj.minted = some token → i = j
  presented : ∀ (i : ℕ) request phase token, s.calls[i]? = some (request, phase) →
    request.presented = some token → Handed s token

theorem orderly_start : Orderly Sessions.start where
  hashes := List.nodup_nil
  fresh := fun _ hrow => absurd hrow List.not_mem_nil
  users := fun _ hrow => absurd hrow List.not_mem_nil
  held := fun _ _ _ h => absurd h.symm (Option.some_ne_none _)
  once := fun _ _ _ _ _ _ _ h => absurd h.symm (Option.some_ne_none _)
  presented := fun _ _ _ _ h => absurd h.symm (Option.some_ne_none _)

theorem Orderly.eq_of_hash (h : Orderly s) (hrow : row ∈ s.data.rows) (hrow' : row' ∈ s.data.rows)
    (heq : row.tokenHash = row'.tokenHash) : row = row' :=
  List.inj_on_of_nodup_map h.hashes hrow hrow' heq

theorem Handed.written (h : Handed s token) (horder : Orderly s) : Written s.data token := by
  obtain ⟨c, hc, htoken⟩ := h
  obtain ⟨i, hi⟩ := List.mem_iff_getElem?.1 hc
  exact (horder.held i c.1 c.2 hi).minted (minted_of_handed htoken)

theorem Orderly.written_presented (h : Orderly s) {i : ℕ}
    (hcall : s.calls[i]? = some (request, phase)) (htoken : request.presented = some token) :
    ∃ row ∈ s.data.rows, row.tokenHash = token :=
  (h.presented i request phase token hcall htoken).written h

variable (ttl) in
theorem exists_kept_step (hrow : row ∈ s.data.rows) (a : Sessions.Action) :
    ∃ row' ∈ ((service ttl).step s a).data.rows, Kept row row' := by
  obtain hsame | ⟨_, _, -, -, hstep⟩ | ⟨i, input, request, phase, -, -, hstep⟩ :=
    Calls.System.step_cases (service ttl) s a
  · exact ⟨row, by rw [hsame]; exact hrow, Kept.refl row⟩
  · exact ⟨row, by rw [hstep]; exact hrow, Kept.refl row⟩
  · rw [hstep]
    exact exists_kept hrow

theorem row_step (hrow : row' ∈ ((service ttl).step s a).data.rows) :
    (∃ row ∈ s.data.rows, Kept row row') ∨ row'.tokenHash = s.data.next := by
  obtain hsame | ⟨_, _, -, -, hstep⟩ | ⟨i, input, request, phase, -, -, hstep⟩ :=
    Calls.System.step_cases (service ttl) s a
  · rw [hsame] at hrow
    exact .inl ⟨row', hrow, Kept.refl row'⟩
  · rw [hstep] at hrow
    exact .inl ⟨row', hrow, Kept.refl row'⟩
  · rw [hstep] at hrow
    obtain hold | ⟨userId, familyId, rfl, -⟩ := row_cases hrow
    · exact .inl hold
    · exact .inr rfl

theorem Orderly.row_presented (h : Orderly s) {i : ℕ} (hcall : s.calls[i]? = some (request, phase))
    (htoken : request.presented = some token) (hrow : row' ∈ ((service ttl).step s a).data.rows)
    (hhash : row'.tokenHash = token) : ∃ row ∈ s.data.rows, Kept row row' := by
  obtain hold | hnew := row_step hrow
  · exact hold
  · obtain ⟨row, hmem, rfl⟩ := h.written_presented hcall htoken
    exact absurd (hnew.symm.trans hhash) (h.fresh row hmem).1.ne'

theorem Orderly.lt_next (h : Orderly s) {i : ℕ} (hcall : s.calls[i]? = some (request, phase))
    (htoken : phase.minted = some token) : token < s.data.next := by
  obtain ⟨row, hrow, rfl⟩ := (h.held i request phase hcall).minted htoken
  exact (h.fresh row hrow).1

variable (ttl now) in
theorem Orderly.rows_statement (h : Orderly s) {i : ℕ}
    (hcall : s.calls[i]? = some (request, phase)) :
    ((statement ttl now s.data phase).1.rows.map (·.tokenHash)).Nodup ∧
      (∀ row ∈ (statement ttl now s.data phase).1.rows,
        row.tokenHash < (statement ttl now s.data phase).1.next ∧
          row.familyId < (statement ttl now s.data phase).1.next) ∧
      ∀ row ∈ (statement ttl now s.data phase).1.rows,
        ∀ row' ∈ (statement ttl now s.data phase).1.rows, row.familyId = row'.familyId →
          row.userId = row'.userId := by
  obtain ⟨hnext, change, hkept, hrows⟩ | ⟨userId, familyId, htable, hnew⟩ :=
    statement_rows ttl now s.data phase
  · rw [hnext, hrows, List.map_map]
    refine ⟨?_, fun row hrow => ?_, fun row hrow row' hrow' hfamily => ?_⟩
    · have hsame : (fun row => row.tokenHash) ∘ change = fun row => row.tokenHash :=
        funext fun row => (hkept row).tokenHash
      rw [hsame]
      exact h.hashes
    · obtain ⟨old, hold, rfl⟩ := List.mem_map.1 hrow
      rw [(hkept old).tokenHash, (hkept old).familyId]
      exact h.fresh old hold
    · obtain ⟨old, hold, rfl⟩ := List.mem_map.1 hrow
      obtain ⟨old', hold', rfl⟩ := List.mem_map.1 hrow'
      rw [(hkept old).familyId, (hkept old').familyId] at hfamily
      rw [(hkept old).userId, (hkept old').userId]
      exact h.users old hold old' hold' hfamily
  · rw [htable]
    dsimp only
    -- The family of the new row is that of a row of the same user, or new.
    have hfamily : familyId ≤ s.data.next ∧
        ∀ row ∈ s.data.rows, row.familyId = familyId → row.userId = userId := by
      obtain ⟨current, rfl, rfl, rfl⟩ | ⟨rfl, rfl⟩ := hnew
      · obtain ⟨-, known, hknown, hkept⟩ := h.held i request _ hcall
        have hlt := (h.fresh known hknown).2
        rw [hkept.familyId] at hlt
        refine ⟨hlt.le, fun row hrow hsame => ?_⟩
        rw [← hkept.userId]
        exact h.users row hrow known hknown (hsame.trans hkept.familyId.symm)
      · exact ⟨le_rfl, fun row hrow hsame => absurd hsame (h.fresh row hrow).2.ne⟩
    refine ⟨?_, fun row hrow => ?_, fun row hrow row' hrow' hsame => ?_⟩
    · rw [List.map_append, List.nodup_append']
      refine ⟨h.hashes, List.nodup_singleton _, ?_⟩
      rintro token htoken hnew'
      obtain ⟨row, hrow, rfl⟩ := List.mem_map.1 htoken
      exact (h.fresh row hrow).1.ne (List.mem_singleton.1 hnew')
    · obtain hrow | hrow := List.mem_append.1 hrow
      · exact ⟨(h.fresh row hrow).1.trans (Nat.lt_succ_self _),
          (h.fresh row hrow).2.trans (Nat.lt_succ_self _)⟩
      · obtain rfl := List.mem_singleton.1 hrow
        exact ⟨Nat.lt_succ_self _, Nat.lt_succ_of_le hfamily.1⟩
    · obtain hrow | hrow := List.mem_append.1 hrow
      · obtain hrow' | hrow' := List.mem_append.1 hrow'
        · exact h.users row hrow row' hrow' hsame
        · obtain rfl := List.mem_singleton.1 hrow'
          exact hfamily.2 row hrow hsame
      · obtain rfl := List.mem_singleton.1 hrow
        obtain hrow' | hrow' := List.mem_append.1 hrow'
        · exact (hfamily.2 row' hrow' hsame.symm).symm
        · obtain rfl := List.mem_singleton.1 hrow'
          rfl

theorem minted_step {i : ℕ} (hcall : ((service ttl).step s a).calls[i]? = some (request, phase))
    (htoken : phase.minted = some token) :
    (∃ phase', s.calls[i]? = some (request, phase') ∧ phase'.minted = some token) ∨
      token = s.data.next ∧ ∃ input, a = .advance i input := by
  obtain hold | ⟨-, -, henter⟩ | ⟨input, phase', rfl, hold, rfl⟩ := Calls.System.getElem?_step hcall
  · exact .inl ⟨phase, hold, htoken⟩
  · rw [minted_enter henter] at htoken
    simp at htoken
  · obtain hsame | hnew := minted_statement htoken
    · exact .inl ⟨phase', hold, hsame⟩
    · exact .inr ⟨hnew, input, rfl⟩

/-- **Every action leaves the service in order.** -/
theorem Orderly.step (h : Orderly s) (a : Sessions.Action) :
    Orderly ((service ttl).step s a) := by
  have hrows : ((((service ttl).step s a).data.rows.map (·.tokenHash)).Nodup ∧
      (∀ row ∈ ((service ttl).step s a).data.rows,
        row.tokenHash < ((service ttl).step s a).data.next ∧
          row.familyId < ((service ttl).step s a).data.next) ∧
      ∀ row ∈ ((service ttl).step s a).data.rows, ∀ row' ∈ ((service ttl).step s a).data.rows,
        row.familyId = row'.familyId → row.userId = row'.userId) := by
    obtain hsame | ⟨_, _, -, -, hstep⟩ | ⟨i, input, request, phase, -, hcall, hstep⟩ :=
      Calls.System.step_cases (service ttl) s a
    · rw [hsame]
      exact ⟨h.hashes, h.fresh, h.users⟩
    · rw [hstep]
      exact ⟨h.hashes, h.fresh, h.users⟩
    · rw [hstep]
      exact h.rows_statement ttl input hcall
  obtain ⟨hhashes, hfresh, husers⟩ := hrows
  refine ⟨hhashes, hfresh, husers, ?_, ?_, ?_⟩
  · refine Calls.System.forall_calls (K := Held) (fun request phase _ henter => held_enter henter)
      (fun i input request phase _ _ hheld => hheld.own)
      (fun i input request phase _ _ request' phase' hheld => hheld.statement) h.held
  · intro i j ri pi rj pj token hi hj hti htj
    obtain ⟨pi', hi', hti'⟩ | ⟨rfl, input, rfl⟩ := minted_step hi hti
    · obtain ⟨pj', hj', htj'⟩ | ⟨rfl, input, rfl⟩ := minted_step hj htj
      · exact h.once i j ri pi' rj pj' token hi' hj' hti' htj'
      · exact absurd rfl (h.lt_next hi' hti').ne
    · obtain ⟨pj', hj', htj'⟩ | ⟨-, input', heq⟩ := minted_step hj htj
      · exact absurd rfl (h.lt_next hj' htj').ne
      · exact (Calls.Action.advance.inj heq).1
  · intro i request phase token hcall htoken
    obtain hold | ⟨-, -, henter⟩ | ⟨input, phase', -, hold, -⟩ := Calls.System.getElem?_step hcall
    · exact (h.presented i request phase token hold htoken).step a
    · exact (handed_of_enter henter htoken).step a
    · exact (h.presented i request phase' token hold htoken).step a

/-! ## Runs -/

variable (ttl) in
theorem exists_kept_run (hrow : row ∈ s.data.rows) (actions : List Sessions.Action) :
    ∃ row' ∈ (Runs.run (service ttl).step s actions).data.rows, Kept row row' := by
  refine Runs.invariant_of_forall (I := fun s' : Sessions => ∃ row' ∈ s'.data.rows, Kept row row')
    (fun s' a h => ?_) ⟨row, hrow, Kept.refl row⟩ actions
  obtain ⟨row', hrow', hkept⟩ := h
  obtain ⟨row'', hrow'', hkept'⟩ := exists_kept_step ttl hrow' a
  exact ⟨row'', hrow'', hkept.trans hkept'⟩

theorem Orderly.run (h : Orderly s) (actions : List Sessions.Action) :
    Orderly (Runs.run (service ttl).step s actions) :=
  Runs.invariant_of_forall (fun _ a h => h.step a) h actions

end Optionia.Auth
