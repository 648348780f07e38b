import Mathlib.Data.List.Nodup
import Optionia.Auth.Links
/-!
# Single use

A row that is consumed stays consumed, and a call holds a copy of a row that
is there (`Sound`). Where calls keep out of each other's way, what a
redemption has read stays unconsumed until it saves it, and a user has one
outstanding link or one issue about to insert one (`Guarded`): links are
single use and superseded (`singleUse_of_careful`). Where two redemptions read
one row, both succeed (`redeemed_twice`).
-/

namespace Optionia.Auth.Links

open Runs

/-! ## Rows -/

/-- A row as it was, or consumed since. -/
structure Kept (row row' : LinkToken) : Prop where
  kind : row'.kind = row.kind
  id : row'.id = row.id
  userId : row'.userId = row.userId
  tokenHash : row'.tokenHash = row.tokenHash
  consumed : row'.consumedAt = none → row.consumedAt = none

theorem Kept.refl (row : LinkToken) : Kept row row := ⟨rfl, rfl, rfl, rfl, fun hnone => hnone⟩

theorem Kept.trans {a b c : LinkToken} (h : Kept a b) (h' : Kept b c) : Kept a c :=
  ⟨h'.kind.trans h.kind, h'.id.trans h.id, h'.userId.trans h.userId,
    h'.tokenHash.trans h.tokenHash, fun hnone => h.consumed (h'.consumed hnone)⟩

variable {now : ℤ} {tables : Tables} {phase : Phase} {s : State} {row row' : LinkToken}

/-- Which rows a statement consumes depends on what is kept of them. -/
theorem Kept.consumes (h : Kept row row') : phase.consumes row' = phase.consumes row := by
  cases phase with
  | consuming kind userId => simp only [Phase.consumes, h.kind, h.userId]
  | saving redeemer current => simp only [Phase.consumes, sameRow, h.kind, h.id]
  | closing current => simp only [Phase.consumes, h.kind, h.userId]
  | revoking userId => simp only [Phase.consumes, h.kind, h.userId]
  | _ => rfl

variable {rows : List LinkToken} {request request' : Request} {input : ℤ} {link : LinkToken}

/-- **What consuming does**: to a row that fits, and to no other. -/
theorem mem_consume {fits : LinkToken → Bool} (h : row' ∈ consume rows fits now) :
    ∃ row ∈ rows, Kept row row' ∧ (fits row = true → row'.consumedAt ≠ none) ∧
      (fits row = false → row' = row) := by
  obtain ⟨row, hrow, rfl⟩ := List.mem_map.1 h
  refine ⟨row, hrow, ?_⟩
  by_cases hfits : fits row = true
  · rw [if_pos hfits]
    exact ⟨⟨rfl, rfl, rfl, rfl, fun hnone => absurd hnone (Option.some_ne_none now)⟩,
      fun _ => Option.some_ne_none now, fun hnot => absurd (hfits.symm.trans hnot) (by simp)⟩
  · rw [if_neg hfits]
    exact ⟨Kept.refl row, fun hfits' => absurd hfits' hfits, fun _ => rfl⟩

theorem exists_mem_consume (fits : LinkToken → Bool) (hrow : row ∈ rows) :
    ∃ row' ∈ consume rows fits now, Kept row row' := by
  refine ⟨_, List.mem_map_of_mem hrow, ?_⟩
  by_cases hfits : fits row = true
  · rw [if_pos hfits]
    exact ⟨rfl, rfl, rfl, rfl, fun hnone => absurd hnone (Option.some_ne_none now)⟩
  · rw [if_neg hfits]
    exact Kept.refl row

theorem ids_consume (rows : List LinkToken) (fits : LinkToken → Bool) :
    (consume rows fits now).map (·.id) = rows.map (·.id) := by
  rw [consume, List.map_map]
  refine List.map_congr_left fun row _ => ?_
  rw [Function.comp_apply]
  split_ifs
  · rfl
  · rfl

/-- **What a statement does to the rows**: it consumes some, or inserts one. -/
theorem statement_rows (now : ℤ) (tables : Tables) (phase : Phase) :
    ((statement now tables phase).1.next = tables.next ∧
        ∃ fits, (statement now tables phase).1.rows = consume tables.rows fits now ∧
          (∀ row, fits row = true → phase.consumes row = true) ∧
            ∀ row, phase.consumes row = true → row.consumedAt = none → fits row = true) ∨
      ∃ kind userId, phase = .inserting kind userId ∧ (statement now tables phase).1 =
        ⟨tables.rows ++ [linkRow tables.next kind userId now], tables.next + 1⟩ := by
  have hnothing : tables.rows = consume tables.rows (fun _ => false) now :=
    (List.map_id' tables.rows).symm
  have hsame : (statement now tables phase).1 = tables → (∀ row, phase.consumes row = false) →
      ((statement now tables phase).1.next = tables.next ∧
        ∃ fits, (statement now tables phase).1.rows = consume tables.rows fits now ∧
          (∀ row, fits row = true → phase.consumes row = true) ∧
            ∀ row, phase.consumes row = true → row.consumedAt = none → fits row = true) := by
    intro htables hnone
    rw [htables]
    exact ⟨rfl, fun _ => false, hnothing, fun _ hfits => absurd hfits Bool.false_ne_true,
      fun row hconsumes => absurd ((hnone row).symm.trans hconsumes) Bool.false_ne_true⟩
  cases phase with
  | consuming kind userId =>
    refine .inl ⟨rfl, _, rfl, fun row hfits => ?_, fun row hconsumes hnone => ?_⟩
    · obtain ⟨hkind, huser, -⟩ := of_decide_eq_true (by exact hfits)
      exact decide_eq_true ⟨hkind, huser⟩
    · obtain ⟨hkind, huser⟩ := of_decide_eq_true (by exact hconsumes)
      exact decide_eq_true ⟨hkind, huser, hnone⟩
  | inserting kind userId => exact .inr ⟨kind, userId, rfl, rfl⟩
  | looking redeemer presented =>
    refine .inl (hsame ?_ fun _ => rfl)
    unfold statement
    dsimp only
    split
    · rfl
    · split
      · rfl
      · rfl
  | saving redeemer current =>
    exact .inl ⟨rfl, _, rfl, fun row hfits => hfits, fun row hconsumes _ => hconsumes⟩
  | closing current =>
    refine .inl ⟨rfl, _, rfl, fun row hfits => ?_, fun row hconsumes hnone => ?_⟩
    · obtain ⟨hkind, huser, -⟩ := of_decide_eq_true (by exact hfits)
      exact decide_eq_true ⟨hkind, huser⟩
    · obtain ⟨hkind, huser⟩ := of_decide_eq_true (by exact hconsumes)
      exact decide_eq_true ⟨hkind, huser, hnone⟩
  | revoking userId =>
    refine .inl ⟨rfl, _, rfl, fun row hfits => ?_, fun row hconsumes hnone => ?_⟩
    · obtain ⟨hkind, huser, -⟩ := of_decide_eq_true (by exact hfits)
      exact decide_eq_true ⟨hkind, huser⟩
    · obtain ⟨hkind, huser⟩ := of_decide_eq_true (by exact hconsumes)
      exact decide_eq_true ⟨hkind, huser, hnone⟩
  | issued token => exact .inl (hsame rfl fun _ => rfl)
  | refused failure => exact .inl (hsame rfl fun _ => rfl)
  | redeemed row => exact .inl (hsame rfl fun _ => rfl)
  | changed row => exact .inl (hsame rfl fun _ => rfl)
  | revoked => exact .inl (hsame rfl fun _ => rfl)

/-- A row was there, and is consumed by the statement or was as it is; or it is
inserted. -/
theorem row_cases (hrow' : row' ∈ (statement now tables phase).1.rows) :
    (∃ row ∈ tables.rows, Kept row row' ∧ (phase.consumes row = true → row'.consumedAt ≠ none) ∧
        (phase.consumes row = false → row' = row)) ∨
      ∃ kind userId, phase = .inserting kind userId ∧
        row' = linkRow tables.next kind userId now := by
  obtain ⟨-, fits, hrows, hfits, hconsumes⟩ | ⟨kind, userId, rfl, htables⟩ :=
    statement_rows now tables phase
  · rw [hrows] at hrow'
    obtain ⟨row, hrow, hkept, hdone, hsame⟩ := mem_consume hrow'
    refine .inl ⟨row, hrow, hkept, fun hof hnone => ?_, fun hof => hsame ?_⟩
    · exact hdone (hconsumes row hof (hkept.consumed hnone)) hnone
    · by_contra hnot
      exact absurd (hof.symm.trans (hfits row ((Bool.not_eq_false _).mp hnot)))
        Bool.false_ne_true
  · rw [htables] at hrow'
    obtain hmem | hmem := List.mem_append.1 hrow'
    · exact .inl ⟨row', hmem, Kept.refl row', fun hof => absurd hof Bool.false_ne_true,
        fun _ => rfl⟩
    · exact .inr ⟨kind, userId, rfl, List.mem_singleton.1 hmem⟩

theorem exists_kept (hrow : row ∈ tables.rows) :
    ∃ row' ∈ (statement now tables phase).1.rows, Kept row row' := by
  obtain ⟨-, fits, hrows, -⟩ | ⟨kind, userId, rfl, htables⟩ := statement_rows now tables phase
  · rw [hrows]
    exact exists_mem_consume fits hrow
  · exact ⟨row, by rw [htables]; exact List.mem_append_left _ hrow, Kept.refl row⟩

/-! ## What a statement leads to -/

/-- The copy of a row that a call holds. -/
def Phase.copy : Phase → Option LinkToken
  | .saving _ row | .redeemed row | .closing row | .changed row => some row
  | _ => none

theorem copy_of_reading (h : phase.reading = some row) : phase.copy = some row := by
  cases phase with
  | saving redeemer current => exact h
  | _ => exact absurd h.symm (Option.some_ne_none row)

theorem copy_of_spent (h : phase.spent = some row) : phase.copy = some row := by
  cases phase with
  | redeemed current => exact h
  | closing current => exact h
  | changed current => exact h
  | _ => exact absurd h.symm (Option.some_ne_none row)

theorem spent_done (redeemer : Redeemer) (row : LinkToken) :
    (redeemer.done row).spent = some row ∧ (redeemer.done row).reading = none ∧
      (redeemer.done row).writes = none := by
  cases redeemer with
  | verification => exact ⟨rfl, rfl, rfl⟩
  | reset => exact ⟨rfl, rfl, rfl⟩
  | password => exact ⟨rfl, rfl, rfl⟩

theorem looking_statement (now : ℤ) (tables : Tables) (redeemer : Redeemer) (presented : ℕ) :
    (∃ failure, statement now tables (.looking redeemer presented) = (tables, .refused failure)) ∨
      ∃ row ∈ tables.rows, row.consumedAt = none ∧
        statement now tables (.looking redeemer presented) = (tables, .saving redeemer row) := by
  unfold statement
  dsimp only
  split
  · exact .inl ⟨_, rfl⟩
  · next row hfound =>
    split
    · exact .inl ⟨_, rfl⟩
    · next hnone =>
      refine .inr ⟨row, List.mem_of_find?_eq_some hfound, ?_, rfl⟩
      by_contra hconsumed
      unfold failureFor at hnone
      rw [if_pos hconsumed] at hnone
      exact Option.some_ne_none _ hnone

/-- **What a redemption reads** is there, and is not consumed. -/
theorem reading_statement (h : (statement now tables phase).2.reading = some row) :
    row ∈ tables.rows ∧ row.consumedAt = none ∧ (statement now tables phase).1 = tables := by
  cases phase with
  | looking redeemer presented =>
    obtain ⟨failure, heq⟩ | ⟨found, hfound, hnone, heq⟩ :=
      looking_statement now tables redeemer presented
    · rw [heq] at h
      exact absurd h.symm (Option.some_ne_none row)
    · rw [heq] at h ⊢
      obtain rfl := Option.some.inj h
      exact ⟨hfound, hnone, rfl⟩
  | saving redeemer current =>
    exact absurd (h.symm.trans (spent_done redeemer current).2.1) (Option.some_ne_none row)
  | _ => exact absurd h.symm (Option.some_ne_none row)

/-- **A redemption succeeds by saving the row it has read.** -/
theorem spent_statement (h : (statement now tables phase).2.spent = some row) :
    phase.spent = some row ∨ phase.reading = some row ∧ phase.consumes row = true := by
  cases phase with
  | looking redeemer presented =>
    obtain ⟨failure, heq⟩ | ⟨found, -, -, heq⟩ := looking_statement now tables redeemer presented
    · rw [heq] at h
      exact absurd h.symm (Option.some_ne_none row)
    · rw [heq] at h
      exact absurd h.symm (Option.some_ne_none row)
  | saving redeemer current =>
    obtain rfl := Option.some.inj ((spent_done redeemer current).1.symm.trans h)
    exact .inr ⟨rfl, decide_eq_true ⟨rfl, rfl⟩⟩
  | redeemed current => exact .inl h
  | closing current => exact .inl h
  | changed current => exact .inl h
  | _ => exact absurd h.symm (Option.some_ne_none row)

theorem copy_statement (h : (statement now tables phase).2.copy = some row) :
    phase.copy = some row ∨ row ∈ tables.rows := by
  cases phase with
  | looking redeemer presented =>
    obtain ⟨failure, heq⟩ | ⟨found, hfound, -, heq⟩ :=
      looking_statement now tables redeemer presented
    · rw [heq] at h
      exact absurd h.symm (Option.some_ne_none row)
    · rw [heq] at h
      obtain rfl := Option.some.inj h
      exact .inr hfound
  | saving redeemer current =>
    have hcopy := copy_of_spent (spent_done redeemer current).1
    exact .inl (hcopy.symm.trans h)
  | redeemed current => exact .inl h
  | closing current => exact .inl h
  | changed current => exact .inl h
  | _ => exact absurd h.symm (Option.some_ne_none row)

theorem writes_statement {slot : Kind × String}
    (h : (statement now tables phase).2.writes = some slot) : phase.clears = some slot := by
  cases phase with
  | consuming kind userId => exact h
  | looking redeemer presented =>
    obtain ⟨failure, heq⟩ | ⟨found, -, -, heq⟩ := looking_statement now tables redeemer presented
    · rw [heq] at h
      exact absurd h.symm (Option.some_ne_none slot)
    · rw [heq] at h
      exact absurd h.symm (Option.some_ne_none slot)
  | saving redeemer current =>
    exact absurd (h.symm.trans (spent_done redeemer current).2.2) (Option.some_ne_none slot)
  | _ => exact absurd h.symm (Option.some_ne_none slot)

theorem copy_enter (request : Request) :
    (enter request).copy = none ∧ (enter request).writes = none := by
  cases request with
  | issueVerification userId => exact ⟨rfl, rfl⟩
  | redeemVerification presented => exact ⟨rfl, rfl⟩
  | issueReset userId => exact ⟨rfl, rfl⟩
  | redeemReset presented => exact ⟨rfl, rfl⟩
  | revokeResets userId => exact ⟨rfl, rfl⟩
  | resetPassword presented => exact ⟨rfl, rfl⟩

/-! ## What every call leaves -/

/-- **Rows are kept apart, and calls hold copies of them.** -/
structure Sound (s : State) : Prop where
  ids : (s.data.rows.map (·.id)).Nodup
  /-- A row's token is its key, and what is given out next is new. -/
  keys : ∀ row ∈ s.data.rows, row.tokenHash = row.id ∧ row.id < s.data.next
  /-- A call holds a copy of a row that is there. -/
  held : ∀ (i : ℕ) request phase, s.calls[i]? = some (request, phase) → ∀ row ∈ phase.copy,
    ∃ row' ∈ s.data.rows, Kept row row'

theorem sound_start : Sound State.start where
  ids := List.nodup_nil
  keys := fun _ hrow => absurd hrow List.not_mem_nil
  held := fun _ _ _ h => absurd h.symm (Option.some_ne_none _)

theorem Sound.eq_of_id (h : Sound s) (hrow : row ∈ s.data.rows) (hrow' : row' ∈ s.data.rows)
    (heq : row.id = row'.id) : row = row' :=
  List.inj_on_of_nodup_map h.ids hrow hrow' heq

theorem Sound.statement (h : Sound s) (now : ℤ) (phase : Phase) :
    ((Links.statement now s.data phase).1.rows.map (·.id)).Nodup ∧
      ∀ row ∈ (Links.statement now s.data phase).1.rows,
        row.tokenHash = row.id ∧ row.id < (Links.statement now s.data phase).1.next := by
  obtain ⟨hnext, fits, hrows, -⟩ | ⟨kind, userId, -, htables⟩ := statement_rows now s.data phase
  · rw [hrows, hnext, ids_consume]
    refine ⟨h.ids, fun row' hrow' => ?_⟩
    obtain ⟨row, hrow, hkept, -⟩ := mem_consume hrow'
    rw [hkept.tokenHash, hkept.id]
    exact h.keys row hrow
  · rw [htables]
    dsimp only
    refine ⟨?_, fun row hrow => ?_⟩
    · rw [List.map_append, List.nodup_append']
      refine ⟨h.ids, List.nodup_singleton _, ?_⟩
      rintro id hid hnew
      obtain ⟨row, hrow, rfl⟩ := List.mem_map.1 hid
      exact (h.keys row hrow).2.ne (List.mem_singleton.1 hnew)
    · obtain hrow | hrow := List.mem_append.1 hrow
      · exact ⟨(h.keys row hrow).1, (h.keys row hrow).2.trans (Nat.lt_succ_self _)⟩
      · obtain rfl := List.mem_singleton.1 hrow
        exact ⟨rfl, Nat.lt_succ_self _⟩

theorem Sound.step (h : Sound s) (a : Action) : Sound (service.step s a) := by
  have hrows : ((service.step s a).data.rows.map (·.id)).Nodup ∧
      ∀ row ∈ (service.step s a).data.rows,
        row.tokenHash = row.id ∧ row.id < (service.step s a).data.next := by
    obtain hsame | ⟨_, _, -, -, hstep⟩ | ⟨i, input, request, phase, -, -, hstep⟩ :=
      Calls.System.step_cases service s a
    · rw [hsame]
      exact ⟨h.ids, h.keys⟩
    · rw [hstep]
      exact ⟨h.ids, h.keys⟩
    · rw [hstep]
      exact h.statement input phase
  have hothers : ∀ (now : ℤ) (tables : Tables) (other phase : Phase),
      (∀ row ∈ phase.copy, ∃ row' ∈ tables.rows, Kept row row') →
        ∀ row ∈ phase.copy, ∃ row' ∈ (Links.statement now tables other).1.rows, Kept row row' := by
    intro now tables other phase hheld row hcopy
    obtain ⟨row', hrow', hkept⟩ := hheld row hcopy
    obtain ⟨row'', hrow'', hkept'⟩ := exists_kept hrow'
    exact ⟨row'', hrow'', hkept.trans hkept'⟩
  refine ⟨hrows.1, hrows.2, ?_⟩
  refine Calls.System.forall_calls
    (K := fun (tables : Tables) (_ : Request) (phase : Phase) =>
      ∀ row ∈ phase.copy, ∃ row' ∈ tables.rows, Kept row row')
    (fun request phase _ henter row hcopy => ?_) (fun i input request phase _ _ hheld row hcopy => ?_)
    (fun i input request phase _ _ request' phase' hheld => ?_) h.held
  · obtain rfl : enter request = phase := Option.some.inj henter
    exact absurd (hcopy.symm.trans (copy_enter request).1) (Option.some_ne_none row)
  · obtain hcopy' | hrow := copy_statement hcopy
    · exact hothers input _ phase phase hheld row hcopy'
    · exact exists_kept hrow
  · exact hothers input _ phase phase' hheld

/-- The rows with the key of a call's copy, after a statement: the row that
was there, consumed by it or as it was. -/
theorem Sound.row_of_copy (h : Sound s) {i : ℕ} {held other : Phase}
    (hcall : s.calls[i]? = some (request, held)) (hcopy : held.copy = some row)
    (hrow' : row' ∈ (Links.statement now s.data other).1.rows) (hid : row'.id = row.id) :
    ∃ old ∈ s.data.rows, old.id = row.id ∧ Kept old row' ∧
      (other.consumes row = true → row'.consumedAt ≠ none) ∧
        (other.consumes row = false → row' = old) := by
  obtain ⟨known, hknown, hkept⟩ := h.held i request held hcall row hcopy
  obtain ⟨old, hold, hkept', hconsumed, hsame⟩ | ⟨kind, userId, -, rfl⟩ := row_cases hrow'
  · have hof : old.id = row.id := hkept'.id.symm.trans hid
    obtain rfl := h.eq_of_id hold hknown (hof.trans hkept.id.symm)
    rw [hkept.consumes] at hconsumed hsame
    exact ⟨old, hold, hof, hkept', hconsumed, hsame⟩
  · exact absurd (hid.trans hkept.id.symm) (h.keys known hknown).2.ne'

/-! ## What careful calls keep -/

/-- **What a redemption has read is unconsumed until it saves it**, and a user
has one outstanding link or one issue about to insert one. -/
structure Guarded (s : State) : Prop where
  reading : ∀ (i : ℕ) request phase row, s.calls[i]? = some (request, phase) →
    phase.reading = some row → ∀ row' ∈ s.data.rows, row'.id = row.id → row'.consumedAt = none
  spent : ∀ (i : ℕ) request phase row, s.calls[i]? = some (request, phase) →
    phase.spent = some row → ∀ row' ∈ s.data.rows, row'.id = row.id → row'.consumedAt ≠ none
  winner : ∀ (i j : ℕ) ri pi rj pj row row', s.calls[i]? = some (ri, pi) →
    s.calls[j]? = some (rj, pj) → pi.spent = some row → pj.spent = some row' → row.id = row'.id →
      i = j
  one : ∀ row ∈ s.data.rows, ∀ row' ∈ s.data.rows, row.kind = row'.kind →
    row.userId = row'.userId → row.consumedAt = none → row'.consumedAt = none → row = row'
  writer : ∀ (i j : ℕ) ri pi rj pj slot, s.calls[i]? = some (ri, pi) →
    s.calls[j]? = some (rj, pj) → pi.writes = some slot → pj.writes = some slot → i = j
  /-- And while there is one, no link is outstanding. -/
  apart : ∀ (i : ℕ) request phase kind userId, s.calls[i]? = some (request, phase) →
    phase.writes = some (kind, userId) → ∀ row ∈ s.data.rows, row.kind = kind →
      row.userId = userId → row.consumedAt ≠ none

theorem guarded_start : Guarded State.start where
  reading := fun _ _ _ _ h => absurd h.symm (Option.some_ne_none _)
  spent := fun _ _ _ _ h => absurd h.symm (Option.some_ne_none _)
  winner := fun _ _ _ _ _ _ _ _ h => absurd h.symm (Option.some_ne_none _)
  one := fun _ hrow => absurd hrow List.not_mem_nil
  writer := fun _ _ _ _ _ _ _ h => absurd h.symm (Option.some_ne_none _)
  apart := fun _ _ _ _ _ h => absurd h.symm (Option.some_ne_none _)

theorem call_cases {i k : ℕ} {phase' : Phase} (hcall : s.calls[i]? = some (request, phase))
    (hcall' : (s.calls.set i (request, (statement input s.data phase).2))[k]? =
      some (request', phase')) : (k ≠ i ∧ s.calls[k]? = some (request', phase')) ∨
      k = i ∧ phase' = (statement input s.data phase).2 := by
  by_cases hk : k = i
  · subst hk
    rw [Calls.System.getElem?_set_self hcall] at hcall'
    exact .inr ⟨rfl, (Prod.mk.inj (Option.some.inj hcall')).2.symm⟩
  · rw [List.getElem?_set_ne (Ne.symm hk)] at hcall'
    exact .inl ⟨hk, hcall'⟩

theorem Careful.other {i k : ℕ} {phase' : Phase} (hok : Careful s (.advance i input))
    (hcall : s.calls[i]? = some (request, phase)) (hk : k ≠ i)
    (hcall' : s.calls[k]? = some (request', phase')) :
    (∀ row, phase'.reading = some row → phase.consumes row = false) ∧
      ∀ slot, phase.clears = some slot → phase'.writes ≠ some slot :=
  hok _ hcall _ (List.mem_eraseIdx_iff_getElem?.2 ⟨k, hk, hcall'⟩)

theorem consumed_of_clears {kind : Kind} {userId : String}
    (hclears : phase.clears = some (kind, userId))
    (hrow' : row' ∈ (statement now tables phase).1.rows) (hkind : row'.kind = kind)
    (huser : row'.userId = userId) : row'.consumedAt ≠ none := by
  cases phase with
  | consuming kind' userId' =>
    obtain ⟨rfl, rfl⟩ := Prod.mk.inj (Option.some.inj hclears)
    obtain ⟨row, -, hkept, hconsumed, -⟩ | ⟨_, _, heq, -⟩ := row_cases hrow'
    · exact hconsumed (decide_eq_true
        ⟨hkept.kind.symm.trans hkind, hkept.userId.symm.trans huser⟩)
    · simp at heq
  | _ => exact absurd hclears.symm (Option.some_ne_none _)

/-- **A statement of a careful call keeps it so.** -/
theorem Guarded.statement (h : Guarded s) (hsound : Sound s) {i : ℕ}
    (hcall : s.calls[i]? = some (request, phase)) (hok : Careful s (.advance i input)) :
    Guarded { data := (Links.statement input s.data phase).1
              calls := s.calls.set i (request, (Links.statement input s.data phase).2) } where
  reading := by
    intro k request' phase' row hcall' hreading row' hrow' hid
    obtain ⟨hk, hold⟩ | ⟨rfl, rfl⟩ := call_cases hcall hcall'
    · obtain ⟨old, hmem, hof, -, -, hsame⟩ :=
        hsound.row_of_copy hold (copy_of_reading hreading) hrow' hid
      rw [hsame ((hok.other hcall hk hold).1 row hreading)]
      exact h.reading k request' phase' row hold hreading old hmem hof
    · obtain ⟨hrow, hnone, htables⟩ := reading_statement hreading
      rw [htables] at hrow'
      rw [hsound.eq_of_id hrow' hrow hid]
      exact hnone
  spent := by
    intro k request' phase' row hcall' hspent row' hrow' hid
    have hstays : ∀ request' held, s.calls[k]? = some (request', held) →
        held.spent = some row → row'.consumedAt ≠ none := by
      intro request' held hold hspent hnone
      obtain ⟨old, hmem, hof, hkept, -⟩ :=
        hsound.row_of_copy hold (copy_of_spent hspent) hrow' hid
      exact h.spent k request' held row hold hspent old hmem hof (hkept.consumed hnone)
    obtain ⟨hk, hold⟩ | ⟨rfl, rfl⟩ := call_cases hcall hcall'
    · exact hstays request' phase' hold hspent
    · obtain hspent | ⟨hreading, hconsumes⟩ := spent_statement hspent
      · exact hstays request phase hcall hspent
      · obtain ⟨old, -, -, -, hconsumed, -⟩ :=
          hsound.row_of_copy hcall (copy_of_reading hreading) hrow' hid
        exact hconsumed hconsumes
  winner := by
    -- Who redeems a row had read it unconsumed: nobody had redeemed it.
    have hnew : ∀ (k : ℕ) rk pk row row', s.calls[k]? = some (rk, pk) → pk.spent = some row' →
        phase.reading = some row → row.id ≠ row'.id := by
      intro k rk pk row row' hk hspent hreading hid
      obtain ⟨known, hknown, hkept⟩ :=
        hsound.held i request phase hcall row (copy_of_reading hreading)
      exact h.spent k rk pk row' hk hspent known hknown (hkept.id.trans hid)
        (h.reading i request phase row hcall hreading known hknown hkept.id)
    intro j k rj pj rk pk row row' hj hk hrow hrow' hid
    obtain ⟨hji, hj'⟩ | ⟨rfl, rfl⟩ := call_cases hcall hj
    · obtain ⟨hki, hk'⟩ | ⟨rfl, rfl⟩ := call_cases hcall hk
      · exact h.winner j k rj pj rk pk row row' hj' hk' hrow hrow' hid
      · obtain hspent | ⟨hreading, -⟩ := spent_statement hrow'
        · exact h.winner j k rj pj request phase row row' hj' hcall hrow hspent hid
        · exact absurd hid.symm (hnew j rj pj row' row hj' hrow hreading)
    · obtain ⟨hki, hk'⟩ | ⟨rfl, -⟩ := call_cases hcall hk
      · obtain hspent | ⟨hreading, -⟩ := spent_statement hrow
        · exact h.winner j k request phase rk pk row row' hcall hk' hspent hrow' hid
        · exact absurd hid (hnew k rk pk row row' hk' hrow' hreading)
      · rfl
  one := by
    intro row hrow row' hrow' hkind huser hnone hnone'
    have hinsert : ∀ kind userId, phase = .inserting kind userId → ∀ old ∈ s.data.rows,
        old.kind = kind → old.userId = userId → old.consumedAt ≠ none := by
      rintro kind userId rfl
      exact h.apart i request _ kind userId hcall rfl
    refine List.inj_on_of_nodup_map (hsound.statement input phase).1 hrow hrow' ?_
    obtain ⟨old, hold, hkept, -⟩ | ⟨kind, userId, hphase, rfl⟩ := row_cases hrow
    · obtain ⟨old', hold', hkept', -⟩ | ⟨kind, userId, hphase, rfl⟩ := row_cases hrow'
      · rw [hkept.id, hkept'.id, h.one old hold old' hold'
          (hkept.kind.symm.trans (hkind.trans hkept'.kind))
          (hkept.userId.symm.trans (huser.trans hkept'.userId)) (hkept.consumed hnone)
          (hkept'.consumed hnone')]
      · exact absurd (hkept.consumed hnone) (hinsert kind userId hphase old hold
          (hkept.kind.symm.trans hkind) (hkept.userId.symm.trans huser))
    · obtain ⟨old', hold', hkept', -⟩ | ⟨_, _, -, rfl⟩ := row_cases hrow'
      · exact absurd (hkept'.consumed hnone') (hinsert kind userId hphase old' hold'
          (hkept'.kind.symm.trans hkind.symm) (hkept'.userId.symm.trans huser.symm))
      · rfl
  writer := by
    intro j k rj pj rk pk slot hj hk hwj hwk
    obtain ⟨hji, hj'⟩ | ⟨rfl, rfl⟩ := call_cases hcall hj
    · obtain ⟨hki, hk'⟩ | ⟨rfl, rfl⟩ := call_cases hcall hk
      · exact h.writer j k rj pj rk pk slot hj' hk' hwj hwk
      · exact absurd hwj ((hok.other hcall hji hj').2 slot (writes_statement hwk))
    · obtain ⟨hki, hk'⟩ | ⟨rfl, -⟩ := call_cases hcall hk
      · exact absurd hwk ((hok.other hcall hki hk').2 slot (writes_statement hwj))
      · rfl
  apart := by
    intro k request' phase' kind userId hcall' hwrites row' hrow' hkind huser hnone
    obtain ⟨hk, hold⟩ | ⟨rfl, rfl⟩ := call_cases hcall hcall'
    · obtain ⟨row, hrow, hkept, -⟩ | ⟨_, _, rfl, rfl⟩ := row_cases hrow'
      · exact h.apart k request' phase' kind userId hold hwrites row hrow
          (hkept.kind.symm.trans hkind) (hkept.userId.symm.trans huser) (hkept.consumed hnone)
      · obtain rfl : _ = kind := hkind
        obtain rfl : _ = userId := huser
        exact hk (h.writer k i _ _ _ _ _ hold hcall hwrites rfl)
    · exact consumed_of_clears (writes_statement hwrites) hrow' hkind huser hnone

theorem Guarded.step {a : Action} (h : Guarded s) (hsound : Sound s) (hok : Careful s a) :
    Guarded (service.step s a) := by
  obtain hsame | ⟨request, phase, rfl, henter, hstep⟩ |
    ⟨i, input, request, phase, rfl, hcall, hstep⟩ := Calls.System.step_cases service s a
  · rw [hsame]
    exact h
  · obtain rfl : enter request = phase := Option.some.inj henter
    have hold : ∀ (k : ℕ) request' phase',
        (s.calls ++ [(request, enter request)])[k]? = some (request', phase') →
          s.calls[k]? = some (request', phase') ∨ phase' = enter request := by
      intro k request' phase' hcall
      obtain hk | hk := Nat.lt_or_ge k s.calls.length
      · rw [List.getElem?_append_left hk] at hcall
        exact .inl hcall
      · rw [List.getElem?_append_right hk] at hcall
        have hmem := List.mem_singleton.1 (List.mem_of_getElem? hcall)
        exact .inr (Prod.mk.inj hmem).2
    have hcopy : ∀ row, (enter request).copy ≠ some row := fun row hcopy =>
      absurd (hcopy.symm.trans (copy_enter request).1) (Option.some_ne_none row)
    have hwrites : ∀ slot, (enter request).writes ≠ some slot := fun slot hwrites =>
      absurd (hwrites.symm.trans (copy_enter request).2) (Option.some_ne_none slot)
    rw [hstep]
    exact
      { reading := fun k request' phase' row hcall hreading => by
          obtain hk | rfl := hold k request' phase' hcall
          · exact h.reading k request' phase' row hk hreading
          · exact absurd (copy_of_reading hreading) (hcopy row)
        spent := fun k request' phase' row hcall hspent => by
          obtain hk | rfl := hold k request' phase' hcall
          · exact h.spent k request' phase' row hk hspent
          · exact absurd (copy_of_spent hspent) (hcopy row)
        winner := fun j k rj pj rk pk row row' hj hk hsj hsk => by
          obtain hj' | rfl := hold j rj pj hj
          · obtain hk' | rfl := hold k rk pk hk
            · exact h.winner j k rj pj rk pk row row' hj' hk' hsj hsk
            · exact absurd (copy_of_spent hsk) (hcopy row')
          · exact absurd (copy_of_spent hsj) (hcopy row)
        one := h.one
        writer := fun j k rj pj rk pk slot hj hk hwj hwk => by
          obtain hj' | rfl := hold j rj pj hj
          · obtain hk' | rfl := hold k rk pk hk
            · exact h.writer j k rj pj rk pk slot hj' hk' hwj hwk
            · exact absurd hwk (hwrites slot)
          · exact absurd hwj (hwrites slot)
        apart := fun k request' phase' kind userId hcall hwk => by
          obtain hk | rfl := hold k request' phase' hcall
          · exact h.apart k request' phase' kind userId hk hwk
          · exact absurd hwk (hwrites (kind, userId)) }
  · rw [hstep]
    exact h.statement hsound hcall hok

/-! ## Runs -/

theorem Sound.id_of_spent (h : Sound s) {i : ℕ} (hcall : s.calls[i]? = some (request, phase))
    (hspent : phase.spent = some row) : row.id = row.tokenHash := by
  obtain ⟨known, hknown, hkept⟩ := h.held i request phase hcall row (copy_of_spent hspent)
  rw [← hkept.id, ← hkept.tokenHash, (h.keys known hknown).1]

/-- A link is there, and is consumed. -/
def Dead (link : LinkToken) (s : State) : Prop :=
  (∃ row ∈ s.data.rows, Kept link row) ∧
    ∀ row ∈ s.data.rows, row.id = link.id → row.consumedAt ≠ none

theorem exists_kept_step (hrow : row ∈ s.data.rows) (a : Action) :
    ∃ row' ∈ (service.step s a).data.rows, Kept row row' := by
  obtain hsame | ⟨_, _, -, -, hstep⟩ | ⟨i, input, request, phase, -, -, hstep⟩ :=
    Calls.System.step_cases service s a
  · exact ⟨row, by rw [hsame]; exact hrow, Kept.refl row⟩
  · exact ⟨row, by rw [hstep]; exact hrow, Kept.refl row⟩
  · rw [hstep]
    exact exists_kept hrow

theorem exists_kept_trans (h : ∃ row ∈ s.data.rows, Kept link row) (a : Action) :
    ∃ row ∈ (service.step s a).data.rows, Kept link row := by
  obtain ⟨row, hrow, hkept⟩ := h
  obtain ⟨row', hrow', hkept'⟩ := exists_kept_step hrow a
  exact ⟨row', hrow', hkept.trans hkept'⟩

theorem Dead.step (h : Dead link s) (hsound : Sound s) (a : Action) :
    Dead link (service.step s a) := by
  refine ⟨exists_kept_trans h.1 a, fun row' hrow' hid hnone => ?_⟩
  obtain hsame | ⟨_, _, -, -, hstep⟩ | ⟨i, input, request, phase, -, -, hstep⟩ :=
    Calls.System.step_cases service s a
  · rw [hsame] at hrow'
    exact h.2 row' hrow' hid hnone
  · rw [hstep] at hrow'
    exact h.2 row' hrow' hid hnone
  · rw [hstep] at hrow'
    obtain ⟨row, hrow, hkept, -⟩ | ⟨_, _, -, rfl⟩ := row_cases hrow'
    · exact h.2 row hrow (hkept.id.symm.trans hid) (hkept.consumed hnone)
    · obtain ⟨known, hknown, hkept⟩ := h.1
      exact (hsound.keys known hknown).2.ne (hkept.id.trans hid.symm)

/-- How `resetPassword` returns. -/
theorem changed_statement (h : (statement now tables phase).2 = .changed row) :
    phase = .changed row ∨ phase = .closing row := by
  cases phase with
  | changed current => exact .inl h
  | closing current => exact .inr (congrArg Phase.closing (Phase.changed.inj h))
  | looking redeemer presented =>
    obtain ⟨failure, heq⟩ | ⟨found, -, -, heq⟩ := looking_statement now tables redeemer presented
    · rw [heq] at h
      simp at h
    · rw [heq] at h
      simp at h
  | saving redeemer current =>
    cases redeemer with
    | verification => exact absurd h (by simp [statement, Redeemer.done])
    | reset => exact absurd h (by simp [statement, Redeemer.done])
    | password => exact absurd h (by simp [statement, Redeemer.done])
  | _ => exact absurd h (by simp [statement])

/-- **A password change consumes the user's reset links.** -/
theorem dead_of_changed {i : ℕ} {a : Action} (hsound : Sound s)
    (hlink : ∃ known ∈ s.data.rows, Kept link known) (hkind : link.kind = .reset)
    (huser : link.userId = row.userId) (hbefore : s.calls[i]? ≠ some (request, .changed row))
    (hafter : (service.step s a).calls[i]? = some (request, .changed row)) :
    Dead link (service.step s a) := by
  refine ⟨exists_kept_trans hlink a, fun row' hrow' hid => ?_⟩
  obtain ⟨known, hknown, hkept⟩ := hlink
  obtain hsame | ⟨-, -, henter⟩ | ⟨input, phase, rfl, hcall, hchanged⟩ :=
    Calls.System.getElem?_step hafter
  · exact absurd hsame hbefore
  · have heq : enter request = .changed row := Option.some.inj henter
    cases request with
    | _ => exact absurd heq (by simp [enter])
  · obtain rfl | rfl := changed_statement hchanged.symm
    · exact absurd hcall hbefore
    · rw [Calls.System.step, hcall] at hrow'
      obtain ⟨old, hold, hkept', hconsumed, -⟩ | ⟨_, _, heq, -⟩ :=
        row_cases hrow'
      · have hof : old.id = known.id := hkept'.id.symm.trans (hid.trans hkept.id.symm)
        obtain rfl := hsound.eq_of_id hold hknown hof
        exact hconsumed (decide_eq_true ⟨hkept.kind.trans hkind, hkept.userId.trans huser⟩)
      · simp at heq

/-- **Nobody redeems a link that is consumed.** -/
theorem Dead.not_redeemed {j : ℕ} (h : Dead link s) (hsound : Sound s) (hguarded : Guarded s)
    (hbefore : ¬ Redeemed s j link.tokenHash) (a : Action) :
    ¬ Redeemed (service.step s a) j link.tokenHash := by
  rintro ⟨request, phase, row, hcall, hspent, htoken⟩
  have hid := (hsound.step a).id_of_spent hcall hspent
  obtain hold | ⟨-, -, henter⟩ | ⟨input, phase', rfl, hold, rfl⟩ := Calls.System.getElem?_step hcall
  · exact hbefore ⟨request, phase, row, hold, hspent, htoken⟩
  · obtain rfl : enter request = phase := Option.some.inj henter
    exact Option.some_ne_none _ ((copy_of_spent hspent).symm.trans (copy_enter request).1)
  · obtain hspent' | ⟨hreading, -⟩ := spent_statement hspent
    · exact hbefore ⟨request, phase', row, hold, hspent', htoken⟩
    · obtain ⟨known, hknown, hkept⟩ :=
        hsound.held j request phase' hold row (copy_of_reading hreading)
      obtain ⟨⟨other, hother, hkept'⟩, hdead⟩ := h
      have hsame : known.id = link.id := by
        rw [hkept.id, hid, htoken, ← hkept'.tokenHash, (hsound.keys other hother).1, hkept'.id]
      exact hdead known hknown hsame
        (hguarded.reading j request phase' row hold hreading known hknown hkept.id)

/-- **Where calls keep out of each other's way**, links are single use and
superseded. -/
theorem singleUse_of_careful {actions : List Action}
    (h : Throughout service.step Careful State.start actions) : SingleUse actions := by
  have hkeeps : ∀ s a, Careful s a → Sound s ∧ Guarded s →
      Sound (service.step s a) ∧ Guarded (service.step s a) :=
    fun s a hok h => ⟨h.1.step a, h.2.step h.1 hok⟩
  have hall : ∀ before after, actions = before ++ after →
      Sound (served before) ∧ Guarded (served before) := by
    rintro before after rfl
    exact invariant hkeeps (h.of_prefix (List.prefix_append before after))
      ⟨sound_start, guarded_start⟩
  obtain ⟨hsound, hguarded⟩ := hall actions [] (List.append_nil actions).symm
  refine ⟨?_, ?_, ?_⟩
  · rintro i j token ⟨ri, pi, row, hi, hrow, htoken⟩ ⟨rj, pj, row', hj, hrow', htoken'⟩
    refine hguarded.winner i j ri pi rj pj row row' hi hj hrow hrow' ?_
    rw [hsound.id_of_spent hi hrow, hsound.id_of_spent hj hrow', htoken, htoken']
  · rintro userId - now row hrow row' hrow' ⟨hkind, huser, hopen⟩ ⟨hkind', huser', hopen'⟩
    have hnone : ∀ link : LinkToken, failureFor link now = none → link.consumedAt = none := by
      intro link hopen
      by_contra hconsumed
      rw [failureFor, if_pos hconsumed] at hopen
      exact Option.some_ne_none _ hopen
    exact hguarded.one row hrow row' hrow' (hkind.trans hkind'.symm) (huser.trans huser'.symm)
      (hnone row hopen) (hnone row' hopen')
  · rintro before middle after rfl i request row hchanged hbefore link hlink hkind huser j hnot
    obtain ⟨hrest, hafter⟩ := throughout_append.1 h
    obtain ⟨-, hmiddle⟩ := throughout_append.1 hrest
    have hstart := hall before (middle ++ after) (List.append_assoc ..)
    have hdead : Dead link (served (before ++ middle)) := by
      unfold served at hchanged ⊢
      rw [run_append] at hchanged ⊢
      exact established
        (I := fun s => (Sound s ∧ Guarded s) ∧ ∃ known ∈ s.data.rows, Kept link known)
        (P := fun s : State => s.calls[i]? = some (request, .changed row)) (Q := Dead link)
        (fun s a hok h => ⟨hkeeps s a hok h.1, exists_kept_trans h.2 a⟩)
        (fun s a _ h hnot hnow => dead_of_changed h.1.1 h.2 hkind huser hnot hnow)
        (fun s a _ h hdead => hdead.step h.1.1 a) hmiddle
        ⟨hstart, link, hlink, Kept.refl link⟩ hbefore hchanged
    have hend : (Sound (served (before ++ middle ++ after)) ∧
        Guarded (served (before ++ middle ++ after))) ∧
          Dead link (served (before ++ middle ++ after)) ∧
            ¬ Redeemed (served (before ++ middle ++ after)) j link.tokenHash := by
      unfold served
      rw [run_append]
      exact invariant
        (I := fun s => (Sound s ∧ Guarded s) ∧ Dead link s ∧ ¬ Redeemed s j link.tokenHash)
        (fun s a hok h => ⟨hkeeps s a hok h.1, h.2.1.step h.1.1 a,
          h.2.1.not_redeemed h.1.1 h.1.2 h.2.2 a⟩)
        hafter ⟨hall (before ++ middle) after rfl, hdead, hnot⟩
    exact hend.2.2

/-! ## A link that is redeemed twice -/

/-- A reset link is issued to Ann, and two redemptions read it before either
saves it. -/
def doubleClick : List Action :=
  [.start (.issueReset "ann"), .advance 0 0, .advance 0 0, .start (.resetPassword 0),
    .start (.resetPassword 0), .advance 1 1, .advance 2 1, .advance 1 2, .advance 2 2]

/-- **Both succeed.** -/
theorem redeemed_twice : ¬ ∀ actions, SingleUse actions := by
  intro h
  have hcalls : (served doubleClick).calls =
      [(.issueReset "ann", .issued 0), (.resetPassword 0, .closing (linkRow 0 .reset "ann" 0)),
        (.resetPassword 0, .closing (linkRow 0 .reset "ann" 0))] := by
    decide +kernel
  have htwice := (h doubleClick).once 1 2 0
    ⟨.resetPassword 0, .closing (linkRow 0 .reset "ann" 0), linkRow 0 .reset "ann" 0,
      by rw [hcalls]; rfl, rfl, rfl⟩
    ⟨.resetPassword 0, .closing (linkRow 0 .reset "ann" 0), linkRow 0 .reset "ann" 0,
      by rw [hcalls]; rfl, rfl, rfl⟩
  exact absurd htwice (by decide)

/-- One redemption after another. -/
theorem singleUse_of_twoClicks : SingleUse
    [.start (.issueReset "ann"), .advance 0 0, .advance 0 0, .start (.issueReset "ann"),
      .advance 1 1, .advance 1 1, .start (.resetPassword 1), .advance 2 2, .advance 2 2,
      .advance 2 2, .start (.resetPassword 1), .advance 3 3] :=
  singleUse_of_careful (by decide +kernel)

end Optionia.Auth.Links
