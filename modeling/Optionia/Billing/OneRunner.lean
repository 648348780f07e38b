import Optionia.Billing.Runners
/-!
# One runner at a time

Where an event is only taken up while no runner has it, the runners never
meet: each event has one at most, its row is unfinished and shows the count
its worker has (`Orderly`). So no handler runs twice at once, none starts on
an event that is processed, and workers give an event up in time exactly where
none of them dies with its last start (`worked_once`).
-/

namespace Optionia.Billing.Runners

open Runs

/-- The row of a job is unfinished, and shows its worker's count. -/
def Site.Unfinished (s : Site) (job : Job) : Prop :=
  ∃ row, s.rows.get? job.eventId = some row ∧ row.processedAt = none ∧
    ∀ n ∈ job.attempts, row.attempts = n ∧ row.deadAt = none

/-- **Runners do not meet.** -/
structure Orderly (s : Site) : Prop where
  alone : ∀ runner runner', ∀ job ∈ s.jobsOf runner, ∀ job' ∈ s.jobsOf runner',
    job.eventId = job'.eventId → runner = runner'
  once : ∀ runner, ((s.jobsOf runner).map Job.eventId).Nodup
  unfinished : ∀ runner, ∀ job ∈ s.jobsOf runner, s.Unfinished job
  counted : ∀ eventId row, s.rows.get? eventId = some row → s.starts eventId ≤ row.attempts
  ahead : ∀ runner, ∀ job ∈ s.waitingOf runner, ∀ n ∈ job.attempts, s.starts job.eventId < n
  /-- An event that is not there was never started. -/
  unwritten : ∀ eventId, s.rows.get? eventId = none → s.starts eventId = 0

theorem Phase.waiting_sublist (phase : Phase) : phase.waiting.Sublist phase.jobs := by
  cases phase with
  | duplicate => exact List.Sublist.refl _
  | ready => exact List.Sublist.refl _
  | working job rest => exact List.sublist_cons_self job rest
  | worked job error rest => exact List.sublist_cons_self job rest

theorem Site.waitingOf_sublist (s : Site) (runner : ℕ) :
    (s.waitingOf runner).Sublist (s.jobsOf runner) := by
  unfold Site.waitingOf Site.jobsOf
  cases s.runners runner with
  | none => exact List.Sublist.refl _
  | some phase => exact phase.waiting_sublist

theorem Site.jobsOf_of_runners {s s' : Site} {runner : ℕ}
    (h : s'.runners runner = s.runners runner) : s'.jobsOf runner = s.jobsOf runner := by
  rw [Site.jobsOf, h, ← Site.jobsOf]

theorem Site.waitingOf_of_runners {s s' : Site} {runner : ℕ}
    (h : s'.runners runner = s.runners runner) : s'.waitingOf runner = s.waitingOf runner := by
  rw [Site.waitingOf, h, ← Site.waitingOf]

/-- **One runner moves**: it takes up nothing that others have, and leaves the
rows and the starts of what they have alone. -/
theorem Orderly.of_runner {s s' : Site} (h : Orderly s) (runner : ℕ)
    (hothers : ∀ runner', runner' ≠ runner → s'.runners runner' = s.runners runner')
    (hrows : ∀ runner', runner' ≠ runner → ∀ job ∈ s.jobsOf runner',
      s'.rows.get? job.eventId = s.rows.get? job.eventId ∧
        s'.starts job.eventId = s.starts job.eventId)
    (hfree : ∀ job ∈ s'.jobsOf runner, ∀ runner', runner' ≠ runner → ∀ job' ∈ s.jobsOf runner',
      job.eventId ≠ job'.eventId)
    (honce : ((s'.jobsOf runner).map Job.eventId).Nodup)
    (hunfinished : ∀ job ∈ s'.jobsOf runner, s'.Unfinished job)
    (hahead : ∀ job ∈ s'.waitingOf runner, ∀ n ∈ job.attempts, s'.starts job.eventId < n)
    (hcounted : ∀ eventId row, s'.rows.get? eventId = some row → s'.starts eventId ≤ row.attempts)
    (hunwritten : ∀ eventId, s'.rows.get? eventId = none → s'.starts eventId = 0) :
    Orderly s' where
  alone a b job hjob job' hjob' hid := by
    by_cases ha : a = runner
    · by_cases hb : b = runner
      · rw [ha, hb]
      · rw [Site.jobsOf_of_runners (hothers b hb)] at hjob'
        exact absurd hid (hfree job (ha ▸ hjob) b hb job' hjob')
    · rw [Site.jobsOf_of_runners (hothers a ha)] at hjob
      by_cases hb : b = runner
      · exact absurd hid.symm (hfree job' (hb ▸ hjob') a ha job hjob)
      · rw [Site.jobsOf_of_runners (hothers b hb)] at hjob'
        exact h.alone a b job hjob job' hjob' hid
  once a := by
    by_cases ha : a = runner
    · rw [ha]
      exact honce
    · rw [Site.jobsOf_of_runners (hothers a ha)]
      exact h.once a
  unfinished a job hjob := by
    by_cases ha : a = runner
    · exact hunfinished job (ha ▸ hjob)
    · rw [Site.jobsOf_of_runners (hothers a ha)] at hjob
      rw [Site.Unfinished, (hrows a ha job hjob).1]
      exact h.unfinished a job hjob
  counted := hcounted
  ahead a job hjob := by
    by_cases ha : a = runner
    · exact hahead job (ha ▸ hjob)
    · rw [Site.waitingOf_of_runners (hothers a ha)] at hjob
      rw [(hrows a ha job ((s.waitingOf_sublist a).subset hjob)).2]
      exact h.ahead a job hjob
  unwritten := hunwritten

/-- A runner that moves on, without taking anything up, keeps the order. -/
theorem Orderly.shrink {s s' : Site} (h : Orderly s) (runner : ℕ)
    (hothers : ∀ runner', runner' ≠ runner → s'.runners runner' = s.runners runner')
    (hrows : s'.rows = s.rows) (hstarts : s'.starts = s.starts)
    (hjobs : (s'.jobsOf runner).Sublist (s.jobsOf runner))
    (hwaiting : (s'.waitingOf runner).Sublist (s.waitingOf runner)) : Orderly s' := by
  refine h.of_runner runner hothers ?_ ?_ ?_ ?_ ?_ ?_ ?_
  · intro _ _ job _
    rw [hrows, hstarts]
    exact ⟨rfl, rfl⟩
  · intro job hjob a ha job' hjob' hid
    exact ha (h.alone a runner job' hjob' job (hjobs.subset hjob) hid.symm)
  · exact (h.once runner).sublist (hjobs.map _)
  · intro job hjob
    rw [Site.Unfinished, hrows]
    exact h.unfinished runner job (hjobs.subset hjob)
  · intro job hjob
    rw [hstarts]
    exact h.ahead runner job (hwaiting.subset hjob)
  · rw [hrows, hstarts]
    exact h.counted
  · rw [hrows, hstarts]
    exact h.unwritten

/-! ## Each action -/

section Actions

variable {s : Site} {runner : ℕ}

theorem Site.runners_move_ne (s : Site) {runner runner' : ℕ} (phase : Option Phase)
    (h : runner' ≠ runner) : (s.move runner phase).runners runner' = s.runners runner' := by
  unfold Site.move
  exact Function.update_of_ne h phase s.runners

theorem Site.runners_move_self (s : Site) (runner : ℕ) (phase : Option Phase) :
    (s.move runner phase).runners runner = phase := by
  unfold Site.move
  exact Function.update_self runner phase s.runners

variable {phase : Option Phase} {eventId : String} {job : Job}

theorem Site.jobsOf_of_eq (h : s.runners runner = phase) :
    s.jobsOf runner = phase.elim [] Phase.jobs := by
  rw [Site.jobsOf, h]

theorem Site.waitingOf_of_eq (h : s.runners runner = phase) :
    s.waitingOf runner = phase.elim [] Phase.waiting := by
  rw [Site.waitingOf, h]

theorem Site.mem_jobsOf_single (h : s.runners runner = some (.ready [⟨eventId, none⟩])) :
    (job ∈ s.jobsOf runner ↔ job = ⟨eventId, none⟩) ∧
      (job ∈ s.waitingOf runner ↔ job = ⟨eventId, none⟩) := by
  rw [Site.jobsOf_of_eq h, Site.waitingOf_of_eq h]
  exact ⟨List.mem_singleton, List.mem_singleton⟩

theorem Orderly.move (h : Orderly s) (runner : ℕ) (phase : Option Phase)
    (hjobs : (phase.elim [] Phase.jobs).Sublist (s.jobsOf runner))
    (hwaiting : (phase.elim [] Phase.waiting).Sublist (s.waitingOf runner)) :
    Orderly (s.move runner phase) := by
  refine h.shrink runner (fun _ ha => s.runners_move_ne phase ha) rfl rfl ?_ ?_
  · rwa [Site.jobsOf_of_eq (s.runners_move_self runner phase)]
  · rwa [Site.waitingOf_of_eq (s.runners_move_self runner phase)]

theorem Orderly.starts_of_unwritten (h : Orderly s) (hnone : s.rows.get? eventId = none) :
    s.starts eventId = 0 ∧
      ∀ runner, ∀ job ∈ s.jobsOf runner, job.eventId ≠ eventId := by
  refine ⟨h.unwritten eventId hnone, fun a job hjob hid => ?_⟩
  obtain ⟨row, hget, -⟩ := h.unfinished a job hjob
  rw [hid, hnone] at hget
  simp at hget

theorem Orderly.deliver (h : Orderly s) (runner : ℕ) (eventId : String) (now : ℤ) :
    Orderly (s.deliver runner eventId now) := by
  unfold Site.deliver
  cases hget : s.rows.get? eventId with
  | some row => exact h.move runner _ (List.nil_sublist _) (List.nil_sublist _)
  | none =>
    obtain ⟨hstarts, hfree⟩ := h.starts_of_unwritten hget
    have hself := s.runners_move_self runner (some (.ready [⟨eventId, none⟩]))
    dsimp only
    refine h.of_runner runner (fun a ha => s.runners_move_ne _ ha) ?_ ?_ ?_ ?_ ?_ ?_ ?_
    · intro a _ job hjob
      exact ⟨OrderedMap.get?_set_ne _ _ (hfree a job hjob), rfl⟩
    · intro job hjob a _ job' hjob' hid
      obtain rfl := (Site.mem_jobsOf_single hself).1.1 hjob
      exact hfree a job' hjob' hid.symm
    · change (((s.move runner _).jobsOf runner).map _).Nodup
      rw [Site.jobsOf_of_eq hself]
      exact List.nodup_singleton _
    · intro job hjob
      obtain rfl := (Site.mem_jobsOf_single hself).1.1 hjob
      exact ⟨_, OrderedMap.get?_set_self .., rfl, fun n hn => absurd hn.symm (Option.some_ne_none n)⟩
    · intro job hjob n hn
      obtain rfl := (Site.mem_jobsOf_single hself).2.1 hjob
      simp at hn
    · intro id row hrow
      rcases OrderedMap.get?_set_eq_some.1 hrow with ⟨rfl, rfl⟩ | ⟨-, hrow⟩
      · exact Nat.le_of_eq hstarts
      · exact h.counted id row hrow
    · intro id hnone
      refine h.unwritten id ?_
      change (s.rows.set eventId _).get? id = none at hnone
      rw [OrderedMap.get?_set] at hnone
      split at hnone
      · simp at hnone
      · exact hnone

theorem Orderly.look (h : Orderly s) (hrunner : s.runners runner = some (.duplicate eventId))
    (hok : TakesFree s (.look runner)) : Orderly (s.look runner eventId) := by
  unfold Site.look
  cases hget : s.rows.get? eventId with
  | none => exact h.move runner none (List.nil_sublist _) (List.nil_sublist _)
  | some row =>
    dsimp only
    split
    · exact h.move runner none (List.nil_sublist _) (List.nil_sublist _)
    · next hprocessed =>
      have hopen : row.processedAt = none := Option.not_isSome_iff_eq_none.1 hprocessed
      have hfree := hok eventId hrunner row hget hopen
      have hself := s.runners_move_self runner (some (.ready [⟨eventId, none⟩]))
      refine h.of_runner runner (fun a ha => s.runners_move_ne _ ha) (fun _ _ _ _ => ⟨rfl, rfl⟩)
        ?_ ?_ ?_ ?_ h.counted h.unwritten
      · intro job hjob a _ job' hjob' hid
        obtain rfl := (Site.mem_jobsOf_single hself).1.1 hjob
        exact hfree a job' hjob' hid.symm
      · rw [Site.jobsOf_of_eq hself]
        exact List.nodup_singleton _
      · intro job hjob
        obtain rfl := (Site.mem_jobsOf_single hself).1.1 hjob
        exact ⟨row, hget, hopen, fun n hn => absurd hn.symm (Option.some_ne_none n)⟩
      · intro job hjob n hn
        obtain rfl := (Site.mem_jobsOf_single hself).2.1 hjob
        simp at hn

theorem Site.starts_begin (s : Site) (runner : ℕ) (job : Job) (rest : List Job)
    (eventId : String) :
    (s.begin runner job rest).starts eventId =
      if job.attempts.isSome = true ∧ eventId = job.eventId then s.starts eventId + 1
      else s.starts eventId := by
  unfold Site.begin
  dsimp only
  by_cases hworker : job.attempts.isSome = true
  · rw [if_pos hworker]
    by_cases hid : eventId = job.eventId
    · rw [if_pos ⟨hworker, hid⟩, hid, Function.update_self]
    · rw [if_neg fun h => hid h.2, Function.update_of_ne hid]
  · rw [if_neg hworker, if_neg fun h => hworker h.1]

theorem Orderly.begin (h : Orderly s) {rest : List Job}
    (hrunner : s.runners runner = some (.ready (job :: rest))) :
    Orderly (s.begin runner job rest) := by
  have hjobs : s.jobsOf runner = job :: rest := Site.jobsOf_of_eq hrunner
  have hwaiting : s.waitingOf runner = job :: rest := Site.waitingOf_of_eq hrunner
  have hself : (s.begin runner job rest).runners runner = some (.working job rest) :=
    s.runners_move_self runner _
  have hmem : job ∈ s.jobsOf runner := by
    rw [hjobs]
    exact List.mem_cons_self
  -- The one event whose starts change is the job's.
  have hstarts : ∀ eventId, eventId ≠ job.eventId →
      (s.begin runner job rest).starts eventId = s.starts eventId := by
    intro eventId hid
    rw [s.starts_begin, if_neg fun h => hid h.2]
  have hcount : ∀ row, s.rows.get? job.eventId = some row →
      (s.begin runner job rest).starts job.eventId ≤ row.attempts := by
    intro row hrow
    rw [s.starts_begin]
    cases hn : job.attempts with
    | none => exact h.counted _ row hrow
    | some n =>
      obtain ⟨row', hrow', -, hshows⟩ := h.unfinished runner job hmem
      obtain rfl := Option.some.inj (hrow.symm.trans hrow')
      rw [if_pos ⟨rfl, rfl⟩, (hshows n hn).1]
      exact h.ahead runner job (by rw [hwaiting]; exact List.mem_cons_self) n hn
  refine h.of_runner runner (fun a ha => s.runners_move_ne _ ha) ?_ ?_ ?_ ?_ ?_ ?_ ?_
  · intro a ha job' hjob'
    refine ⟨rfl, hstarts _ fun hid => ha (h.alone a runner job' hjob' job hmem hid)⟩
  · intro job' hjob' a ha other hother hid
    rw [Site.jobsOf_of_eq hself] at hjob'
    exact ha (h.alone a runner other hother job' (hjobs ▸ hjob') hid.symm)
  · have honce := h.once runner
    rw [hjobs] at honce
    rw [Site.jobsOf_of_eq hself]
    exact honce
  · intro job' hjob'
    rw [Site.jobsOf_of_eq hself] at hjob'
    exact h.unfinished runner job' (hjobs ▸ hjob')
  · intro job' hjob' n hn
    rw [Site.waitingOf_of_eq hself] at hjob'
    have hnodup := h.once runner
    rw [hjobs, List.map_cons, List.nodup_cons] at hnodup
    rw [hstarts _ fun hid => hnodup.1 (hid ▸ List.mem_map_of_mem hjob')]
    exact h.ahead runner job' (hwaiting ▸ List.mem_cons_of_mem _ hjob') n hn
  · intro eventId row hrow
    by_cases hid : eventId = job.eventId
    · rw [hid] at hrow ⊢
      exact hcount row hrow
    · rw [hstarts eventId hid]
      exact h.counted eventId row hrow
  · intro eventId hnone
    by_cases hid : eventId = job.eventId
    · obtain ⟨row, hrow, -⟩ := h.unfinished runner job hmem
      rw [hid] at hnone
      exact absurd (hnone.symm.trans hrow) (Option.some_ne_none row).symm
    · rw [hstarts eventId hid]
      exact h.unwritten eventId hnone

/-- **What a claim takes** is unfinished, not given up, and takes each event
once. -/
theorem Site.mem_claimed {now : ℤ} {locked : List String} {row : String × EventRow}
    (h : row ∈ s.claimed now locked) :
    s.rows.get? row.1 = some row.2 ∧ row.2.processedAt = none ∧ row.2.deadAt = none := by
  have hmem := List.mem_filter.1 (List.mem_mergeSort.1 (List.mem_of_mem_take h))
  have hok := hmem.2
  unfold Site.retryable at hok
  rw [Bool.and_eq_true, Bool.and_eq_true, Bool.and_eq_true, Option.isNone_iff_eq_none,
    Option.isNone_iff_eq_none] at hok
  exact ⟨OrderedMap.get?_eq_some.2 hmem.1, hok.1.1.1, hok.1.1.2⟩

theorem Site.nodup_claimed (s : Site) (now : ℤ) (locked : List String) :
    ((s.claimed now locked).map Prod.fst).Nodup := by
  have hrows : ((s.rows.entries.filter (Site.retryable now locked)).map Prod.fst).Nodup :=
    s.rows.nodup.sublist (List.filter_sublist.map _)
  have hsorted := (((List.mergeSort_perm (s.rows.entries.filter (Site.retryable now locked))
    fun a b => a.2.createdAt ≤ b.2.createdAt).map Prod.fst).nodup_iff).2 hrows
  exact hsorted.sublist ((List.take_sublist 50 _).map _)

def Site.claimedJobs (s : Site) (now : ℤ) (locked : List String) : List Job :=
  (s.claimed now locked).map fun row => ⟨row.1, some (row.2.attempts + 1)⟩

theorem elim_ready (jobs : List Job) :
    (if jobs.isEmpty then none else some (Phase.ready jobs)).elim [] Phase.jobs = jobs ∧
      (if jobs.isEmpty then none else some (Phase.ready jobs)).elim [] Phase.waiting = jobs := by
  cases jobs with
  | nil => exact ⟨rfl, rfl⟩
  | cons job jobs => exact ⟨rfl, rfl⟩

theorem Site.jobsOf_claim (s : Site) (runner : ℕ) (now : ℤ) (locked : List String) :
    (s.claim runner now locked).jobsOf runner = s.claimedJobs now locked ∧
      (s.claim runner now locked).waitingOf runner = s.claimedJobs now locked := by
  have hself : (s.claim runner now locked).runners runner =
      if (s.claimedJobs now locked).isEmpty then none
      else some (.ready (s.claimedJobs now locked)) := s.runners_move_self runner _
  rw [Site.jobsOf_of_eq hself, Site.waitingOf_of_eq hself]
  exact elim_ready _

theorem Orderly.claim (h : Orderly s) (runner : ℕ) (now : ℤ) (locked : List String)
    (hok : TakesFree s (.claim runner now locked)) : Orderly (s.claim runner now locked) := by
  obtain ⟨hjobs, hwaiting⟩ := s.jobsOf_claim runner now locked
  have hget : ∀ eventId, (s.claim runner now locked).rows.get? eventId =
      (s.rows.get? eventId).map fun row =>
        if eventId ∈ (s.claimed now locked).map Prod.fst then
          { row with attempts := row.attempts + 1 } else row :=
    fun eventId => OrderedMap.get?_mapAt ..
  refine h.of_runner runner (fun a ha => s.runners_move_ne _ ha) ?_ ?_ ?_ ?_ ?_ ?_ ?_
  · intro a _ job hjob
    refine ⟨?_, rfl⟩
    have hfree : job.eventId ∉ (s.claimed now locked).map Prod.fst := by
      intro hmem
      obtain ⟨row, hrow, hid⟩ := List.mem_map.1 hmem
      exact hok row hrow a job hjob hid.symm
    exact OrderedMap.get?_mapAt_of_not_mem _ _ hfree
  · intro job hjob a _ job' hjob' hid
    rw [hjobs] at hjob
    obtain ⟨row, hrow, rfl⟩ := List.mem_map.1 hjob
    exact hok row hrow a job' hjob' hid.symm
  · rw [hjobs, Site.claimedJobs, List.map_map]
    exact s.nodup_claimed now locked
  · intro job hjob
    rw [hjobs] at hjob
    obtain ⟨row, hrow, rfl⟩ := List.mem_map.1 hjob
    obtain ⟨hrow', hopen, halive⟩ := s.mem_claimed hrow
    refine ⟨{ row.2 with attempts := row.2.attempts + 1 }, ?_, hopen, ?_⟩
    · rw [hget, hrow', Option.map_some, if_pos (List.mem_map_of_mem hrow)]
    · intro n hn
      exact ⟨Option.some.inj hn, halive⟩
  · intro job hjob n hn
    rw [hwaiting] at hjob
    obtain ⟨row, hrow, rfl⟩ := List.mem_map.1 hjob
    rw [← Option.some.inj hn]
    exact Nat.lt_succ_of_le (h.counted row.1 row.2 (s.mem_claimed hrow).1)
  · intro eventId row hrow
    rw [hget] at hrow
    obtain ⟨row', hrow', rfl⟩ := Option.map_eq_some_iff.1 hrow
    have hcounted := h.counted eventId row' hrow'
    split
    · exact Nat.le_succ_of_le hcounted
    · exact hcounted
  · intro eventId hnone
    rw [hget, Option.map_eq_none_iff] at hnone
    exact h.unwritten eventId hnone

theorem EventRow.attempts_settled {row : EventRow} (h : ∀ n ∈ job.attempts, row.attempts = n)
    (error : Option String) (now : ℤ) : (row.settled job error now).attempts = row.attempts := by
  unfold EventRow.settled
  cases hn : job.attempts with
  | none => cases error <;> rfl
  | some n => cases error <;> exact (h n hn).symm

theorem Orderly.settle (h : Orderly s) {error : Option String} {rest : List Job}
    (hrunner : s.runners runner = some (.worked job error rest)) (now : ℤ) :
    Orderly (s.settle runner job error rest now) := by
  have hjobs : s.jobsOf runner = job :: rest := Site.jobsOf_of_eq hrunner
  have hwaiting : s.waitingOf runner = rest := Site.waitingOf_of_eq hrunner
  have hself : (s.settle runner job error rest now).runners runner =
      if rest.isEmpty then none else some (.ready rest) := s.runners_move_self runner _
  have hjobs' : (s.settle runner job error rest now).jobsOf runner = rest := by
    rw [Site.jobsOf_of_eq hself, (elim_ready rest).1]
  have hwaiting' : (s.settle runner job error rest now).waitingOf runner = rest := by
    rw [Site.waitingOf_of_eq hself, (elim_ready rest).2]
  have hmem : job ∈ s.jobsOf runner := by
    rw [hjobs]
    exact List.mem_cons_self
  have hrest : ∀ job' ∈ rest, job' ∈ s.jobsOf runner ∧ job'.eventId ≠ job.eventId := by
    intro job' hjob'
    have honce := h.once runner
    rw [hjobs, List.map_cons, List.nodup_cons] at honce
    refine ⟨by rw [hjobs]; exact List.mem_cons_of_mem _ hjob', fun hid => honce.1 ?_⟩
    rw [← hid]
    exact List.mem_map_of_mem hjob'
  have hget : ∀ eventId, (s.settle runner job error rest now).rows.get? eventId =
      (s.rows.get? eventId).map fun row =>
        if eventId ∈ [job.eventId] then row.settled job error now else row :=
    fun eventId => OrderedMap.get?_mapAt ..
  have hkeep : ∀ eventId, eventId ≠ job.eventId →
      (s.settle runner job error rest now).rows.get? eventId = s.rows.get? eventId := by
    intro eventId hid
    exact OrderedMap.get?_mapAt_of_not_mem _ _ (by rwa [List.mem_singleton])
  refine h.of_runner runner (fun a ha => s.runners_move_ne _ ha) ?_ ?_ ?_ ?_ ?_ ?_ ?_
  · intro a ha job' hjob'
    exact ⟨hkeep _ fun hid => ha (h.alone a runner job' hjob' job hmem hid), rfl⟩
  · intro job' hjob' a ha other hother hid
    rw [hjobs'] at hjob'
    exact ha (h.alone a runner other hother job' (hrest job' hjob').1 hid.symm)
  · have honce := h.once runner
    rw [hjobs, List.map_cons, List.nodup_cons] at honce
    rw [hjobs']
    exact honce.2
  · intro job' hjob'
    rw [hjobs'] at hjob'
    rw [Site.Unfinished, hkeep _ (hrest job' hjob').2]
    exact h.unfinished runner job' (hrest job' hjob').1
  · intro job' hjob'
    rw [hwaiting'] at hjob'
    rw [← hwaiting] at hjob'
    exact h.ahead runner job' hjob'
  · intro eventId row hrow
    by_cases hid : eventId = job.eventId
    · rw [hget] at hrow
      obtain ⟨row', hrow', rfl⟩ := Option.map_eq_some_iff.1 hrow
      obtain ⟨row'', hrow'', -, hshows⟩ := h.unfinished runner job hmem
      rw [← hid, hrow'] at hrow''
      obtain rfl := Option.some.inj hrow''
      rw [if_pos (List.mem_singleton.2 hid),
        EventRow.attempts_settled fun n hn => (hshows n hn).1]
      exact h.counted eventId row' hrow'
    · rw [hkeep eventId hid] at hrow
      exact h.counted eventId row hrow
  · intro eventId hnone
    rw [hget, Option.map_eq_none_iff] at hnone
    exact h.unwritten eventId hnone

end Actions

/-- **An action that takes up only what is free keeps the order.** -/
theorem Orderly.step {s : Site} (h : Orderly s) {a : Action} (hok : TakesFree s a) :
    Orderly (step s a) := by
  cases a with
  | deliver runner eventId now =>
    unfold Runners.step
    dsimp only
    split
    · exact h
    · exact h.deliver runner eventId now
  | look runner =>
    unfold Runners.step
    dsimp only
    split
    · next eventId hrunner => exact h.look hrunner hok
    · exact h
  | claim runner now locked =>
    unfold Runners.step
    dsimp only
    split
    · exact h
    · exact h.claim runner now locked hok
  | start runner =>
    unfold Runners.step
    dsimp only
    split
    · next job rest hrunner => exact h.begin hrunner
    · exact h
  | finish runner error =>
    unfold Runners.step
    dsimp only
    split
    · next job rest hrunner =>
      refine h.move runner _ ?_ ?_
      · rw [Site.jobsOf_of_eq hrunner]
        exact List.Sublist.refl _
      · rw [Site.waitingOf_of_eq hrunner]
        exact List.Sublist.refl _
    · exact h
  | settle runner now =>
    unfold Runners.step
    dsimp only
    split
    · next job error rest hrunner => exact h.settle hrunner now
    · exact h
  | die runner => exact h.move runner none (List.nil_sublist _) (List.nil_sublist _)

/-! ## Giving up -/

/-- Workers give up, and what a worker has not started can still be. -/
structure Limited (s : Site) : Prop where
  givesUp : GivesUp s
  /-- A worker's next start is not one too many. -/
  next : ∀ runner, ∀ job ∈ s.waitingOf runner, job.attempts.isSome = true →
    s.starts job.eventId < maxAttempts

/-- **One runner moves, and starts nothing**: a last start it had is settled or
kept, and what workers are through with stays so. -/
theorem Limited.of_runner {s s' : Site} (h : Limited s) (runner : ℕ)
    (hothers : ∀ runner', runner' ≠ runner → s'.runners runner' = s.runners runner')
    (hstarts : s'.starts = s.starts)
    (hkeep : ∀ job ∈ s.jobsOf runner, job.attempts.isSome = true →
      s.starts job.eventId = maxAttempts → job ∈ s'.jobsOf runner ∨ s'.Closed job.eventId)
    (hclosed : ∀ eventId, s.Closed eventId → s'.Closed eventId)
    (hnext : ∀ job ∈ s'.waitingOf runner, job.attempts.isSome = true →
      s.starts job.eventId < maxAttempts) : Limited s' where
  givesUp eventId := by
    rw [hstarts]
    refine ⟨(h.givesUp eventId).1, fun hlast => ?_⟩
    rcases (h.givesUp eventId).2 hlast with ⟨a, job, hjob, hid, hworker⟩ | hdone
    · by_cases ha : a = runner
      · rw [ha] at hjob
        rw [← hid] at hlast
        rcases hkeep job hjob hworker hlast with hjob' | hdone
        · exact Or.inl ⟨runner, job, hjob', hid, hworker⟩
        · exact Or.inr (hid ▸ hdone)
      · rw [← Site.jobsOf_of_runners (hothers a ha)] at hjob
        exact Or.inl ⟨a, job, hjob, hid, hworker⟩
    · exact Or.inr (hclosed eventId hdone)
  next a job hjob := by
    rw [hstarts]
    by_cases ha : a = runner
    · exact hnext job (ha ▸ hjob)
    · rw [Site.waitingOf_of_runners (hothers a ha)] at hjob
      exact h.next a job hjob

section Actions

variable {s : Site} {runner : ℕ}

/-- The rows are as they were, and so is all that has been started. -/
theorem Limited.move (h : Limited s) (runner : ℕ) (phase : Option Phase)
    (hkeep : ∀ job ∈ s.jobsOf runner, job.attempts.isSome = true →
      s.starts job.eventId = maxAttempts → job ∈ phase.elim [] Phase.jobs)
    (hnext : ∀ job ∈ phase.elim [] Phase.waiting, job.attempts.isSome = true →
      s.starts job.eventId < maxAttempts) : Limited (s.move runner phase) := by
  refine h.of_runner runner (fun _ ha => s.runners_move_ne phase ha) rfl ?_ (fun _ h => h) ?_
  · rw [Site.jobsOf_of_eq (s.runners_move_self runner phase)]
    exact fun job hjob hworker hlast => Or.inl (hkeep job hjob hworker hlast)
  · rwa [Site.waitingOf_of_eq (s.runners_move_self runner phase)]

theorem Limited.deliver (h : Limited s) (hrunner : s.runners runner = none) (eventId : String)
    (now : ℤ) : Limited (s.deliver runner eventId now) := by
  have hnone : s.jobsOf runner = [] := Site.jobsOf_of_eq hrunner
  unfold Site.deliver
  cases hget : s.rows.get? eventId with
  | some row =>
    refine h.move runner _ ?_ (fun job hjob => absurd hjob List.not_mem_nil)
    rw [hnone]
    exact fun job hjob => absurd hjob List.not_mem_nil
  | none =>
    have hself := s.runners_move_self runner (some (.ready [⟨eventId, none⟩]))
    dsimp only
    refine h.of_runner runner (fun a ha => s.runners_move_ne _ ha) rfl ?_ ?_ ?_
    · rw [hnone]
      exact fun job hjob => absurd hjob List.not_mem_nil
    · rintro id ⟨row, hrow, hdone⟩
      refine ⟨row, ?_, hdone⟩
      rw [← hrow]
      refine OrderedMap.get?_set_ne _ _ fun hid => ?_
      rw [hid, hget] at hrow
      simp at hrow
    · intro job hjob hworker
      obtain rfl := (Site.mem_jobsOf_single hself).2.1 hjob
      simp at hworker

theorem Limited.look (h : Limited s) {eventId : String}
    (hrunner : s.runners runner = some (.duplicate eventId)) : Limited (s.look runner eventId) := by
  have hnone : s.jobsOf runner = [] := Site.jobsOf_of_eq hrunner
  have hgone : Limited (s.move runner none) := by
    refine h.move runner none ?_ (fun job hjob => absurd hjob List.not_mem_nil)
    rw [hnone]
    exact fun job hjob => absurd hjob List.not_mem_nil
  unfold Site.look
  cases hget : s.rows.get? eventId with
  | none => exact hgone
  | some row =>
    dsimp only
    split
    · exact hgone
    · refine h.move runner _ ?_ ?_
      · rw [hnone]
        exact fun job hjob => absurd hjob List.not_mem_nil
      · intro job hjob hworker
        obtain rfl := List.mem_singleton.1 hjob
        simp at hworker

theorem Limited.claim (h : Limited s) (hrunner : s.runners runner = none) (now : ℤ)
    (locked : List String) (hok : TakesFree s (.claim runner now locked)) :
    Limited (s.claim runner now locked) := by
  refine h.of_runner runner (fun a ha => s.runners_move_ne _ ha) rfl ?_ ?_ ?_
  · rw [Site.jobsOf_of_eq hrunner]
    exact fun job hjob => absurd hjob List.not_mem_nil
  · rintro eventId ⟨row, hrow, hdone⟩
    have hget := OrderedMap.get?_mapAt s.rows ((s.claimed now locked).map Prod.fst)
      (fun row => { row with attempts := row.attempts + 1 }) eventId
    rw [hrow, Option.map_some] at hget
    refine ⟨_, hget, ?_⟩
    split
    · exact hdone
    · exact hdone
  · intro job hjob _
    rw [(s.jobsOf_claim runner now locked).2] at hjob
    obtain ⟨row, hrow, rfl⟩ := List.mem_map.1 hjob
    obtain ⟨hget, hopen, halive⟩ := s.mem_claimed hrow
    refine Nat.lt_of_le_of_ne (h.givesUp row.1).1 fun hlast => ?_
    rcases (h.givesUp row.1).2 hlast with ⟨a, job, hjob, hid, -⟩ | ⟨row', hrow', hdone⟩
    · exact hok row hrow a job hjob hid
    · obtain rfl := Option.some.inj (hget.symm.trans hrow')
      rcases hdone with hdone | hdone
      · rw [hopen] at hdone
        exact Bool.false_ne_true hdone
      · rw [halive] at hdone
        exact Bool.false_ne_true hdone

theorem Limited.begin (h : Limited s) (horder : Orderly s) {job : Job} {rest : List Job}
    (hrunner : s.runners runner = some (.ready (job :: rest))) :
    Limited (s.begin runner job rest) := by
  have hjobs : s.jobsOf runner = job :: rest := Site.jobsOf_of_eq hrunner
  have hwaiting : s.waitingOf runner = job :: rest := Site.waitingOf_of_eq hrunner
  have hself : (s.begin runner job rest).runners runner = some (.working job rest) :=
    s.runners_move_self runner _
  have hjobs' : ∀ a, (s.begin runner job rest).jobsOf a = s.jobsOf a := by
    intro a
    by_cases ha : a = runner
    · rw [ha, hjobs, Site.jobsOf_of_eq hself]
      rfl
    · exact Site.jobsOf_of_runners (s.runners_move_ne _ ha)
  have hmem : job ∈ s.jobsOf runner := by
    rw [hjobs]
    exact List.mem_cons_self
  -- What else waits is another event's.
  have hother : ∀ a, ∀ job' ∈ (s.begin runner job rest).waitingOf a,
      job' ∈ s.waitingOf a ∧ job'.eventId ≠ job.eventId := by
    intro a job' hjob'
    by_cases ha : a = runner
    · subst ha
      rw [Site.waitingOf_of_eq hself] at hjob'
      have honce := horder.once a
      rw [hjobs, List.map_cons, List.nodup_cons] at honce
      rw [hwaiting]
      exact ⟨List.mem_cons_of_mem _ hjob', fun hid => honce.1 (hid ▸ List.mem_map_of_mem hjob')⟩
    · have hsame : (s.begin runner job rest).waitingOf a = s.waitingOf a :=
        Site.waitingOf_of_runners (s.runners_move_ne _ ha)
      rw [hsame] at hjob'
      exact ⟨hjob', fun hid => ha (horder.alone a runner job'
        ((s.waitingOf_sublist a).subset hjob') job hmem hid)⟩
  constructor
  · intro eventId
    rw [s.starts_begin]
    by_cases hstart : job.attempts.isSome = true ∧ eventId = job.eventId
    · obtain ⟨hworker, rfl⟩ := hstart
      rw [if_pos ⟨hworker, rfl⟩]
      refine ⟨h.next runner job (by rw [hwaiting]; exact List.mem_cons_self) hworker, fun _ => ?_⟩
      exact Or.inl ⟨runner, job, by rwa [hjobs'], rfl, hworker⟩
    · rw [if_neg hstart]
      refine ⟨(h.givesUp eventId).1, fun hlast => ?_⟩
      rcases (h.givesUp eventId).2 hlast with ⟨a, job', hjob', hid, hworker⟩ | hdone
      · exact Or.inl ⟨a, job', by rwa [hjobs'], hid, hworker⟩
      · exact Or.inr hdone
  · intro a job' hjob' hworker
    obtain ⟨hwait, hid⟩ := hother a job' hjob'
    rw [s.starts_begin, if_neg fun h => hid h.2]
    exact h.next a job' hwait hworker

theorem EventRow.closed_settled {row : EventRow} {job : Job} {n : ℕ} (hn : job.attempts = some n)
    (hlast : maxAttempts ≤ n) (error : Option String) (now : ℤ) :
    (row.settled job error now).processedAt.isSome = true ∨
      (row.settled job error now).deadAt.isSome = true := by
  unfold EventRow.settled
  rw [hn]
  cases error with
  | none => exact Or.inl rfl
  | some message =>
    dsimp only
    rw [if_pos hlast]
    exact Or.inr rfl

theorem EventRow.closed_settled_delivery {row : EventRow} {job : Job} (hn : job.attempts = none)
    (h : row.deadAt.isSome = true) (error : Option String) (now : ℤ) :
    (row.settled job error now).deadAt.isSome = true := by
  unfold EventRow.settled
  rw [hn]
  cases error with
  | none => exact h
  | some message => exact h

theorem Limited.settle (h : Limited s) (horder : Orderly s) {job : Job} {error : Option String}
    {rest : List Job} (hrunner : s.runners runner = some (.worked job error rest)) (now : ℤ) :
    Limited (s.settle runner job error rest now) := by
  have hjobs : s.jobsOf runner = job :: rest := Site.jobsOf_of_eq hrunner
  have hwaiting : s.waitingOf runner = rest := Site.waitingOf_of_eq hrunner
  have hself : (s.settle runner job error rest now).runners runner =
      if rest.isEmpty then none else some (.ready rest) := s.runners_move_self runner _
  have hmem : job ∈ s.jobsOf runner := by
    rw [hjobs]
    exact List.mem_cons_self
  obtain ⟨row, hrow, hopen, hshows⟩ := horder.unfinished runner job hmem
  have hsettled : (s.settle runner job error rest now).rows.get? job.eventId =
      some (row.settled job error now) := by
    refine (OrderedMap.get?_mapAt_of_mem s.rows _ (List.mem_singleton.2 rfl)).trans ?_
    rw [hrow, Option.map_some]
  refine h.of_runner runner (fun a ha => s.runners_move_ne _ ha) rfl ?_ ?_ ?_
  · intro job' hjob' hworker hlast
    rw [hjobs] at hjob'
    rcases List.mem_cons.1 hjob' with rfl | hjob'
    · obtain ⟨n, hn⟩ := Option.isSome_iff_exists.1 hworker
      refine Or.inr ⟨_, hsettled, EventRow.closed_settled hn ?_ error now⟩
      rw [← hlast, ← (hshows n hn).1]
      exact horder.counted _ row hrow
    · refine Or.inl ?_
      rwa [Site.jobsOf_of_eq hself, (elim_ready rest).1]
  · rintro eventId ⟨row', hrow', hdone⟩
    by_cases hid : eventId = job.eventId
    · rw [hid] at hrow' ⊢
      obtain rfl := Option.some.inj (hrow.symm.trans hrow')
      refine ⟨_, hsettled, ?_⟩
      have hdead : row.deadAt.isSome = true := by
        rcases hdone with hdone | hdone
        · rw [hopen] at hdone
          simp at hdone
        · exact hdone
      cases hn : job.attempts with
      | none => exact Or.inr (EventRow.closed_settled_delivery hn hdead error now)
      | some n =>
        rw [(hshows n hn).2] at hdead
        simp at hdead
    · refine ⟨row', ?_, hdone⟩
      rw [← hrow']
      exact OrderedMap.get?_mapAt_of_not_mem _ _ (by rwa [List.mem_singleton])
  · intro job' hjob' hworker
    rw [Site.waitingOf_of_eq hself, (elim_ready rest).2] at hjob'
    exact h.next runner job' (by rwa [hwaiting]) hworker

end Actions

/-- **An action that takes up only what is free, and is no death with a last
start, keeps the limit.** -/
theorem Limited.step {s : Site} (h : Limited s) (horder : Orderly s) {a : Action}
    (hok : TakesFree s a) (hlast : SettlesLast s a) : Limited (step s a) := by
  cases a with
  | deliver runner eventId now =>
    unfold Runners.step
    dsimp only
    split
    · exact h
    · next hrunner => exact h.deliver (Option.not_isSome_iff_eq_none.1 hrunner) eventId now
  | look runner =>
    unfold Runners.step
    dsimp only
    split
    · next eventId hrunner => exact h.look hrunner
    · exact h
  | claim runner now locked =>
    unfold Runners.step
    dsimp only
    split
    · exact h
    · next hrunner => exact h.claim (Option.not_isSome_iff_eq_none.1 hrunner) now locked hok
  | start runner =>
    unfold Runners.step
    dsimp only
    split
    · next job rest hrunner => exact h.begin horder hrunner
    · exact h
  | finish runner error =>
    unfold Runners.step
    dsimp only
    split
    · next job rest hrunner =>
      refine h.move runner _ ?_ ?_
      · rw [Site.jobsOf_of_eq hrunner]
        exact fun _ hjob _ _ => hjob
      · have hnext := h.next runner
        rw [Site.waitingOf_of_eq hrunner] at hnext
        exact hnext
    · exact h
  | settle runner now =>
    unfold Runners.step
    dsimp only
    split
    · next job error rest hrunner => exact h.settle horder hrunner now
    · exact h
  | die runner =>
    exact h.move runner none (fun job hjob hworker hstarts => absurd hstarts (hlast job hjob hworker))
      (fun job hjob => absurd hjob List.not_mem_nil)

theorem not_givesUp_die {s : Site} (h : Orderly s) {runner : ℕ} {job : Job}
    (hjob : job ∈ s.jobsOf runner) (hworker : job.attempts.isSome = true)
    (hlast : s.starts job.eventId = maxAttempts) : ¬ GivesUp (step s (.die runner)) := by
  intro hgives
  rcases (hgives job.eventId).2 hlast with ⟨a, job', hjob', hid, -⟩ | ⟨row, hrow, hdone⟩
  · by_cases ha : a = runner
    · have hgone : (step s (.die runner)).jobsOf runner = [] :=
        Site.jobsOf_of_eq (s.runners_move_self runner none)
      rw [ha, hgone] at hjob'
      simp at hjob'
    · have hsame : (step s (.die runner)).jobsOf a = s.jobsOf a :=
        Site.jobsOf_of_runners (s.runners_move_ne _ ha)
      rw [hsame] at hjob'
      exact ha (h.alone a runner job' hjob' job hjob hid)
  · obtain ⟨row', hrow', hopen, hshows⟩ := h.unfinished runner job hjob
    obtain rfl := Option.some.inj (hrow'.symm.trans hrow)
    obtain ⟨n, hn⟩ := Option.isSome_iff_exists.1 hworker
    rcases hdone with hdone | hdone
    · rw [hopen] at hdone
      exact Bool.false_ne_true hdone
    · rw [(hshows n hn).2] at hdone
      exact Bool.false_ne_true hdone

/-! ## Runs -/

theorem orderly_empty : Orderly empty where
  alone _ _ _ h := absurd h List.not_mem_nil
  once _ := List.nodup_nil
  unfinished _ _ h := absurd h List.not_mem_nil
  counted _ _ h := absurd h.symm (Option.some_ne_none _)
  ahead _ _ h := absurd h List.not_mem_nil
  unwritten _ _ := rfl

theorem limited_empty : Limited empty where
  givesUp _ := ⟨Nat.zero_le _, fun h => absurd h (Nat.zero_ne_add_one 4)⟩
  next _ _ h := absurd h List.not_mem_nil

theorem Orderly.oneAtATime {s : Site} (h : Orderly s) : OneAtATime s := by
  rintro runner runner' eventId ⟨job, rest, hrunner, hid⟩ ⟨job', rest', hrunner', hid'⟩
  refine h.alone runner runner' job ?_ job' ?_ (hid.trans hid'.symm)
  · rw [Site.jobsOf_of_eq hrunner]
    exact List.mem_cons_self
  · rw [Site.jobsOf_of_eq hrunner']
    exact List.mem_cons_self

theorem Orderly.startsUnprocessed {s : Site} (h : Orderly s) (a : Action) :
    StartsUnprocessed s a := by
  cases a with
  | start runner =>
    intro job rest hrunner row hrow
    obtain ⟨row', hrow', hopen, -⟩ := h.unfinished runner job
      (by rw [Site.jobsOf_of_eq hrunner]; exact List.mem_cons_self)
    rwa [Option.some.inj (hrow.symm.trans hrow')]
  | deliver | look | claim | finish | settle | die => trivial

theorem orderly_run {actions : List Action} (h : Throughout step TakesFree empty actions) :
    Orderly (run step empty actions) :=
  invariant (fun _ _ hok hs => hs.step hok) h orderly_empty

theorem limited_run {actions : List Action} (h : Throughout step TakesFree empty actions)
    (hlast : Throughout step SettlesLast empty actions) : Limited (run step empty actions) := by
  induction actions using List.reverseRecOn with
  | nil => exact limited_empty
  | append_singleton actions a ih =>
    rw [throughout_append] at h hlast
    rw [run_concat]
    exact (ih h.1 hlast.1).step (orderly_run h.1) h.2.1 hlast.2.1

/-- **As long as an event is only taken up while no runner has it**, no two
runs of its handler are in progress at once, none starts once it is processed,
and workers give it up in time exactly where none of them dies with its last
start. -/
theorem worked_once {actions : List Action} (h : Throughout step TakesFree empty actions) :
    (∀ reached, reached <+: actions → OneAtATime (run step empty reached)) ∧
      Throughout step StartsUnprocessed empty actions ∧
      ((∀ reached, reached <+: actions → GivesUp (run step empty reached)) ↔
        Throughout step SettlesLast empty actions) := by
  refine ⟨fun reached hreached => (orderly_run (h.of_prefix hreached)).oneAtATime, ?_, ?_, ?_⟩
  · refine throughout_of_prefix fun before a after hsplit => ?_
    refine (orderly_run (h.of_prefix ?_)).startsUnprocessed a
    exact hsplit ▸ List.prefix_append before _
  · intro hgives
    refine throughout_of_prefix fun before a after hsplit => ?_
    have horder : Orderly (run step empty before) :=
      orderly_run (h.of_prefix (hsplit ▸ List.prefix_append before _))
    cases a with
    | die runner =>
      intro job hjob hworker hlast
      refine not_givesUp_die horder hjob hworker hlast ?_
      have hreached : before ++ [.die runner] <+: actions :=
        ⟨after, by rw [hsplit, List.append_assoc, List.singleton_append]⟩
      have hgiven := hgives _ hreached
      rwa [run_concat] at hgiven
    | deliver | look | claim | start | finish | settle => trivial
  · exact fun hlast reached hreached =>
      (limited_run (h.of_prefix hreached) (hlast.of_prefix hreached)).givesUp

/-! ## Two runs -/

/-- A delivery works an event and dies, and a worker recovers it. -/
def recovery : List Action :=
  [.deliver 0 "evt" 0, .start 0, .die 0, .claim 1 100000 [], .start 1, .finish 1 none,
    .settle 1 100001]

/-- It is worked by one at a time. -/
theorem worked_once_recovery : OneAtATime (run step empty recovery) := by
  have hfree : Throughout step TakesFree empty recovery := by
    refine ⟨trivial, trivial, trivial, ?_, trivial, trivial, trivial, trivial⟩
    -- The delivery is dead when the worker claims.
    intro row _ runner job hjob
    have hgone : (run step empty [.deliver 0 "evt" 0, .start 0, .die 0]).runners runner = none := by
      simp [step, Site.move, Site.begin, Site.deliver, empty]
    have hnone : (run step empty [.deliver 0 "evt" 0, .start 0, .die 0]).jobsOf runner = [] :=
      Site.jobsOf_of_eq hgone
    exact absurd (hnone ▸ hjob) List.not_mem_nil
  exact (worked_once hfree).1 recovery (List.prefix_refl _)

/-- A delivery works an event while it is delivered again. -/
def redelivery : List Action :=
  [.deliver 0 "evt" 0, .start 0, .deliver 1 "evt" 1, .look 1, .start 1]

/-- Six workers claim an event and die with it. -/
def crashes : List Action :=
  [.deliver 0 "evt" 0, .start 0, .die 0] ++ (List.range 6).flatMap fun k =>
    [.claim (k + 1) 100000 [], .start (k + 1), .die (k + 1)]

/-- **A redelivery runs the handler beside the first delivery, and workers that
die never give up.** -/
theorem redelivery_overlaps :
    ¬ OneAtATime (run step empty redelivery) ∧ ¬ GivesUp (run step empty crashes) := by
  constructor
  · intro h
    exact absurd (h 0 1 "evt" ⟨⟨"evt", none⟩, [], rfl, rfl⟩ ⟨⟨"evt", none⟩, [], rfl, rfl⟩)
      (by decide)
  · intro h
    have hstarts : (run step empty crashes).starts "evt" = 6 := by decide +kernel
    have hle := (h "evt").1
    rw [hstarts] at hle
    exact absurd hle (by decide)

end Optionia.Billing.Runners
