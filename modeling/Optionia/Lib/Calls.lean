import Mathlib.Algebra.BigOperators.Group.List.Basic
import Mathlib.Algebra.Order.Ring.Nat
import Optionia.Lib.Runs
/-!
# Calls on shared data

Any number of calls run at once on the same data, each a sequence of atomic
statements, in whatever order their statements happen to be taken. A call has
a request, which stays as it is, and a phase, which says what its next
statement is; what it read of the data before is in its phase. An `Action`
starts a call or takes the next statement of one.

A call's own assertion is kept by every action where it holds of a call that
starts, the call's own statements keep it, and no other call's statement
disturbs it (`forall_calls`).
-/

namespace Calls

variable {D R P T : Type*}

/-- The data, and the calls in the order in which they were started. -/
structure State (D R P : Type*) where
  data : D
  /-- The calls: what is asked, and how far it is. -/
  calls : List (R × P)

/-- What happens next. -/
inductive Action (R T : Type*) where
  | start (request : R)
  | advance (call : ℕ) (input : T)

/-- What calls can be started, and what their statements do. -/
structure System (D R P T : Type*) where
  /-- The phase a call starts in, where it can be made. -/
  enter : State D R P → R → Option P
  statement : T → D → P → D × P

namespace System

variable (sys : System D R P T)

def step (s : State D R P) : Action R T → State D R P
  | .start request =>
    match sys.enter s request with
    | some phase => { s with calls := s.calls ++ [(request, phase)] }
    | none => s
  | .advance call input =>
    match s.calls[call]? with
    | some (request, phase) =>
      { data := (sys.statement input s.data phase).1
        calls := s.calls.set call (request, (sys.statement input s.data phase).2) }
    | none => s

variable {sys} {s : State D R P}

/-- **What an action can do**: nothing, start a call, or take a statement of
one. -/
theorem step_cases (sys : System D R P T) (s : State D R P) (a : Action R T) :
    sys.step s a = s ∨
      (∃ request phase, a = .start request ∧ sys.enter s request = some phase ∧
        sys.step s a = { s with calls := s.calls ++ [(request, phase)] }) ∨
      ∃ call input request phase, a = .advance call input ∧
        s.calls[call]? = some (request, phase) ∧
          sys.step s a = { data := (sys.statement input s.data phase).1
                           calls := s.calls.set call
                            (request, (sys.statement input s.data phase).2) } := by
  cases a with
  | start request =>
    cases h : sys.enter s request with
    | none => exact .inl (by rw [step, h])
    | some phase => exact .inr (.inl ⟨request, phase, rfl, h, by rw [step, h]⟩)
  | advance call input =>
    cases h : s.calls[call]? with
    | none => exact .inl (by rw [step, h])
    | some c => exact .inr (.inr ⟨call, input, c.1, c.2, rfl, h, by rw [step, h]⟩)

variable {i : ℕ} {request : R} {phase : P} {input : T} {a : Action R T} {calls : List (R × P)}

theorem step_advance (h : s.calls[i]? = some (request, phase)) :
    sys.step s (.advance i input) = { data := (sys.statement input s.data phase).1
                                      calls := s.calls.set i
                                        (request, (sys.statement input s.data phase).2) } := by
  rw [step, h]

theorem step_of_none (h : s.calls[i]? = none) : sys.step s (.advance i input) = s := by
  rw [step, h]

theorem data_start (sys : System D R P T) (s : State D R P) (request : R) :
    (sys.step s (.start request)).data = s.data := by
  rw [step]
  split
  · rfl
  · rfl

/-- **What every statement leaves true of the data, an action does.** -/
theorem data_step {Q : D → Prop} (hdata : Q s.data)
    (h : ∀ (i : ℕ) input request phase, a = .advance i input →
      s.calls[i]? = some (request, phase) → Q (sys.statement input s.data phase).1) :
    Q (sys.step s a).data := by
  cases a with
  | start request =>
    rw [data_start]
    exact hdata
  | advance i input =>
    cases hcall : s.calls[i]? with
    | none =>
      rw [step_of_none hcall]
      exact hdata
    | some call =>
      rw [step_advance hcall]
      exact h i input call.1 call.2 rfl hcall

/-- What is asked of the call that takes its next statement. -/
def Asks (need : D → P → Prop) (s : State D R P) : Action R T → Prop
  | .start _ => True
  | .advance i _ => ∀ request phase, s.calls[i]? = some (request, phase) → need s.data phase

/-- Whether what is asked holds can be computed where it can of a call. -/
instance decidableAsks (need : D → P → Prop) [∀ data phase, Decidable (need data phase)]
    (s : State D R P) : ∀ a : Action R T, Decidable (Asks need s a)
  | .start _ => isTrue trivial
  | .advance i _ => decidable_of_iff (∀ call ∈ s.calls[i]?, need s.data call.2)
      ⟨fun h request phase hcall => h (request, phase) hcall,
        fun h call hcall => h call.1 call.2 hcall⟩

theorem asks_advance_iff {need : D → P → Prop} (h : s.calls[i]? = some (request, phase)) :
    Asks need s (.advance (R := R) i input) ↔ need s.data phase := by
  refine ⟨fun hasks => hasks request phase h, fun hneed request' phase' h' => ?_⟩
  rw [h] at h'
  obtain ⟨-, rfl⟩ := Prod.mk.inj (Option.some.inj h')
  exact hneed

/-- **An action leaves the data as wanted just when it is as asked**, where a
statement does. -/
theorem asks_iff {need : D → P → Prop} {Q : D → Prop} (hdata : Q s.data)
    (h : ∀ (i : ℕ) input request phase, s.calls[i]? = some (request, phase) →
      (need s.data phase ↔ Q (sys.statement input s.data phase).1)) :
    Asks need s a ↔ Q (sys.step s a).data := by
  cases a with
  | start request =>
    rw [data_start]
    exact iff_of_true trivial hdata
  | advance i input =>
    cases hcall : s.calls[i]? with
    | none =>
      rw [step_of_none hcall]
      refine iff_of_true (fun request phase hcall' => ?_) hdata
      exact absurd (hcall.symm.trans hcall').symm (Option.some_ne_none _)
    | some call =>
      rw [asks_advance_iff hcall, step_advance hcall]
      exact h i input call.1 call.2 hcall

/-- What is asked of a statement, with what it meets. -/
def AsksOf (need : T → D → P → Prop) (s : State D R P) : Action R T → Prop
  | .start _ => True
  | .advance i input => ∀ call ∈ s.calls[i]?, need input s.data call.2

/-- Whether it holds can be computed where it can of a call. -/
instance decidableAsksOf (need : T → D → P → Prop)
    [∀ input data phase, Decidable (need input data phase)] (s : State D R P) :
    ∀ a : Action R T, Decidable (AsksOf need s a)
  | .start _ => isTrue trivial
  | .advance i input => inferInstanceAs (Decidable (∀ call ∈ s.calls[i]?, need input s.data call.2))

theorem getElem?_set_self {c c' : R × P} (h : calls[i]? = some c) :
    (calls.set i c')[i]? = some c' := by
  obtain ⟨hi, -⟩ := List.getElem?_eq_some_iff.1 h
  rw [List.getElem?_set_self hi]

theorem countP_set {c : R × P} (h : calls[i]? = some c) (c' : R × P) (p : R × P → Bool) :
    (calls.set i c').countP p + (if p c then 1 else 0) =
      calls.countP p + (if p c' then 1 else 0) := by
  obtain ⟨hi, rfl⟩ := List.getElem?_eq_some_iff.1 h
  rw [List.countP_set hi]
  have hpos : (if p calls[i] = true then 1 else 0) ≤ calls.countP p := by
    split_ifs with hp
    · exact List.countP_pos_iff.2 ⟨calls[i], List.getElem_mem hi, hp⟩
    · exact Nat.zero_le _
  omega

theorem sum_set {c : R × P} (h : calls[i]? = some c) (c' : R × P) (v : R × P → ℕ) :
    ((calls.set i c').map v).sum + v c = (calls.map v).sum + v c' := by
  induction calls generalizing i with
  | nil => simp at h
  | cons head calls ih =>
    cases i with
    | zero =>
      obtain rfl := Option.some.inj h
      simp only [List.set_cons_zero, List.map_cons, List.sum_cons]
      omega
    | succ i =>
      have hrest := ih (i := i) h
      simp only [List.set_cons_succ, List.map_cons, List.sum_cons]
      omega

/-- **The calls after an action**: each was there with its request, or was
started by it. -/
theorem getElem?_step (h : (sys.step s a).calls[i]? = some (request, phase)) :
    s.calls[i]? = some (request, phase) ∨
      (i = s.calls.length ∧ a = .start request ∧ sys.enter s request = some phase) ∨
      ∃ input phase', a = .advance i input ∧ s.calls[i]? = some (request, phase') ∧
        phase = (sys.statement input s.data phase').2 := by
  obtain hsame | ⟨request', phase', rfl, henter, hstep⟩ |
    ⟨call, input, request', phase', rfl, hcall, hstep⟩ := step_cases sys s a
  · rw [hsame] at h
    exact .inl h
  · rw [hstep] at h
    dsimp only at h
    obtain hi | rfl | hi := Nat.lt_trichotomy i s.calls.length
    · rw [List.getElem?_append_left hi] at h
      exact .inl h
    · rw [List.getElem?_concat_length] at h
      obtain ⟨rfl, rfl⟩ := Prod.mk.inj (Option.some.inj h)
      exact .inr (.inl ⟨rfl, rfl, henter⟩)
    · rw [List.getElem?_eq_none (by rw [List.length_append, List.length_singleton]; omega)] at h
      simp at h
  · rw [hstep] at h
    dsimp only at h
    by_cases hi : call = i
    · subst hi
      rw [getElem?_set_self hcall] at h
      obtain ⟨rfl, rfl⟩ := Prod.mk.inj (Option.some.inj h)
      exact .inr (.inr ⟨input, phase', rfl, hcall, rfl⟩)
    · rw [List.getElem?_set_ne hi] at h
      exact .inl h

/-- A call keeps its request. -/
theorem exists_getElem?_step (sys : System D R P T) (h : s.calls[i]? = some (request, phase))
    (a : Action R T) : ∃ phase', (sys.step s a).calls[i]? = some (request, phase') := by
  obtain hsame | ⟨request', phase', rfl, henter, hstep⟩ |
    ⟨call, input, request', phase', rfl, hcall, hstep⟩ := step_cases sys s a
  · exact ⟨phase, by rw [hsame]; exact h⟩
  · refine ⟨phase, ?_⟩
    obtain ⟨hi, -⟩ := List.getElem?_eq_some_iff.1 h
    rw [hstep]
    dsimp only
    rw [List.getElem?_append_left hi]
    exact h
  · rw [hstep]
    dsimp only
    by_cases hi : call = i
    · subst hi
      rw [h] at hcall
      obtain ⟨rfl, rfl⟩ := Prod.mk.inj (Option.some.inj hcall)
      exact ⟨_, getElem?_set_self h⟩
    · rw [List.getElem?_set_ne hi]
      exact ⟨phase, h⟩

theorem length_le_step (a : Action R T) : s.calls.length ≤ (sys.step s a).calls.length := by
  obtain hsame | ⟨_, _, -, -, hstep⟩ | ⟨_, _, _, _, -, -, hstep⟩ :=
    step_cases sys s a
  · have hlength : (sys.step s a).calls.length = s.calls.length := by rw [hsame]
    omega
  · rw [hstep, List.length_append]
    omega
  · have hlength : (sys.step s a).calls.length = s.calls.length := by rw [hstep, List.length_set]
    omega

/-- A phase that no statement leaves, and in which none changes the data. -/
def Done (sys : System D R P T) (phase : P) : Prop :=
  ∀ input data, sys.statement input data phase = (data, phase)

/-- A call that is done stays where it is. -/
theorem Done.step (hdone : sys.Done phase) (h : s.calls[i]? = some (request, phase))
    (a : Action R T) : (sys.step s a).calls[i]? = some (request, phase) := by
  obtain ⟨phase', h'⟩ := exists_getElem?_step sys h a
  obtain hsame | ⟨hi, -⟩ | ⟨input, phase'', rfl, hcall, rfl⟩ := getElem?_step h'
  · rw [h] at hsame
    obtain ⟨-, rfl⟩ := Prod.mk.inj (Option.some.inj hsame)
    exact h'
  · obtain ⟨hlt, -⟩ := List.getElem?_eq_some_iff.1 h
    omega
  · rw [h] at hcall
    obtain ⟨-, rfl⟩ := Prod.mk.inj (Option.some.inj hcall)
    rw [hdone] at h'
    exact h'

/-- **What is asserted of every call, every action keeps**: where it holds of
a call that starts, where its own statements keep it, and where the statements
of others, of which it may be known what calls there are, leave it alone. -/
theorem forall_calls_of {K : D → R → P → Prop}
    (hstart : ∀ request phase, a = .start request → sys.enter s request = some phase →
      K s.data request phase) (hself : ∀ (i : ℕ) input request phase, a = .advance i input →
      s.calls[i]? = some (request, phase) → K s.data request phase →
        K (sys.statement input s.data phase).1 request (sys.statement input s.data phase).2)
    (hothers : ∀ (i : ℕ) input request phase, a = .advance i input →
      s.calls[i]? = some (request, phase) → ∀ (j : ℕ) request' phase',
        s.calls[j]? = some (request', phase') → i ≠ j → K s.data request' phase' →
          K (sys.statement input s.data phase).1 request' phase')
    (h : ∀ (i : ℕ) request phase, s.calls[i]? = some (request, phase) → K s.data request phase) :
    ∀ (i : ℕ) request phase, (sys.step s a).calls[i]? = some (request, phase) →
      K (sys.step s a).data request phase := by
  intro i request phase hcall
  obtain hsame | ⟨request', phase', rfl, henter, hstep⟩ |
    ⟨call, input, request', phase', rfl, htaken, hstep⟩ := step_cases sys s a
  · rw [hsame] at hcall ⊢
    exact h i request phase hcall
  · have hdata : (sys.step s (.start request')).data = s.data := by rw [hstep]
    rw [hdata]
    obtain hold | ⟨-, heq, henter'⟩ | ⟨_, _, heq, -⟩ := getElem?_step hcall
    · exact h i request phase hold
    · exact hstart request phase heq henter'
    · simp at heq
  · have hdata : (sys.step s (.advance call input)).data =
        (sys.statement input s.data phase').1 := by rw [hstep]
    have hcalls : (sys.step s (.advance call input)).calls =
        s.calls.set call (request', (sys.statement input s.data phase').2) := by rw [hstep]
    rw [hdata]
    rw [hcalls] at hcall
    by_cases hi : call = i
    · subst hi
      rw [getElem?_set_self htaken] at hcall
      obtain ⟨rfl, rfl⟩ := Prod.mk.inj (Option.some.inj hcall)
      exact hself call input request' phase' rfl htaken (h call request' phase' htaken)
    · rw [List.getElem?_set_ne hi] at hcall
      exact hothers call input request' phase' rfl htaken i request phase hcall hi
        (h i request phase hcall)

/-- The same where the statements of others leave it alone whatever calls there
are. -/
theorem forall_calls {K : D → R → P → Prop}
    (hstart : ∀ request phase, a = .start request → sys.enter s request = some phase →
      K s.data request phase) (hself : ∀ (i : ℕ) input request phase, a = .advance i input →
      s.calls[i]? = some (request, phase) → K s.data request phase →
        K (sys.statement input s.data phase).1 request (sys.statement input s.data phase).2)
    (hothers : ∀ (i : ℕ) input request phase, a = .advance i input →
      s.calls[i]? = some (request, phase) → ∀ request' phase', K s.data request' phase' →
        K (sys.statement input s.data phase).1 request' phase')
    (h : ∀ (i : ℕ) request phase, s.calls[i]? = some (request, phase) → K s.data request phase) :
    ∀ (i : ℕ) request phase, (sys.step s a).calls[i]? = some (request, phase) →
      K (sys.step s a).data request phase :=
  forall_calls_of hstart hself (fun i input request phase ha hcall _ request' phase' _ _ hK =>
    hothers i input request phase ha hcall request' phase' hK) h

/-- No two calls have the same of what `f` reads. -/
def OnePer {κ : Type*} (f : R → P → Option κ) (s : State D R P) : Prop :=
  ∀ (i j : ℕ) (c c' : R × P) (k : κ), s.calls[i]? = some c → s.calls[j]? = some c' →
    f c.1 c.2 = some k → f c'.1 c'.2 = some k → i = j

/-- **What no two calls have the same of stays so**, where a call starts with
none, and comes by one only that none has. -/
theorem OnePer.step {κ : Type*} {f : R → P → Option κ} (h : OnePer f s)
    (hstart : ∀ request phase, sys.enter s request = some phase → f request phase = none)
    (hstatement : ∀ (i : ℕ) input request phase k, a = .advance i input →
      s.calls[i]? = some (request, phase) →
        f request (sys.statement input s.data phase).2 = some k →
          f request phase = some k ∨ ∀ (j : ℕ) request' phase',
            s.calls[j]? = some (request', phase') → f request' phase' ≠ some k) :
    OnePer f (sys.step s a) := by
  -- A call that has one had it, or took the statement that gave it what none had.
  have hback : ∀ (i : ℕ) (c : R × P) (k : κ), (sys.step s a).calls[i]? = some c →
      f c.1 c.2 = some k →
        (∃ phase, s.calls[i]? = some (c.1, phase) ∧ f c.1 phase = some k) ∨
          ((∃ input, a = .advance i input) ∧ ∀ (j : ℕ) request' phase',
            s.calls[j]? = some (request', phase') → f request' phase' ≠ some k) := by
    rintro i ⟨request, phase⟩ k hcall hk
    obtain hold | ⟨-, -, henter⟩ | ⟨input, phase', rfl, hold, rfl⟩ := getElem?_step hcall
    · exact .inl ⟨phase, hold, hk⟩
    · exact absurd ((hstart request phase henter).symm.trans hk).symm (Option.some_ne_none k)
    · obtain hsame | hnone := hstatement i input request phase' k rfl hold hk
      · exact .inl ⟨phase', hold, hsame⟩
      · exact .inr ⟨⟨input, rfl⟩, hnone⟩
  intro i j c c' k hi hj hik hjk
  obtain ⟨phase, hi', hik'⟩ | ⟨⟨input, ha⟩, hnone⟩ := hback i c k hi hik
  · obtain ⟨phase', hj', hjk'⟩ | ⟨-, hnone⟩ := hback j c' k hj hjk
    · exact h i j _ _ k hi' hj' hik' hjk'
    · exact absurd hik' (hnone i c.1 phase hi')
  · obtain ⟨phase', hj', hjk'⟩ | ⟨⟨input', ha'⟩, -⟩ := hback j c' k hj hjk
    · exact absurd hjk' (hnone j c'.1 phase' hj')
    · rw [ha] at ha'
      exact (Action.advance.inj ha').1

theorem exists_getElem?_run (sys : System D R P T) (h : s.calls[i]? = some (request, phase))
    (actions : List (Action R T)) :
    ∃ phase', (Runs.run sys.step s actions).calls[i]? = some (request, phase') :=
  Runs.invariant_of_forall
    (I := fun s : State D R P => ∃ phase', s.calls[i]? = some (request, phase'))
    (fun _ a h => h.elim fun _ h => exists_getElem?_step sys h a) ⟨phase, h⟩ actions

theorem Done.run (hdone : sys.Done phase) (h : s.calls[i]? = some (request, phase))
    (actions : List (Action R T)) :
    (Runs.run sys.step s actions).calls[i]? = some (request, phase) :=
  Runs.invariant_of_forall (I := fun s : State D R P => s.calls[i]? = some (request, phase))
    (fun _ a h => hdone.step h a) h actions

end System

end Calls
