import Mathlib.Data.List.Nodup
import Optionia.Lib.Runs
/-!
# Undo and redo

`history.ts`: the editor's log, a list of what was done and one of what was
undone. A call of `undo` or `redo` reads the entry on top of its list and asks
the server; once the server has answered, what is then on top is taken off.
Between the two anything may happen: further calls, records, a clear, the
answers to other calls, in any order.
-/

namespace Optionia.Editor.History

/-! ## The log -/

/-- `HistoryEntry`; no two are recorded at once. -/
structure HistoryEntry where
  recordedAt : ℕ
  label : String
  /-- Whether it has a `replay`. -/
  replays : Bool
  deriving DecidableEq

/-- What the server was asked. -/
inductive Call where
  | inverse (entry : HistoryEntry)
  | replay (entry : HistoryEntry)
  deriving DecidableEq

/-- The log, and what is observed of it. -/
structure Log where
  done : List HistoryEntry
  undone : List HistoryEntry
  /-- The calls that the server has not answered, in the order they were made. -/
  calls : List Call
  recorded : ℕ
  /-- How many were when the log was last cleared. -/
  cleared : ℕ
  /-- The entries whose inverse was started since they were last replayed. -/
  started : List HistoryEntry
  deriving DecidableEq

/-- What happens to a log. -/
inductive Step where
  | record (label : String) (replays : Bool)
  | undo
  | redo
  | clear
  /-- The server does what one of the calls asked. -/
  | resolve (call : ℕ)
  | reject (call : ℕ)
  deriving DecidableEq

/-- `l.slice(-limit)`, which is all of it for zero. -/
def sliceLast {α : Type} (limit : ℕ) (l : List α) : List α :=
  if limit = 0 then l else l.drop (l.length - limit)

def historyLimit : ℕ := 50

def Log.record (limit : ℕ) (s : Log) (label : String) (replays : Bool) : Log :=
  { s with
    done := sliceLast limit (s.done ++ [⟨s.recorded, label, replays⟩])
    undone := []
    recorded := s.recorded + 1 }

/-- `undo`, up to its `await`. -/
def Log.undo (s : Log) : Log :=
  match s.done.getLast? with
  | none => s
  | some entry => { s with calls := s.calls ++ [.inverse entry], started := entry :: s.started }

/-- `redo`, up to its `await`. -/
def Log.redo (s : Log) : Log :=
  match s.undone.getLast? with
  | none => s
  | some entry => if entry.replays then { s with calls := s.calls ++ [.replay entry] } else s

/-- What `undo` and `redo` do once they are answered. -/
def Log.answered (s : Log) : Call → Log
  | .inverse entry =>
    { s with
      done := s.done.dropLast
      undone := if entry.replays then s.undone ++ [entry] else [] }
  | .replay entry =>
    { s with
      undone := s.undone.dropLast
      done := s.done ++ [entry]
      started := s.started.filter (· ≠ entry) }

def Log.clear (s : Log) : Log :=
  { s with done := [], undone := [], cleared := s.recorded }

/-- A call is answered, if it is waited for. -/
def Log.resolve (s : Log) (i : ℕ) : Log :=
  match s.calls[i]? with
  | none => s
  | some call => { s.answered call with calls := s.calls.eraseIdx i }

def step (limit : ℕ) (s : Log) : Step → Log
  | .record label replays => s.record limit label replays
  | .undo => s.undo
  | .redo => s.redo
  | .clear => s.clear
  | .resolve i => s.resolve i
  | .reject i => { s with calls := s.calls.eraseIdx i }

def createHistory : Log := ⟨[], [], [], 0, 0, []⟩

def Log.canUndo (s : Log) : Bool := decide (0 < s.done.length)

def Log.canRedo (s : Log) : Bool := decide (0 < s.undone.length)

def Log.undoLabel (s : Log) : Option String := s.done.getLast?.map (·.label)

def Log.redoLabel (s : Log) : Option String := s.undone.getLast?.map (·.label)

/-! ## What a log should be -/

/-- A log as it should be at any time. -/
structure Sound (s : Log) : Prop where
  apart : ∀ e ∈ s.done, e ∉ s.undone
  gone : ∀ e, e ∈ s.done ∨ e ∈ s.undone → s.cleared ≤ e.recordedAt

/-- A step as it should be. -/
structure Faithful (limit : ℕ) (s : Log) (a : Step) : Prop where
  /-- What leaves the done list was undone itself, or fell to the limit, or was
  cleared. -/
  leaves : ∀ e ∈ s.done, e ∉ (step limit s a).done →
    (∃ i, a = .resolve i ∧ s.calls[i]? = some (.inverse e)) ∨
      (∃ label replays, a = .record label replays) ∨ a = .clear
  /-- An inverse is not started again before the entry is replayed. -/
  once : a = .undo → ∀ e, s.done.getLast? = some e → e ∉ s.started

/-- **A run that a log survives.** -/
def Survives (limit : ℕ) (run : List Step) : Prop :=
  (∀ before, before <+: run → Sound (Runs.run (step limit) createHistory before)) ∧
    Runs.Throughout (step limit) (Faithful limit) createHistory run

/-- **A step that comes at its time.** An entry is undone once; an inverse
finds its entry on top of the done list, if anything is, and a replay finds it
nowhere below the top of the undone list; and neither was cleared meanwhile. -/
def InTime (s : Log) : Step → Prop
  | .undo => ∀ e, s.done.getLast? = some e → e ∉ s.started
  | .resolve i =>
    (∀ e, s.calls[i]? = some (.inverse e) →
      (∀ f, s.done.getLast? = some f → f ≠ e → f ∈ s.done.dropLast) ∧
        (e.replays = true → e ∉ s.done.dropLast ∧ s.cleared ≤ e.recordedAt)) ∧
      ∀ e, s.calls[i]? = some (.replay e) → e ∉ s.undone.dropLast ∧ s.cleared ≤ e.recordedAt
  | _ => True

/-! ## Step by step -/

section Steps

variable {limit : ℕ} {s : Log}

theorem mem_of_mem_sliceLast {α : Type} {l : List α} {a : α} (h : a ∈ sliceLast limit l) :
    a ∈ l := by
  unfold sliceLast at h
  split at h
  · exact h
  · exact List.mem_of_mem_drop h

theorem mem_dropLast_of_ne {α : Type} {l : List α} {a : α} (ha : a ∈ l)
    (hlast : l.getLast? ≠ some a) : a ∈ l.dropLast := by
  obtain rfl | hne := eq_or_ne l []
  · simp at ha
  · rw [← List.dropLast_append_getLast hne, List.mem_append, List.mem_singleton] at ha
    obtain ha | rfl := ha
    · exact ha
    · exact absurd (List.getLast?_eq_some_getLast hne) hlast

/-- A log never counts fewer entries than it had when it was cleared. -/
theorem cleared_step (h : s.cleared ≤ s.recorded) (a : Step) :
    (step limit s a).cleared ≤ (step limit s a).recorded := by
  cases a with
  | record label replays => exact Nat.le_succ_of_le h
  | undo =>
    show s.undo.cleared ≤ s.undo.recorded
    unfold Log.undo
    split <;> exact h
  | redo =>
    show s.redo.cleared ≤ s.redo.recorded
    unfold Log.redo
    split
    · exact h
    · split <;> exact h
  | clear => exact le_rfl
  | resolve i =>
    show (s.resolve i).cleared ≤ (s.resolve i).recorded
    unfold Log.resolve
    split
    · exact h
    · next call _ => cases call <;> exact h
  | reject i => exact h

theorem Sound.of_lists {s' : Log} (h : Sound s) (hdone : s'.done = s.done)
    (hundone : s'.undone = s.undone) (hcleared : s'.cleared = s.cleared) : Sound s' := by
  refine ⟨?_, ?_⟩
  · rw [hdone, hundone]
    exact h.apart
  · rw [hdone, hundone, hcleared]
    exact h.gone

theorem lists_undo (s : Log) : s.undo.done = s.done ∧ s.undo.undone = s.undone ∧
    s.undo.cleared = s.cleared := by
  unfold Log.undo
  split <;> exact ⟨rfl, rfl, rfl⟩

theorem lists_redo (s : Log) : s.redo.done = s.done ∧ s.redo.undone = s.undone ∧
    s.redo.cleared = s.cleared := by
  unfold Log.redo
  split
  · exact ⟨rfl, rfl, rfl⟩
  · split <;> exact ⟨rfl, rfl, rfl⟩

theorem Sound.record (h : Sound s) (hcleared : s.cleared ≤ s.recorded) (label : String)
    (replays : Bool) : Sound (s.record limit label replays) := by
  refine ⟨fun e _ => List.not_mem_nil, fun e he => ?_⟩
  obtain he | he := he
  · obtain he | he := List.mem_append.1 (mem_of_mem_sliceLast he)
    · exact h.gone e (.inl he)
    · obtain rfl := List.mem_singleton.1 he
      exact hcleared
  · exact absurd he List.not_mem_nil

/-- **An inverse that is answered** leaves the log sound exactly where its
entry is nowhere else in it and was not cleared. -/
theorem sound_inverse_iff (h : Sound s) (e : HistoryEntry) :
    Sound (s.answered (.inverse e)) ↔
      (e.replays = true → e ∉ s.done.dropLast ∧ s.cleared ≤ e.recordedAt) := by
  have hbelow : ∀ f ∈ s.done.dropLast, f ∈ s.done := fun f hf => (List.dropLast_sublist _).subset hf
  constructor
  · intro hafter hreplays
    have hmem : e ∈ (s.answered (.inverse e)).undone := by
      show e ∈ if e.replays then s.undone ++ [e] else []
      rw [if_pos hreplays]
      exact List.mem_append_right _ List.mem_cons_self
    exact ⟨fun hdone => hafter.apart e hdone hmem, hafter.gone e (.inr hmem)⟩
  · intro hentry
    have hundone : ∀ f, f ∈ (s.answered (.inverse e)).undone →
        f ∈ s.undone ∨ f = e ∧ e.replays = true := by
      intro f hf
      change f ∈ (if e.replays then s.undone ++ [e] else []) at hf
      split at hf
      · next hreplays =>
        obtain hf | hf := List.mem_append.1 hf
        · exact .inl hf
        · exact .inr ⟨List.mem_singleton.1 hf, hreplays⟩
      · simp at hf
    refine ⟨fun f hf hmem => ?_, fun f hf => ?_⟩
    · obtain hmem | ⟨rfl, hreplays⟩ := hundone f hmem
      · exact h.apart f (hbelow f hf) hmem
      · exact (hentry hreplays).1 hf
    · obtain hf | hf := hf
      · exact h.gone f (.inl (hbelow f hf))
      · obtain hf | ⟨rfl, hreplays⟩ := hundone f hf
        · exact h.gone f (.inr hf)
        · exact (hentry hreplays).2

/-- **So does a replay** whose entry is not among those still undone. -/
theorem sound_replay_iff (h : Sound s) (e : HistoryEntry) :
    Sound (s.answered (.replay e)) ↔ e ∉ s.undone.dropLast ∧ s.cleared ≤ e.recordedAt := by
  have hmem : e ∈ (s.answered (.replay e)).done := List.mem_append_right _ List.mem_cons_self
  constructor
  · intro hafter
    exact ⟨hafter.apart e hmem, hafter.gone e (.inl hmem)⟩
  · rintro ⟨hbelow, hcleared⟩
    refine ⟨fun f hf hundone => ?_, fun f hf => ?_⟩
    · obtain hf | hf := List.mem_append.1 hf
      · exact h.apart f hf ((List.dropLast_sublist _).subset hundone)
      · obtain rfl := List.mem_singleton.1 hf
        exact hbelow hundone
    · obtain hf | hf := hf
      · obtain hf | hf := List.mem_append.1 hf
        · exact h.gone f (.inl hf)
        · obtain rfl := List.mem_singleton.1 hf
          exact hcleared
      · exact h.gone f (.inr ((List.dropLast_sublist _).subset hf))

/-- What an inverse that is answered takes off the done list is its own entry,
exactly where nothing else is on top. -/
theorem leaves_inverse_iff (e : HistoryEntry) :
    (∀ f ∈ s.done, f ∉ s.done.dropLast → f = e) ↔
      ∀ f, s.done.getLast? = some f → f ≠ e → f ∈ s.done.dropLast := by
  constructor
  · intro h f hf hne
    by_contra hdropped
    exact hne (h f (List.mem_of_getLast? hf) hdropped)
  · intro h f hf hdropped
    by_contra hne
    have hlast : s.done.getLast? = some f := by
      by_contra hother
      exact hdropped (mem_dropLast_of_ne hf hother)
    exact hdropped (h f hlast hne)

theorem faithful_of_done {a : Step} (hundo : a ≠ .undo)
    (hdone : ∀ e ∈ s.done, e ∈ (step limit s a).done) : Faithful limit s a :=
  ⟨fun e he hleft => absurd (hdone e he) hleft, fun h => absurd h hundo⟩

theorem resolve_of_none {i : ℕ} (hcall : s.calls[i]? = none) : step limit s (.resolve i) = s := by
  show s.resolve i = _
  unfold Log.resolve
  rw [hcall]

theorem resolve_of_some {i : ℕ} {call : Call} (hcall : s.calls[i]? = some call) :
    step limit s (.resolve i) = { s.answered call with calls := s.calls.eraseIdx i } := by
  show s.resolve i = _
  unfold Log.resolve
  rw [hcall]

theorem sound_resolve_iff {i : ℕ} {call : Call} (hcall : s.calls[i]? = some call) :
    Sound (step limit s (.resolve i)) ↔ Sound (s.answered call) := by
  rw [resolve_of_some hcall]
  exact ⟨fun hs => hs.of_lists rfl rfl rfl, fun hs => hs.of_lists rfl rfl rfl⟩

/-- **An inverse that is answered** is as it should be where it takes its own
entry off. -/
theorem faithful_inverse_iff {i : ℕ} {e : HistoryEntry} (hcall : s.calls[i]? = some (.inverse e)) :
    Faithful limit s (.resolve i) ↔ ∀ f ∈ s.done, f ∉ s.done.dropLast → f = e := by
  have hdone : (step limit s (.resolve i)).done = (s.answered (.inverse e)).done := by
    rw [resolve_of_some hcall]
  constructor
  · intro hf f hmem hleft
    obtain ⟨j, hj, hcall'⟩ | ⟨label, replays, hrecord⟩ | hclear :=
      hf.leaves f hmem (by rw [hdone]; exact hleft)
    · obtain rfl := Step.resolve.inj hj
      rw [hcall] at hcall'
      exact (Call.inverse.inj (Option.some.inj hcall')).symm
    · simp at hrecord
    · simp at hclear
  · intro hf
    refine ⟨fun f hmem hleft => .inl ⟨i, rfl, ?_⟩, fun h => absurd h (by simp)⟩
    rw [hdone] at hleft
    rw [hcall, hf f hmem hleft]

/-- **A replay that is answered** takes nothing off. -/
theorem faithful_replay {i : ℕ} {e : HistoryEntry} (hcall : s.calls[i]? = some (.replay e)) :
    Faithful limit s (.resolve i) := by
  refine faithful_of_done (by simp) fun f hf => ?_
  rw [resolve_of_some hcall]
  exact List.mem_append_left _ hf

/-- An answer is as it should be, and leaves a sound log, exactly where it comes
at its time. -/
theorem good_resolve_iff (h : Sound s) (i : ℕ) :
    Faithful limit s (.resolve i) ∧ Sound (step limit s (.resolve i)) ↔ InTime s (.resolve i) := by
  cases hcall : s.calls[i]? with
  | none =>
    refine iff_of_true ⟨faithful_of_done (by simp) fun e he => ?_, ?_⟩ ?_
    · rwa [resolve_of_none hcall]
    · rwa [resolve_of_none hcall]
    · exact ⟨fun e he => absurd (hcall.symm.trans he).symm (Option.some_ne_none _),
        fun e he => absurd (hcall.symm.trans he).symm (Option.some_ne_none _)⟩
  | some call =>
    rw [sound_resolve_iff hcall]
    cases call with
    | inverse e =>
      rw [faithful_inverse_iff hcall, sound_inverse_iff h, leaves_inverse_iff]
      constructor
      · intro htop
        refine ⟨fun e' he' => ?_, fun e' he' => absurd (Option.some.inj (hcall.symm.trans he'))
          (by simp)⟩
        obtain rfl := Call.inverse.inj (Option.some.inj (hcall.symm.trans he'))
        exact htop
      · exact fun htime => htime.1 e hcall
    | replay e =>
      rw [sound_replay_iff h]
      constructor
      · rintro ⟨-, hentry⟩
        refine ⟨fun e' he' => absurd (Option.some.inj (hcall.symm.trans he')) (by simp),
          fun e' he' => ?_⟩
        obtain rfl := Call.replay.inj (Option.some.inj (hcall.symm.trans he'))
        exact hentry
      · exact fun htime => ⟨faithful_replay hcall, htime.2 e hcall⟩

/-- **A step is as it should be, and leaves a sound log, exactly where it comes
at its time.** -/
theorem good_iff_inTime (h : Sound s) (hcleared : s.cleared ≤ s.recorded) (a : Step) :
    Faithful limit s a ∧ Sound (step limit s a) ↔ InTime s a := by
  cases a with
  | record label replays =>
    exact iff_of_true ⟨⟨fun _ _ _ => .inr (.inl ⟨label, replays, rfl⟩), fun h => absurd h (by simp)⟩,
      h.record hcleared label replays⟩ trivial
  | undo =>
    obtain ⟨hdone, hundone, hkept⟩ := lists_undo s
    constructor
    · rintro ⟨hfaithful, -⟩
      exact hfaithful.once rfl
    · intro htime
      refine ⟨⟨fun e he hleft => absurd ?_ hleft, fun _ => htime⟩, h.of_lists hdone hundone hkept⟩
      show e ∈ s.undo.done
      rwa [hdone]
  | redo =>
    obtain ⟨hdone, hundone, hkept⟩ := lists_redo s
    refine iff_of_true ⟨faithful_of_done (by simp) fun e he => ?_, h.of_lists hdone hundone hkept⟩
      trivial
    show e ∈ s.redo.done
    rwa [hdone]
  | clear =>
    refine iff_of_true ⟨⟨fun _ _ _ => .inr (.inr rfl), fun h => absurd h (by simp)⟩, ?_⟩ trivial
    exact ⟨fun e he => absurd he List.not_mem_nil,
      fun e he => he.elim (absurd · List.not_mem_nil) (absurd · List.not_mem_nil)⟩
  | resolve i => exact good_resolve_iff h i
  | reject i =>
    exact iff_of_true ⟨faithful_of_done (by simp) fun e he => he, h.of_lists rfl rfl rfl⟩ trivial

end Steps

/-! ## Whole runs -/

theorem sound_createHistory : Sound createHistory :=
  ⟨fun _ he => absurd he List.not_mem_nil,
    fun _ he => he.elim (absurd · List.not_mem_nil) (absurd · List.not_mem_nil)⟩

/-- **A log survives a run exactly where every step comes at its time.** -/
theorem survives_iff (limit : ℕ) (run : List Step) :
    Survives limit run ↔ Runs.Throughout (step limit) InTime createHistory run := by
  have hmay : Runs.Throughout (step limit) (fun _ _ => True) createHistory run :=
    Runs.throughout_of_forall (fun _ _ => trivial) _ _
  have hbefore : (∀ before, before <+: run → Sound (Runs.run (step limit) createHistory before)) ↔
      Runs.Throughout (step limit) (fun s a => Sound (step limit s a)) createHistory run :=
    Runs.forall_prefix_iff (I := fun _ => True) (fun _ _ _ _ _ => trivial)
      (fun _ _ _ _ => Iff.rfl) hmay trivial sound_createHistory
  unfold Survives
  rw [hbefore, and_comm, ← Runs.throughout_and]
  refine Runs.throughout_congr_of_ok (I := fun s => Sound s ∧ s.cleared ≤ s.recorded)
    (fun s a hgood hinv => ⟨hgood.2, cleared_step hinv.2 a⟩)
    (fun s a hinv => good_iff_inTime hinv.1 hinv.2 a) ⟨sound_createHistory, le_rfl⟩

/-- **A record that comes while an undo is under way** falls to it, and the
entry that was undone is both done and undone. -/
theorem record_lost : ¬ ∀ limit run, Survives limit run := by
  intro h
  have hsound := (h historyLimit [.record "Rename" true, .undo, .record "Resize" true,
    .resolve 0]).1 _ List.prefix_rfl
  exact hsound.apart ⟨0, "Rename", true⟩ (by decide) (by decide)

end Optionia.Editor.History
