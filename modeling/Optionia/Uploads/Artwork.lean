import Mathlib.Data.List.Rotate
import Optionia.Uploads.Effects
/-!
# The artwork of an order that stands

For every token an order recorded, as long as the first that recorded it has
not been deleted, the row should be there and its file. It is wherever a run
leads in which no checkout is the first to record a token whose upload is gone
or going, no question which order refers to a token fails where one does, no
sweep takes its cutoff with a file it does not know that a row names, and no
order that is deleted finds unclaimed, or its own, what an earlier one
recorded (`artwork_kept`).
-/

namespace Optionia.Uploads

open Runs Calls.System

variable {input : Input} {data data' : Data} {phase : Phase} {upload : Upload} {line : Line}
  {cleaner : Cleaner} {token orderId name : ℕ} {s : State} {a : Action}

/-! ## What is asked -/

/-- A cleaner is about to delete the upload of a token. -/
def Phase.deletes (token : ℕ) : Phase → Bool
  | .unlinking _ upload _ => upload.token = token
  | .dropping _ other _ => other = token
  | _ => false

/-- A row names a file, or is about to. -/
def Data.Awaits (data : Data) (name : ℕ) : Prop :=
  name ∈ data.pending ∨ ∃ upload ∈ data.uploads, upload.storedName = name

/-- **What a statement needs**, at the time it happens and with what is under
way: that a token which is recorded first has its upload, and no cleaner is
deleting it; that a question which fails is of no token that stands; that a
file which a sweep does not know and which a row names, or is about to, is
within the grace period; and that what an order finds unclaimed, or its own, is
of no token that stands without it. -/
def Phase.Careful (input : Input) (calls : List (Request × Phase)) (data : Data) : Phase → Prop
  | .recording line =>
    input.failed = false → ∀ token ∈ line.tokens, data.firstOf token = none →
      data.Holds token ∧ ∀ call ∈ calls, call.2.deletes token = false
  | .asking _ (upload :: _) => input.failed = true → data.stands upload.token = false
  | .timing entries known =>
    ∀ file ∈ data.files, file.name ∈ entries → file.name ∉ known → data.Awaits file.name →
      data.now - graceSeconds ≤ file.modified
  | .finding orderId _ (token :: _) =>
    input.failed = false → ∀ upload ∈ data.find token, upload.belongsTo orderId = true →
      data.stands token = false
  | _ => True

/-- What is asked of what happens. -/
def Careful (s : State) : Action → Prop
  | .start _ => True
  | .advance i input =>
    ∀ call ∈ s.calls[i]?, call.2.Careful input s.calls (s.data.after input.waited)

instance (data : Data) (name : ℕ) : Decidable (data.Awaits name) :=
  inferInstanceAs (Decidable (_ ∨ ∃ upload ∈ data.uploads, upload.storedName = name))

instance decidablePhaseCareful (calls : List (Request × Phase)) (data : Data) (phase : Phase) :
    Decidable (phase.Careful input calls data) := by
  unfold Phase.Careful
  split <;> infer_instance

instance decidableCareful (s : State) : ∀ a, Decidable (Careful s a)
  | .start _ => isTrue trivial
  | .advance i _ => inferInstanceAs (Decidable (∀ call ∈ s.calls[i]?, _))

/-! ## What others see of a statement -/

/-- **What one state is after another's statement.** -/
structure Data.Follows (data data' : Data) : Prop where
  fresh : data.fresh ≤ data'.fresh
  deleted : ∀ orderId ∈ data.deleted, orderId ∈ data'.deleted
  pending : ∀ name ∈ data'.pending, name ∈ data.pending ∨ data.fresh ≤ name
  uploads : ∀ upload ∈ data'.uploads,
    (∃ old ∈ data.uploads, old.token = upload.token ∧ old.storedName = upload.storedName) ∨
      upload.storedName ∈ data.pending
  files : ∀ file ∈ data'.files, file ∈ data.files ∨ data.fresh ≤ file.name

theorem Data.Follows.of_sub (hfresh : data.fresh ≤ data'.fresh)
    (hdeleted : ∀ orderId ∈ data.deleted, orderId ∈ data'.deleted)
    (hpending : ∀ name ∈ data'.pending, name ∈ data.pending)
    (huploads : ∀ upload ∈ data'.uploads, upload ∈ data.uploads)
    (hfiles : ∀ file ∈ data'.files, file ∈ data.files) : data.Follows data' where
  fresh := hfresh
  deleted := hdeleted
  pending n hn := .inl (hpending n hn)
  uploads u hu := .inl ⟨u, huploads u hu, rfl, rfl⟩
  files f hf := .inl (hfiles f hf)

theorem Data.Follows.refl (data : Data) : data.Follows data :=
  .of_sub (Nat.le_refl _) (fun _ h => h) (fun _ h => h) (fun _ h => h) fun _ h => h

theorem follows_deleteFile (data : Data) (failed : Bool) (name : ℕ) :
    data.Follows (data.deleteFile failed name) := by
  unfold Data.deleteFile
  split
  · exact .refl data
  · exact .of_sub (Nat.le_refl _) (fun _ h => h) (fun _ h => h) (fun _ h => h)
      fun f hf => (List.mem_filter.1 hf).1

/-- **Every effect is one that others can go on after.** -/
theorem Effect.follows (heffect : Effect input data phase data') (hpends : phase.Pends data) :
    data.Follows data' := by
  cases heffect with
  | nothing => exact .refl data
  | store =>
    refine ⟨Nat.le_succ _, fun _ h => h, fun n hn => ?_, fun u hu => .inl ⟨u, hu, rfl, rfl⟩,
      fun f hf => ?_⟩
    · rcases List.mem_cons.1 hn with rfl | hn
      · exact .inr (Nat.le_refl _)
      · exact .inl hn
    · rcases List.mem_cons.1 hf with rfl | hf
      · exact .inr (Nat.le_refl _)
      · exact .inl hf
  | create hcreate =>
    obtain rfl := create_spec hcreate
    refine ⟨Nat.le_succ _, fun _ h => h, fun n hn => .inl (List.mem_filter.1 hn).1,
      fun u hu => ?_, fun f hf => .inl hf⟩
    rcases List.mem_append.1 hu with hu | hu
    · exact .inl ⟨u, hu, rfl, rfl⟩
    · obtain rfl := List.mem_singleton.1 hu
      exact .inr (hpends _ rfl)
  | refuse =>
    exact .of_sub (Nat.le_refl _) (fun _ h => h) (fun n hn => (List.mem_filter.1 hn).1)
      (fun _ h => h) fun _ h => h
  | discard => exact follows_deleteFile data _ _
  | record => exact .of_sub (Nat.le_refl _) (fun _ h => h) (fun _ h => h) (fun _ h => h) fun _ h => h
  | claim _ token orderId =>
    obtain hsame | hclaimed := claim_spec data input.failed token orderId
    · rw [hsame]
      exact .refl data
    · rw [hclaimed]
      refine ⟨Nat.le_refl _, fun _ h => h, fun n hn => .inl hn, fun u hu => ?_, fun f hf => .inl hf⟩
      obtain ⟨old, hold, rfl⟩ := List.mem_map.1 hu
      obtain ⟨htoken, hname⟩ := claimedFor_keeps token orderId old
      exact .inl ⟨old, hold, htoken.symm, hname.symm⟩
  | unlink => exact follows_deleteFile data _ _
  | sweep => exact follows_deleteFile data _ _
  | drop =>
    unfold Data.delete
    split
    · exact .refl data
    · exact .of_sub (Nat.le_refl _) (fun _ h => h) (fun _ h => h)
        (fun u hu => (List.mem_filter.1 hu).1) fun _ h => h
  | condemn =>
    exact .of_sub (Nat.le_refl _) (fun _ h => List.mem_cons_of_mem _ h) (fun _ h => h)
      (fun _ h => h) fun _ h => h
  | empty =>
    unfold Data.deleteItems
    split
    · exact .refl data
    · exact .of_sub (Nat.le_refl _) (fun _ h => h) (fun _ h => h) (fun _ h => h) fun _ h => h

/-- What no row of one state names, or is about to, none of the next does,
unless it was never drawn. -/
theorem Data.Follows.awaits (h : data.Follows data') (hname : name < data.fresh)
    (hawaits : data'.Awaits name) : data.Awaits name := by
  rcases hawaits with hpending | ⟨upload, hupload, rfl⟩
  · rcases h.pending name hpending with hpending | hfresh
    · exact .inl hpending
    · omega
  · rcases h.uploads upload hupload with ⟨old, hold, -, hold'⟩ | hpending
    · exact .inr ⟨old, hold, hold'⟩
    · exact .inl hpending

theorem stands_iff : data.stands token = true ↔
    ∃ orderId, data.firstOf token = some orderId ∧ orderId ∉ data.deleted := by
  unfold Data.stands
  rw [Option.any_eq_true]
  exact exists_congr fun orderId => and_congr_right fun _ => decide_eq_true_iff

/-- **A token comes to stand only where a line that records it first is
written.** -/
theorem Effect.stands (heffect : Effect input data phase data')
    (hstands : data'.stands token = true) :
    data.stands token = true ∨ ∃ line, phase = .recording line ∧ input.failed = false ∧
      token ∈ line.tokens ∧ data.firstOf token = none := by
  cases heffect with
  | nothing => exact .inl hstands
  | store => exact .inl hstands
  | create hcreate =>
    obtain rfl := create_spec hcreate
    exact .inl hstands
  | refuse => exact .inl hstands
  | discard =>
    unfold Data.deleteFile at hstands
    split at hstands <;> exact .inl hstands
  | record line hfailed =>
    by_cases htoken : token ∈ line.tokens
    · cases hfirst : data.firstOf token with
      | none => exact .inr ⟨line, rfl, hfailed, htoken, rfl⟩
      | some orderId =>
        have hsame : (data.record line).firstOf token = data.firstOf token := by
          obtain ⟨first, hfind, _⟩ := Option.map_eq_some_iff.1 hfirst
          unfold Data.firstOf Data.record
          dsimp only
          rw [List.find?_append, hfind, Option.some_or]
        left
        unfold Data.stands at hstands ⊢
        rw [hsame] at hstands
        exact hstands
    · have hsame : (data.record line).firstOf token = data.firstOf token := by
        unfold Data.firstOf Data.record
        dsimp only
        rw [List.find?_append, List.find?_cons_of_neg (by simpa using htoken), List.find?_nil,
          Option.or_none]
      left
      unfold Data.stands at hstands ⊢
      rw [hsame] at hstands
      exact hstands
  | claim _ other orderId =>
    obtain hsame | hclaimed := claim_spec data input.failed other orderId
    · rw [hsame] at hstands
      exact .inl hstands
    · rw [hclaimed] at hstands
      exact .inl hstands
  | unlink =>
    unfold Data.deleteFile at hstands
    split at hstands <;> exact .inl hstands
  | sweep =>
    unfold Data.deleteFile at hstands
    split at hstands <;> exact .inl hstands
  | drop =>
    unfold Data.delete at hstands
    split at hstands <;> exact .inl hstands
  | condemn orderId =>
    obtain ⟨first, hfirst, hnot⟩ := stands_iff.1 hstands
    exact .inl (stands_iff.2 ⟨first, hfirst, fun hmem => hnot (List.mem_cons_of_mem _ hmem)⟩)
  | empty =>
    unfold Data.deleteItems at hstands
    split at hstands <;> exact .inl hstands

/-! ## What a request knows -/

/-- A row as it was read: its name is of no other token. -/
def Data.Knows (data : Data) (upload : Upload) : Prop :=
  upload.storedName < data.fresh ∧ upload.storedName ∉ data.pending ∧
    ∀ other ∈ data.uploads, other.storedName = upload.storedName → other.token = upload.token

/-- What a cleaner goes on with. -/
def Cleaner.Sound (data : Data) : Cleaner → Prop
  | .expirer rows => ∀ upload ∈ rows, data.Knows upload
  | .retention orderId _ => orderId ∈ data.deleted

/-- **What a request knows of the store when it takes its next statement.** -/
def Phase.Sound (data : Data) : Phase → Prop
  | .discarding storedName => storedName < data.fresh ∧ ¬ data.Awaits storedName
  | .asking _ rows => ∀ upload ∈ rows, data.Knows upload
  | .repairing _ _ _ rows => ∀ upload ∈ rows, data.Knows upload
  | .unlinking _ upload cleaner =>
    data.Knows upload ∧ data.stands upload.token = false ∧ cleaner.Sound data
  | .dropping _ token cleaner => data.stands token = false ∧ cleaner.Sound data
  | .naming entries => ∀ entry ∈ entries, entry < data.fresh
  | .timing entries _ => ∀ entry ∈ entries, entry < data.fresh
  | .sweeping known cutoff _ entries =>
    (∀ entry ∈ entries, entry < data.fresh) ∧ ∀ file ∈ data.files, file.name ∈ entries →
      file.name ∉ known → data.Awaits file.name → cutoff ≤ file.modified
  | .finding orderId _ _ => orderId ∈ data.deleted
  | .emptying orderId => orderId ∈ data.deleted
  | _ => True

theorem Data.Knows.follows (h : data.Knows upload) (hfollows : data.Follows data') :
    data'.Knows upload := by
  obtain ⟨hdrawn, hnew, honly⟩ := h
  refine ⟨hdrawn.trans_le hfollows.fresh, fun hpending => ?_, fun other hother hname => ?_⟩
  · rcases hfollows.pending _ hpending with hpending | hfresh
    · exact hnew hpending
    · omega
  · rcases hfollows.uploads other hother with ⟨old, hold, htoken, hname'⟩ | hpending
    · rw [← htoken]
      exact honly old hold (hname'.trans hname)
    · rw [hname] at hpending
      exact absurd hpending hnew

theorem Cleaner.Sound.follows (h : cleaner.Sound data) (hfollows : data.Follows data') :
    cleaner.Sound data' := by
  cases cleaner with
  | expirer rows => exact fun u hu => (h u hu).follows hfollows
  | retention orderId tokens => exact hfollows.deleted orderId h

theorem Cleaner.Sound.next (h : cleaner.Sound data) (directory : Bool) :
    (cleaner.next directory).Sound data := by
  cases cleaner with
  | expirer rows => exact h
  | retention orderId tokens => exact h

/-- **What a request knows, another's statement leaves**, but for the token that
is recorded. -/
theorem Phase.Sound.follows (h : phase.Sound data) (hfollows : data.Follows data')
    (hstands : ∀ token, phase.deletes token = true → data.stands token = false →
      data'.stands token = false) : phase.Sound data' := by
  have hdrawn : ∀ {names : List ℕ}, (∀ n ∈ names, n < data.fresh) → ∀ n ∈ names, n < data'.fresh :=
    fun hnames n hn => (hnames n hn).trans_le hfollows.fresh
  cases phase with
  | creating sessionKey sizeBytes storedName => exact h
  | discarding storedName =>
    exact ⟨h.1.trans_le hfollows.fresh, fun hawaits => h.2 (hfollows.awaits h.1 hawaits)⟩
  | asking directory rows => exact fun u hu => (h u hu).follows hfollows
  | repairing directory token orderId rows => exact fun u hu => (h u hu).follows hfollows
  | unlinking directory upload cleaner =>
    exact ⟨h.1.follows hfollows, hstands _ (decide_eq_true rfl) h.2.1, h.2.2.follows hfollows⟩
  | dropping directory token cleaner =>
    exact ⟨hstands _ (decide_eq_true rfl) h.1, h.2.follows hfollows⟩
  | naming entries => exact hdrawn h
  | timing entries known => exact hdrawn h
  | sweeping known cutoff removed entries =>
    refine ⟨hdrawn h.1, fun file hfile hentry hknown hawaits => ?_⟩
    have hname := h.1 file.name hentry
    rcases hfollows.files file hfile with hfile | hfresh
    · exact h.2 file hfile hentry hknown (hfollows.awaits hname hawaits)
    · omega
  | finding orderId directory tokens => exact hfollows.deleted orderId h
  | emptying orderId => exact hfollows.deleted orderId h
  | storing sessionKey sizeBytes => exact h
  | recording line => exact h
  | claiming orderId tokens => exact h
  | expiring => exact h
  | scanning => exact h
  | releasing orderId => exact h
  | done => exact h

/-! ## What a statement leaves its request with -/

/-- Lines of orders that are not deleted are there. -/
def Data.Recorded (data : Data) : Prop :=
  ∀ line ∈ data.recorded, line.orderId ∉ data.deleted → line ∈ data.lines

theorem Data.Coherent.knows (h : data.Coherent) (hupload : upload ∈ data.uploads) :
    data.Knows upload := by
  refine ⟨h.nameDrawn upload hupload, fun hpending => h.pendingNew _ hpending upload hupload rfl,
    fun other hother hname => ?_⟩
  obtain rfl : other = upload := List.inj_on_of_nodup_map h.names hother hupload hname
  rfl

/-- **A question that is answered finds the order of a token that stands.** -/
theorem orderReferringTo_pos (hrecorded : data.Recorded) (hstands : data.stands token = true)
    (pick : ℕ) : 0 < data.orderReferringTo false pick token := by
  obtain ⟨orderId, hfirst, hnot⟩ := stands_iff.1 hstands
  obtain ⟨line, hfind, rfl⟩ := Option.map_eq_some_iff.1 hfirst
  have htoken : token ∈ line.tokens := by simpa using List.find?_some hfind
  have hline := hrecorded line (List.mem_of_find?_eq_some hfind) hnot
  have hmentions : line ∈ (data.lines.filter fun line => token ∈ line.mentions).rotate pick :=
    List.mem_rotate.2 (List.mem_filter.2 ⟨hline, decide_eq_true (line.sub token htoken)⟩)
  unfold Data.orderReferringTo
  rw [if_neg Bool.false_ne_true]
  obtain ⟨first, rest, hcons⟩ := List.exists_cons_of_ne_nil (List.ne_nil_of_mem hmentions)
  rw [hcons]
  exact first.pos

theorem not_awaits_of_sweepable {known entries : List ℕ} {cutoff removed entry : ℕ}
    (h : (Phase.sweeping known cutoff removed (entry :: entries)).Sound data)
    (hsweepable : data.isSweepable entry known cutoff = true) : ¬ data.Awaits entry := by
  intro hawaits
  unfold Data.isSweepable at hsweepable
  rw [Bool.and_eq_true, List.any_eq_true] at hsweepable
  obtain ⟨hknown, file, hfile, hold⟩ := hsweepable
  obtain ⟨rfl, hlt⟩ := of_decide_eq_true hold
  have hle := h.2 file hfile List.mem_cons_self (of_decide_eq_true hknown) hawaits
  omega

/-- What `find` answers is a row of the token. -/
theorem of_find (h : data.find token = some upload) :
    upload ∈ data.uploads ∧ upload.token = token :=
  ⟨List.mem_of_find?_eq_some h, by simpa using List.find?_some h⟩

/-- **What a statement leaves its request with is what it then knows.** -/
theorem sound_statementAt {calls : List (Request × Phase)} (hcoherent : data.Coherent)
    (hrecorded : data.Recorded) (hpends : phase.Pends data) (h : phase.Sound data)
    (hcareful : phase.Careful input calls data) :
    (statementAt input data phase).2.Sound (statementAt input data phase).1 := by
  have hfollows := (effect_statementAt input data phase).follows hpends
  -- No token comes to stand but where a line is recorded.
  have hstays : ∀ token, (∀ line, phase ≠ .recording line) → data.stands token = false →
      (statementAt input data phase).1.stands token = false := by
    intro token hphase hnot
    by_contra hstands
    rw [Bool.not_eq_false] at hstands
    obtain hbefore | ⟨line, rfl, -⟩ := (effect_statementAt input data phase).stands hstands
    · rw [hnot] at hbefore
      simp at hbefore
    · exact hphase line rfl
  cases phase with
  | storing sessionKey sizeBytes =>
    rw [statementAt]
    split <;> trivial
  | creating sessionKey sizeBytes storedName =>
    rw [statementAt]
    split
    · trivial
    · refine ⟨hcoherent.pendingDrawn storedName (hpends _ rfl), fun hawaits => ?_⟩
      rcases hawaits with hpending | ⟨upload, hupload, hname⟩
      · exact absurd rfl (of_decide_eq_true (List.mem_filter.1 hpending).2)
      · exact hcoherent.pendingNew storedName (hpends _ rfl) upload hupload hname
  | discarding storedName => trivial
  | recording line => trivial
  | claiming orderId tokens =>
    cases tokens with
    | nil => trivial
    | cons token tokens => trivial
  | expiring =>
    rw [statementAt]
    split
    · trivial
    · intro upload hupload
      unfold Data.expired at hupload
      have hmem := List.mem_mergeSort.1 (List.mem_of_mem_take hupload)
      exact hcoherent.knows (List.mem_filter.1 hmem).1
  | asking directory rows =>
    cases rows with
    | nil => trivial
    | cons upload rows =>
      obtain ⟨hupload, hrows⟩ := List.forall_mem_cons.1 h
      rw [statementAt]
      dsimp only
      split
      · exact hrows
      · next hnone =>
        refine ⟨hupload, ?_, hrows⟩
        cases hfailed : input.failed with
        | true => exact hcareful hfailed
        | false =>
          by_contra hstands
          rw [Bool.not_eq_false] at hstands
          rw [hfailed] at hnone
          exact hnone (orderReferringTo_pos hrecorded hstands input.pick)
  | repairing directory token orderId rows => exact fun u hu => (h u hu).follows hfollows
  | unlinking directory upload cleaner =>
    exact ⟨hstays _ (fun _ hline => Phase.noConfusion hline) h.2.1, h.2.2.follows hfollows⟩
  | dropping directory token cleaner => exact (h.2.follows hfollows).next directory
  | scanning =>
    rw [statementAt]
    split
    · trivial
    · intro entry hentry
      obtain ⟨file, hfile, rfl⟩ := List.mem_map.1 hentry
      exact hcoherent.fileDrawn file hfile
  | naming entries => exact h
  | timing entries known => exact ⟨h, hcareful⟩
  | sweeping known cutoff removed entries =>
    cases entries with
    | nil => trivial
    | cons entry entries =>
      have hrest : (Phase.sweeping known cutoff removed entries).Sound data :=
        ⟨fun e he => h.1 e (List.mem_cons_of_mem _ he),
          fun file hfile hentry => h.2 file hfile (List.mem_cons_of_mem _ hentry)⟩
      rw [statementAt]
      split
      · trivial
      · split
        · exact hrest.follows (follows_deleteFile data input.failed entry)
            fun _ hdeletes => absurd hdeletes Bool.false_ne_true
        · exact hrest
  | releasing orderId =>
    rw [statementAt]
    split
    · exact List.mem_cons_self
    · exact List.mem_cons_self
  | finding orderId directory tokens =>
    cases tokens with
    | nil => exact h
    | cons token tokens =>
      rw [statementAt]
      split
      · next found hfound =>
        split at hfound
        · simp at hfound
        · next hfailed =>
          obtain ⟨hmem, rfl⟩ := of_find hfound
          dsimp only
          split
          · next hbelongs =>
            exact ⟨hcoherent.knows hmem, hcareful (by simpa using hfailed) found hfound hbelongs, h⟩
          · exact h
      · exact h
  | emptying orderId => trivial
  | done => trivial

/-! ## What a statement leaves the artwork -/

theorem Data.Holds.of_sub (h : data.Holds token)
    (huploads : ∀ upload ∈ data.uploads, upload.token = token →
      ∃ upload' ∈ data'.uploads, upload'.token = token ∧ upload'.storedName = upload.storedName)
    (hfiles : ∀ upload ∈ data.uploads, upload.token = token → ∀ file ∈ data.files,
      file.name = upload.storedName → file ∈ data'.files) : data'.Holds token := by
  obtain ⟨upload, hupload, htoken, file, hfile, hname⟩ := h
  obtain ⟨upload', hupload', htoken', hname'⟩ := huploads upload hupload htoken
  exact ⟨upload', hupload', htoken', file, hfiles upload hupload htoken file hfile hname,
    hname.trans hname'.symm⟩

theorem Data.Holds.deleteFile (h : data.Holds token)
    (hname : ∀ upload ∈ data.uploads, upload.token = token → upload.storedName ≠ name)
    (failed : Bool) : (data.deleteFile failed name).Holds token := by
  refine h.of_sub (fun upload hupload htoken => ⟨upload, ?_, htoken, rfl⟩)
    fun upload hupload htoken file hfile heq => ?_
  · unfold Data.deleteFile
    split <;> exact hupload
  · exact mem_files_deleteFile (fun hsame => hname upload hupload htoken (heq.symm.trans hsame)) hfile

/-- **A statement that is as asked leaves the upload of every token that
stands.** -/
theorem Effect.holds {calls : List (Request × Phase)} (heffect : Effect input data phase data')
    (hphase : phase.Sound data) (hcareful : phase.Careful input calls data) (hkept : data.Kept)
    (hstands : data'.stands token = true) : data'.Holds token := by
  -- The upload was there, or the token is recorded first.
  have hheld : data.Holds token := by
    obtain hbefore | ⟨line, rfl, hfailed, htoken, hfirst⟩ := heffect.stands hstands
    · exact hkept token hbefore
    · exact (hcareful hfailed token htoken hfirst).1
  have hsame : ∀ data' : Data, data'.uploads = data.uploads → data'.files = data.files →
      data'.Holds token := by
    intro data' huploads hfiles
    unfold Data.Holds
    rw [huploads, hfiles]
    exact hheld
  cases heffect with
  | nothing => exact hheld
  | store =>
    exact hheld.of_sub (fun u hu ht => ⟨u, hu, ht, rfl⟩)
      fun _ _ _ file hfile _ => List.mem_cons_of_mem _ hfile
  | create hcreate =>
    obtain rfl := create_spec hcreate
    exact hheld.of_sub (fun u hu ht => ⟨u, List.mem_append_left _ hu, ht, rfl⟩)
      fun _ _ _ file hfile _ => hfile
  | refuse => exact hsame _ rfl rfl
  | discard storedName =>
    exact hheld.deleteFile (fun u hu _ hname => hphase.2 (.inr ⟨u, hu, hname⟩)) _
  | record => exact hsame _ rfl rfl
  | claim _ other orderId =>
    obtain hnone | hclaimed := claim_spec data input.failed other orderId
    · rw [hnone]
      exact hheld
    · rw [hclaimed]
      refine hheld.of_sub (fun u hu ht => ⟨_, List.mem_map_of_mem hu, ?_, ?_⟩)
        fun _ _ _ file hfile _ => hfile
      · exact (claimedFor_keeps other orderId u).1.trans ht
      · exact (claimedFor_keeps other orderId u).2
  | unlink directory upload cleaner =>
    -- A row of the same name has the same token, and that does not stand.
    refine hheld.deleteFile (fun u hu ht hname => ?_) _
    have hbefore : data.stands upload.token = true := by
      rw [← hphase.1.2.2 u hu hname, ht]
      obtain hbefore | ⟨_, habsurd, -⟩ := (Effect.unlink directory upload cleaner).stands hstands
      · exact hbefore
      · exact absurd habsurd nofun
    rw [hphase.2.1] at hbefore
    exact Bool.false_ne_true hbefore
  | sweep hsweepable =>
    have hnone := not_awaits_of_sweepable hphase hsweepable
    exact hheld.deleteFile (fun u hu _ hname => hnone (.inr ⟨u, hu, hname⟩)) _
  | drop directory other cleaner =>
    have hne : token ≠ other := by
      rintro rfl
      obtain hbefore | ⟨_, habsurd, -⟩ := (Effect.drop directory token cleaner).stands hstands
      · rw [hphase.1] at hbefore
        simp at hbefore
      · exact absurd habsurd nofun
    unfold Data.delete
    split
    · exact hheld
    · refine hheld.of_sub (fun u hu ht => ⟨u, List.mem_filter.2 ⟨hu, ?_⟩, ht, rfl⟩)
        fun _ _ _ file hfile _ => hfile
      rw [ht]
      exact decide_eq_true hne
  | condemn => exact hsame _ rfl rfl
  | empty =>
    unfold Data.deleteItems
    split
    · exact hheld
    · exact hsame _ rfl rfl

theorem Effect.recorded (heffect : Effect input data phase data') (hphase : phase.Sound data)
    (h : data.Recorded) : data'.Recorded := by
  cases heffect with
  | nothing => exact h
  | store => exact h
  | create hcreate =>
    obtain rfl := create_spec hcreate
    exact h
  | refuse => exact h
  | discard =>
    unfold Data.deleteFile
    split <;> exact h
  | record line =>
    intro old hold hnot
    rcases List.mem_append.1 hold with hold | hnew
    · exact List.mem_append_left _ (h old hold hnot)
    · exact List.mem_append_right _ hnew
  | claim _ other orderId =>
    obtain hsame | hclaimed := claim_spec data input.failed other orderId
    · rw [hsame]
      exact h
    · rw [hclaimed]
      exact h
  | unlink =>
    unfold Data.deleteFile
    split <;> exact h
  | sweep =>
    unfold Data.deleteFile
    split <;> exact h
  | drop =>
    unfold Data.delete
    split <;> exact h
  | condemn => exact fun line hline hnot => h line hline fun hmem => hnot (List.mem_cons_of_mem _ hmem)
  | empty orderId =>
    unfold Data.deleteItems
    split
    · exact h
    · intro line hline hnot
      refine List.mem_filter.2 ⟨h line hline hnot, decide_eq_true fun heq => ?_⟩
      rw [heq] at hnot
      exact hnot hphase

/-! ## Runs -/

/-- **What holds wherever a run leads that is as asked.** -/
structure Invariant (s : State) : Prop where
  drawn : Drawn s
  recorded : s.data.Recorded
  kept : s.data.Kept
  sound : ∀ (i : ℕ) request phase, s.calls[i]? = some (request, phase) → phase.Sound s.data

theorem sound_after (waited : ℕ) (h : phase.Sound data) : phase.Sound (data.after waited) := by
  cases phase with
  | unlinking directory upload cleaner => exact ⟨h.1, h.2.1, by cases cleaner <;> exact h.2.2⟩
  | dropping directory token cleaner => exact ⟨h.1, by cases cleaner <;> exact h.2⟩
  | _ => exact h

/-- **What happens, as asked, keeps the invariant.** -/
theorem Invariant.step (h : Invariant s) (hcareful : Careful s a) :
    Invariant (uploads.step s a) := by
  -- Of the request that takes its next statement.
  have hbefore : ∀ {i : ℕ} {input request phase}, a = .advance i input →
      s.calls[i]? = some (request, phase) →
      phase.Sound (s.data.after input.waited) ∧
        phase.Careful input s.calls (s.data.after input.waited) ∧
        Effect input (s.data.after input.waited) phase (statement input s.data phase).1 := by
    rintro i input request phase rfl hcall
    exact ⟨sound_after _ (h.sound i request phase hcall), hcareful (request, phase) hcall,
      effect_statementAt input _ phase⟩
  refine ⟨h.drawn.step a, ?_, ?_, ?_⟩
  · exact data_step h.recorded fun i input request phase ha hcall =>
      (hbefore ha hcall).2.2.recorded (hbefore ha hcall).1 h.recorded
  · exact data_step h.kept fun i input request phase ha hcall token hstands =>
      (hbefore ha hcall).2.2.holds (hbefore ha hcall).1 (hbefore ha hcall).2.1 h.kept hstands
  · refine forall_calls_of (K := fun data (_ : Request) (phase : Phase) => phase.Sound data)
      (fun request phase _ henter => ?_) (fun i input request phase ha hcall _ => ?_)
      (fun i input request phase ha hcall j request' phase' hcall' _ hsound => ?_) h.sound
    · obtain rfl := Option.some.inj henter
      cases request <;> trivial
    · exact sound_statementAt (h.drawn.coherent.after input.waited) h.recorded
        (h.drawn.pends i request phase hcall) (hbefore ha hcall).1 (hbefore ha hcall).2.1
    · obtain ⟨hphase, hasked, heffect⟩ := hbefore ha hcall
      refine (sound_after input.waited hsound).follows
        (heffect.follows (h.drawn.pends i request phase hcall)) fun token hdeletes hnot => ?_
      by_contra hstands
      rw [Bool.not_eq_false] at hstands
      obtain hstood | ⟨line, rfl, hfailed, htoken, hfirst⟩ := heffect.stands hstands
      · rw [hnot] at hstood
        exact Bool.false_ne_true hstood
      · -- No cleaner is deleting a token that is recorded first.
        have hnone := (hasked hfailed token htoken hfirst).2 (request', phase')
          (List.mem_of_getElem? hcall')
        rw [hdeletes] at hnone
        exact Bool.false_ne_true hnone.symm

theorem invariant_opening : Invariant opening where
  drawn := drawn_opening
  recorded _ hline _ := absurd hline List.not_mem_nil
  kept _ hstands := absurd hstands Bool.false_ne_true
  sound _ _ _ hcall := nomatch hcall

/-- **The artwork of an order that stands is there**, in every state a run leads
to whose statements are as asked; and whatever a run does, a row that is an
order's stays that order's. -/
theorem artwork_kept (actions : List Action) :
    (Throughout uploads.step Careful opening actions →
      ∀ before, before <+: actions → (run uploads.step opening before).data.Kept) ∧
    ∀ before, before <+: actions → ∀ upload ∈ (run uploads.step opening before).data.uploads,
      ∀ orderId, upload.orderId = some orderId →
        ∀ later ∈ (run uploads.step opening actions).data.uploads,
          later.token = upload.token → later.orderId = some orderId := by
  constructor
  · intro h before hbefore
    have hinvariant : Invariant (run uploads.step opening before) :=
      invariant (fun _ _ hcareful hs => Invariant.step hs hcareful) (h.of_prefix hbefore)
        invariant_opening
    exact hinvariant.kept
  · rintro before ⟨rest, rfl⟩ upload hupload orderId howner later hlater htoken
    have hdrawn : Drawn (run uploads.step opening before) :=
      invariant_of_forall (fun _ a hs => hs.step a) drawn_opening before
    rw [run_append] at hlater
    have howned := ownedBy_run (hdrawn.coherent.ownedBy hupload howner) rest
    exact howned.2 later hlater htoken

/-- A line of an order, whose one selection is a token. -/
def artwork (orderId token : ℕ) (h : 0 < orderId) : Line :=
  ⟨orderId, [token], [token], h, fun _ ht => ht⟩

/-- A file is uploaded, an order records its token, and the claim fails; three
days later the expirer asks which order refers to it. -/
def paidUnclaimed (asking : Input) : List Action :=
  [.start (.upload "visitor" 5000), .advance 0 {}, .advance 0 {},
    .start (.checkout (artwork 7 1 (by decide))), .advance 1 {}, .advance 1 { failed := true },
    .start .expire, .advance 2 { waited := 270000 }, .advance 2 asking, .advance 2 {},
    .advance 2 {}]

/-- Where the question is answered, the row is claimed for the order. -/
theorem artwork_kept_paid : (run uploads.step opening (paidUnclaimed {})).data.Holds 1 :=
  (artwork_kept (paidUnclaimed {})).1 (by decide +kernel) _ (List.prefix_refl _) 1
    (by decide +kernel)

/-- Where it fails, the file and the row of a paid order's artwork are deleted. -/
theorem artwork_lost_unanswered :
    ¬ ∀ actions : List Action, (run uploads.step opening actions).data.Kept := by
  intro h
  have hheld := h (paidUnclaimed { failed := true }) 1 (by decide +kernel)
  revert hheld
  decide +kernel

end Optionia.Uploads
