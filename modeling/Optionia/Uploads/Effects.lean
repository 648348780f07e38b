import Optionia.Uploads.Cleaners
/-!
# What a statement does to uploads

Every statement is one of a dozen effects (`effect_statementAt`), and what the
store keeps of uploads hangs together through all of them: no token and no
name is twice, and what is drawn was never drawn before (`Effect.coherent`). An
order that claimed a row has it for as long as there is the row
(`Effect.owned`).
-/

namespace Optionia.Uploads

open Runs Calls.System

variable {input : Input} {data data' : Data} {phase : Phase} {upload : Upload}
  {token orderId name : ℕ} {s : State}

/-! ## Effects -/

/-- **What a statement can do.** -/
inductive Effect (input : Input) (data : Data) : Phase → Data → Prop where
  | nothing (phase : Phase) : Effect input data phase data
  | store (sessionKey : String) (sizeBytes : ℕ) :
    Effect input data (.storing sessionKey sizeBytes) (data.store input.modified)
  | create {sessionKey : String} {sizeBytes storedName : ℕ} {data' : Data}
    (h : data.create sessionKey sizeBytes storedName = some data') :
    Effect input data (.creating sessionKey sizeBytes storedName) data'
  | refuse (sessionKey : String) (sizeBytes storedName : ℕ) :
    Effect input data (.creating sessionKey sizeBytes storedName) (data.refuse storedName)
  | discard (storedName : ℕ) :
    Effect input data (.discarding storedName) (data.deleteFile input.failed storedName)
  | record (line : Line) (h : input.failed = false) :
    Effect input data (.recording line) (data.record line)
  | claim (phase : Phase) (token orderId : ℕ) :
    Effect input data phase (data.claim input.failed token orderId).1
  | unlink (directory : Bool) (upload : Upload) (cleaner : Cleaner) :
    Effect input data (.unlinking directory upload cleaner)
      (data.deleteFile input.failed upload.storedName)
  | sweep {known entries : List ℕ} {cutoff removed entry : ℕ}
    (h : data.isSweepable entry known cutoff = true) :
    Effect input data (.sweeping known cutoff removed (entry :: entries))
      (data.deleteFile input.failed entry)
  | drop (directory : Bool) (token : ℕ) (cleaner : Cleaner) :
    Effect input data (.dropping directory token cleaner) (data.delete input.failed token)
  | condemn (orderId : ℕ) : Effect input data (.releasing orderId) (data.condemn orderId)
  | empty (orderId : ℕ) :
    Effect input data (.emptying orderId) (data.deleteItems input.failed orderId)

/-- **A statement does one of these.** -/
theorem effect_statementAt (input : Input) (data : Data) (phase : Phase) :
    Effect input data phase (statementAt input data phase).1 := by
  cases phase with
  | storing sessionKey sizeBytes =>
    rw [statementAt]
    split
    · exact .nothing _
    · exact .store sessionKey sizeBytes
  | creating sessionKey sizeBytes storedName =>
    rw [statementAt]
    split
    · next created hcreated =>
      split at hcreated
      · simp at hcreated
      · exact .create hcreated
    · exact .refuse sessionKey sizeBytes storedName
  | discarding storedName => exact .discard storedName
  | recording line =>
    rw [statementAt]
    dsimp only
    split
    · exact .nothing _
    · next hfailed => exact .record line (by simpa using hfailed)
  | claiming orderId tokens =>
    cases tokens with
    | nil => exact .nothing _
    | cons token tokens => exact .claim _ token orderId
  | asking directory rows =>
    cases rows with
    | nil => exact .nothing _
    | cons upload rows => exact .nothing _
  | repairing directory token orderId rows => exact .claim _ token orderId
  | unlinking directory upload cleaner =>
    cases directory with
    | false => exact .nothing _
    | true => exact .unlink true upload cleaner
  | dropping directory token cleaner => exact .drop directory token cleaner
  | sweeping known cutoff removed entries =>
    cases entries with
    | nil => exact .nothing _
    | cons entry entries =>
      rw [statementAt]
      split
      · exact .nothing _
      · split
        · next hsweepable => exact .sweep hsweepable
        · exact .nothing _
  | releasing orderId => exact .condemn orderId
  | finding orderId directory tokens =>
    cases tokens with
    | nil => exact .nothing _
    | cons token tokens =>
      rw [statementAt]
      split
      · exact .nothing _
      · exact .nothing _
  | emptying orderId => exact .empty orderId
  | expiring => exact .nothing _
  | scanning => exact .nothing _
  | naming entries => exact .nothing _
  | timing entries known => exact .nothing _
  | done => exact .nothing _

/-- What `create` makes, where it does. -/
theorem create_spec {sessionKey : String} {sizeBytes storedName : ℕ}
    (h : data.create sessionKey sizeBytes storedName = some data') :
    data' = { data with
      uploads := data.uploads ++ [data.newUpload sessionKey sizeBytes storedName]
      fresh := data.fresh + 1
      pending := data.pending.filter (· ≠ storedName) } := by
  unfold Data.create at h
  split at h
  · exact (Option.some.inj h).symm
  · simp at h

theorem claimedFor_keeps (token orderId : ℕ) (upload : Upload) :
    (upload.claimedFor token orderId).token = upload.token ∧
      (upload.claimedFor token orderId).storedName = upload.storedName := by
  unfold Upload.claimedFor
  split
  · exact ⟨rfl, rfl⟩
  · exact ⟨rfl, rfl⟩

theorem claim_spec (data : Data) (failed : Bool) (token orderId : ℕ) :
    (data.claim failed token orderId).1 = data ∨ (data.claim failed token orderId).1 =
      { data with uploads := data.uploads.map (Upload.claimedFor token orderId) } := by
  unfold Data.claim
  split
  · exact .inl rfl
  · split
    · exact .inl rfl
    · exact .inr rfl

theorem mem_files_deleteFile {failed : Bool} {file : StoredFile}
    (hname : file.name ≠ name) (hfile : file ∈ data.files) :
    file ∈ (data.deleteFile failed name).files := by
  unfold Data.deleteFile
  split
  · exact hfile
  · exact List.mem_filter.2 ⟨hfile, decide_eq_true hname⟩

/-! ## What hangs together -/

/-- **The rows, files and names hang together.** -/
structure Data.Coherent (data : Data) : Prop where
  tokens : (data.uploads.map Upload.token).Nodup
  names : (data.uploads.map Upload.storedName).Nodup
  tokenDrawn : ∀ upload ∈ data.uploads, upload.token < data.fresh
  nameDrawn : ∀ upload ∈ data.uploads, upload.storedName < data.fresh
  fileDrawn : ∀ file ∈ data.files, file.name < data.fresh
  pendingDrawn : ∀ name ∈ data.pending, name < data.fresh
  pendingNew : ∀ name ∈ data.pending, ∀ upload ∈ data.uploads, upload.storedName ≠ name

theorem Data.Coherent.of_sub (h : data.Coherent) (hfresh : data.fresh ≤ data'.fresh)
    (huploads : data'.uploads.Sublist data.uploads) (hfiles : ∀ file ∈ data'.files, file ∈ data.files)
    (hpending : ∀ name ∈ data'.pending, name ∈ data.pending) : data'.Coherent where
  tokens := h.tokens.sublist (huploads.map _)
  names := h.names.sublist (huploads.map _)
  tokenDrawn u hu := (h.tokenDrawn u (huploads.subset hu)).trans_le hfresh
  nameDrawn u hu := (h.nameDrawn u (huploads.subset hu)).trans_le hfresh
  fileDrawn f hf := (h.fileDrawn f (hfiles f hf)).trans_le hfresh
  pendingDrawn n hn := (h.pendingDrawn n (hpending n hn)).trans_le hfresh
  pendingNew n hn u hu := h.pendingNew n (hpending n hn) u (huploads.subset hu)

theorem Data.Coherent.deleteFile (h : data.Coherent) (failed : Bool) (name : ℕ) :
    (data.deleteFile failed name).Coherent := by
  unfold Data.deleteFile
  split
  · exact h
  · exact h.of_sub (Nat.le_refl _) (List.Sublist.refl _) (fun f hf => (List.mem_filter.1 hf).1)
      fun n hn => hn

/-- The file whose row a request is to write. -/
def Phase.creates : Phase → Option ℕ
  | .creating _ _ storedName => some storedName
  | _ => none

def Phase.Pends (data : Data) (phase : Phase) : Prop :=
  ∀ name, phase.creates = some name → name ∈ data.pending

/-- **Every effect keeps them so.** -/
theorem Effect.coherent (heffect : Effect input data phase data') (h : data.Coherent)
    (hpends : phase.Pends data) : data'.Coherent := by
  cases heffect with
  | nothing => exact h
  | store =>
    refine ⟨h.tokens, h.names, fun u hu => Nat.lt_succ_of_lt (h.tokenDrawn u hu),
      fun u hu => Nat.lt_succ_of_lt (h.nameDrawn u hu), fun f hf => ?_, fun n hn => ?_,
      fun n hn u hu => ?_⟩
    · rcases List.mem_cons.1 hf with rfl | hf
      · exact Nat.lt_succ_self _
      · exact Nat.lt_succ_of_lt (h.fileDrawn f hf)
    · rcases List.mem_cons.1 hn with rfl | hn
      · exact Nat.lt_succ_self _
      · exact Nat.lt_succ_of_lt (h.pendingDrawn n hn)
    · rcases List.mem_cons.1 hn with rfl | hn
      · exact Nat.ne_of_lt (h.nameDrawn u hu)
      · exact h.pendingNew n hn u hu
  | @create sessionKey sizeBytes storedName _ hcreate =>
    obtain rfl := create_spec hcreate
    -- The token is drawn, and the name was pending: no row has either.
    have hnew : ∀ u ∈ data.uploads ++ [data.newUpload sessionKey sizeBytes storedName],
        u ∈ data.uploads ∨ (u.token = data.fresh ∧ u.storedName = storedName) := by
      intro u hu
      rcases List.mem_append.1 hu with hu | hu
      · exact .inl hu
      · obtain rfl := List.mem_singleton.1 hu
        exact .inr ⟨rfl, rfl⟩
    refine ⟨?_, ?_, fun u hu => ?_, fun u hu => ?_,
      fun f hf => Nat.lt_succ_of_lt (h.fileDrawn f hf),
      fun n hn => Nat.lt_succ_of_lt (h.pendingDrawn n (List.mem_filter.1 hn).1),
      fun n hn u hu => ?_⟩
    · dsimp only
      rw [List.map_append]
      refine h.tokens.append (List.nodup_singleton _) fun t ht hnew => ?_
      obtain ⟨u, hu, rfl⟩ := List.mem_map.1 ht
      have heq : u.token = data.fresh := List.mem_singleton.1 hnew
      have hlt := h.tokenDrawn u hu
      omega
    · dsimp only
      rw [List.map_append]
      refine h.names.append (List.nodup_singleton _) fun n hn hnew => ?_
      obtain ⟨u, hu, rfl⟩ := List.mem_map.1 hn
      exact h.pendingNew storedName (hpends _ rfl) u hu (List.mem_singleton.1 hnew)
    · obtain hold | ⟨heq, -⟩ := hnew u hu
      · exact Nat.lt_succ_of_lt (h.tokenDrawn u hold)
      · dsimp only
        omega
    · obtain hold | ⟨-, heq⟩ := hnew u hu
      · exact Nat.lt_succ_of_lt (h.nameDrawn u hold)
      · have hlt := h.pendingDrawn storedName (hpends _ rfl)
        dsimp only
        omega
    · obtain ⟨hn, hne⟩ := List.mem_filter.1 hn
      obtain hold | ⟨-, heq⟩ := hnew u hu
      · exact h.pendingNew n hn u hold
      · rw [heq]
        exact (of_decide_eq_true hne).symm
  | refuse =>
    exact h.of_sub (Nat.le_refl _) (List.Sublist.refl _) (fun f hf => hf)
      fun n hn => (List.mem_filter.1 hn).1
  | discard => exact h.deleteFile _ _
  | record => exact ⟨h.tokens, h.names, h.tokenDrawn, h.nameDrawn, h.fileDrawn, h.pendingDrawn,
      h.pendingNew⟩
  | claim _ token orderId =>
    obtain hsame | hclaimed := claim_spec data input.failed token orderId
    · rw [hsame]
      exact h
    · rw [hclaimed]
      have htokens : (data.uploads.map (Upload.claimedFor token orderId)).map Upload.token =
          data.uploads.map Upload.token := by
        rw [List.map_map]
        exact List.map_congr_left fun u _ => (claimedFor_keeps token orderId u).1
      have hnames : (data.uploads.map (Upload.claimedFor token orderId)).map Upload.storedName =
          data.uploads.map Upload.storedName := by
        rw [List.map_map]
        exact List.map_congr_left fun u _ => (claimedFor_keeps token orderId u).2
      refine ⟨?_, ?_, fun u hu => ?_, fun u hu => ?_, h.fileDrawn, h.pendingDrawn,
        fun n hn u hu => ?_⟩
      · rw [htokens]
        exact h.tokens
      · rw [hnames]
        exact h.names
      · obtain ⟨u, hold, rfl⟩ := List.mem_map.1 hu
        rw [(claimedFor_keeps token orderId u).1]
        exact h.tokenDrawn u hold
      · obtain ⟨u, hold, rfl⟩ := List.mem_map.1 hu
        rw [(claimedFor_keeps token orderId u).2]
        exact h.nameDrawn u hold
      · obtain ⟨u, hold, rfl⟩ := List.mem_map.1 hu
        rw [(claimedFor_keeps token orderId u).2]
        exact h.pendingNew n hn u hold
  | unlink => exact h.deleteFile _ _
  | sweep => exact h.deleteFile _ _
  | drop _ token =>
    unfold Data.delete
    split
    · exact h
    · exact h.of_sub (Nat.le_refl _) List.filter_sublist (fun f hf => hf) fun n hn => hn
  | condemn => exact ⟨h.tokens, h.names, h.tokenDrawn, h.nameDrawn, h.fileDrawn, h.pendingDrawn,
      h.pendingNew⟩
  | empty orderId =>
    unfold Data.deleteItems
    split
    · exact h
    · exact ⟨h.tokens, h.names, h.tokenDrawn, h.nameDrawn, h.fileDrawn, h.pendingDrawn,
        h.pendingNew⟩

/-! ## Whose a row is -/

/-- The token was drawn, and whatever row has it is this order's. -/
def Data.OwnedBy (data : Data) (token orderId : ℕ) : Prop :=
  token < data.fresh ∧ ∀ upload ∈ data.uploads, upload.token = token → upload.orderId = some orderId

theorem Data.Coherent.ownedBy (h : data.Coherent) (hupload : upload ∈ data.uploads)
    (howner : upload.orderId = some orderId) : data.OwnedBy upload.token orderId := by
  refine ⟨h.tokenDrawn upload hupload, fun other hother htoken => ?_⟩
  obtain rfl : other = upload := List.inj_on_of_nodup_map h.tokens hother hupload htoken
  exact howner

/-- **No effect gives a claimed row to another order.** -/
theorem Effect.ownedBy (heffect : Effect input data phase data')
    (h : data.OwnedBy token orderId) : data'.OwnedBy token orderId := by
  have hdeleteFile : ∀ failed name, (data.deleteFile failed name).OwnedBy token orderId := by
    intro failed name
    unfold Data.deleteFile
    split
    · exact h
    · exact h
  cases heffect with
  | nothing => exact h
  | store => exact ⟨Nat.lt_succ_of_lt h.1, h.2⟩
  | create hcreate =>
    obtain rfl := create_spec hcreate
    refine ⟨Nat.lt_succ_of_lt h.1, fun u hu htoken => ?_⟩
    rcases List.mem_append.1 hu with hu | hu
    · exact h.2 u hu htoken
    · -- A token that is drawn is another.
      obtain rfl := List.mem_singleton.1 hu
      have hfresh : data.fresh = token := htoken
      have hlt := h.1
      omega
  | refuse => exact h
  | discard => exact hdeleteFile _ _
  | record => exact h
  | claim _ token' orderId' =>
    obtain hsame | hclaimed := claim_spec data input.failed token' orderId'
    · rw [hsame]
      exact h
    · rw [hclaimed]
      refine ⟨h.1, fun u hu htoken => ?_⟩
      obtain ⟨u, hold, rfl⟩ := List.mem_map.1 hu
      rw [(claimedFor_keeps token' orderId' u).1] at htoken
      have howner := h.2 u hold htoken
      unfold Upload.claimedFor
      rw [if_neg fun hfree => by rw [howner] at hfree; exact absurd hfree.2 (Option.some_ne_none _)]
      exact howner
  | unlink => exact hdeleteFile _ _
  | sweep => exact hdeleteFile _ _
  | drop =>
    unfold Data.delete
    split
    · exact h
    · exact ⟨h.1, fun u hu => h.2 u (List.mem_filter.1 hu).1⟩
  | condemn => exact h
  | empty =>
    unfold Data.deleteItems
    split
    · exact h
    · exact h

/-! ## Runs -/

theorem Effect.pending (heffect : Effect input data phase data') (hname : name ∈ data.pending) :
    name ∈ data'.pending ∨ phase.creates = some name := by
  cases heffect with
  | store => exact .inl (List.mem_cons_of_mem _ hname)
  | @create sessionKey sizeBytes storedName _ hcreate =>
    obtain rfl := create_spec hcreate
    by_cases heq : name = storedName
    · exact .inr (congrArg some heq.symm)
    · exact .inl (List.mem_filter.2 ⟨hname, decide_eq_true heq⟩)
  | refuse sessionKey sizeBytes storedName =>
    by_cases heq : name = storedName
    · exact .inr (congrArg some heq.symm)
    · exact .inl (List.mem_filter.2 ⟨hname, decide_eq_true heq⟩)
  | claim _ token orderId =>
    obtain hsame | hclaimed := claim_spec data input.failed token orderId
    · rw [hsame]
      exact .inl hname
    · rw [hclaimed]
      exact .inl hname
  | discard =>
    unfold Data.deleteFile
    split <;> exact .inl hname
  | unlink =>
    unfold Data.deleteFile
    split <;> exact .inl hname
  | sweep =>
    unfold Data.deleteFile
    split <;> exact .inl hname
  | drop =>
    unfold Data.delete
    split <;> exact .inl hname
  | empty =>
    unfold Data.deleteItems
    split <;> exact .inl hname
  | nothing => exact .inl hname
  | record => exact .inl hname
  | condemn => exact .inl hname

/-- **The rows, files and names, and the requests that are to write rows.** -/
structure Drawn (s : State) : Prop where
  coherent : s.data.Coherent
  pends : ∀ (i : ℕ) request phase, s.calls[i]? = some (request, phase) → phase.Pends s.data
  creates : OnePer (fun _ => Phase.creates) s

theorem Data.Coherent.after (h : data.Coherent) (waited : ℕ) : (data.after waited).Coherent :=
  ⟨h.tokens, h.names, h.tokenDrawn, h.nameDrawn, h.fileDrawn, h.pendingDrawn, h.pendingNew⟩

theorem creates_enter (request : Request) : (enter request).creates = none := by
  cases request <;> rfl

theorem creates_statementAt (hcreates : (statementAt input data phase).2.creates = some name) :
    name = data.fresh ∧ (statementAt input data phase).1 = data.store input.modified := by
  cases phase with
  | storing sessionKey sizeBytes =>
    rw [statementAt] at hcreates ⊢
    split at hcreates
    · exact nomatch hcreates
    · next hfailed =>
      rw [if_neg hfailed]
      exact ⟨(Option.some.inj hcreates).symm, rfl⟩
  | creating sessionKey sizeBytes storedName =>
    rw [statementAt] at hcreates
    split at hcreates
    · exact nomatch hcreates
    · exact nomatch hcreates
  | claiming orderId tokens => cases tokens <;> exact nomatch hcreates
  | expiring =>
    rw [statementAt] at hcreates
    split at hcreates <;> exact nomatch hcreates
  | asking directory rows =>
    cases rows with
    | nil => exact nomatch hcreates
    | cons upload rows =>
      rw [statementAt] at hcreates
      dsimp only at hcreates
      split at hcreates <;> exact nomatch hcreates
  | dropping directory token cleaner => cases cleaner <;> exact nomatch hcreates
  | scanning =>
    rw [statementAt] at hcreates
    split at hcreates <;> exact nomatch hcreates
  | sweeping known cutoff removed entries =>
    cases entries with
    | nil => exact nomatch hcreates
    | cons entry entries =>
      rw [statementAt] at hcreates
      split at hcreates
      · exact nomatch hcreates
      · split at hcreates <;> exact nomatch hcreates
  | releasing orderId =>
    rw [statementAt] at hcreates
    split at hcreates <;> exact nomatch hcreates
  | finding orderId directory tokens =>
    cases tokens with
    | nil => exact nomatch hcreates
    | cons token tokens =>
      rw [statementAt] at hcreates
      split at hcreates
      · dsimp only at hcreates
        split at hcreates <;> exact nomatch hcreates
      · exact nomatch hcreates
  | discarding storedName => exact nomatch hcreates
  | recording line => exact nomatch hcreates
  | repairing directory token orderId rows => exact nomatch hcreates
  | unlinking directory upload cleaner => exact nomatch hcreates
  | naming entries => exact nomatch hcreates
  | timing entries known => exact nomatch hcreates
  | emptying orderId => exact nomatch hcreates
  | done => exact nomatch hcreates

/-- **They hang together whatever happens.** -/
theorem Drawn.step (h : Drawn s) (a : Action) : Drawn (uploads.step s a) := by
  have heffect : ∀ {i : ℕ} {input request phase}, s.calls[i]? = some (request, phase) →
      Effect input (s.data.after input.waited) phase (statement input s.data phase).1 :=
    fun _ => effect_statementAt _ _ _
  refine ⟨?_, ?_, ?_⟩
  · exact data_step h.coherent fun i input request phase _ hcall =>
      (heffect hcall).coherent (h.coherent.after _) (h.pends i request phase hcall)
  · refine forall_calls_of (K := fun data (_ : Request) (phase : Phase) => phase.Pends data)
      (fun request phase _ henter => ?_) (fun i input request phase _ hcall _ => ?_)
      (fun i input request phase _ hcall j request' phase' hcall' hne hpends => ?_) h.pends
    · obtain rfl := Option.some.inj henter
      exact fun name hcreates => nomatch (creates_enter request).symm.trans hcreates
    · intro name hcreates
      obtain ⟨rfl, hstored⟩ := creates_statementAt hcreates
      rw [show uploads.statement input s.data phase =
        statementAt input (s.data.after input.waited) phase from rfl, hstored]
      exact List.mem_cons_self
    · intro name hcreates
      obtain hpending | hcreating := (heffect hcall).pending (hpends name hcreates)
      · exact hpending
      · -- Another request writes the row of another file.
        exact absurd (h.creates i j _ _ name hcall hcall' hcreating hcreates) hne
  · refine h.creates.step (fun request phase henter => ?_)
      fun i input request phase name ha hcall hcreates => ?_
    · obtain rfl := Option.some.inj henter
      exact creates_enter request
    · -- The name is drawn, and what others write was pending.
      obtain ⟨rfl, -⟩ := creates_statementAt hcreates
      refine .inr fun j request' phase' hcall' hother => ?_
      have hlt := h.coherent.pendingDrawn _ (h.pends j request' phase' hcall' _ hother)
      exact Nat.lt_irrefl _ hlt

theorem drawn_opening : Drawn opening where
  coherent := ⟨List.nodup_nil, List.nodup_nil, nofun, nofun, nofun, nofun, nofun⟩
  pends _ _ _ hcall := nomatch hcall
  creates _ _ _ _ _ hcall := nomatch hcall

theorem ownedBy_run (h : s.data.OwnedBy token orderId) (actions : List Action) :
    (run uploads.step s actions).data.OwnedBy token orderId :=
  invariant_of_forall (I := fun s : State => s.data.OwnedBy token orderId)
    (fun s _ hs => data_step (Q := fun data : Data => data.OwnedBy token orderId) hs
      fun _ input _ phase _ _ =>
        (effect_statementAt input (s.data.after input.waited) phase).ownedBy hs) h actions

end Optionia.Uploads
