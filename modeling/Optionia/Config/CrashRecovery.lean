import Optionia.Config.Synchroniser
/-!
# A crash while storing

A sync that dies after the document's ETag is written and before its index
leaves the old index under the new ETag; every later request is then answered
`304`, and the index is never rebuilt. A crash anywhere else heals with the
next sync (`heals_iff`).
-/

namespace Optionia.Config

open Php Repository Synchroniser

/-- The part of the options that holds the configuration. -/
def core (o : Options) : Option Value × Option Meta × Option ProductIndex :=
  (o.config, o.configMeta, o.productIndex)

/-- The state after a list of writes. -/
abbrev runWrites (ws : List Write) (o : Options) : Options := Writes.run Write.apply ws o

/-- **The cache holds what is published**: its document, the index of that
document, and its version and ETag. -/
structure Holds (p : Published) (o : Options) : Prop where
  config : o.config = some p.document
  productIndex : o.productIndex = some (ProductIndex.build p.document)
  configMeta : ∃ entry, o.configMeta = some entry ∧ entry.configVersion = p.version ∧
    entry.etag = some p.etag

/-- What may happen to the options once the sync has died: anything that
leaves the configuration alone (a failed sync among it), and syncs that the
cloud answers for `p`. -/
inductive Later (p : Published) : Options → Options → Prop where
  | refl (o : Options) : Later p o o
  | aside {o o' o'' : Options} (h : Later p o o') (hcore : core o'' = core o') : Later p o o''
  | sync {o o' : Options} (now : ℤ) (h : Later p o o') :
    Later p o (runWrites (Synchroniser.sync now p.answer o').1 o')

/-- What a sync that dies after `k` of its writes leaves. -/
def crashed (p : Published) (now : ℤ) (k : ℕ) (o : Options) : Options :=
  runWrites ((Synchroniser.sync now p.answer o).1.take k) o

/-- **The crash heals**: whatever happens later, once a sync succeeds the
cache holds what is published. -/
def Heals (p : Published) (now : ℤ) (k : ℕ) (o : Options) : Prop :=
  ∀ o' now', Later p (crashed p now k o) o' → (Synchroniser.sync now' p.answer o').2 = true →
    Holds p (runWrites (Synchroniser.sync now' p.answer o').1 o')

/-- The ETag got written and the index did not. -/
def CutBetween (p : Published) (now : ℤ) (k : ℕ) (o : Options) : Prop :=
  (∃ entry, Write.configMeta entry ∈ (Synchroniser.sync now p.answer o).1.take k) ∧
    ∀ index, Write.productIndex index ∉ (Synchroniser.sync now p.answer o).1.take k

/-! ## Writes aside -/

/-- A write that leaves the configuration alone. -/
def Write.IsAside : Write → Prop
  | .config _ | .configMeta _ | .productIndex _ => False
  | _ => True

theorem core_apply_of_isAside {w : Write} (h : w.IsAside) (o : Options) :
    core (w.apply o) = core o := by
  cases w <;> first | exact absurd h id | rfl

theorem core_apply_congr (w : Write) (o o' : Options) (h : core o = core o') :
    core (w.apply o) = core (w.apply o') := by
  simp only [core, Prod.mk.injEq] at h ⊢
  cases w <;> simp only [Write.apply, h.1, h.2.1, h.2.2, and_self]

theorem isAside_record {ok : Bool} {outcome : String} : ∀ w ∈ record ok outcome, w.IsAside := by
  intro w hw
  obtain rfl := List.mem_singleton.1 hw
  trivial

variable {o o' : Options} {p : Published}

theorem isAside_transition {target : ConnectionState} :
    ∀ w ∈ StateMachine.transition target o, w.IsAside := by
  intro w hw
  unfold StateMachine.transition at hw
  split at hw
  · obtain rfl := List.mem_singleton.1 hw
    trivial
  · simp at hw

theorem isAside_recover : ∀ w ∈ recover o, w.IsAside := by
  intro w hw
  unfold recover at hw
  split at hw
  · exact isAside_transition w hw
  · simp at hw

theorem isAside_degrade : ∀ w ∈ degrade o, w.IsAside := by
  intro w hw
  unfold degrade at hw
  split at hw
  · exact isAside_transition w hw
  · simp at hw

theorem isAside_preliminary {document : Value} : ∀ w ∈ preliminary document o, w.IsAside := by
  intro w hw
  have hclear : ∀ w ∈ (if o.schemaRefused.isSome then [Write.schemaRefused none] else []),
      w.IsAside := by
    intro w hw
    split at hw
    · obtain rfl := List.mem_singleton.1 hw
      trivial
    · simp at hw
  have hrecord : ∀ w ∈ recordUnpricedTypes document o, w.IsAside := by
    intro w hw
    unfold recordUnpricedTypes at hw
    split at hw
    · split at hw
      · obtain rfl := List.mem_singleton.1 hw
        trivial
      · simp at hw
    · obtain rfl := List.mem_singleton.1 hw
      trivial
  exact (List.mem_append.1 hw).elim (hclear w) (hrecord w)

theorem core_runWrites_of_isAside {ws : List Write} (h : ∀ w ∈ ws, w.IsAside) (o : Options) :
    core (runWrites ws o) = core o :=
  Writes.view_run (fun w hw s => core_apply_of_isAside (h w hw) s) o

/-! ## What a sync does -/

/-- **A sync either leaves the configuration alone, and then succeeds only
where the cloud answered that nothing changed, or writes the document.** -/
theorem sync_cases (p : Published) (now : ℤ) (o : Options) :
    ((∀ w ∈ (Synchroniser.sync now p.answer o).1, w.IsAside) ∧
      ((Synchroniser.sync now p.answer o).2 = true → ifNoneMatch o = some p.etag)) ∨
    (ifNoneMatch o ≠ some p.etag ∧ accepts p.document = true ∧
      ∃ before after, (∀ w ∈ before, w.IsAside) ∧ (∀ w ∈ after, w.IsAside) ∧
        (Synchroniser.sync now p.answer o).1 =
          before ++ documentWrites p.document (some p.etag) now ++ after) := by
  unfold Synchroniser.sync
  by_cases husable : o.connection = .disconnected ∨ o.connection = .revoked
  · rw [if_pos husable]
    exact Or.inl ⟨fun w hw => absurd hw List.not_mem_nil, fun h => absurd h Bool.false_ne_true⟩
  rw [if_neg husable]
  have haside : ∀ {ok outcome} {ws : List Write}, (∀ w ∈ ws, w.IsAside) →
      ∀ w ∈ record ok outcome ++ ws, w.IsAside := by
    intro ok outcome ws hws w hw
    exact (List.mem_append.1 hw).elim (isAside_record w) (hws w)
  by_cases hmatch : ifNoneMatch o = some p.etag
  · -- The cloud answers that nothing changed.
    have hanswer : p.answer (ifNoneMatch o) = ⟨304, .arr [], none, some p.etag⟩ := if_pos hmatch
    rw [hanswer]
    refine Or.inl ⟨?_, fun _ => hmatch⟩
    unfold settle
    rw [if_pos (show Response.isNotModified ⟨304, .arr [], none, some p.etag⟩ = true from rfl)]
    split
    · exact haside isAside_degrade
    · exact haside isAside_recover
  · have hanswer : p.answer (ifNoneMatch o) = ⟨200, p.document, none, some p.etag⟩ :=
      if_neg hmatch
    rw [hanswer]
    have hsettle : settle now ⟨200, p.document, none, some p.etag⟩ o =
        if accepts p.document then
          (storeWrites p.document (some p.etag) now o ++ (record true "updated" ++ recover o), true)
        else (storeWrites p.document (some p.etag) now o ++
          (record false "refused" ++ degrade o), false) := rfl
    rw [hsettle]
    by_cases haccepts : accepts p.document = true
    · have hparts := haccepts
      unfold accepts at hparts
      rw [Bool.and_eq_true, decide_eq_true_eq] at hparts
      obtain ⟨hissued, hschema⟩ := hparts
      refine Or.inr ⟨hmatch, haccepts, preliminary p.document o,
        record true "updated" ++ recover o, isAside_preliminary, haside isAside_recover, ?_⟩
      rw [if_pos haccepts]
      unfold storeWrites
      rw [hissued, if_neg (by simp), if_neg (not_lt.2 hschema)]
    · refine Or.inl ⟨?_, fun h => ?_⟩
      · rw [if_neg haccepts]
        intro w hw
        refine (List.mem_append.1 hw).elim (fun hw => ?_) (haside isAside_degrade w)
        unfold storeWrites at hw
        split at hw
        · simp at hw
        · split at hw
          · obtain rfl := List.mem_singleton.1 hw
            trivial
          · rename_i hissued hschema
            refine absurd ?_ haccepts
            unfold accepts
            simp_all
      · rw [if_neg haccepts] at h
        simp at h

/-! ## Healing -/

theorem holds_congr (h : core o = core o') : Holds p o ↔ Holds p o' := by
  have hiff : ∀ {o o' : Options}, core o = core o' → Holds p o → Holds p o' := by
    intro o o' h hholds
    simp only [core, Prod.mk.injEq] at h
    exact ⟨h.1 ▸ hholds.config, h.2.2 ▸ hholds.productIndex, h.2.1 ▸ hholds.configMeta⟩
  exact ⟨hiff h, hiff h.symm⟩

theorem ifNoneMatch_congr (h : core o = core o') : ifNoneMatch o = ifNoneMatch o' := by
  simp only [core, Prod.mk.injEq] at h
  unfold ifNoneMatch Repository.etag
  rw [h.2.1]

theorem holds_documentWrites (p : Published) (now : ℤ) (o : Options) :
    Holds p (runWrites (documentWrites p.document (some p.etag) now) o) := by
  refine ⟨rfl, rfl, metaOf p.document (some p.etag) now, rfl, ?_, rfl⟩
  unfold metaOf Repository.configVersion
  rw [p.version_eq]
  rfl

/-- **The ETag vouches for the configuration**: a store that would be told
nothing has changed holds what is published. -/
def Vouched (p : Published) (o : Options) : Prop := ifNoneMatch o = some p.etag → Holds p o

theorem vouched_congr (h : core o = core o') : Vouched p o ↔ Vouched p o' := by
  unfold Vouched
  rw [ifNoneMatch_congr h, holds_congr h]

/-- A whole sync of a vouched store: it stays vouched, and on success it
holds what is published. -/
theorem Vouched.sync (h : Vouched p o) (now : ℤ) :
    Vouched p (runWrites (Synchroniser.sync now p.answer o).1 o) ∧
    ((Synchroniser.sync now p.answer o).2 = true →
      Holds p (runWrites (Synchroniser.sync now p.answer o).1 o)) := by
  rcases sync_cases p now o with ⟨haside, hsuccess⟩ | ⟨-, -, before, after, hbefore, hafter, heq⟩
  · have hcore := core_runWrites_of_isAside haside o
    exact ⟨(vouched_congr hcore).2 h, fun hok => (holds_congr hcore).2 (h (hsuccess hok))⟩
  · have hcore : core (runWrites (Synchroniser.sync now p.answer o).1 o) =
        core (runWrites (documentWrites p.document (some p.etag) now) (runWrites before o)) := by
      rw [heq, runWrites, Writes.run_append, Writes.run_append]
      exact core_runWrites_of_isAside hafter _
    have hholds := (holds_congr hcore).2 (holds_documentWrites p now (runWrites before o))
    exact ⟨fun _ => hholds, fun _ => hholds⟩

theorem Vouched.later (h : Vouched p o) (hlater : Later p o o') : Vouched p o' := by
  induction hlater with
  | refl => exact h
  | aside _ hcore ih => exact (vouched_congr hcore).2 ih
  | sync now _ ih => exact (ih.sync now).1

/-- **How far a sync that writes the document got, as its configuration
shows**: not to the ETag, between the ETag and the index, or through. -/
theorem crashed_cases {now : ℤ} {k : ℕ} {before after : List Write}
    (hbefore : ∀ w ∈ before, w.IsAside) (hafter : ∀ w ∈ after, w.IsAside)
    (heq : (Synchroniser.sync now p.answer o).1 =
      before ++ documentWrites p.document (some p.etag) now ++ after) :
    (ifNoneMatch (crashed p now k o) = ifNoneMatch o ∧ ¬ CutBetween p now k o) ∨
    (core (crashed p now k o) = (some p.document,
        some (metaOf p.document (some p.etag) now), o.productIndex) ∧ CutBetween p now k o) ∨
    (Holds p (crashed p now k o) ∧ ¬ CutBetween p now k o) := by
  have hcore : core (crashed p now k o) = core (runWrites
      ((documentWrites p.document (some p.etag) now).take (k - before.length)) o) := by
    unfold crashed
    rw [heq]
    exact Writes.view_run_take core_apply_congr
      (fun w hw s => core_apply_of_isAside (hbefore w hw) s)
      (fun w hw s => core_apply_of_isAside (hafter w hw) s) k o
  have hmem : ∀ w, ¬ w.IsAside → (w ∈ (Synchroniser.sync now p.answer o).1.take k ↔
      w ∈ (documentWrites p.document (some p.etag) now).take (k - before.length)) := by
    intro w hw
    have hb : w ∉ before.take k := fun h => hw (hbefore w (List.mem_of_mem_take h))
    have ha : ∀ n, w ∉ after.take n := fun n h => hw (hafter w (List.mem_of_mem_take h))
    rw [heq, List.take_append, List.take_append, List.mem_append, List.mem_append]
    simp only [hb, ha, false_or, or_false]
  have hmeta : ∀ entry, (Write.configMeta entry ∈ (Synchroniser.sync now p.answer o).1.take k ↔
      Write.configMeta entry ∈
        (documentWrites p.document (some p.etag) now).take (k - before.length)) :=
    fun entry => hmem _ id
  have hindex : ∀ index, (Write.productIndex index ∈ (Synchroniser.sync now p.answer o).1.take k ↔
      Write.productIndex index ∈
        (documentWrites p.document (some p.etag) now).take (k - before.length)) :=
    fun index => hmem _ id
  unfold CutBetween
  simp only [hmeta, hindex]
  generalize k - before.length = j at hcore
  match j with
  | 0 =>
    refine Or.inl ⟨ifNoneMatch_congr hcore, fun hcut => ?_⟩
    obtain ⟨entry, hentry⟩ := hcut.1
    simp at hentry
  | 1 =>
    refine Or.inl ⟨?_, fun hcut => ?_⟩
    · simp only [core, Prod.mk.injEq] at hcore
      unfold ifNoneMatch Repository.etag
      rw [hcore.2.1]
      rfl
    · obtain ⟨entry, hentry⟩ := hcut.1
      simp [documentWrites] at hentry
  | 2 =>
    have hentry : Write.configMeta (metaOf p.document (some p.etag) now) ∈
        (documentWrites p.document (some p.etag) now).take 2 :=
      List.mem_cons_of_mem _ List.mem_cons_self
    refine Or.inr (Or.inl ⟨hcore, ⟨_, hentry⟩, fun index hindex => ?_⟩)
    simp [documentWrites] at hindex
  | j + 3 =>
    have hall : (documentWrites p.document (some p.etag) now).take (j + 3) =
        documentWrites p.document (some p.etag) now :=
      List.take_of_length_le (by simp [documentWrites])
    rw [hall] at hcore
    refine Or.inr (Or.inr ⟨(holds_congr hcore).2 (holds_documentWrites p now o), fun hcut => ?_⟩)
    exact hcut.2 (ProductIndex.build p.document) (by simp [documentWrites])

theorem etag_ne_empty (p : Published) : p.etag ≠ "" := by
  intro h
  have hlist := congrArg String.toList h
  simp [Published.etag, configEtag] at hlist

theorem hasConfig_of_accepts {document : Value} (h : accepts document = true)
    (hconfig : o.config = some document) : hasConfig o = true := by
  unfold accepts at h
  rw [Bool.and_eq_true] at h
  have hissued := h.1
  unfold hasConfig Repository.get
  rw [hconfig]
  cases document with
  | arr es =>
    cases es with
    | nil => exact absurd hissued Bool.false_ne_true
    | cons e es => rfl
  | _ => exact absurd hissued Bool.false_ne_true

/-- **A store that would be told nothing has changed, and holds a document,
takes the answer for success and leaves all as it is.** -/
theorem sync_of_match (hmatch : ifNoneMatch o = some p.etag)
    (hconnected : o.connection = .connected) (hconfig : hasConfig o = true) (now : ℤ) :
    (Synchroniser.sync now p.answer o).2 = true ∧
      core (runWrites (Synchroniser.sync now p.answer o).1 o) = core o := by
  have hanswer : p.answer (ifNoneMatch o) = ⟨304, .arr [], none, some p.etag⟩ := if_pos hmatch
  have hsync : Synchroniser.sync now p.answer o = (record true "unchanged" ++ recover o, true) := by
    unfold Synchroniser.sync
    rw [hconnected, if_neg (by decide), hanswer]
    unfold settle
    rw [hconfig]
    rfl
  rw [hsync]
  refine ⟨rfl, core_runWrites_of_isAside (fun w hw => ?_) o⟩
  exact (List.mem_append.1 hw).elim (isAside_record w) (isAside_recover w)

/-- **A crash heals exactly when it does not leave an old index under the new
ETag**: the process did not die between those two writes, or the index was
the new document's already. The state before is any one whose ETag vouches
for its configuration. -/
theorem heals_iff (p : Published) (now : ℤ) (k : ℕ) {o : Options} (hbefore : Vouched p o) :
    Heals p now k o ↔
      (CutBetween p now k o → o.productIndex = some (ProductIndex.build p.document)) := by
  have heals_of_vouched : Vouched p (crashed p now k o) → Heals p now k o :=
    fun h o' now' hlater hok => ((h.later hlater).sync now').2 hok
  rcases sync_cases p now o with
    ⟨haside, -⟩ | ⟨hnew, haccepts, before, after, hb, ha, heq⟩
  · -- The sync writes no document, wherever it dies.
    have htake : ∀ w ∈ (Synchroniser.sync now p.answer o).1.take k, w.IsAside :=
      fun w hw => haside w (List.mem_of_mem_take hw)
    have hcore : core (crashed p now k o) = core o := core_runWrites_of_isAside htake o
    refine ⟨fun _ hcut => ?_, fun _ => heals_of_vouched ((vouched_congr hcore).2 hbefore)⟩
    obtain ⟨⟨entry, hentry⟩, -⟩ := hcut
    exact absurd (htake _ hentry) id
  rcases crashed_cases hb ha heq with ⟨hmatch, hcut⟩ | ⟨hcore, hcut⟩ | ⟨hholds, hcut⟩
  · refine ⟨fun _ h => absurd h hcut, fun _ => heals_of_vouched fun h => ?_⟩
    rw [hmatch] at h
    exact absurd h hnew
  · -- The new document and its ETag stand beside the old index.
    constructor
    · intro hheals _
      let later : Options := { crashed p now k o with connection := .connected }
      have hlater : Later p (crashed p now k o) later := .aside (.refl _) rfl
      have hlatercore : core later = (some p.document,
          some (metaOf p.document (some p.etag) now), o.productIndex) := hcore
      simp only [core, Prod.mk.injEq] at hlatercore
      have hmatch : ifNoneMatch later = some p.etag := by
        unfold ifNoneMatch Repository.etag
        rw [hlatercore.2.1]
        exact Option.filter_eq_some_iff.2 ⟨rfl, decide_eq_true (etag_ne_empty p)⟩
      obtain ⟨hok, hkept⟩ := sync_of_match hmatch rfl
        (hasConfig_of_accepts haccepts hlatercore.1) now
      have hholds := (holds_congr hkept).1 (hheals later now hlater hok)
      rw [← hlatercore.2.2]
      exact hholds.productIndex
    · intro hindex
      refine heals_of_vouched fun _ => ?_
      simp only [core, Prod.mk.injEq] at hcore
      have hholds := holds_documentWrites p now o
      exact ⟨hcore.1, hcore.2.2.trans (hindex hcut), hcore.2.1 ▸ hholds.configMeta⟩
  · exact ⟨fun _ h => absurd h hcut, fun _ => heals_of_vouched fun _ => hholds⟩

/-- A document that assigns set `s` to one product. -/
def documentFor (version : ℤ) (product : String) : Value :=
  .arr [("config_version", .int version), ("schema_version", .int 1),
    ("option_sets", .ofList [.arr [("id", .str "s"), ("assignments", .ofList [.arr
      [("mode", .str "manual"), ("target_type", .str "product"),
        ("target_ref", .str product)]])]])]

def publishedFor (version : ℤ) (product : String) : Published :=
  ⟨"store", documentFor version product, version, rfl⟩

/-- A store that holds the first version. -/
def firstHeld : Options where
  config := some (documentFor 1 "20")
  configMeta := some ⟨1, 1, 0, some (publishedFor 1 "20").etag⟩
  productIndex := some (ProductIndex.build (documentFor 1 "20"))
  schemaRefused := none
  unpricedTypes := none
  lastSync := none
  connection := .connected

/-- A crash before anything is written heals. -/
theorem heals_at_start : Heals (publishedFor 2 "21") 60 0 firstHeld := by
  have hnew : ifNoneMatch firstHeld ≠ some (publishedFor 2 "21").etag := by decide +kernel
  refine (heals_iff (publishedFor 2 "21") 60 0 fun h => absurd h hnew).2 fun hcut => ?_
  obtain ⟨⟨entry, hentry⟩, -⟩ := hcut
  simp at hentry

/-- **A crash after the ETag freezes the old index.** The second version
assigns the set to another product; the sync dies after two writes, and the
next one succeeds with the first version's index in place. -/
theorem stale_index_after_crash :
    let p := publishedFor 2 "21"
    let later := crashed p 60 2 firstHeld
    firstHeld.productIndex = firstHeld.config.map ProductIndex.build ∧
    (Synchroniser.sync 120 p.answer later).2 = true ∧
    (runWrites (Synchroniser.sync 120 p.answer later).1 later).config = some p.document ∧
    (runWrites (Synchroniser.sync 120 p.answer later).1 later).productIndex ≠
      some (ProductIndex.build p.document) := by
  decide +kernel

end Optionia.Config
