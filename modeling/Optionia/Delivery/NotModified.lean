import Mathlib.Logic.Function.Basic
import Optionia.Delivery.Writers
/-!
# A 304 and what it hides

Writers and readers of one store interleave, a request's reads, its transaction
and each query of a reader a step of its own. A document is labelled with the
version read first, so that what the later queries find is right for as long
as the store is at that version (`Reader.Right`), and a client that is told
nothing changed holds what a build would find (`not_modified_hides_nothing`) —
wherever a deletion that takes a set out of the document knew that it was in
it. `onOptionSetDeleted` is handed the status that was read before, and a
publish in between makes it wrong (`removal_hidden`).
-/

namespace Optionia.Delivery

open Wire Runs Revision Database

/-! ## The store and its clients -/

/-- Where a reader stands, with what its queries found. -/
inductive Reader where
  /-- Its version is not the store's: it is about to build. -/
  | missed
  | labelled (configVersion : ℕ)
  | listed (configVersion : ℕ) (sets : List OptionSet)
  | collected (configVersion : ℕ) (sets : List OptionSet) (snapshots : List OptionSetVersion)
  /-- And their assignments; what is left is the plan. -/
  | assembled (document : ConfigDocument)

/-- A 200. -/
structure Answer where
  etag : String
  document : ConfigDocument

/-- The store, what is under way, and the documents that were answered. -/
structure Store where
  db : Database
  writers : ℕ → Option Transaction
  readers : ℕ → Option Reader
  answers : List Answer

/-- A store before anything is asked of it. -/
def Store.start (db : Database) : Store := ⟨db, fun _ => none, fun _ => none, []⟩

/-- What can happen. -/
inductive Action where
  | begin (writer : ℕ) (request : Request)
  | commit (writer : ℕ)
  | abandon (writer : ℕ)
  /-- `deliver` reads the version and compares it with the header. -/
  | ask (reader : ℕ) (ifNoneMatch : Option String)
  | query (reader : ℕ)
  | drop (reader : ℕ)

/-- `deliver` answers that nothing changed. -/
def notModified (storeId : Uuid) (db : Database) (ifNoneMatch : Option String) : Bool :=
  matchesEtag ifNoneMatch (configEtag storeId db.configVersion)

/-- The next query of a build. -/
def Reader.next (db : Database) : Reader → Reader
  | .missed => .labelled db.configVersion
  | .labelled v => .listed v db.publishedSets
  | .listed v sets => .collected v sets (db.versionsOf (sets.map (·.id)))
  | .collected v sets snapshots =>
    .assembled ⟨v, Found.optionSets ⟨sets, snapshots, db.assignmentsOf (sets.map (·.id))⟩⟩
  | .assembled document => .assembled document

/-- A reader runs its next query; after the last, it answers under the
validator of its document. -/
def Store.query (storeId : Uuid) (s : Store) (reader : ℕ) : Store :=
  match s.readers reader with
  | none => s
  | some (.assembled document) =>
    { s with
      readers := Function.update s.readers reader none
      answers := s.answers ++ [⟨configEtag storeId document.configVersion, document⟩] }
  | some r => { s with readers := Function.update s.readers reader (some (r.next s.db)) }

/-- One action; what cannot happen changes nothing. -/
def step (storeId : Uuid) (s : Store) : Action → Store
  | .begin writer request =>
    { s with writers := Function.update s.writers writer (s.db.read request) }
  | .commit writer =>
    match s.writers writer with
    | none => s
    | some t => { s with db := s.db.run t, writers := Function.update s.writers writer none }
  | .abandon writer => { s with writers := Function.update s.writers writer none }
  | .ask reader ifNoneMatch =>
    { s with
      readers := Function.update s.readers reader
        (if notModified storeId s.db ifNoneMatch then none else some .missed) }
  | .query reader => s.query storeId reader
  | .drop reader => { s with readers := Function.update s.readers reader none }

/-- A client that names a document it holds is told that nothing changed only
where a build would find what the document says. -/
def HidesNothing (storeId : Uuid) (s : Store) (action : Action) : Prop :=
  ∀ answer ∈ s.answers, ∀ reader, action = .ask reader (some answer.etag) →
    notModified storeId s.db (some answer.etag) →
      answer.document.optionSets = (build s.db).optionSets

/-- A deletion whose transaction takes a set out of the document read, before,
that it is in it. -/
def Informed (s : Store) : Action → Prop
  | .commit writer => ∀ t ∈ s.writers writer, s.db.Informed t
  | _ => True

instance (s : Store) : DecidablePred (Informed s)
  | .commit writer => inferInstanceAs (Decidable (∀ t ∈ s.writers writer, s.db.Informed t))
  | .begin _ _ | .abandon _ | .ask _ _ | .query _ | .drop _ => inferInstanceAs (Decidable True)

/-! ## What is read under a version -/

/-- What a reader holds is right for the version it is labelled with. -/
def Reader.Right (db : Database) : Reader → Prop
  | .missed => True
  | .labelled v => Reading configVersion found db v fun _ => True
  | .listed v sets => Reading configVersion found db v fun f => sets = f.sets
  | .collected v sets snapshots =>
    Reading configVersion found db v fun f => sets = f.sets ∧ snapshots = f.snapshots
  | .assembled document =>
    Reading configVersion found db document.configVersion fun f =>
      document.optionSets = f.optionSets

def Answer.Right (storeId : Uuid) (db : Database) (answer : Answer) : Prop :=
  answer.etag = configEtag storeId answer.document.configVersion ∧
    Reading configVersion found db answer.document.configVersion fun f =>
      answer.document.optionSets = f.optionSets

variable {storeId : Uuid} {s : Store} {db db' : Database}

/-- It stays so when the tables change by a transaction that tells. -/
theorem Reader.Right.tells {r : Reader} (hr : r.Right db) (h : Tells db db') : r.Right db' := by
  cases r with
  | missed => trivial
  | labelled v | listed v sets | collected v sets snapshots | assembled document =>
    rw [Right] at hr ⊢
    exact hr.tells h

theorem Answer.Right.tells {answer : Answer} (ha : answer.Right storeId db) (h : Tells db db') :
    answer.Right storeId db' := ⟨ha.1, ha.2.tells h⟩

/-- **Each query adds to a reading** what it finds under the same label. -/
theorem Reader.next_right {r : Reader} (hr : r.Right db) : (r.next db).Right db := by
  cases r with
  | missed => exact ⟨le_rfl, fun _ => trivial⟩
  | labelled v =>
    rw [Right] at hr
    rw [next, Right]
    exact Reading.next hr fun _ => rfl
  | listed v sets =>
    rw [Right] at hr
    rw [next, Right]
    exact Reading.next hr fun hsets => ⟨hsets, by rw [hsets]; rfl⟩
  | collected v sets snapshots =>
    rw [Right] at hr
    rw [next, Right]
    refine Reading.next hr fun ⟨hsets, hsnapshots⟩ => ?_
    rw [hsets, hsnapshots]
    rfl
  | assembled document => exact hr

/-- What the readers and the clients of a store hold is right. -/
structure Store.Right (storeId : Uuid) (s : Store) : Prop where
  readers : ∀ reader r, s.readers reader = some r → r.Right s.db
  answers : ∀ answer ∈ s.answers, answer.Right storeId s.db

theorem Store.right_start (db : Database) : (start db).Right storeId :=
  ⟨fun _ _ h => (Option.some_ne_none _ h.symm).elim, fun _ h => absurd h List.not_mem_nil⟩

theorem Store.Right.update (h : s.Right storeId) (reader : ℕ) (found : Option Reader)
    (hfound : ∀ r, found = some r → r.Right s.db) :
    Store.Right storeId { s with readers := Function.update s.readers reader found } := by
  refine ⟨fun other r hr => ?_, h.answers⟩
  change Function.update s.readers reader found other = some r at hr
  by_cases hother : other = reader
  · rw [hother, Function.update_self] at hr
    exact hfound r hr
  · rw [Function.update_of_ne hother] at hr
    exact h.readers other r hr

theorem Store.Right.query (h : s.Right storeId) (reader : ℕ) :
    (s.query storeId reader).Right storeId := by
  rw [Store.query]
  split
  · exact h
  · case h_2 document hr =>
    have hdoc : (Reader.assembled document).Right s.db := h.readers reader _ hr
    have hmoved := h.update reader none fun _ hr => (Option.some_ne_none _ hr.symm).elim
    refine ⟨hmoved.readers, fun answer hmem => ?_⟩
    obtain hmem | hmem := List.mem_append.1 hmem
    · exact h.answers answer hmem
    · obtain rfl := List.mem_singleton.1 hmem
      exact ⟨rfl, hdoc⟩
  · case h_3 r _ hr =>
    refine h.update reader _ fun r' hr' => ?_
    obtain rfl := Option.some.inj hr'
    exact Reader.next_right (h.readers reader r hr)

/-- **An action, where its deletion is informed, keeps a store right.** -/
theorem Store.Right.step {action : Action} (hok : Informed s action) (h : s.Right storeId) :
    (Delivery.step storeId s action).Right storeId := by
  cases action with
  | «begin» writer request => exact ⟨h.readers, h.answers⟩
  | commit writer =>
    rw [Delivery.step]
    split
    · exact h
    · case h_2 t ht =>
      have htells : Tells s.db (s.db.run t) := run_tells (hok t ht)
      exact ⟨fun reader r hr => (h.readers reader r hr).tells htells,
        fun answer hmem => (h.answers answer hmem).tells htells⟩
  | abandon writer => exact ⟨h.readers, h.answers⟩
  | ask reader ifNoneMatch =>
    refine h.update reader _ fun r hr => ?_
    split at hr
    · exact (Option.some_ne_none _ hr.symm).elim
    · obtain rfl := Option.some.inj hr
      trivial
  | query reader => exact h.query reader
  | drop reader => exact h.update reader none fun _ hr => (Option.some_ne_none _ hr.symm).elim

theorem Store.Right.hidesNothing (h : s.Right storeId) (action : Action) :
    HidesNothing storeId s action := by
  intro answer hmem reader _ hmatch
  obtain ⟨hetag, hright⟩ := h.answers answer hmem
  rw [notModified, hetag, matchesEtag_iff] at hmatch
  exact hright.right_of_eq hmatch

/-! ## Runs -/

/-- **A 304 hides nothing, in every run whose deletions are informed**: a
client that holds an answer and is told that nothing changed holds the option
sets a build would find in the state its version was read in. -/
theorem not_modified_hides_nothing (storeId : Uuid) (db : Database) (actions : List Action)
    (h : Throughout (step storeId) Informed (.start db) actions) :
    Throughout (step storeId) (HidesNothing storeId) (.start db) actions := by
  refine throughout_of_prefix fun before action after hsplit => ?_
  have hbefore : Throughout (step storeId) Informed (.start db) before :=
    h.of_prefix ⟨action :: after, hsplit.symm⟩
  have hright : (run (step storeId) (.start db) before).Right storeId :=
    invariant (fun _ _ hok hs => hs.step hok) hbefore (Store.right_start db)
  exact hright.hidesNothing action

/-! ## A removal overtaken by a publish -/

/-- A set that was never published. -/
def engraving : Database where
  configVersion := 4
  optionSets := [⟨"a0", 1, .draft, true, 0⟩]
  versions := []
  assignments := []

def workshop : Uuid := ⟨"0f", by simp⟩

/-- A publish lands between the queries of a reader, and the set is removed
while the client that fetches again holds its document. -/
def removalInformed : List Action :=
  [.ask 0 none, .query 0, .begin 1 (.publish "a0" ∅), .commit 1, .query 0, .query 0, .query 0,
    .query 0, .ask 0 (some (configEtag workshop 4)), .query 0, .query 0, .query 0, .query 0, .query 0,
    .ask 1 (some (configEtag workshop 5)), .begin 0 (.remove "a0"), .commit 0,
    .ask 1 (some (configEtag workshop 5))]

/-- The removal knew of the set. -/
theorem not_modified_hides_nothing_informed :
    Throughout (step workshop) (HidesNothing workshop) (.start engraving) removalInformed :=
  not_modified_hides_nothing workshop engraving removalInformed (by decide +kernel)

/-- A removal reads the set as a draft, a publish puts it in the document, a
client fetches it, and then the removal's transaction runs. -/
def removalOvertaken : List Action :=
  [.begin 0 (.remove "a0"), .begin 1 (.publish "a0" ∅), .commit 1, .ask 0 none, .query 0, .query 0,
    .query 0, .query 0, .query 0, .commit 0]

/-- The removal takes the set out of the document and moves no version: the
client is told that nothing changed, and keeps it. -/
theorem removal_hidden :
    ¬ ∀ (storeId : Uuid) (db : Database) (actions : List Action),
      Throughout (step storeId) (HidesNothing storeId) (.start db) actions := by
  intro h
  have hrun := h workshop engraving (removalOvertaken ++ [.ask 0 (some (configEtag workshop 5))])
  have hask := Throughout.at hrun
  have hheld : ∀ answer ∈ (run (step workshop) (.start engraving) removalOvertaken).answers,
      answer.etag = configEtag workshop 5 ∧ answer.document.optionSets.length = 1 := by
    decide +kernel
  obtain ⟨answer, hanswer⟩ := List.exists_mem_of_length_pos
    (l := (run (step workshop) (.start engraving) removalOvertaken).answers) (by decide +kernel)
  obtain ⟨hetag, hone⟩ := hheld answer hanswer
  have hsame := hask answer hanswer 0 (by rw [hetag]) (by
    rw [hetag, notModified, matchesEtag_iff]
    decide +kernel)
  have hnone : (build (run (step workshop) (.start engraving) removalOvertaken).db).optionSets.length
      = 0 := by decide +kernel
  rw [hsame, hnone] at hone
  exact absurd hone (by decide)

end Optionia.Delivery
