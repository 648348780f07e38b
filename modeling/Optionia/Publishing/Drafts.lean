import Mathlib.Logic.Function.Basic
import Mathlib.Data.List.Range
import Optionia.Wire.Rule
import Optionia.Lib.Runs
/-!
# The tree of an option set, its drafts and versions

A draft is the rows of five tables. `OptionSetTreeLoader.load` reads them one
query after another, each for the parents the last one found, and
`OptionSetSerializer.toPublished` makes the document of what it read: what is
disabled is left out.
-/

namespace Optionia.Publishing

open Wire

/-- The tables under an option set. -/
inductive Table where
  | groups
  | options
  | items
  | values
  | rules
  deriving DecidableEq

/-- A live row of one of them. -/
structure Row where
  id : String
  parentId : String
  sortOrder : ℤ
  isEnabled : Bool
  fields : List (String × Json)

/-- The live rows of each table. -/
abbrev Draft := Table → List Row

def childOrder (a b : Row) : Bool :=
  decide (a.sortOrder < b.sortOrder) || a.sortOrder == b.sortOrder && decide (a.id ≤ b.id)

/-- `find`: the rows of some parents, in order. -/
def find (rows : List Row) (parents : List String) : List Row :=
  (rows.filter fun row => row.parentId ∈ parents).mergeSort childOrder

/-! ## Loading -/

/-- The queries of a load, in their order. -/
def queries : List Table := [.groups, .options, .items, .values, .rules]

/-- The parents a query asks for, of what was read before it. -/
def parents (optionSetId : String) (seen : Draft) : Table → List String
  | .groups | .rules => [optionSetId]
  | .options | .items => (seen .groups).map (·.id)
  | .values => (seen .options).map (·.id)

def query (optionSetId : String) (draft seen : Draft) (table : Table) : Draft :=
  Function.update seen table (find (draft table) (parents optionSetId seen table))

/-- A load in which nothing moves. -/
def load (optionSetId : String) (draft : Draft) : Draft :=
  queries.foldl (query optionSetId draft) fun _ => []

/-! ## What is published -/

/-- A published option set. -/
structure Snapshot where
  id : String
  version : ℕ
  groups : List Json
  rules : List Json

/-- The children of a row, in the order they were read. -/
def childrenOf (rows : List Row) (parent : Row) : List Row :=
  rows.filter fun row => row.parentId = parent.id

/-- `valueToPublished`, `itemToPublished` and `toPublishedRule`: a row without
children. -/
def leafToPublished (row : Row) : Json := .obj (("id", .str row.id) :: row.fields)

def optionToPublished (seen : Draft) (option : Row) : Json :=
  .obj (("id", .str option.id) :: option.fields ++
    [("values", .arr (((childrenOf (seen .values) option).filter (·.isEnabled)).map
      leafToPublished))])

def groupToPublished (seen : Draft) (group : Row) : Json :=
  .obj (("id", .str group.id) :: group.fields ++
    [("options", .arr (((childrenOf (seen .options) group).filter (·.isEnabled)).map
        (optionToPublished seen))),
      ("items", .arr ((childrenOf (seen .items) group).map leafToPublished))])

/-- `toPublished`; what assigns the set to products is not published with it. -/
def toPublished (optionSetId : String) (version : ℕ) (seen : Draft) : Snapshot where
  id := optionSetId
  version := version
  groups := ((seen .groups).filter (·.isEnabled)).map (groupToPublished seen)
  rules := ((seen .rules).filter (·.isEnabled)).map leafToPublished

/-! ## Drafts and the versions made of them

Clients edit, publish and roll back one option set, each statement and each
transaction one action. A publish reads its tree and checks the row version
before the transaction that makes a version of it, and that transaction takes
a lock and asks nothing again. So the versions are always numbered without a
gap and keep what was built (`versions_kept`); a version made for a row version
is of that draft where every query of its load finds its table as it was then;
and no version is of an older draft than one before it exactly where no
publish is overtaken by one that read a later draft (`drafts_kept`).
-/

open Runs

/-! ## The set and its clients -/

/-- What a version was made of. -/
inductive Source where
  /-- A publish, for the row version its author expected, if any, of the draft
  at the row version it read. -/
  | published (expected : Option ℕ) (rowVersion : ℕ)
  | restored (version : ℕ)
  deriving DecidableEq

/-- A row of `option_set_versions`. -/
structure Version where
  version : ℕ
  snapshot : Snapshot
  source : Source

/-- A load under way. -/
structure Loading where
  rowVersion : ℕ
  version : ℕ
  seen : Draft
  pending : List Table

/-- Where a client stands. -/
inductive Client where
  /-- Its write is done, and the set not touched yet. -/
  | edited
  | loading (expected : Option ℕ) (l : Loading)
  /-- It looks for the version it rolls back to. -/
  | recalling (version base : ℕ)
  /-- It is about to run its transaction, with what it has built, having read
  the set at a version. -/
  | ready (source : Source) (base : ℕ) (snapshot : Snapshot)

/-- The set, its tables, its versions and its clients; and what its tables
were when each row version was reached. -/
structure OptionSet where
  id : String
  rowVersion : ℕ
  version : ℕ
  draft : Draft
  /-- `option_set_versions`, in the order they were inserted. -/
  versions : List Version
  clients : ℕ → Option Client
  drafts : ℕ → Draft

/-! ## Actions -/

/-- What can happen. -/
inductive Action where
  | write (client : ℕ) (draft : Draft)
  | touch (client : ℕ)
  /-- The set itself is changed, for a row version or any. -/
  | change (expected : Option ℕ)
  | publish (client : ℕ) (expected : Option ℕ)
  | query (client : ℕ)
  | serialize (client : ℕ)
  /-- A rollback reads the set and checks the row version. -/
  | rollback (client : ℕ) (version : ℕ) (expected : Option ℕ)
  | recall (client : ℕ)
  | commit (client : ℕ)
  /-- A client gives up: a check refuses, or it dies. -/
  | abandon (client : ℕ)

namespace OptionSet

variable (s : OptionSet)

/-- The same with a client elsewhere, or gone. -/
def move (client : ℕ) (phase : Option Client) : OptionSet :=
  { s with clients := Function.update s.clients client phase }

/-- `rowVersion + 1` -/
def bump : OptionSet :=
  { s with
    rowVersion := s.rowVersion + 1
    drafts := Function.update s.drafts (s.rowVersion + 1) s.draft }

/-- `applyChange`: for any row version, or for the one expected. -/
def applyChange (expected : Option ℕ) : OptionSet :=
  if expected.all (· == s.rowVersion) then s.bump else s

/-- The transaction of a publish or a rollback: the next version is what was
built. -/
def insert (source : Source) (snapshot : Snapshot) : OptionSet :=
  { s.bump with
    version := s.version + 1
    versions := s.versions ++ [⟨s.version + 1, { snapshot with version := s.version + 1 }, source⟩] }

end OptionSet

def assertVersionMatches (current : ℕ) (expected : Option ℕ) : Bool := expected.all (· == current)

/-- One action; what cannot happen changes nothing. -/
def step (s : OptionSet) : Action → OptionSet
  | .write client draft =>
    if (s.clients client).isSome then s else { s.move client (some .edited) with draft := draft }
  | .touch client =>
    match s.clients client with
    | some .edited => (s.applyChange none).move client none
    | _ => s
  | .change expected => s.applyChange expected
  | .publish client expected =>
    if (s.clients client).isSome then s
    else s.move client (some (.loading expected ⟨s.rowVersion, s.version, fun _ => [], queries⟩))
  | .query client =>
    match s.clients client with
    | some (.loading expected ⟨rowVersion, version, seen, table :: pending⟩) =>
      s.move client (some (.loading expected
        ⟨rowVersion, version, query s.id s.draft seen table, pending⟩))
    | _ => s
  | .serialize client =>
    match s.clients client with
    | some (.loading expected ⟨rowVersion, version, seen, []⟩) =>
      s.move client (if assertVersionMatches rowVersion expected then
        some (.ready (.published expected rowVersion) version (toPublished s.id version seen))
      else none)
    | _ => s
  | .rollback client version expected =>
    if (s.clients client).isSome then s
    else s.move client (if assertVersionMatches s.rowVersion expected then
      some (.recalling version s.version) else none)
  | .recall client =>
    match s.clients client with
    | some (.recalling version base) =>
      s.move client ((s.versions.find? fun row => row.version = version).map fun row =>
        .ready (.restored version) base row.snapshot)
    | _ => s
  | .commit client =>
    match s.clients client with
    | some (.ready source _ snapshot) => (s.insert source snapshot).move client none
    | _ => s
  | .abandon client => s.move client none

/-- A set that was never published. -/
def fresh (id : String) (rowVersion : ℕ) (draft : Draft) : OptionSet :=
  ⟨id, rowVersion, 0, draft, [], fun _ => none, fun _ => draft⟩

/-! ## What is promised -/

def Makes (s : OptionSet) (a : Action) (row : Version) : Prop :=
  ∃ client source base snapshot, a = .commit client ∧
    s.clients client = some (.ready source base snapshot) ∧
    row = ⟨s.version + 1, { snapshot with version := s.version + 1 }, source⟩

/-- **The versions are numbered from one without a gap**, and the set is at the
last. -/
def Numbered (s : OptionSet) : Prop :=
  s.versions.map (·.version) = List.range' 1 s.version

/-- **A version published for a row version is of the draft it was reached
with.** -/
def OfExpectedDraft (s : OptionSet) : Prop :=
  ∀ row ∈ s.versions, ∀ expected rowVersion, row.source = .published (some expected) rowVersion →
    row.snapshot = toPublished s.id row.version (load s.id (s.drafts expected))

/-- **No publish is of an older draft than one before it.** -/
def DraftsInOrder (s : OptionSet) : Prop :=
  s.versions.Pairwise fun row row' => ∀ expected rowVersion expected' rowVersion',
    row.source = .published expected rowVersion →
      row'.source = .published expected' rowVersion' → rowVersion ≤ rowVersion'

/-! ## What it takes -/

/-- **A query of a publish that expects the row version it read finds its table
as it was when that was reached.** -/
def QueriesSettled (s : OptionSet) : Action → Prop
  | .query client => ∀ rowVersion version seen table pending,
      s.clients client =
        some (.loading (some rowVersion) ⟨rowVersion, version, seen, table :: pending⟩) →
      s.draft table = s.drafts rowVersion table
  | _ => True

/-- **No publish runs its transaction once another that read the set at a later
row version has run one since it read the set itself.** -/
def NotOvertaken (s : OptionSet) : Action → Prop
  | .commit client => ∀ expected rowVersion base snapshot,
      s.clients client = some (.ready (.published expected rowVersion) base snapshot) →
      ∀ row ∈ s.versions, base < row.version → ∀ expected' rowVersion',
        row.source = .published expected' rowVersion' → rowVersion' ≤ rowVersion
  | _ => True

/-! ## One action -/

/-- What an action brings a client to. -/
inductive Enters (s : OptionSet) : Action → ℕ → Client → Prop
  | edited (client : ℕ) (draft : Draft) : Enters s (.write client draft) client .edited
  | loads (client : ℕ) (expected : Option ℕ) : Enters s (.publish client expected) client
      (.loading expected ⟨s.rowVersion, s.version, fun _ => [], queries⟩)
  | reads {client : ℕ} {expected : Option ℕ} {rowVersion version : ℕ} {seen : Draft}
      {table : Table} {pending : List Table}
      (h : s.clients client =
        some (.loading expected ⟨rowVersion, version, seen, table :: pending⟩)) :
      Enters s (.query client) client
        (.loading expected ⟨rowVersion, version, query s.id s.draft seen table, pending⟩)
  | builds {client : ℕ} {expected : Option ℕ} {rowVersion version : ℕ} {seen : Draft}
      (h : s.clients client = some (.loading expected ⟨rowVersion, version, seen, []⟩))
      (hmatches : assertVersionMatches rowVersion expected = true) :
      Enters s (.serialize client) client
        (.ready (.published expected rowVersion) version (toPublished s.id version seen))
  | recalls (client version : ℕ) (expected : Option ℕ) :
      Enters s (.rollback client version expected) client (.recalling version s.version)
  | finds {client version base : ℕ} {row : Version}
      (h : s.clients client = some (.recalling version base)) (hrow : row ∈ s.versions) :
      Enters s (.recall client) client (.ready (.restored version) base row.snapshot)

variable {client rowVersion : ℕ} {s' : OptionSet} {pending : List Table}

theorem clients_move {s : OptionSet} {client' : ℕ} {q p : Client}
    (h : Function.update s.clients client (some q) client' = some p) :
    s.clients client' = some p ∨ client' = client ∧ q = p := by
  by_cases hc : client' = client
  · rw [hc, Function.update_self] at h
    exact Or.inr ⟨hc, Option.some.inj h⟩
  · rw [Function.update_of_ne hc] at h
    exact Or.inl h

theorem clients_gone {s : OptionSet} {client' : ℕ} {p : Client}
    (h : Function.update s.clients client none client' = some p) : s.clients client' = some p := by
  by_cases hc : client' = client
  · rw [hc, Function.update_self] at h
    simp at h
  · rwa [Function.update_of_ne hc] at h

theorem clients_applyChange (s : OptionSet) (expected : Option ℕ) :
    (s.applyChange expected).clients = s.clients := by
  unfold OptionSet.applyChange
  split <;> rfl

/-- **Where an action leaves a client**: where it was, or where the action
brings it. -/
theorem clients_step {s : OptionSet} {a : Action} {p : Client}
    (h : (step s a).clients client = some p) : s.clients client = some p ∨ Enters s a client p := by
  unfold step at h
  cases a with
  | write c draft =>
    dsimp only at h
    split at h
    · exact Or.inl h
    · rcases clients_move h with hold | ⟨rfl, rfl⟩
      · exact Or.inl hold
      · exact Or.inr (.edited client draft)
  | touch c =>
    dsimp only at h
    split at h
    · exact Or.inl (clients_applyChange s none ▸ clients_gone h)
    · exact Or.inl h
  | change expected => exact Or.inl (clients_applyChange s expected ▸ h)
  | publish c expected =>
    dsimp only at h
    split at h
    · exact Or.inl h
    · rcases clients_move h with hold | ⟨rfl, rfl⟩
      · exact Or.inl hold
      · exact Or.inr (.loads client expected)
  | query c =>
    dsimp only at h
    split at h
    · next hc =>
      rcases clients_move h with hold | ⟨rfl, rfl⟩
      · exact Or.inl hold
      · exact Or.inr (.reads hc)
    · exact Or.inl h
  | serialize c =>
    dsimp only at h
    split at h
    · next hc =>
      split at h
      · next hmatches =>
        rcases clients_move h with hold | ⟨rfl, rfl⟩
        · exact Or.inl hold
        · exact Or.inr (.builds hc hmatches)
      · exact Or.inl (clients_gone h)
    · exact Or.inl h
  | rollback c version expected =>
    dsimp only at h
    split at h
    · exact Or.inl h
    · split at h
      · rcases clients_move h with hold | ⟨rfl, rfl⟩
        · exact Or.inl hold
        · exact Or.inr (.recalls client version expected)
      · exact Or.inl (clients_gone h)
  | «recall» c =>
    dsimp only at h
    split at h
    · next version base hc =>
      cases hfind : s.versions.find? fun row => row.version = version with
      | none =>
        rw [hfind] at h
        exact Or.inl (clients_gone h)
      | some row =>
        rw [hfind] at h
        rcases clients_move h with hold | ⟨rfl, rfl⟩
        · exact Or.inl hold
        · exact Or.inr (.finds hc (List.mem_of_find?_eq_some hfind))
    · exact Or.inl h
  | commit c =>
    dsimp only at h
    split at h
    · exact Or.inl (clients_gone h)
    · exact Or.inl h
  | abandon c => exact Or.inl (clients_gone h)

/-- Time goes on: the row version grows, and the drafts it has been through
stay. -/
structure Later (s s' : OptionSet) : Prop where
  id : s'.id = s.id
  rowVersion : s.rowVersion ≤ s'.rowVersion
  drafts : ∀ r, r ≤ s.rowVersion → s'.drafts r = s.drafts r

theorem quiet_spec {s : OptionSet} (hid : s'.id = s.id) (hrow : s'.rowVersion = s.rowVersion)
    (hdrafts : s'.drafts = s.drafts) (hversions : s'.versions = s.versions)
    (hversion : s'.version = s.version) :
    Later s s' ∧ s'.versions = s.versions ∧ s'.version = s.version :=
  ⟨⟨hid, hrow.ge, fun _ _ => by rw [hdrafts]⟩, hversions, hversion⟩

theorem bump_spec (s : OptionSet) :
    Later s s.bump ∧ s.bump.versions = s.versions ∧ s.bump.version = s.version :=
  ⟨⟨rfl, Nat.le_succ _, fun _ hr => Function.update_of_ne (Nat.ne_of_lt (Nat.lt_succ_of_le hr)) _ _⟩,
    rfl, rfl⟩

theorem applyChange_spec (s : OptionSet) (expected : Option ℕ) :
    Later s (s.applyChange expected) ∧ (s.applyChange expected).versions = s.versions ∧
      (s.applyChange expected).version = s.version := by
  unfold OptionSet.applyChange
  split
  · exact bump_spec s
  · exact quiet_spec rfl rfl rfl rfl rfl

/-- **An action that is no transaction leaves the versions.** -/
theorem step_spec_of_not_commit {s : OptionSet} {a : Action} (h : ∀ client, a ≠ .commit client) :
    Later s (step s a) ∧ (step s a).versions = s.versions ∧ (step s a).version = s.version := by
  unfold step
  cases a with
  | commit client => exact absurd rfl (h client)
  | touch client =>
    dsimp only
    split
    · obtain ⟨hlater, hversions, hversion⟩ := applyChange_spec s none
      exact ⟨⟨hlater.id, hlater.rowVersion, hlater.drafts⟩, hversions, hversion⟩
    · exact quiet_spec rfl rfl rfl rfl rfl
  | change expected => exact applyChange_spec s expected
  | write | publish | query | serialize | rollback | «recall» =>
    dsimp only
    split <;> exact quiet_spec rfl rfl rfl rfl rfl
  | abandon client => exact quiet_spec rfl rfl rfl rfl rfl

/-- **An action makes a version, or leaves them all.** -/
theorem step_spec (s : OptionSet) (a : Action) :
    Later s (step s a) ∧
      ((step s a).versions = s.versions ∧ (step s a).version = s.version ∧
          (∀ row, ¬ Makes s a row) ∨
        ∃ row, Makes s a row ∧ (step s a).versions = s.versions ++ [row] ∧
          (step s a).version = s.version + 1 ∧ s.rowVersion < (step s a).rowVersion) := by
  by_cases hcommit : ∃ client, a = .commit client
  · obtain ⟨client, rfl⟩ := hcommit
    unfold step
    dsimp only
    split
    · next source base snapshot hc =>
      obtain ⟨hlater, -, -⟩ := bump_spec s
      exact ⟨⟨hlater.id, hlater.rowVersion, hlater.drafts⟩, Or.inr
        ⟨_, ⟨client, source, base, snapshot, rfl, hc, rfl⟩, rfl, rfl, Nat.lt_succ_self _⟩⟩
    · next hc =>
      refine ⟨(quiet_spec rfl rfl rfl rfl rfl).1, Or.inl ⟨rfl, rfl, ?_⟩⟩
      rintro row ⟨client', source, base, snapshot, ha, hready, -⟩
      obtain rfl := Action.commit.inj ha
      exact hc _ _ _ hready
  · obtain ⟨hlater, hversions, hversion⟩ :=
      step_spec_of_not_commit (s := s) fun client ha => hcommit ⟨client, ha⟩
    refine ⟨hlater, Or.inl ⟨hversions, hversion, ?_⟩⟩
    rintro row ⟨client, _, _, _, ha, -⟩
    exact hcommit ⟨client, ha⟩

/-! ## Numbers -/

/-- **Every action keeps the numbers.** -/
theorem Numbered.step {s : OptionSet} (h : Numbered s) (a : Action) : Numbered (step s a) := by
  obtain ⟨-, ⟨hversions, hversion, -⟩ | ⟨row, ⟨_, _, _, _, -, -, rfl⟩, hversions, hversion, -⟩⟩ :=
    step_spec s a
  · rw [Numbered, hversions, hversion]
    exact h
  · rw [Numbered, hversions, hversion, List.map_append, h, List.range'_1_concat, Nat.add_comm 1]
    rfl

/-- **The versions of a run are what its transactions made.** -/
theorem mem_versions_run {s : OptionSet} (hnone : s.versions = []) (actions : List Action)
    (row : Version) :
    row ∈ (run step s actions).versions ↔
      ∃ before a after, actions = before ++ a :: after ∧ Makes (run step s before) a row := by
  induction actions using List.reverseRecOn with
  | nil =>
    rw [run_nil, hnone]
    constructor
    · intro h
      simp at h
    · rintro ⟨before, a, after, h, -⟩
      exact absurd h.symm (List.append_ne_nil_of_right_ne_nil _ (List.cons_ne_nil _ _))
  | append_singleton actions a ih =>
    have hsplit : (∃ before b after, actions ++ [a] = before ++ b :: after ∧
          Makes (run step s before) b row) ↔
        row ∈ (run step s actions).versions ∨ Makes (run step s actions) a row := by
      rw [ih]
      constructor
      · rintro ⟨before, b, after, h, hmakes⟩
        rcases List.eq_nil_or_concat after with rfl | ⟨after', c, rfl⟩
        · obtain ⟨rfl, hb⟩ := List.append_inj' h rfl
          obtain rfl := List.singleton_inj.1 hb
          exact Or.inr hmakes
        · rw [List.concat_eq_append, ← List.cons_append, ← List.append_assoc] at h
          exact Or.inl ⟨before, b, after', (List.append_inj' h rfl).1, hmakes⟩
      · rintro (⟨before, b, after, rfl, hmakes⟩ | hmakes)
        · exact ⟨before, b, after ++ [a], by rw [List.append_assoc, List.cons_append], hmakes⟩
        · exact ⟨actions, a, [], rfl, hmakes⟩
    rw [hsplit, run_concat]
    obtain ⟨-, ⟨hversions, -, hnot⟩ | ⟨row', hmakes, hversions, -, -⟩⟩ :=
      step_spec (run step s actions) a
    · rw [hversions]
      exact (or_iff_left (hnot row)).symm
    · rw [hversions, List.mem_append, List.mem_singleton]
      refine or_congr_right ⟨fun h => h ▸ hmakes, fun h => ?_⟩
      obtain ⟨client, source, base, snapshot, rfl, hready, rfl⟩ := h
      obtain ⟨client', source', base', snapshot', ha, hready', rfl⟩ := hmakes
      obtain rfl := Action.commit.inj ha
      obtain ⟨rfl, rfl, rfl⟩ := Client.ready.inj (Option.some.inj (hready.symm.trans hready'))
      rfl

/-! ## Drafts -/

/-- What was read leads to the draft of a row version. -/
def Reaches (s : OptionSet) (rowVersion : ℕ) (seen : Draft) (pending : List Table) : Prop :=
  rowVersion ≤ s.rowVersion ∧
    pending.foldl (query s.id (s.drafts rowVersion)) seen = load s.id (s.drafts rowVersion)

/-- A snapshot is of the draft of a row version. -/
def OfDraft (s : OptionSet) (rowVersion version : ℕ) (snapshot : Snapshot) : Prop :=
  rowVersion ≤ s.rowVersion ∧
    snapshot = toPublished s.id version (load s.id (s.drafts rowVersion))

theorem Reaches.later {s : OptionSet} {seen : Draft} (h : Reaches s rowVersion seen pending)
    (hlater : Later s s') : Reaches s' rowVersion seen pending := by
  rw [Reaches, hlater.id, hlater.drafts rowVersion h.1]
  exact ⟨h.1.trans hlater.rowVersion, h.2⟩

theorem OfDraft.later {s : OptionSet} {version : ℕ} {snapshot : Snapshot}
    (h : OfDraft s rowVersion version snapshot) (hlater : Later s s') :
    OfDraft s' rowVersion version snapshot := by
  rw [OfDraft, hlater.id, hlater.drafts rowVersion h.1]
  exact ⟨h.1.trans hlater.rowVersion, h.2⟩

theorem Reaches.query {s : OptionSet} {seen : Draft} {table : Table}
    (h : Reaches s rowVersion seen (table :: pending))
    (hsettled : s.draft table = s.drafts rowVersion table) :
    Reaches s rowVersion (query s.id s.draft seen table) pending := by
  obtain ⟨hr, hload⟩ := h
  refine ⟨hr, ?_⟩
  rw [List.foldl_cons] at hload
  rw [← hload, Publishing.query, Publishing.query, hsettled]

/-- **What publishes that expect a row version have is of its draft.** -/
structure OfDrafts (s : OptionSet) : Prop where
  loading : ∀ client rowVersion version seen pending,
    s.clients client = some (.loading (some rowVersion) ⟨rowVersion, version, seen, pending⟩) →
    Reaches s rowVersion seen pending
  ready : ∀ client expected rowVersion base snapshot,
    s.clients client = some (.ready (.published (some expected) rowVersion) base snapshot) →
    ∃ version, OfDraft s expected version snapshot
  versions : ∀ row ∈ s.versions, ∀ expected rowVersion,
    row.source = .published (some expected) rowVersion →
    OfDraft s expected row.version row.snapshot

theorem ofDrafts_fresh (id : String) (rowVersion : ℕ) (draft : Draft) :
    OfDrafts (fresh id rowVersion draft) where
  loading _ _ _ _ _ h := absurd h.symm (Option.some_ne_none _)
  ready _ _ _ _ _ h := absurd h.symm (Option.some_ne_none _)
  versions _ h := absurd h List.not_mem_nil

/-- **A settled query keeps what publishes have of the drafts.** -/
theorem OfDrafts.step {s : OptionSet} (h : OfDrafts s) {a : Action} (hok : QueriesSettled s a) :
    OfDrafts (step s a) := by
  obtain ⟨hlater, hversions⟩ := step_spec s a
  refine ⟨?_, ?_, ?_⟩
  · intro client r version seen pending hc
    rcases clients_step hc with hold | henters
    · exact (h.loading client r version seen pending hold).later hlater
    · cases henters with
      | loads => exact Reaches.later ⟨le_rfl, rfl⟩ hlater
      | reads hold =>
        have hsettled := hok r version _ _ _ hold
        exact ((h.loading client r version _ _ hold).query hsettled).later hlater
  · intro client expected r base snapshot hc
    rcases clients_step hc with hold | henters
    · obtain ⟨version, hbuilt⟩ := h.ready client expected r base snapshot hold
      exact ⟨version, hbuilt.later hlater⟩
    · cases henters with
      | builds hold hmatches =>
        obtain rfl : expected = r := beq_iff_eq.1 hmatches
        obtain ⟨hr, hload⟩ := h.loading client expected base _ _ hold
        have hbuilt : OfDraft s expected base (toPublished s.id base _) := ⟨hr, by rw [← hload, List.foldl_nil]⟩
        exact ⟨base, hbuilt.later hlater⟩
  · intro row hrow expected r hsource
    rcases hversions with ⟨hsame, -, -⟩ | ⟨row', hmakes, hsame, -, -⟩
    · exact (h.versions row (hsame ▸ hrow) expected r hsource).later hlater
    · rw [hsame, List.mem_append, List.mem_singleton] at hrow
      rcases hrow with hrow | rfl
      · exact (h.versions row hrow expected r hsource).later hlater
      · obtain ⟨client, source, base, snapshot, -, hc, rfl⟩ := hmakes
        obtain rfl := hsource
        obtain ⟨version, hr, rfl⟩ := h.ready client expected r base snapshot hc
        exact OfDraft.later ⟨hr, rfl⟩ hlater

/-! ## Order -/

/-- The publishes among some versions were of no later draft than a row
version's. -/
def NoLater (rows : List Version) (rowVersion : ℕ) : Prop :=
  ∀ row ∈ rows, ∀ expected r, row.source = .published expected r → r ≤ rowVersion

/-- What was read of the set, at a version and a row version: every version
there was is of no later draft. -/
def Overlooks (s : OptionSet) (base rowVersion : ℕ) : Prop :=
  base ≤ s.version ∧ rowVersion ≤ s.rowVersion ∧
    NoLater (s.versions.filter fun row => row.version ≤ base) rowVersion

/-- **What clients know of the set.** -/
structure Informed (s : OptionSet) : Prop where
  versions : NoLater s.versions s.rowVersion
  /-- A load began with the set as it was. -/
  loading : ∀ client expected l, s.clients client = some (.loading expected l) →
    Overlooks s l.version l.rowVersion
  ready : ∀ client expected rowVersion base snapshot,
    s.clients client = some (.ready (.published expected rowVersion) base snapshot) →
    Overlooks s base rowVersion

theorem informed_fresh (id : String) (rowVersion : ℕ) (draft : Draft) :
    Informed (fresh id rowVersion draft) where
  versions _ h := absurd h List.not_mem_nil
  loading _ _ _ h := absurd h.symm (Option.some_ne_none _)
  ready _ _ _ _ _ h := absurd h.symm (Option.some_ne_none _)

theorem Overlooks.step {s : OptionSet} {base : ℕ} (h : Overlooks s base rowVersion) (a : Action) :
    Overlooks (step s a) base rowVersion := by
  obtain ⟨hbase, hrow, hversions⟩ := h
  obtain ⟨hlater, ⟨hsame, hversion, -⟩ | ⟨row, ⟨_, _, _, _, -, -, rfl⟩, hmade, hversion, -⟩⟩ :=
    step_spec s a
  · refine ⟨hversion ▸ hbase, hrow.trans hlater.rowVersion, ?_⟩
    rw [hsame]
    exact hversions
  · refine ⟨hversion ▸ hbase.trans (Nat.le_succ _), hrow.trans hlater.rowVersion, ?_⟩
    have hpast : ¬ s.version + 1 ≤ base := Nat.not_le_of_lt (Nat.lt_succ_of_le hbase)
    rw [hmade, List.filter_append, List.filter_singleton, decide_eq_false hpast]
    change NoLater (s.versions.filter _ ++ []) rowVersion
    rwa [List.append_nil]

/-- **Every action keeps what clients know.** -/
theorem Informed.step {s : OptionSet} (h : Informed s) (a : Action) : Informed (step s a) := by
  have hnow : Overlooks s s.version s.rowVersion :=
    ⟨le_rfl, le_rfl, fun row hrow => h.versions row (List.mem_of_mem_filter hrow)⟩
  refine ⟨?_, ?_, ?_⟩
  · intro row hrow expected r hsource
    obtain ⟨hlater, ⟨hsame, -, -⟩ | ⟨row', hmakes, hmade, -, -⟩⟩ := step_spec s a
    · exact (h.versions row (hsame ▸ hrow) expected r hsource).trans hlater.rowVersion
    · rw [hmade, List.mem_append, List.mem_singleton] at hrow
      rcases hrow with hrow | rfl
      · exact (h.versions row hrow expected r hsource).trans hlater.rowVersion
      · obtain ⟨client, source, base, snapshot, -, hc, rfl⟩ := hmakes
        obtain rfl := hsource
        exact (h.ready client expected r base snapshot hc).2.1.trans hlater.rowVersion
  · intro client expected l hc
    rcases clients_step hc with hold | henters
    · exact (h.loading client expected l hold).step a
    · cases henters with
      | loads => exact hnow.step _
      | reads hold => exact (h.loading client expected _ hold).step _
  · intro client expected r base snapshot hc
    rcases clients_step hc with hold | henters
    · exact (h.ready client expected r base snapshot hold).step a
    · cases henters with
      | builds hold _ => exact (h.loading client expected _ hold).step _

/-- **An action keeps the drafts in order exactly where no publish is
overtaken.** -/
theorem draftsInOrder_step {s : OptionSet} (h : Informed s) (horder : DraftsInOrder s)
    (a : Action) : DraftsInOrder (step s a) ↔ NotOvertaken s a := by
  obtain ⟨-, ⟨hsame, -, hnot⟩ | ⟨row, hmakes, hmade, -, -⟩⟩ := step_spec s a
  · rw [DraftsInOrder, hsame]
    refine iff_of_true horder ?_
    cases a with
    | commit client =>
      intro expected r base snapshot hc
      exact absurd ⟨client, _, base, snapshot, rfl, hc, rfl⟩ (hnot _)
    | write | touch | change | publish | query | serialize | rollback | «recall» | abandon => trivial
  · obtain ⟨client, source, base, snapshot, rfl, hc, rfl⟩ := hmakes
    rw [DraftsInOrder, hmade, List.pairwise_append]
    constructor
    · rintro ⟨-, -, hlast⟩ expected r base' snapshot' hc' row hrow - expected' r' hsource
      obtain ⟨rfl, -, -⟩ := Client.ready.inj (Option.some.inj (hc.symm.trans hc'))
      exact hlast row hrow _ (List.mem_singleton.2 rfl) expected' r' expected r hsource rfl
    · intro hok
      refine ⟨horder, List.pairwise_singleton _ _, fun row hrow row' hrow' => ?_⟩
      obtain rfl := List.mem_singleton.1 hrow'
      rintro expected r expected' r' hsource hsource'
      obtain rfl := hsource'
      by_cases hbase : row.version ≤ base
      · exact (h.ready client expected' r' base snapshot hc).2.2 row
          (List.mem_filter.2 ⟨hrow, decide_eq_true hbase⟩) expected r hsource
      · exact hok expected' r' base snapshot hc row hrow (Nat.lt_of_not_le hbase) expected r hsource

/-! ## Runs -/

/-- A draft with nothing in it. -/
def blank : Draft := fun _ => []

def grouped : Draft := Function.update blank .groups [⟨"g", "set", 0, true, []⟩]

/-- A publish, up to its transaction. -/
def building (client : ℕ) (expected : Option ℕ) : List Action :=
  .publish client expected :: queries.map (fun _ => .query client) ++ [.serialize client]

/-- A publish between an edit's write and its touch. -/
def early : List Action :=
  .write 0 grouped :: building 1 (some 0) ++ [.commit 1, .touch 0]

/-- A publish that reads before an edit, and runs its transaction after another
that read after it. -/
def late : List Action :=
  building 0 (some 0) ++ [.write 2 grouped, .touch 2] ++ building 1 (some 1) ++
    [.commit 1, .commit 0]

end Optionia.Publishing
