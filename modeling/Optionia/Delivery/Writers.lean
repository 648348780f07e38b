import Optionia.Wire.Rule
import Optionia.Lib.Runs
/-!
# The config document of a store, and what changes it

`ConfigDocumentBuilder.build` assembles a store's document from four queries:
the store, whose `configVersion` labels it, its published sets, the snapshots
of their current versions and their live assignments. `ConfigDeliveryService`
answers that nothing changed when the client names the version the store is at.
The writers are publish, rollback, assign, unassign, the soft and the hard
delete of a set: each reads what it needs and then runs one transaction.
-/

namespace Optionia.Delivery

open Wire

/-! ## The tables of one store -/

inductive OptionSetStatus where
  | draft
  | published
  | archived
  deriving DecidableEq

inductive AssignmentMode where
  | all
  | manual
  | conditional
  deriving DecidableEq

/-- A row of `option_sets`. -/
structure OptionSet where
  id : String
  createdAt : ℕ
  status : OptionSetStatus
  isLive : Bool
  version : ℕ
  deriving DecidableEq

/-- A row of `option_set_versions`. -/
structure OptionSetVersion where
  optionSetId : String
  version : ℕ
  snapshot : OrderedMap String Json

inductive AssignmentTargetType where
  | product
  | category
  | tag
  | attribute
  | priceRange
  deriving DecidableEq

/-- A row of `option_set_assignments`. -/
structure OptionSetAssignment where
  id : String
  optionSetId : String
  mode : AssignmentMode
  targetType : Option AssignmentTargetType
  targetRef : Option String
  priority : ℤ
  isLive : Bool

/-- The store's revision and the tables of its sets. -/
structure Database where
  configVersion : ℕ
  optionSets : List OptionSet
  versions : List OptionSetVersion
  assignments : List OptionSetAssignment

/-! ## The document -/

/-- What the query for a document's sets asks of a row. -/
def OptionSet.isServed (set : OptionSet) : Bool := set.status = .published && set.isLive

/-- `order: { createdAt: 'ASC', id: 'ASC' }` -/
def setOrder (a b : OptionSet) : Bool :=
  decide (a.createdAt < b.createdAt) || a.createdAt == b.createdAt && decide (a.id ≤ b.id)

/-- `order: { priority: 'ASC', id: 'ASC' }` -/
def assignmentOrder (a b : OptionSetAssignment) : Bool :=
  decide (a.priority < b.priority) || a.priority == b.priority && decide (a.id ≤ b.id)

def AssignmentMode.text : AssignmentMode → String
  | .all => "all"
  | .manual => "manual"
  | .conditional => "conditional"

def AssignmentTargetType.text : AssignmentTargetType → String
  | .product => "product"
  | .category => "category"
  | .tag => "tag"
  | .attribute => "attribute"
  | .priceRange => "price_range"

/-- An assignment as it is published. -/
def OptionSetAssignment.toPublished (assignment : OptionSetAssignment) : Json :=
  .obj [("mode", .str assignment.mode.text),
    ("target_type", assignment.targetType.elim .null fun type => .str type.text),
    ("target_ref", assignment.targetRef.elim .null .str),
    ("priority", .int assignment.priority)]

/-- `value ?? []` -/
def orEmpty : Option Json → Json
  | none | some .null => .arr []
  | some value => value

def normaliseSnapshot (snapshot : OrderedMap String Json) : OrderedMap String Json :=
  ((snapshot.set "assignments" (.arr [])).set "rules" (orEmpty (snapshot.get? "rules"))).set
    "groups" (orEmpty (snapshot.get? "groups"))

/-- What the queries of a build find. -/
structure Found where
  sets : List OptionSet
  snapshots : List OptionSetVersion
  assignments : List OptionSetAssignment

namespace Database

variable (db : Database)

/-- The query for the published sets. -/
def publishedSets : List OptionSet := (db.optionSets.filter (·.isServed)).mergeSort setOrder

/-- The query for every version of some sets. -/
def versionsOf (ids : List String) : List OptionSetVersion :=
  db.versions.filter fun row => row.optionSetId ∈ ids

/-- The query for the live assignments of some sets. -/
def assignmentsOf (ids : List String) : List OptionSetAssignment :=
  (db.assignments.filter fun row => row.isLive && decide (row.optionSetId ∈ ids)).mergeSort
    assignmentOrder

/-- What a build finds when nothing moves. -/
def found : Found where
  sets := db.publishedSets
  snapshots := db.versionsOf (db.publishedSets.map (·.id))
  assignments := db.assignmentsOf (db.publishedSets.map (·.id))

end Database

/-- A set of the document; none without a snapshot of its version. Where a
version has two rows, the map `bySetAndVersion` keeps the last. -/
def Found.published (found : Found) (set : OptionSet) : Option (OrderedMap String Json) :=
  (found.snapshots.findRev? fun row =>
    row.optionSetId == set.id && row.version == set.version).map fun row =>
      (normaliseSnapshot row.snapshot).set "assignments" (.arr
        ((found.assignments.filter fun a => a.optionSetId = set.id).map (·.toPublished)))

/-- `option_sets` of the document. -/
def Found.optionSets (found : Found) : List (OrderedMap String Json) :=
  found.sets.filterMap found.published

/-- `ConfigDocument`: what labels it and what it is of. -/
structure ConfigDocument where
  configVersion : ℕ
  optionSets : List (OrderedMap String Json)

/-- `build`, when nothing moves. -/
def build (db : Database) : ConfigDocument := ⟨db.configVersion, db.found.optionSets⟩

/-! ## The validator -/

/-- An id of `BaseEntity`: hexadecimal digits and hyphens. -/
structure Uuid where
  text : String
  written : ∀ c ∈ text.toList, c.isAlphanum ∨ c = '-'

def configEtag (storeId : Uuid) (configVersion : ℕ) : String :=
  "W/\"" ++ storeId.text ++ "-" ++ toString configVersion ++ "\""

/-- `value.replace(/^W\//, '')`, of characters. -/
def stripWeak : List Char → List Char
  | 'W' :: '/' :: rest => rest
  | cs => cs

def normalise (value : String) : String := String.ofList (stripWeak (Js.trim value).toList)

def matchesEtag (header : Option String) (current : String) : Bool :=
  match header with
  | none | some "" => false
  | some header =>
    ((header.toList.splitOn ',').map fun cs => normalise (String.ofList cs)).any fun candidate =>
      candidate == "*" || candidate == normalise current

theorem toList_configEtag (storeId : Uuid) (configVersion : ℕ) :
    (configEtag storeId configVersion).toList =
      'W' :: '/' :: '"' :: (storeId.text.toList ++ '-' :: (toString configVersion).toList ++ ['"']) := by
  simp [configEtag]

theorem toList_normalise_configEtag (storeId : Uuid) (configVersion : ℕ) :
    (normalise (configEtag storeId configVersion)).toList =
      '"' :: (storeId.text.toList ++ '-' :: (toString configVersion).toList ++ ['"']) := by
  have hfront (cs : List Char) : ('W' :: cs).dropWhile Js.trimmed = 'W' :: cs :=
    List.dropWhile_cons_of_neg (by decide)
  have hback (cs : List Char) : (cs ++ ['"']).rdropWhile Js.trimmed = cs ++ ['"'] :=
    List.rdropWhile_concat_neg _ _ _ (by decide)
  rw [normalise, Js.trim, toList_configEtag, hfront]
  have := hback ('W' :: '/' :: '"' :: (storeId.text.toList ++ '-' :: (toString configVersion).toList))
  rw [List.cons_append, List.cons_append, List.cons_append] at this
  rw [this, String.toList_ofList, String.toList_ofList]
  rfl

theorem splitOn_configEtag (storeId : Uuid) (configVersion : ℕ) :
    (configEtag storeId configVersion).toList.splitOn ',' =
      [(configEtag storeId configVersion).toList] := by
  refine List.splitOn_eq_singleton fun hmem => ?_
  rw [toList_configEtag] at hmem
  simp only [List.mem_cons, List.mem_append, Char.reduceEq, false_or, List.not_mem_nil,
    or_false] at hmem
  obtain hid | hv := hmem
  · obtain h | h := storeId.written ',' hid
    · exact absurd h (by decide)
    · exact absurd h (by decide)
  · rw [Nat.toString_eq_repr, Nat.repr_eq_ofList_toDigits, String.toList_ofList] at hv
    exact absurd (Nat.isDigit_of_mem_toDigits (by decide) (by decide) hv) (by decide)

/-- **A validator matches exactly when the version is the same.** -/
theorem matchesEtag_iff (storeId : Uuid) (v v' : ℕ) :
    matchesEtag (some (configEtag storeId v)) (configEtag storeId v') ↔ v = v' := by
  have hempty : configEtag storeId v ≠ "" := fun h => by
    have := congrArg String.toList h
    rw [toList_configEtag] at this
    exact List.cons_ne_nil _ _ this
  have hstar : normalise (configEtag storeId v) ≠ "*" := fun h => by
    have := congrArg String.toList h
    rw [toList_normalise_configEtag] at this
    exact absurd (List.cons.inj this).1 (by decide)
  rw [matchesEtag.eq_3 _ _ hempty, splitOn_configEtag]
  simp only [List.map_cons, List.map_nil, List.any_cons, List.any_nil, Bool.or_false,
    String.ofList_toList, Bool.or_eq_true, beq_iff_eq, hstar, false_or]
  constructor
  · intro h
    have := congrArg String.toList h
    rw [toList_normalise_configEtag, toList_normalise_configEtag] at this
    have htail := List.append_cancel_right (List.cons.inj this).2
    have hnum := (List.cons.inj (List.append_cancel_left htail)).2
    rw [Nat.toString_eq_repr, Nat.toString_eq_repr, Nat.repr_eq_ofList_toDigits,
      Nat.repr_eq_ofList_toDigits, String.toList_ofList, String.toList_ofList] at hnum
    have hvalue := congrArg (Nat.ofDigitChars 10 · 0) hnum
    simpa only [Nat.ofDigitChars_ten_toDigits] using hvalue
  · rintro rfl
    rfl

end Optionia.Delivery

/-! ## The writers of a config document

Each reads what it needs first and then runs one transaction. All but the two
deletions move `configVersion` whenever they commit; a deletion moves it when
the set was published as far as it read. So a transaction tells of what it
changes in the document exactly as far as a deletion knew of the set it takes
out (`run_tells`).
-/

namespace Optionia.Delivery

open Wire Revision

/-- The type and the reference of a target. -/
structure AssignmentTarget where
  targetType : AssignmentTargetType
  targetRef : String
  deriving DecidableEq

/-- A live row of a set is for a target. -/
def OptionSetAssignment.isFor (row : OptionSetAssignment) (optionSetId : String)
    (target : AssignmentTarget) : Bool :=
  row.isLive && row.optionSetId == optionSetId && row.targetType == some target.targetType &&
    row.targetRef == some target.targetRef

/-- What a client asks for. -/
inductive Request where
  /-- `publish`, with what it serializes of the draft. -/
  | publish (optionSetId : String) (snapshot : OrderedMap String Json)
  | rollback (optionSetId : String) (version : ℕ)
  /-- `assign`, to each of some targets, with the id its row would get. -/
  | assign (optionSetId : String) (wanted : List (String × AssignmentTarget))
  | unassign (optionSetId : String) (target : AssignmentTarget)
  | unassignMany (optionSetId : String) (wanted : List AssignmentTarget)
  | remove (optionSetId : String)
  | purge (optionSetId : String)

/-- What is left to do once a request has read what it needs. -/
inductive Transaction where
  /-- The transaction of `publish` and of `rollback`. -/
  | publish (optionSetId : String) (snapshot : OrderedMap String Json)
  | assign (optionSetId : String) (wanted : List (String × AssignmentTarget))
  | unassign (optionSetId : String) (target : AssignmentTarget)
  | unassignMany (optionSetId : String) (wanted : List AssignmentTarget)
  | remove (optionSetId : String) (wasPublished : Bool)
  | purge (optionSetId : String) (wasVisible : Bool)

namespace Database

variable (db : Database)

/-- The live row of a set. -/
def liveSet (optionSetId : String) : Option OptionSet :=
  db.optionSets.find? fun set => set.id == optionSetId && set.isLive

def bump : Database := { db with configVersion := db.configVersion + 1 }

def bumpIfVisible (wasVisible : Bool) : Database := if wasVisible then db.bump else db

/-- What a request reads before its transaction; it ends here where it finds
nothing to work on. -/
def read : Request → Option Transaction
  | .publish id snapshot => (db.liveSet id).map fun _ => .publish id snapshot
  | .rollback id version => do
    let _ ← db.liveSet id
    let row ← db.versions.find? fun row => row.optionSetId == id && row.version == version
    return .publish id row.snapshot
  | .assign id wanted => (db.liveSet id).map fun _ => .assign id wanted
  | .unassign id target => (db.liveSet id).map fun _ => .unassign id target
  | .unassignMany id wanted => (db.liveSet id).map fun _ => .unassignMany id wanted
  | .remove id => (db.liveSet id).map fun set => .remove id (set.status = .published)
  | .purge id => (db.optionSets.find? fun set => set.id == id).map fun set => .purge id set.isServed

/-! ## The transactions -/

/-- The transaction of a publish or a rollback; the unique key of the versions
stands against a second row of one number. -/
def publish (optionSetId : String) (snapshot : OrderedMap String Json) : Database :=
  match db.liveSet optionSetId with
  | none => db
  | some set =>
    let version := set.version + 1
    if db.versions.any fun row => row.optionSetId == optionSetId && row.version == version then db
    else
      { db.bump with
        versions := db.versions ++ [⟨optionSetId, version, snapshot.set "version" (.int version)⟩]
        optionSets := db.optionSets.map fun row =>
          if row.id = optionSetId then { row with status := .published, version := version }
          else row }

/-- One row of an `assign`: `ON DUPLICATE KEY UPDATE` leaves a live row of the
target as it is. -/
def upsert (optionSetId : String) (assignments : List OptionSetAssignment)
    (wanted : String × AssignmentTarget) : List OptionSetAssignment :=
  if assignments.any (·.isFor optionSetId wanted.2) then assignments
  else
    assignments ++ [⟨wanted.1, optionSetId, .manual, some wanted.2.targetType,
      some wanted.2.targetRef, 0, true⟩]

/-- The transaction of `assign`; the foreign key of the rows stands against a
set that is gone. -/
def assign (optionSetId : String) (wanted : List (String × AssignmentTarget)) : Database :=
  if !wanted.isEmpty && !db.optionSets.any fun set => set.id == optionSetId then db
  else { db.bump with assignments := wanted.foldl (upsert optionSetId) db.assignments }

def deleteAssignments (which : OptionSetAssignment → Bool) : Database :=
  { db with
    assignments := db.assignments.map fun row =>
      if which row then { row with isLive := false } else row }

/-- The transaction of `unassign`; a target that has no row is refused. -/
def unassign (optionSetId : String) (target : AssignmentTarget) : Database :=
  let which := fun row : OptionSetAssignment =>
    row.mode == .manual && row.isFor optionSetId target
  if db.assignments.any which then (db.deleteAssignments which).bump else db

/-- The transaction of `unassignMany`. -/
def unassignMany (optionSetId : String) (wanted : List AssignmentTarget) : Database :=
  (db.deleteAssignments fun row =>
    row.mode == .manual && wanted.any (row.isFor optionSetId)).bump

/-- A set and its assignments are marked deleted. -/
def softDelete (optionSetId : String) : Database :=
  { db.deleteAssignments fun row => row.isLive && row.optionSetId == optionSetId with
    optionSets := db.optionSets.map fun set =>
      if set.id = optionSetId ∧ set.isLive then { set with isLive := false } else set }

/-- A set is erased, with its versions and its assignments. -/
def hardDelete (optionSetId : String) : Database :=
  { db with
    optionSets := db.optionSets.filter fun set => set.id ≠ optionSetId
    versions := db.versions.filter fun row => row.optionSetId ≠ optionSetId
    assignments := db.assignments.filter fun row => row.optionSetId ≠ optionSetId }

/-- `onOptionSetDeleted`; it ends in `AlreadyDeletedError` where the set is not
live. -/
def remove (optionSetId : String) (wasPublished : Bool) : Database :=
  if db.optionSets.any fun set => set.id == optionSetId && set.isLive then
    (db.softDelete optionSetId).bumpIfVisible wasPublished
  else db

/-- The transaction of `HardDeleteService.purge`. -/
def purge (optionSetId : String) (wasVisible : Bool) : Database :=
  (db.hardDelete optionSetId).bumpIfVisible wasVisible

def run : Transaction → Database
  | .publish id snapshot => db.publish id snapshot
  | .assign id wanted => db.assign id wanted
  | .unassign id target => db.unassign id target
  | .unassignMany id wanted => db.unassignMany id wanted
  | .remove id wasPublished => db.remove id wasPublished
  | .purge id wasVisible => db.purge id wasVisible

/-! ## What they tell of -/

/-- A set of this id is in the document. -/
def Serves (optionSetId : String) : Prop :=
  ∃ set ∈ db.optionSets, set.id = optionSetId ∧ set.isServed

/-- A deletion that takes a set out of the document read that it is in it. -/
def Informed : Transaction → Prop
  | .remove id wasPublished => db.Serves id → wasPublished
  | .purge id wasVisible => db.Serves id → wasVisible
  | _ => True

instance (optionSetId : String) : Decidable (db.Serves optionSetId) :=
  inferInstanceAs (Decidable (∃ set ∈ db.optionSets, _))

instance : DecidablePred db.Informed
  | .remove _ _ | .purge _ _ => inferInstanceAs (Decidable (db.Serves _ → _))
  | .publish _ _ | .assign _ _ | .unassign _ _ | .unassignMany _ _ =>
    inferInstanceAs (Decidable True)

variable {db} {optionSetId : String}

/-- Tells of what it changes in what a build finds. -/
abbrev Tells (db db' : Database) : Prop := Revision.Tells configVersion found db db'

theorem mem_publishedSets : optionSetId ∈ db.publishedSets.map (·.id) ↔ db.Serves optionSetId := by
  simp only [publishedSets, Serves, List.mem_map, List.mem_mergeSort, List.mem_filter]
  exact ⟨fun ⟨set, ⟨hmem, hserved⟩, hid⟩ => ⟨set, hmem, hid, hserved⟩,
    fun ⟨set, hmem, hid, hserved⟩ => ⟨set, ⟨hmem, hserved⟩, hid⟩⟩

/-- A change to rows a query passes over, and goes on passing over, is not
seen by it. -/
theorem filter_map_unseen {α : Type*} {rows : List α} {change : α → α} {query : α → Bool}
    (h : ∀ row ∈ rows, change row = row ∨ query row = false ∧ query (change row) = false) :
    (rows.map change).filter query = rows.filter query := by
  induction rows with
  | nil => rfl
  | cons row rows ih =>
    have hrest := ih fun row' hrow' => h row' (List.mem_cons_of_mem _ hrow')
    obtain hkept | ⟨hbefore, hafter⟩ := h row List.mem_cons_self
    · rw [List.map_cons, hkept, List.filter_cons, List.filter_cons, hrest]
    · rw [List.map_cons, List.filter_cons_of_neg (by simp [hafter]),
        List.filter_cons_of_neg (by simp [hbefore]), hrest]

/-- What the queries find follows from the sets and, for those, from the
versions and the assignments. -/
theorem found_congr {db' : Database} (hsets : db'.publishedSets = db.publishedSets)
    (hversions : ∀ ids, ids = db.publishedSets.map (·.id) → db'.versionsOf ids = db.versionsOf ids)
    (hassignments : ∀ ids, ids = db.publishedSets.map (·.id) →
      db'.assignmentsOf ids = db.assignmentsOf ids) : db'.found = db.found := by
  rw [found, found, hsets, hversions _ rfl, hassignments _ rfl]

/-- A set that is not in the document is marked deleted: a build finds the
same. -/
theorem found_softDelete (h : ¬ db.Serves optionSetId) :
    (db.softDelete optionSetId).found = db.found := by
  refine found_congr ?_ (fun ids _ => rfl) fun ids hids => ?_
  · refine congrArg (·.mergeSort setOrder) (filter_map_unseen fun set hset => ?_)
    by_cases hone : set.id = optionSetId ∧ set.isLive
    · have hunserved : set.isServed = false := by
        rw [← Bool.not_eq_true]
        exact fun hserved => h ⟨set, hset, hone.1, hserved⟩
      exact .inr ⟨hunserved, by rw [if_pos hone, OptionSet.isServed, Bool.and_false]⟩
    · exact .inl (if_neg hone)
  · refine congrArg (·.mergeSort assignmentOrder) (filter_map_unseen fun row _ => ?_)
    by_cases hone : row.isLive && row.optionSetId == optionSetId
    · have hother : row.optionSetId ∉ ids := by
        obtain ⟨-, hid⟩ := (Bool.and_eq_true_iff).1 hone
        rw [hids, mem_publishedSets, beq_iff_eq.1 hid]
        exact h
      exact .inr ⟨by simp [hother], by rw [if_pos hone]; rfl⟩
    · exact .inl (if_neg hone)

theorem found_hardDelete (h : ¬ db.Serves optionSetId) :
    (db.hardDelete optionSetId).found = db.found := by
  have hother {id : String} {ids : List String} (hids : ids = db.publishedSets.map (·.id))
      (hmem : id ∈ ids) : id ≠ optionSetId := by
    rintro rfl
    exact h (mem_publishedSets.1 (hids ▸ hmem))
  refine found_congr ?_ (fun ids hids => ?_) fun ids hids => ?_
  · rw [publishedSets, publishedSets]
    congr 1
    rw [hardDelete, List.filter_filter]
    refine List.filter_congr fun set hset => ?_
    by_cases hserved : set.isServed
    · have : set.id ≠ optionSetId := fun hid => h ⟨set, hset, hid, hserved⟩
      simp [hserved, this]
    · simp [hserved]
  · rw [versionsOf, hardDelete, List.filter_filter]
    refine List.filter_congr fun row _ => ?_
    by_cases hmem : row.optionSetId ∈ ids
    · simp [hmem, hother hids hmem]
    · simp [hmem]
  · rw [assignmentsOf, assignmentsOf]
    congr 1
    rw [hardDelete, List.filter_filter]
    refine List.filter_congr fun row _ => ?_
    by_cases hmem : row.optionSetId ∈ ids
    · simp [hmem, hother hids hmem]
    · simp [hmem]

theorem configVersion_bumpIfVisible (wasVisible : Bool) :
    (db.bumpIfVisible wasVisible).configVersion =
      db.configVersion + if wasVisible then 1 else 0 := by
  cases wasVisible <;> rfl

/-- **A deletion that knew of the set tells of what it changes.** -/
theorem tells_bumpIfVisible {db' : Database} {wasVisible : Bool}
    (hversion : db'.configVersion = db.configVersion)
    (hfound : ¬ db.Serves optionSetId → db'.found = db.found)
    (h : db.Serves optionSetId → wasVisible) : Tells db (db'.bumpIfVisible wasVisible) := by
  cases wasVisible with
  | true => exact .of_lt (by rw [configVersion_bumpIfVisible, hversion]; exact Nat.lt_succ_self _)
  | false =>
    refine .of_eq hversion.symm (hfound fun hserves => ?_).symm
    exact absurd (h hserves) Bool.false_ne_true

/-- **A transaction that is informed tells of what it changes.** -/
theorem run_tells {t : Transaction} (h : db.Informed t) : Tells db (db.run t) := by
  have hbump : db.configVersion < db.configVersion + 1 := Nat.lt_succ_self _
  cases t with
  | publish id snapshot =>
    change Tells db (db.publish id snapshot)
    rw [publish]
    split
    · exact .of_eq rfl rfl
    · dsimp only
      split
      · exact .of_eq rfl rfl
      · exact .of_lt hbump
  | assign id wanted =>
    change Tells db (db.assign id wanted)
    rw [assign]
    split
    · exact .of_eq rfl rfl
    · exact .of_lt hbump
  | unassign id target =>
    change Tells db (db.unassign id target)
    rw [unassign]
    split
    · exact .of_lt hbump
    · exact .of_eq rfl rfl
  | unassignMany id wanted => exact .of_lt hbump
  | remove id wasPublished =>
    change Tells db (db.remove id wasPublished)
    rw [remove]
    split
    · exact tells_bumpIfVisible rfl found_softDelete h
    · exact .of_eq rfl rfl
  | purge id wasVisible => exact tells_bumpIfVisible rfl found_hardDelete h

end Database

end Optionia.Delivery
