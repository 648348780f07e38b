import Mathlib.Logic.Function.Basic
import Optionia.Lib.Keyed
import Optionia.Lib.Runs
/-!
# The merchants' rows

Stores and option sets carry their tenant; groups, rules, options, items and
values reach theirs through their parents. `chain` is the way up to the row
that carries the tenant, `parent` the foreign key, which a set has too: its
store.

Of a row one asks whose it is (`owner`), and whether it and all above it on
its chain are live (`joined` asks all of this at once, as the join does).
-/

namespace Optionia.Tenancy

/-- The tables the two repositories are over. -/
inductive Table where
  | stores
  | optionSets
  | optionGroups
  | optionRules
  | options
  | presentationalItems
  | optionValues
  deriving DecidableEq, Repr

namespace Table

/-- The table a row's foreign key points into. -/
def parent : Table → Option Table
  | stores => none
  | optionSets => some stores
  | optionGroups => some optionSets
  | optionRules => some optionSets
  | options => some optionGroups
  | presentationalItems => some optionGroups
  | optionValues => some options

/-- The join path up to the row that carries the tenant, nearest parent
first. -/
def chain : Table → List Table
  | stores => []
  | optionSets => []
  | optionGroups => [optionSets]
  | optionRules => [optionSets]
  | options => [optionGroups, optionSets]
  | presentationalItems => [optionGroups, optionSets]
  | optionValues => [options, optionGroups, optionSets]

/-- The way up along the foreign keys, to the store. -/
def path : Table → List Table
  | stores => []
  | optionSets => [stores]
  | optionGroups => [optionSets, stores]
  | optionRules => [optionSets, stores]
  | options => [optionGroups, optionSets, stores]
  | presentationalItems => [optionGroups, optionSets, stores]
  | optionValues => [options, optionGroups, optionSets, stores]

/-- Whether the entity carries `deletedAt`: a store does not. -/
def isSoftDeletable : Table → Bool
  | stores => false
  | _ => true

end Table

/-- The columns a condition can name. -/
inductive Column where
  | id
  | tenantId
  | parentId
  | deletedAt
  | field (name : String)
  deriving DecidableEq, Repr

/-- A row. What its table has no column for is there and read by nothing. -/
structure Row where
  id : String
  tenantId : String
  /-- The foreign key: `storeId`, `optionSetId`, `optionGroupId`, `optionId`. -/
  parentId : String
  deletedAt : String
  fields : List (String × String)
  deriving DecidableEq, Repr

/-- What `deletedAt` holds on a live row. -/
def liveSentinelSql : String := "1970-01-01 00:00:00.000"

namespace Row

def get (row : Row) : Column → String
  | .id => row.id
  | .tenantId => row.tenantId
  | .parentId => row.parentId
  | .deletedAt => row.deletedAt
  | .field name => (row.fields.lookup name).getD ""

/-- Whether a row of the table is not soft-deleted. -/
def isLive (t : Table) (row : Row) : Bool :=
  !t.isSoftDeletable || row.deletedAt == liveSentinelSql

end Row

/-- The tables' rows, of which no two in a table have one primary key. -/
structure Db where
  table : Table → Keyed.Table Row.id

namespace Db

def rows (db : Db) (t : Table) : List Row := (db.table t).rows

/-- The row with a primary key. -/
def find (db : Db) (t : Table) (id : String) : Option Row := (db.rows t).find? (·.id == id)

/-- The same rows but in one table. -/
def set (db : Db) (t : Table) (rows : Keyed.Table Row.id) : Db where
  table := Function.update db.table t rows

end Db

/-! ## Whose a row is -/

/-- The tenant at the top of a chain. -/
def ownerAlong (db : Db) : List Table → Row → Option String
  | [], row => some row.tenantId
  | t :: chain, row => (db.find t row.parentId).bind (ownerAlong db chain)

/-- The tenant a row belongs to. -/
def owner (db : Db) (t : Table) (row : Row) : Option String := ownerAlong db t.chain row

/-- Whether all rows above are there and live. -/
def liveAlong (db : Db) : List Table → Row → Bool
  | [], _ => true
  | t :: chain, row => (db.find t row.parentId).any fun p => p.isLive t && liveAlong db chain p

/-- A row that belongs to another tenant. -/
def Foreign (db : Db) (tenant : String) (t : Table) (row : Row) : Prop :=
  ∃ other, owner db t row = some other ∧ other ≠ tenant

/-- A row whose foreign key points at another tenant's row. -/
def ForeignChild (db : Db) (tenant : String) (t : Table) (row : Row) : Prop :=
  ∃ u p, t.parent = some u ∧ db.find u row.parentId = some p ∧ Foreign db tenant u p

/-- A row that is the tenant's, is not soft-deleted, and has only live rows
above it. -/
structure Proper (db : Db) (tenant : String) (t : Table) (row : Row) : Prop where
  owned : owner db t row = some tenant
  live : row.isLive t
  liveAbove : liveAlong db t.chain row

instance decidableForeign (db : Db) (tenant : String) (t : Table) (row : Row) :
    Decidable (Foreign db tenant t row) :=
  decidable_of_iff (∃ other ∈ owner db t row, other ≠ tenant) Iff.rfl

instance decidableForeignChild (db : Db) (tenant : String) (t : Table) (row : Row) :
    Decidable (ForeignChild db tenant t row) :=
  decidable_of_iff (∃ u ∈ t.parent, ∃ p ∈ db.find u row.parentId, Foreign db tenant u p) (by
    constructor
    · rintro ⟨u, hu, p, hp, h⟩
      exact ⟨u, p, hu, hp, h⟩
    · rintro ⟨u, p, hu, hp, h⟩
      exact ⟨u, hu, p, hp, h⟩)

instance decidableProper (db : Db) (tenant : String) (t : Table) (row : Row) :
    Decidable (Proper db tenant t row) :=
  decidable_of_iff (owner db t row = some tenant ∧ row.isLive t ∧ liveAlong db t.chain row)
    ⟨fun h => ⟨h.1, h.2.1, h.2.2⟩, fun h => ⟨h.owned, h.live, h.liveAbove⟩⟩

/-! ## Statements -/

/-- What is written: a column that is not named keeps its value. -/
structure Payload where
  id : Option String
  tenantId : Option String
  parentId : Option String
  deletedAt : Option String
  fields : List (String × String)
  deriving DecidableEq, Repr

/-- A row with a payload's columns written over it. -/
def Payload.over (e : Payload) (row : Row) : Row where
  id := e.id.getD row.id
  tenantId := e.tenantId.getD row.tenantId
  parentId := e.parentId.getD row.parentId
  deletedAt := e.deletedAt.getD row.deletedAt
  fields := e.fields ++ row.fields.filter fun f => !(e.fields.map Prod.fst).contains f.1

/-- A row of which no column is written yet. -/
def Row.blank (id : String) : Row where
  id := id
  tenantId := ""
  parentId := ""
  deletedAt := liveSentinelSql
  fields := []

namespace Db

/-- Whether the row a foreign key points at is there. -/
def hasParent (db : Db) (t : Table) (row : Row) : Bool :=
  t.parent.all fun u => (db.find u row.parentId).isSome

/-- Whether a row is one's parent in some table. -/
def hasChildren (db : Db) (t : Table) (row : Row) : Bool :=
  [Table.stores, .optionSets, .optionGroups, .optionRules, .options, .presentationalItems,
    .optionValues].any fun u => u.parent == some t && (db.rows u).any (·.parentId == row.id)

/-- Put a row in the place of the one with its key, or behind the others. -/
def put (rows : Keyed.Table Row.id) (row : Row) : Keyed.Table Row.id :=
  (rows.insert? row).getD
    (rows.modify (fun r => r.id == row.id) (fun r => { row with id := r.id }) fun _ => rfl)

/-- The row that saving an entity leaves: what is known under its id with what
it carries written over it, or a new one. -/
def merged (db : Db) (t : Table) (fresh : String) (e : Payload) : Row :=
  e.over ((e.id.bind (db.find t)).getD (.blank fresh))

/-- **TypeORM's `save`.** An entity whose id is known is an update of that row,
any other is inserted. The foreign key must point at a row. -/
def save (db : Db) (t : Table) (fresh : String) (e : Payload) : Option (Db × Row) :=
  if db.hasParent t (db.merged t fresh e) && (e.id.isSome || (db.find t fresh).isNone) then
    some (db.set t (put (db.table t) (db.merged t fresh e)), db.merged t fresh e)
  else none

/-- The rows an `UPDATE` leaves. -/
def updated (db : Db) (t : Table) (fits : Row → Bool) (e : Payload) : List Row :=
  (db.rows t).map fun row => if fits row then e.over row else row

/-- Whether the database takes an `UPDATE`: no key is twice, every foreign key
points at a row, and no row that others point at loses its key. -/
def Takes (db : Db) (t : Table) (fits : Row → Bool) (e : Payload) : Prop :=
  ((db.updated t fits e).map Row.id).Nodup ∧ ∀ row ∈ db.rows t, fits row →
    db.hasParent t (e.over row) ∧ ((e.over row).id = row.id ∨ ¬ db.hasChildren t row)

instance (db : Db) (t : Table) (fits : Row → Bool) (e : Payload) :
    Decidable (db.Takes t fits e) :=
  inferInstanceAs (Decidable (_ ∧ _))

/-- An `UPDATE`. -/
def update (db : Db) (t : Table) (fits : Row → Bool) (e : Payload) : Db :=
  if h : db.Takes t fits e then db.set t ⟨db.updated t fits e, h.1⟩ else db

/-- Whether a row hangs under one that goes. -/
def under (db : Db) (t : Table) (gone : Row → Bool) : List Table → Row → Bool
  | [], _ => false
  | u :: path, row =>
    (db.find u row.parentId).any fun p => (u == t && gone p) || under db t gone path p

def goes (db : Db) (t : Table) (gone : Row → Bool) (u : Table) (row : Row) : Bool :=
  (u == t && gone row) || db.under t gone u.path row

/-- A `DELETE`, which takes with it what hangs under the rows. -/
def delete (db : Db) (t : Table) (gone : Row → Bool) : Db where
  table u :=
    { rows := (db.rows u).filter fun row => !db.goes t gone u row
      keyed := (List.filter_sublist.map _).nodup (db.table u).keyed }

end Db

end Optionia.Tenancy

/-! ## The two repositories

`TenantScopedRepository` merges the tenant into the caller's `where`, stamps
it on what is created and compares it with what is saved. `ParentScoped
Repository` reads through the joins up to the set, resolves ids by such a read
before it updates or deletes, reads the row's id before it saves it, and before
it creates asks for the parent it is given.

The tenant is the request's. Of what TypeORM does with no alternative at all
only a name is known here: `unconditioned` says whether such a query has no
condition.
-/

namespace Optionia.Tenancy

/-- A `where` object: the columns it names, and what it asks of each, a value
or an operator. -/
abbrev Clause : Type := List (Column × (String → Bool))

/-- Whether a row is as a `where` object asks. -/
def Clause.fits (clause : Clause) (row : Row) : Bool := clause.all fun c => c.2 (row.get c.1)

/-- What a caller gives as `where`: an object, or an array of them. -/
inductive Where where
  | object (clause : Clause)
  | array (clauses : List Clause)

/-- Which rows of those found are wanted. -/
structure Page where
  skip : Option ℕ
  take : Option ℕ
  deriving DecidableEq, Repr

def Page.of (page : Page) (rows : List Row) : List Row :=
  let rest := rows.drop (page.skip.getD 0)
  match page.take with
  | none => rest
  | some n => rest.take n

section

variable (unconditioned : Bool) (db : Db) (tenantId : String) (t : Table)

/-- The rows that a query by alternatives selects. -/
def selects (clauses : List Clause) (row : Row) : Bool :=
  if clauses.isEmpty then unconditioned else clauses.any fun clause => clause.fits row

/-! ## `TenantScopedRepository` -/

namespace TenantScoped

/-- One object with the liveness and the tenant put over it. -/
def scopedClause (clause : Clause) : Clause :=
  (clause.filter fun c => c.1 != .tenantId && !(t.isSoftDeletable && c.1 == .deletedAt)) ++
    (if t.isSoftDeletable then [(.deletedAt, (· == liveSentinelSql))] else []) ++
    [(.tenantId, (· == tenantId))]

/-- Merge the tenant predicate into a caller's `where`. -/
def scopedWhere : Option Where → List Clause
  | none => [scopedClause tenantId t []]
  | some (.object clause) => [scopedClause tenantId t clause]
  | some (.array clauses) => clauses.map (scopedClause tenantId t)

def find (where_ : Option Where) (page : Page) : List Row :=
  page.of ((db.rows t).filter (selects unconditioned (scopedWhere tenantId t where_)))

/-- The first row that is found. -/
def findOne (where_ : Option Where) : Option Row :=
  ((db.rows t).filter (selects unconditioned (scopedWhere tenantId t where_))).head?

def findById (id : String) : Option Row :=
  findOne unconditioned db tenantId t (some (.object [(.id, (· == id))]))

def counted (where_ : Option Where) : List Row :=
  (db.rows t).filter (selects unconditioned (scopedWhere tenantId t where_))

def count (where_ : Option Where) : ℕ := (counted unconditioned db tenantId t where_).length

def «exists» (clause : Clause) : Bool :=
  !(counted unconditioned db tenantId t (some (.object clause))).isEmpty

/-- Create a row in the tenant: the tenant is stamped on it. -/
def create (fresh : String) (data : Payload) : Option (Db × Row) :=
  db.save t fresh { data with tenantId := some tenantId }

/-- The rows that an update or a deletion meets. -/
def meets (clause : Clause) (row : Row) : Bool := (scopedClause tenantId t clause).fits row

/-- Update rows: the tenant is stripped from what is written. -/
def update (clause : Clause) (data : Payload) : Db :=
  db.update t (meets tenantId t clause) { data with tenantId := none }

def delete (clause : Clause) : Db := db.delete t (meets tenantId t clause)

/-- Save an entity that carries the tenant. -/
def save (fresh : String) (entity : Payload) : Option (Db × Row) :=
  if entity.tenantId = some tenantId then db.save t fresh entity else none

end TenantScoped

/-! ## `ParentScopedRepository` -/

namespace ParentScoped

/-- The joins up to the row that carries the tenant, all live. -/
def joined : List Table → Row → Bool
  | [], row => row.tenantId == tenantId
  | u :: chain, row => (db.find u row.parentId).any fun p => p.isLive u && joined chain p

/-- A query already joined up and filtered by tenant. -/
def scopedRow (row : Row) : Bool := joined db tenantId t.chain row && row.isLive t

/-- A caller's `where`, which stands in brackets: no object at all asks
nothing. -/
def applyWhere : Option Where → Row → Bool
  | none, _ => true
  | some (.object clause), row => clause.fits row
  | some (.array clauses), row => clauses.isEmpty || clauses.any fun clause => clause.fits row

def find (where_ : Option Where) (page : Page) : List Row :=
  page.of ((db.rows t).filter fun row => scopedRow db tenantId t row && applyWhere where_ row)

/-- The first row that is found. -/
def findOne (where_ : Option Where) : Option Row :=
  ((db.rows t).filter fun row => scopedRow db tenantId t row && applyWhere where_ row).head?

def findById (id : String) : Option Row :=
  ((db.rows t).filter fun row => scopedRow db tenantId t row && row.id == id).head?

def counted (where_ : Option Where) : List Row :=
  (db.rows t).filter fun row => scopedRow db tenantId t row && applyWhere where_ row

def count (where_ : Option Where) : ℕ := (counted db tenantId t where_).length

def «exists» (clause : Clause) : Bool :=
  decide (0 < count db tenantId t (some (.object clause)))

/-- The walk up from a parent, which asks only for the rows. -/
def reaches : List Table → Row → Bool
  | [], row => row.tenantId == tenantId
  | u :: chain, row => (db.find u row.parentId).any (reaches chain)

/-- Confirm that a parent is the tenant's, and is itself not deleted. -/
def assertParentOwned (parentId : String) : Bool :=
  t.chain.head?.any fun u =>
    (db.find u parentId).any fun p => reaches db tenantId t.chain.tail p && p.isLive u

/-- Create a row under a parent that is the tenant's. -/
def create (fresh parentId : String) (data : Payload) : Option (Db × Row) :=
  if assertParentOwned db tenantId t parentId then db.save t fresh data else none

/-- The rows that an update or a deletion resolves first. -/
def scopedIds (clause : Clause) : List String :=
  ((db.rows t).filter fun row =>
    scopedRow db tenantId t row && applyWhere (some (.object clause)) row).map Row.id

def update (clause : Clause) (data : Payload) : Db :=
  db.update t (fun row => (scopedIds db tenantId t clause).contains row.id) data

def delete (clause : Clause) : Db :=
  db.delete t fun row => (scopedIds db tenantId t clause).contains row.id

/-- Save an entity whose id the tenant reads. -/
def save (fresh : String) (entity : Payload) : Option (Db × Row) :=
  if entity.id.any fun id => (findById db tenantId t id).isSome then db.save t fresh entity else none

end ParentScoped

end

/-! ## Operations, one at a time -/

/-- Whether the table's rows carry their tenant: its repository is the one, and
the other where they do not. -/
def Table.carriesTenant : Table → Bool
  | .stores => true
  | .optionSets => true
  | _ => false

/-- What is asked of a table's repository. A write has the id that a new row
would be given with it. -/
inductive Operation where
  | find (t : Table) (where_ : Option Where) (page : Page)
  | findOne (t : Table) (where_ : Option Where)
  | findById (t : Table) (id : String)
  | count (t : Table) (where_ : Option Where)
  | «exists» (t : Table) (clause : Clause)
  | create (t : Table) (fresh parentId : String) (data : Payload)
  | update (t : Table) (clause : Clause) (data : Payload)
  | delete (t : Table) (clause : Clause)
  | save (t : Table) (fresh : String) (entity : Payload)

namespace Operation

variable (unconditioned : Bool) (tenantId : String) (db : Db)

/-- The table whose repository is asked. -/
def table : Operation → Table
  | find t _ _ => t
  | findOne t _ => t
  | findById t _ => t
  | count t _ => t
  | «exists» t _ => t
  | create t _ _ _ => t
  | update t _ _ => t
  | delete t _ => t
  | save t _ _ => t

/-- What saving or creating leaves, where it is not refused. -/
def saved : Operation → Option (Db × Row)
  | create t fresh parentId data =>
    if t.carriesTenant then TenantScoped.create db tenantId t fresh data
    else ParentScoped.create db tenantId t fresh parentId data
  | save t fresh entity =>
    if t.carriesTenant then TenantScoped.save db tenantId t fresh entity
    else ParentScoped.save db tenantId t fresh entity
  | _ => none

/-- The rows that are returned, or counted. -/
def reached : Operation → List Row
  | find t where_ page =>
    if t.carriesTenant then TenantScoped.find unconditioned db tenantId t where_ page
    else ParentScoped.find db tenantId t where_ page
  | findOne t where_ =>
    if t.carriesTenant then (TenantScoped.findOne unconditioned db tenantId t where_).toList
    else (ParentScoped.findOne db tenantId t where_).toList
  | findById t id =>
    if t.carriesTenant then (TenantScoped.findById unconditioned db tenantId t id).toList
    else (ParentScoped.findById db tenantId t id).toList
  | count t where_ =>
    if t.carriesTenant then TenantScoped.counted unconditioned db tenantId t where_
    else ParentScoped.counted db tenantId t where_
  | «exists» t clause =>
    if t.carriesTenant then
      TenantScoped.counted unconditioned db tenantId t (some (.object clause))
    else ParentScoped.counted db tenantId t (some (.object clause))
  | create t fresh parentId data =>
    ((create t fresh parentId data).saved tenantId db).toList.map Prod.snd
  | save t fresh entity => ((save t fresh entity).saved tenantId db).toList.map Prod.snd
  | update _ _ _ => []
  | delete _ _ => []

def step : Operation → Db
  | create t fresh parentId data =>
    (((create t fresh parentId data).saved tenantId db).map Prod.fst).getD db
  | save t fresh entity => (((save t fresh entity).saved tenantId db).map Prod.fst).getD db
  | update t clause data =>
    if t.carriesTenant then TenantScoped.update db tenantId t clause data
    else ParentScoped.update db tenantId t clause data
  | delete t clause =>
    if t.carriesTenant then TenantScoped.delete db tenantId t clause
    else ParentScoped.delete db tenantId t clause
  | _ => db

end Operation

end Optionia.Tenancy
