import Optionia.Tenancy.Untouched
/-!
# Whose rows a tenant reaches

A read through the joins gives the tenant's own live rows, and so does one by
a `where` the tenant is merged into, whatever the caller asks: but an array
with no object in it has nothing to merge into. An update and a deletion meet
the tenant's rows alone. What is written is another matter: an id or a parent
in the payload is read by neither repository, and `save` finds a row by its id
whose ever it is.

`Harmless` says of every operation what its arguments must not name, and
`isolated_iff` that a run keeps to the tenant's rows just when every operation
of it is so.
-/

namespace Optionia.Tenancy

open Runs

variable {unconditioned : Bool} {tenantId : String} {db : Db} {t : Table} {row : Row}
  {clause : Clause} {where_ : Option Where} {e : Payload} {fresh : String} {op : Operation}

/-! ## What a read gives -/

theorem joined_iff {chain : List Table} :
    ∀ row, ParentScoped.joined db tenantId chain row ↔
      ownerAlong db chain row = some tenantId ∧ liveAlong db chain row := by
  induction chain with
  | nil =>
    intro row
    simp [ParentScoped.joined, ownerAlong, liveAlong]
  | cons u chain ih =>
    intro row
    rw [ParentScoped.joined, ownerAlong, liveAlong]
    cases db.find u row.parentId with
    | none => simp
    | some p =>
      have hrest := ih p
      simp only [Option.any_some, Bool.and_eq_true, Option.bind_some]
      rw [hrest]
      exact and_left_comm

/-- **A row that the joined query selects is the tenant's, and live under live
rows.** -/
theorem scopedRow_iff : ParentScoped.scopedRow db tenantId t row ↔ Proper db tenantId t row := by
  unfold ParentScoped.scopedRow
  rw [Bool.and_eq_true, joined_iff]
  constructor
  · rintro ⟨⟨howned, habove⟩, hlive⟩
    exact ⟨howned, hlive, habove⟩
  · intro h
    exact ⟨⟨h.owned, h.liveAbove⟩, h.live⟩

theorem Table.chain_of_carriesTenant (h : t.carriesTenant) : t.chain = [] := by
  cases t <;> simp_all [Table.carriesTenant, Table.chain]

/-- **A row that is as a merged `where` asks is the tenant's, and live.** -/
theorem proper_of_fits (ht : t.carriesTenant)
    (h : (TenantScoped.scopedClause tenantId t clause).fits row) : Proper db tenantId t row := by
  have hchain := Table.chain_of_carriesTenant ht
  simp only [Clause.fits, TenantScoped.scopedClause, List.all_append, List.all_cons, List.all_nil,
    Bool.and_true, Bool.and_eq_true, Row.get, beq_iff_eq] at h
  obtain ⟨⟨-, hlive⟩, htenant⟩ := h
  refine ⟨?_, ?_, ?_⟩
  · rw [owner, hchain, ownerAlong, htenant]
  · unfold Row.isLive
    cases hsoft : t.isSoftDeletable with
    | false => rfl
    | true => simpa [hsoft, Row.get] using hlive
  · rw [hchain]
    rfl

/-- Whether a `where` has nothing the tenant could be merged into, and that is
read as no condition. -/
def readsAll (unconditioned : Bool) (t : Table) : Option Where → Bool
  | some (.array []) => t.carriesTenant && unconditioned
  | _ => false

/-- What a query by merged alternatives selects is the tenant's, unless there
is none. -/
theorem proper_of_selects (ht : t.carriesTenant) (hall : ¬ readsAll unconditioned t where_)
    (h : selects unconditioned (TenantScoped.scopedWhere tenantId t where_) row) :
    Proper db tenantId t row := by
  have hany : ∀ clauses : List Clause,
      selects unconditioned (clauses.map (TenantScoped.scopedClause tenantId t)) row →
        clauses ≠ [] → Proper db tenantId t row := by
    intro clauses hselects hne
    unfold selects at hselects
    rw [if_neg (by simpa using hne), List.any_map, List.any_eq_true] at hselects
    obtain ⟨clause, -, hfits⟩ := hselects
    exact proper_of_fits ht hfits
  match where_, hall, h with
  | none, _, h => exact hany [[]] h (List.cons_ne_nil _ _)
  | some (.object clause), _, h => exact hany [clause] h (List.cons_ne_nil _ _)
  | some (.array []), hall, h =>
    rw [readsAll, ht, Bool.true_and] at hall
    exact absurd h hall
  | some (.array (clause :: clauses)), _, h => exact hany _ h (List.cons_ne_nil _ _)

theorem selects_of_readsAll (hall : readsAll unconditioned t where_) :
    selects unconditioned (TenantScoped.scopedWhere tenantId t where_) = fun _ => true := by
  match where_, hall with
  | some (.array []), hall =>
    rw [readsAll, Bool.and_eq_true] at hall
    funext row
    exact hall.2

theorem Page.mem_of_mem_of {page : Page} {rows : List Row} (h : row ∈ page.of rows) : row ∈ rows := by
  unfold Page.of at h
  dsimp only at h
  split at h
  · exact List.mem_of_mem_drop h
  · exact List.mem_of_mem_drop (List.mem_of_mem_take h)

/-! ## What is asked of an operation -/

/-- What is asked of an entity, where the database takes it. -/
def Saves (db : Db) (tenantId : String) (t : Table) (fresh : String) (e : Payload) : Prop :=
  (db.save t fresh e).isSome → SaveKept db tenantId t fresh e

/-- What is asked of an update, where the database takes it. -/
def Updates (db : Db) (tenantId : String) (t : Table) (fits : Row → Bool) (e : Payload) : Prop :=
  db.Takes t fits e → UpdateKept db tenantId t fits e

/-- What is asked of an operation: a read by no alternative meets the tenant's
rows alone, an entity names no row that is not the tenant's, neither by its id
nor as its parent, an update gives no row such a parent, and a store that is
deleted holds no other tenant's set. -/
def Operation.Harmless (unconditioned : Bool) (tenantId : String) (db : Db) : Operation → Prop
  | find t where_ page =>
    readsAll unconditioned t where_ → ∀ row ∈ page.of (db.rows t), Proper db tenantId t row
  | findOne t where_ =>
    readsAll unconditioned t where_ → ∀ row ∈ (db.rows t).head?, Proper db tenantId t row
  | findById _ _ => True
  | count t where_ =>
    readsAll unconditioned t where_ → ∀ row ∈ db.rows t, Proper db tenantId t row
  | «exists» _ _ => True
  | create t fresh parentId data =>
    if t.carriesTenant then Saves db tenantId t fresh { data with tenantId := some tenantId }
    else ParentScoped.assertParentOwned db tenantId t parentId → Saves db tenantId t fresh data
  | update t clause data =>
    if t.carriesTenant then
      Updates db tenantId t (TenantScoped.meets tenantId t clause) { data with tenantId := none }
    else
      Updates db tenantId t
        (fun row => (ParentScoped.scopedIds db tenantId t clause).contains row.id) data
  | delete t clause =>
    t.carriesTenant → DeleteKept db tenantId t (TenantScoped.meets tenantId t clause)
  | save t fresh entity =>
    if t.carriesTenant then entity.tenantId = some tenantId → Saves db tenantId t fresh entity
    else (entity.id.any fun id => (ParentScoped.findById db tenantId t id).isSome) →
      Saves db tenantId t fresh entity

/-- An operation keeps to the tenant's rows: what it returns or counts is the
tenant's, not soft-deleted, and under live rows alone, and it leaves the other
tenants' rows as they were and makes no row a child of one. -/
structure Isolated (unconditioned : Bool) (tenantId : String) (db : Db) (op : Operation) :
    Prop where
  reached : ∀ row ∈ op.reached unconditioned tenantId db,
    Proper (op.step tenantId db) tenantId op.table row
  untouched : Untouched tenantId db (op.step tenantId db)

/-! ## Operation by operation -/

theorem isolated_read_iff (hstep : op.step tenantId db = db) :
    Isolated unconditioned tenantId db op ↔
      ∀ row ∈ op.reached unconditioned tenantId db, Proper db tenantId op.table row := by
  constructor
  · intro h row hrow
    exact hstep ▸ h.reached row hrow
  · intro h
    refine ⟨fun row hrow => ?_, ?_⟩
    · rw [hstep]
      exact h row hrow
    · rw [hstep]
      exact Untouched.refl tenantId db

theorem reads_iff (unconditioned : Bool) (tenantId : String) (db : Db) (t : Table)
    (where_ : Option Where) (view : List Row → List Row) (hview : ∀ rows, ∀ row ∈ view rows, row ∈ rows) :
    (∀ row ∈ (if t.carriesTenant then
          view ((db.rows t).filter (selects unconditioned (TenantScoped.scopedWhere tenantId t where_)))
        else view ((db.rows t).filter fun row =>
          ParentScoped.scopedRow db tenantId t row && ParentScoped.applyWhere where_ row)),
      Proper db tenantId t row) ↔
      (readsAll unconditioned t where_ → ∀ row ∈ view (db.rows t), Proper db tenantId t row) := by
  by_cases ht : t.carriesTenant
  · rw [if_pos ht]
    by_cases hall : readsAll unconditioned t where_
    · rw [selects_of_readsAll hall, List.filter_true]
      exact ⟨fun h _ => h, fun h => h hall⟩
    · refine iff_of_true (fun row hrow => ?_) fun h => absurd h hall
      exact proper_of_selects ht hall (List.mem_filter.1 (hview _ row hrow)).2
  · rw [if_neg ht]
    refine iff_of_true (fun row hrow => ?_) fun h => ?_
    · have hscoped := (List.mem_filter.1 (hview _ row hrow)).2
      rw [Bool.and_eq_true] at hscoped
      exact scopedRow_iff.1 hscoped.1
    · unfold readsAll at h
      split at h
      · rw [Bool.and_eq_true] at h
        exact absurd h.1 ht
      · simp at h

theorem save_eq_some {saved : Db × Row} (h : db.save t fresh e = some saved) :
    saved = (db.set t (Db.put (db.table t) (db.merged t fresh e)), db.merged t fresh e) := by
  unfold Db.save at h
  split_ifs at h
  exact (Option.some.inj h).symm

/-- **A write of an entity keeps to the tenant's rows just when the entity is
as asked**, where it gets past the check. -/
theorem isolated_save_iff (check : Prop) [Decidable check]
    (hsaved : op.saved tenantId db = if check then db.save op.table fresh e else none)
    (hreached : op.reached unconditioned tenantId db =
      (op.saved tenantId db).toList.map Prod.snd)
    (hstep : op.step tenantId db = ((op.saved tenantId db).map Prod.fst).getD db) :
    Isolated unconditioned tenantId db op ↔ (check → Saves db tenantId op.table fresh e) := by
  by_cases hcheck : check
  · rw [if_pos hcheck] at hsaved
    cases hsave : db.save op.table fresh e with
    | none =>
      rw [hsaved, hsave] at hreached hstep
      refine iff_of_true ⟨?_, ?_⟩ fun _ htaken => ?_
      · rw [hreached]
        exact fun row hrow => absurd hrow List.not_mem_nil
      · rw [hstep]
        exact Untouched.refl tenantId db
      · rw [hsave] at htaken
        simp at htaken
    | some saved =>
      rw [hsaved, hsave] at hreached hstep
      obtain rfl := save_eq_some hsave
      have hkept := untouched_save db tenantId op.table fresh e
      constructor
      · intro h _ _
        have hproper := h.reached
        have hsame := h.untouched
        rw [hreached, hstep] at hproper
        rw [hstep] at hsame
        exact hkept.1 ⟨hproper _ (List.mem_singleton.2 rfl), hsame⟩
      · intro h
        obtain ⟨hproper, hsame⟩ := hkept.2 (h hcheck (by rw [hsave]; rfl))
        refine ⟨fun row hrow => ?_, ?_⟩
        · rw [hreached] at hrow
          obtain rfl := List.mem_singleton.1 hrow
          rw [hstep]
          exact hproper
        · rw [hstep]
          exact hsame
  · rw [if_neg hcheck] at hsaved
    rw [hsaved] at hreached hstep
    refine iff_of_true ⟨?_, ?_⟩ fun h => absurd h hcheck
    · rw [hreached]
      exact fun row hrow => absurd hrow List.not_mem_nil
    · rw [hstep]
      exact Untouched.refl tenantId db

/-- A write that returns no row keeps to the tenant's just when the others'
are left alone. -/
theorem isolated_write_iff (hreached : op.reached unconditioned tenantId db = []) :
    Isolated unconditioned tenantId db op ↔ Untouched tenantId db (op.step tenantId db) := by
  refine ⟨Isolated.untouched, fun h => ⟨?_, h⟩⟩
  rw [hreached]
  exact fun row hrow => absurd hrow List.not_mem_nil

theorem untouched_update_iff {fits : Row → Bool}
    (hown : ∀ row ∈ db.rows t, fits row → owner db t row = some tenantId)
    (hclear : t.chain = [] → e.tenantId = none) :
    Untouched tenantId db (db.update t fits e) ↔ Updates db tenantId t fits e := by
  by_cases htakes : db.Takes t fits e
  · rw [untouched_update hown hclear htakes]
    exact ⟨fun h _ => h, fun h => h htakes⟩
  · have hsame : db.update t fits e = db := by
      rw [Db.update, dif_neg htakes]
    rw [hsame]
    exact iff_of_true (Untouched.refl tenantId db) fun h => absurd h htakes

theorem owner_of_scopedIds (hrow : row ∈ db.rows t)
    (h : (ParentScoped.scopedIds db tenantId t clause).contains row.id) :
    owner db t row = some tenantId := by
  rw [List.contains_iff_mem, ParentScoped.scopedIds, List.mem_map] at h
  obtain ⟨found, hfound, hid⟩ := h
  rw [List.mem_filter, Bool.and_eq_true] at hfound
  have hone : found = row := Keyed.Table.eq_of_key hfound.1 hrow hid
  exact (scopedRow_iff.1 (hone ▸ hfound.2.1)).owned

/-- **An operation keeps to the tenant's rows just when it is as asked.** -/
theorem isolated_iff_harmless (op : Operation) :
    Isolated unconditioned tenantId db op ↔ op.Harmless unconditioned tenantId db := by
  cases op with
  | find t where_ page =>
    rw [isolated_read_iff rfl]
    exact reads_iff unconditioned tenantId db t where_ page.of fun _ _ => Page.mem_of_mem_of
  | findOne t where_ =>
    have hview : ∀ rows : List Row, ∀ row ∈ rows.head?.toList, row ∈ rows := by
      intro rows row hrow
      rw [Option.mem_toList] at hrow
      exact List.mem_of_mem_head? hrow
    have hreads := reads_iff unconditioned tenantId db t where_ (fun rows => rows.head?.toList) hview
    simp only [Option.mem_toList] at hreads
    exact (isolated_read_iff rfl).trans hreads
  | findById t id =>
    rw [isolated_read_iff rfl]
    refine iff_of_true (fun row hrow => ?_) trivial
    unfold Operation.reached at hrow
    dsimp only at hrow
    split_ifs at hrow with ht
    · have hfound := List.mem_of_mem_head? (Option.mem_toList.1 hrow)
      have hasked : ¬ readsAll unconditioned t (some (.object [(.id, (· == id))])) :=
        Bool.false_ne_true
      exact proper_of_selects ht hasked (List.mem_filter.1 hfound).2
    · have hfound := (List.mem_filter.1 (List.mem_of_mem_head? (Option.mem_toList.1 hrow))).2
      rw [Bool.and_eq_true] at hfound
      exact scopedRow_iff.1 hfound.1
  | count t where_ =>
    rw [isolated_read_iff rfl]
    exact reads_iff unconditioned tenantId db t where_ id fun _ _ => id
  | «exists» t clause =>
    rw [isolated_read_iff rfl]
    refine (reads_iff unconditioned tenantId db t (some (.object clause)) id fun _ _ => id).trans ?_
    exact iff_of_true (fun h => absurd h Bool.false_ne_true) trivial
  | create t fresh parentId data =>
    unfold Operation.Harmless
    dsimp only
    split_ifs with ht
    · refine (isolated_save_iff True ?_ rfl rfl).trans true_imp_iff
      unfold Operation.saved TenantScoped.create
      dsimp only
      rw [if_pos ht, if_pos trivial]
      rfl
    · refine isolated_save_iff (ParentScoped.assertParentOwned db tenantId t parentId) ?_ rfl rfl
      unfold Operation.saved ParentScoped.create
      dsimp only
      rw [if_neg ht]
      rfl
  | save t fresh entity =>
    unfold Operation.Harmless
    dsimp only
    split_ifs with ht
    · refine isolated_save_iff (entity.tenantId = some tenantId) ?_ rfl rfl
      unfold Operation.saved TenantScoped.save
      dsimp only
      rw [if_pos ht]
      rfl
    · refine isolated_save_iff (entity.id.any fun id =>
        (ParentScoped.findById db tenantId t id).isSome) ?_ rfl rfl
      unfold Operation.saved ParentScoped.save
      dsimp only
      rw [if_neg ht]
      rfl
  | update t clause data =>
    rw [isolated_write_iff rfl]
    unfold Operation.Harmless Operation.step
    dsimp only
    split_ifs with ht
    · exact untouched_update_iff (fun row _ hfits => (proper_of_fits ht hfits).owned) fun _ => rfl
    · refine untouched_update_iff (fun row hrow hfits => owner_of_scopedIds hrow hfits) fun hchain => ?_
      cases t <;> simp_all [Table.chain, Table.carriesTenant]
  | delete t clause =>
    rw [isolated_write_iff rfl]
    unfold Operation.Harmless Operation.step
    dsimp only
    split_ifs with ht
    · unfold TenantScoped.delete
      have hown : ∀ row ∈ db.rows t, TenantScoped.meets tenantId t clause row →
          owner db t row = some tenantId := fun row _ hfits => (proper_of_fits ht hfits).owned
      rw [untouched_delete hown]
      exact ⟨fun h _ => h, fun h => h ht⟩
    · unfold ParentScoped.delete
      rw [untouched_delete fun _ hrow hfits => owner_of_scopedIds hrow hfits]
      refine iff_of_true (fun hstores => ?_) fun h => absurd h ht
      exact absurd (by rw [hstores]; rfl) ht

/-! ## Runs -/

/-- A run keeps to the tenant's rows: every operation of it does, and after it
the other tenants' rows are as they were when the run began. -/
def Kept (unconditioned : Bool) (tenantId : String) (db : Db) (ops : List Operation) : Prop :=
  ∀ before op after, ops = before ++ op :: after →
    Isolated unconditioned tenantId (run (fun db op => op.step tenantId db) db before) op ∧
      Untouched tenantId db (run (fun db op => op.step tenantId db) db (before ++ [op]))

/-- **A run of operations keeps to the tenant's rows just when each is as
asked.** -/
theorem rows_kept_iff (unconditioned : Bool) (tenantId : String) (db : Db) (ops : List Operation) :
    Kept unconditioned tenantId db ops ↔
      Throughout (fun db op => op.step tenantId db)
        (fun db op => op.Harmless unconditioned tenantId db) db ops := by
  constructor
  · intro h
    refine throughout_of_prefix fun before op after hsplit => ?_
    exact (isolated_iff_harmless op).1 (h before op after hsplit).1
  · intro h before op after hsplit
    rw [hsplit] at h
    refine ⟨(isolated_iff_harmless op).2 h.at, ?_⟩
    have hprefix : before ++ [op] <+: before ++ op :: after :=
      (List.prefix_append_right_inj before).2 (List.prefix_append [op] after)
    refine invariant (I := Untouched tenantId db) (fun db' op' hharmless hsame => ?_)
      (h.of_prefix hprefix) (Untouched.refl tenantId db)
    exact hsame.trans ((isolated_iff_harmless op').2 hharmless).untouched

/-! ## A set that is taken over -/

/-- Two tenants, each with a store, and a set of the second's. -/
def twoTenants : Db where
  table
    | .stores =>
      { rows := [⟨"store-a", "a", "", "", []⟩, ⟨"store-b", "b", "", "", []⟩]
        keyed := by decide }
    | .optionSets =>
      { rows := [⟨"set-b", "b", "store-b", liveSentinelSql, [("name", "Engraving")]⟩]
        keyed := by decide }
    | _ => { rows := [], keyed := List.nodup_nil }

/-- The first tenant creates a set, with the id of the second's in the
payload. -/
def takeover : Operation :=
  .create .optionSets "new" "" ⟨some "set-b", none, some "store-a", none, [("name", "Mine")]⟩

/-- **An id in the payload is enough**: the other tenant's set becomes the
first one's, whatever TypeORM makes of an empty array. -/
theorem payload_id_takes_a_row :
    ¬ ∀ unconditioned tenantId db ops, Kept unconditioned tenantId db ops := by
  intro h
  obtain ⟨-, hsame⟩ := h false "a" twoTenants [takeover] [] takeover [] rfl
  have hset : (⟨"set-b", "b", "store-b", liveSentinelSql, [("name", "Engraving")]⟩ : Row) ∈
      twoTenants.rows .optionSets := List.mem_singleton.2 rfl
  have hforeign : Foreign twoTenants "a" .optionSets
      ⟨"set-b", "b", "store-b", liveSentinelSql, [("name", "Engraving")]⟩ := by decide +kernel
  have hgone : (⟨"set-b", "b", "store-b", liveSentinelSql, [("name", "Engraving")]⟩ : Row) ∉
      (takeover.step "a" twoTenants).rows .optionSets := by decide +kernel
  exact hgone ((hsame.foreign _ _).1 ⟨hset, hforeign⟩).1

end Optionia.Tenancy
