import Optionia.Tenancy.Repositories
/-!
# What a statement leaves of the other tenants' rows

Whose a row is depends on the rows above it alone. So if, table by table, a
statement keeps the rows that are another tenant's and adds none, then the
others' rows are the same throughout (`foreign_iff`), whatever becomes of the
rows that are the tenant's own.
-/

namespace Optionia.Tenancy

variable {db db' db'' : Db} {tenant : String} {t u : Table} {row old new : Row} {e : Payload}
  {fits : Row → Bool} {fresh id : String}

/-- The other tenants' rows are the same, and no row has become a child of
one. -/
structure Untouched (tenant : String) (db db' : Db) : Prop where
  foreign : ∀ t row, (row ∈ db.rows t ∧ Foreign db tenant t row) ↔
    (row ∈ db'.rows t ∧ Foreign db' tenant t row)
  /-- A child of one was there, under the same parent. -/
  children : ∀ t, ∀ row ∈ db'.rows t, ForeignChild db' tenant t row →
    ∃ old ∈ db.rows t, old.id = row.id ∧ old.parentId = row.parentId

/-! ## Looking a row up -/

theorem Db.find_eq_some : db.find t id = some row ↔ row ∈ db.rows t ∧ row.id = id := by
  constructor
  · intro h
    have hid := List.find?_some h
    exact ⟨List.mem_of_find?_eq_some h, by simpa using hid⟩
  · rintro ⟨hmem, rfl⟩
    obtain ⟨found, hfound⟩ : ∃ found, db.find t row.id = some found := by
      rw [← Option.isSome_iff_exists, Db.find, List.find?_isSome]
      exact ⟨row, hmem, by simp⟩
    have hid : found.id = row.id := by simpa using List.find?_some hfound
    rw [hfound, Keyed.Table.eq_of_key (List.mem_of_find?_eq_some hfound) hmem hid]

@[simp] theorem Db.rows_set_self (rows : Keyed.Table Row.id) : (db.set t rows).rows t = rows.rows := by
  unfold Db.rows Db.set
  dsimp only
  rw [Function.update_self]

variable {rows : Keyed.Table Row.id} {chain : List Table}

theorem Db.rows_set_of_ne (h : u ≠ t) : (db.set t rows).rows u = db.rows u := by
  unfold Db.rows Db.set
  dsimp only
  rw [Function.update_of_ne h]

theorem Db.find_set_of_ne (h : u ≠ t) : (db.set t rows).find u id = db.find u id := by
  unfold Db.find
  rw [Db.rows_set_of_ne h]

/-! ## Chains -/

/-- A way up that goes on as the table's own does. -/
def Upward : List Table → Prop
  | [] => True
  | u :: chain => u.chain = chain ∧ Upward chain

theorem upward_chain (t : Table) : Upward t.chain := by
  cases t <;> simp [Upward, Table.chain]

theorem not_mem_chain (t : Table) : t ∉ t.chain := by
  cases t <;> decide

theorem ownerAlong_set (h : t ∉ chain) :
    ∀ row, ownerAlong (db.set t rows) chain row = ownerAlong db chain row := by
  induction chain with
  | nil => exact fun _ => rfl
  | cons u chain ih =>
    intro row
    have hu : u ≠ t := fun heq => h (heq ▸ List.mem_cons_self)
    have hrest := ih fun hmem => h (List.mem_cons_of_mem _ hmem)
    rw [ownerAlong, ownerAlong, Db.find_set_of_ne hu, funext hrest]

theorem liveAlong_set (h : t ∉ chain) :
    ∀ row, liveAlong (db.set t rows) chain row = liveAlong db chain row := by
  induction chain with
  | nil => exact fun _ => rfl
  | cons u chain ih =>
    intro row
    have hu : u ≠ t := fun heq => h (heq ▸ List.mem_cons_self)
    have hrest := ih fun hmem => h (List.mem_cons_of_mem _ hmem)
    rw [liveAlong, liveAlong, Db.find_set_of_ne hu, funext hrest]

theorem owner_set (rows : Keyed.Table Row.id) (row : Row) :
    owner (db.set t rows) t row = owner db t row :=
  ownerAlong_set (not_mem_chain t) row

theorem proper_set (rows : Keyed.Table Row.id) :
    Proper (db.set t rows) tenant t row ↔ Proper db tenant t row := by
  have howner : owner (db.set t rows) t row = owner db t row := owner_set rows row
  have hlive : liveAlong (db.set t rows) t.chain row = liveAlong db t.chain row :=
    liveAlong_set (not_mem_chain t) row
  constructor
  · intro h
    exact ⟨howner.symm.trans h.owned, h.live, hlive.symm.trans h.liveAbove⟩
  · intro h
    exact ⟨howner.trans h.owned, h.live, hlive.trans h.liveAbove⟩

theorem not_foreign_of_owned (h : owner db t row = some tenant) : ¬ Foreign db tenant t row := by
  rintro ⟨other, hother, hne⟩
  rw [h] at hother
  exact hne (Option.some.inj hother).symm

theorem foreign_iff_parent (hchain : t.chain = u :: chain) : Foreign db tenant t row ↔
      ∃ p ∈ db.rows u, p.id = row.parentId ∧ Foreign db tenant u p := by
  have hup := upward_chain t
  rw [hchain] at hup
  have hrest : u.chain = chain := hup.1
  unfold Foreign owner
  rw [hchain, hrest]
  simp only [ownerAlong, Option.bind_eq_some_iff, Db.find_eq_some]
  constructor
  · rintro ⟨other, ⟨p, ⟨hp, hid⟩, howner⟩, hne⟩
    exact ⟨p, hp, hid, other, howner, hne⟩
  · rintro ⟨p, hp, hid, other, howner, hne⟩
    exact ⟨other, ⟨p, ⟨hp, hid⟩, howner⟩, hne⟩

theorem foreign_iff_tenantId (hchain : t.chain = []) :
    Foreign db tenant t row ↔ row.tenantId ≠ tenant := by
  unfold Foreign owner
  rw [hchain]
  constructor
  · rintro ⟨other, hother, hne⟩
    rw [Option.some.inj hother]
    exact hne
  · intro hne
    exact ⟨row.tenantId, rfl, hne⟩

/-- **The other tenants' rows are the same throughout** where in each table
those are kept, and none added, whose ownership has not changed. -/
theorem foreign_iff (db db' : Db) (tenant : String)
    (hrows : ∀ t row, (Foreign db tenant t row ↔ Foreign db' tenant t row) →
      ((row ∈ db.rows t ∧ Foreign db tenant t row) ↔
        (row ∈ db'.rows t ∧ Foreign db' tenant t row))) (t : Table) (row : Row) :
    (row ∈ db.rows t ∧ Foreign db tenant t row) ↔
      (row ∈ db'.rows t ∧ Foreign db' tenant t row) := by
  -- By induction on the chain: what is above a row is settled before it is.
  obtain ⟨chain, hchain⟩ : ∃ chain, t.chain = chain := ⟨_, rfl⟩
  induction chain generalizing t row with
  | nil =>
    refine hrows t row ?_
    rw [foreign_iff_tenantId hchain, foreign_iff_tenantId hchain]
  | cons u chain ih =>
    have hup := upward_chain t
    rw [hchain] at hup
    refine hrows t row ?_
    rw [foreign_iff_parent hchain, foreign_iff_parent hchain]
    constructor
    · rintro ⟨p, hp, hid, hforeign⟩
      obtain ⟨hp', hforeign'⟩ := (ih u p hup.1).1 ⟨hp, hforeign⟩
      exact ⟨p, hp', hid, hforeign'⟩
    · rintro ⟨p, hp, hid, hforeign⟩
      obtain ⟨hp', hforeign'⟩ := (ih u p hup.1).2 ⟨hp, hforeign⟩
      exact ⟨p, hp', hid, hforeign'⟩

theorem foreignChild_iff :
    ForeignChild db tenant t row ↔
      ∃ u p, t.parent = some u ∧ p.id = row.parentId ∧ p ∈ db.rows u ∧ Foreign db tenant u p := by
  unfold ForeignChild
  simp only [Db.find_eq_some]
  constructor
  · rintro ⟨u, p, hu, ⟨hp, hid⟩, hforeign⟩
    exact ⟨u, p, hu, hid, hp, hforeign⟩
  · rintro ⟨u, p, hu, hid, hp, hforeign⟩
    exact ⟨u, p, hu, ⟨hp, hid⟩, hforeign⟩

theorem foreignChild_congr
    (h : ∀ t row, (row ∈ db.rows t ∧ Foreign db tenant t row) ↔
      (row ∈ db'.rows t ∧ Foreign db' tenant t row)) :
    ForeignChild db tenant t row ↔ ForeignChild db' tenant t row := by
  rw [foreignChild_iff, foreignChild_iff]
  refine exists_congr fun u => exists_congr fun p => ?_
  rw [h u p]

/-! ## Leaving all alone, and one after the other -/

theorem Untouched.refl (tenant : String) (db : Db) : Untouched tenant db db where
  foreign _ _ := Iff.rfl
  children _ row hrow _ := ⟨row, hrow, rfl, rfl⟩

theorem Untouched.trans (h : Untouched tenant db db') (h' : Untouched tenant db' db'') :
    Untouched tenant db db'' where
  foreign t row := (h.foreign t row).trans (h'.foreign t row)
  children t row hrow hchild := by
    obtain ⟨old, hold, hid, hparent⟩ := h'.children t row hrow hchild
    have hchild' : ForeignChild db' tenant t old := by
      have hbefore := (foreignChild_congr h'.foreign).2 hchild
      rw [foreignChild_iff] at hbefore ⊢
      rwa [hparent]
    obtain ⟨older, holder, hid', hparent'⟩ := h.children t old hold hchild'
    exact ⟨older, holder, hid'.trans hid, hparent'.trans hparent⟩

/-! ## `save` -/

theorem Db.mem_put :
    row ∈ (Db.put rows new).rows ↔ row = new ∨ (row ∈ rows.rows ∧ row.id ≠ new.id) := by
  unfold Db.put
  by_cases htaken : new.id ∈ rows.rows.map Row.id
  · have hinsert : rows.insert? new = none := by
      unfold Keyed.Table.insert?
      rw [dif_pos htaken]
    rw [hinsert, Option.getD_none, Keyed.Table.modify, List.mem_map]
    constructor
    · rintro ⟨r, hr, rfl⟩
      split_ifs with hid
      · have heq : r.id = new.id := by simpa using hid
        exact .inl (by rw [heq])
      · exact .inr ⟨hr, by simpa using hid⟩
    · rintro (rfl | ⟨hrow, hne⟩)
      · obtain ⟨r, hr, hid⟩ := List.mem_map.1 htaken
        exact ⟨r, hr, by simp [hid]⟩
      · exact ⟨row, hrow, by simp [hne]⟩
  · obtain ⟨rows', hinsert⟩ : ∃ rows', rows.insert? new = some rows' := by
      unfold Keyed.Table.insert?
      rw [dif_neg htaken]
      exact ⟨_, rfl⟩
    rw [hinsert, Option.getD_some, Keyed.Table.rows_insert? hinsert, List.mem_append,
      List.mem_singleton]
    constructor
    · rintro (hrow | rfl)
      · refine .inr ⟨hrow, fun hid => htaken ?_⟩
        rw [← hid]
        exact List.mem_map_of_mem hrow
      · exact .inl rfl
    · rintro (rfl | ⟨hrow, -⟩)
      · exact .inr rfl
      · exact .inl hrow

/-- What is asked of an entity that is saved. -/
structure SaveKept (db : Db) (tenant : String) (t : Table) (fresh : String) (e : Payload) :
    Prop where
  /-- The row it leaves is the tenant's, and live under live rows. -/
  proper : Proper db tenant t (db.merged t fresh e)
  /-- The row its id names is no other tenant's. -/
  known : ∀ old ∈ db.rows t, old.id = (db.merged t fresh e).id → ¬ Foreign db tenant t old
  /-- And its parent is no other tenant's, unless that was its parent. -/
  parent : ForeignChild db tenant t (db.merged t fresh e) →
    ∃ old ∈ db.rows t, old.id = (db.merged t fresh e).id ∧
      old.parentId = (db.merged t fresh e).parentId

/-- **A save leaves the others' rows alone, and gives back one of the tenant's
own, just when it is as asked.** -/
theorem untouched_save (db : Db) (tenant : String) (t : Table) (fresh : String) (e : Payload) :
    (Proper (db.set t (Db.put (db.table t) (db.merged t fresh e))) tenant t (db.merged t fresh e) ∧
      Untouched tenant db (db.set t (Db.put (db.table t) (db.merged t fresh e)))) ↔
        SaveKept db tenant t fresh e := by
  obtain ⟨new, hnew⟩ : ∃ new, db.merged t fresh e = new := ⟨_, rfl⟩
  rw [hnew, proper_set]
  constructor
  · rintro ⟨hproper, hsame⟩
    refine ⟨hnew ▸ hproper, fun old hold hid hforeign => ?_, fun hchild => ?_⟩
    · rw [hnew] at hid
      obtain ⟨hkept, -⟩ := (hsame.foreign t old).1 ⟨hold, hforeign⟩
      rw [Db.rows_set_self, Db.mem_put] at hkept
      obtain rfl | ⟨-, hne⟩ := hkept
      · exact not_foreign_of_owned hproper.owned hforeign
      · exact hne hid
    · rw [hnew] at hchild ⊢
      have hmem : new ∈ (db.set t (Db.put (db.table t) new)).rows t := by
        rw [Db.rows_set_self, Db.mem_put]
        exact .inl rfl
      exact hsame.children t new hmem ((foreignChild_congr hsame.foreign).1 hchild)
  · intro h
    have hproper := h.proper
    have hknown := h.known
    have hparent := h.parent
    rw [hnew] at hproper hknown hparent
    have hforeign := foreign_iff db (db.set t (Db.put (db.table t) new)) tenant
      fun u row hown => by
        by_cases hu : u = t
        · subst hu
          rw [Db.rows_set_self, Db.mem_put, ← hown]
          constructor
          · rintro ⟨hrow, hforeign⟩
            exact ⟨.inr ⟨hrow, fun hid => hknown row hrow hid hforeign⟩, hforeign⟩
          · rintro ⟨rfl | ⟨hrow, -⟩, hforeign⟩
            · exact absurd hforeign (not_foreign_of_owned hproper.owned)
            · exact ⟨hrow, hforeign⟩
        · rw [Db.rows_set_of_ne hu, hown]
    refine ⟨hproper, hforeign, fun u row hrow hchild => ?_⟩
    by_cases hu : u = t
    · subst hu
      rw [Db.rows_set_self, Db.mem_put] at hrow
      obtain rfl | ⟨hrow, -⟩ := hrow
      · exact hparent ((foreignChild_congr hforeign).2 hchild)
      · exact ⟨row, hrow, rfl, rfl⟩
    · rw [Db.rows_set_of_ne hu] at hrow
      exact ⟨row, hrow, rfl, rfl⟩

/-! ## `UPDATE` -/

/-- What is asked of an update: a row that it gives another key or another
parent comes under no other tenant's row. -/
def UpdateKept (db : Db) (tenant : String) (t : Table) (fits : Row → Bool) (e : Payload) : Prop :=
  ∀ row ∈ db.rows t, fits row → ForeignChild db tenant t (e.over row) →
    (e.over row).id = row.id ∧ (e.over row).parentId = row.parentId

/-- A row that the tenant's update writes is another's only through its new
parent. -/
theorem foreign_over (hown : owner db t row = some tenant) (hclear : t.chain = [] → e.tenantId = none)
    (hforeign : Foreign db tenant t (e.over row)) :
    ForeignChild db tenant t (e.over row) ∧ (e.over row).parentId ≠ row.parentId := by
  obtain ⟨chain, hchain⟩ : ∃ chain, t.chain = chain := ⟨_, rfl⟩
  cases chain with
  | nil =>
    rw [foreign_iff_tenantId hchain] at hforeign
    have hsame : (e.over row).tenantId = row.tenantId := by
      rw [Payload.over, hclear hchain, Option.getD_none]
    have hrow : row.tenantId = tenant := by
      rw [owner, hchain] at hown
      exact Option.some.inj hown
    exact absurd (hsame.trans hrow) hforeign
  | cons u chain =>
    have hparent : t.parent = some u := by
      cases t <;> simp_all [Table.chain, Table.parent]
    rw [foreign_iff_parent hchain] at hforeign
    obtain ⟨p, hp, hid, hother⟩ := hforeign
    refine ⟨foreignChild_iff.2 ⟨u, p, hparent, hid, hp, hother⟩, fun hsame => ?_⟩
    refine not_foreign_of_owned hown ((foreign_iff_parent hchain).2 ⟨p, hp, ?_, hother⟩)
    exact hid.trans hsame

/-- **An update of the tenant's own rows leaves the others' alone just when it
is as asked.** -/
theorem untouched_update (hown : ∀ row ∈ db.rows t, fits row → owner db t row = some tenant)
    (hclear : t.chain = [] → e.tenantId = none) (htakes : db.Takes t fits e) :
    Untouched tenant db (db.update t fits e) ↔ UpdateKept db tenant t fits e := by
  have hrows : (db.update t fits e).rows t = db.updated t fits e := by
    rw [Db.update, dif_pos htakes, Db.rows_set_self]
  have hothers : ∀ u, u ≠ t → (db.update t fits e).rows u = db.rows u := by
    intro u hu
    rw [Db.update, dif_pos htakes, Db.rows_set_of_ne hu]
  have hmem : ∀ row ∈ db.rows t, fits row → e.over row ∈ (db.update t fits e).rows t := by
    intro row hrow hfits
    rw [hrows, Db.updated]
    exact List.mem_map.2 ⟨row, hrow, if_pos hfits⟩
  constructor
  · intro hsame row hrow hfits hchild
    obtain ⟨old, hold, hid, hparent⟩ := hsame.children t _ (hmem row hrow hfits)
      ((foreignChild_congr hsame.foreign).1 hchild)
    -- Two rows with the key would be left if the row had taken another's.
    have hkeyed := htakes.1
    rw [Db.updated, List.map_map] at hkeyed
    have hone : old = row := by
      refine List.inj_on_of_nodup_map hkeyed hold hrow ?_
      simp only [Function.comp_apply, if_pos hfits]
      split_ifs
      · simp only [Payload.over] at hid ⊢
        cases hkey : e.id with
        | none =>
          rw [hkey, Option.getD_none] at hid
          exact hid
        | some key => rfl
      · exact hid
    rw [hone] at hid hparent
    exact ⟨hid.symm, hparent.symm⟩
  · intro hkept
    have hforeign := foreign_iff db (db.update t fits e) tenant fun u row howner => by
        by_cases hu : u = t
        · subst hu
          rw [hrows, ← howner, Db.updated, List.mem_map]
          constructor
          · rintro ⟨hrow, hforeign⟩
            refine ⟨⟨row, hrow, if_neg fun hfits => ?_⟩, hforeign⟩
            exact not_foreign_of_owned (hown row hrow hfits) hforeign
          · rintro ⟨⟨old, hold, rfl⟩, hforeign⟩
            by_cases hfits : fits old
            · rw [if_pos hfits] at hforeign
              obtain ⟨hchild, hne⟩ := foreign_over (hown old hold hfits) hclear hforeign
              exact absurd (hkept old hold hfits hchild).2 hne
            · rw [if_neg hfits] at hforeign ⊢
              exact ⟨hold, hforeign⟩
        · rw [hothers u hu, howner]
    refine ⟨hforeign, fun u row hrow hchild => ?_⟩
    by_cases hu : u = t
    · subst hu
      rw [hrows, Db.updated, List.mem_map] at hrow
      obtain ⟨old, hold, rfl⟩ := hrow
      by_cases hfits : fits old
      · rw [if_pos hfits] at hchild ⊢
        obtain ⟨hid, hparent⟩ := hkept old hold hfits ((foreignChild_congr hforeign).2 hchild)
        exact ⟨old, hold, hid.symm, hparent.symm⟩
      · rw [if_neg hfits]
        exact ⟨old, hold, rfl, rfl⟩
    · rw [hothers u hu] at hrow
      exact ⟨row, hrow, rfl, rfl⟩

/-! ## `DELETE` -/

/-- What is asked of a deletion: a store that goes has no other tenant's set in
it. -/
def DeleteKept (db : Db) (tenant : String) (t : Table) (gone : Row → Bool) : Prop :=
  t = .stores → ∀ set ∈ db.rows .optionSets, ∀ store ∈ db.find .stores set.parentId,
    gone store → set.tenantId = tenant

theorem path_eq (h : t.chain = u :: chain) : t.path = u :: u.path := by
  cases t with
  | stores => cases h
  | optionSets => cases h
  | _ =>
    obtain ⟨rfl, -⟩ := List.cons.inj h
    rfl

theorem owner_of_under {gone : Row → Bool}
    (hown : ∀ row ∈ db.rows t, gone row → owner db t row = some tenant)
    (hkept : DeleteKept db tenant t gone) (hrow : row ∈ db.rows u)
    (hunder : db.under t gone u.path row) : owner db u row = some tenant := by
  obtain ⟨chain, hchain⟩ : ∃ chain, u.chain = chain := ⟨_, rfl⟩
  -- By induction on the way up: what goes above a row is the tenant's.
  induction chain generalizing u row with
  | nil =>
    have hcases : u = .stores ∨ u = .optionSets := by
      cases u <;> simp_all [Table.chain]
    obtain rfl | rfl := hcases
    · exact absurd hunder (by simp [Table.path, Db.under])
    · rw [Table.path, Db.under, Option.any_eq_true] at hunder
      obtain ⟨store, hstore, hgone⟩ := hunder
      simp only [Db.under, Bool.or_false, Bool.and_eq_true, beq_iff_eq] at hgone
      exact congrArg some (hkept hgone.1.symm row hrow store hstore hgone.2)
  | cons w chain ih =>
    have hup := upward_chain u
    rw [hchain] at hup
    rw [path_eq hchain, Db.under, Option.any_eq_true] at hunder
    obtain ⟨p, hfind, hgone⟩ := hunder
    have hp := (Db.find_eq_some.1 hfind).1
    have howner : owner db u row = owner db w p := by
      rw [owner, hchain, ownerAlong, hfind, Option.bind_some, owner, hup.1]
    rw [howner]
    rw [Bool.or_eq_true, Bool.and_eq_true, beq_iff_eq] at hgone
    obtain ⟨rfl, hgone⟩ | hunder := hgone
    · exact hown p hp hgone
    · exact ih hp hunder hup.1

/-- **A deletion of the tenant's own rows leaves the others' alone just when it
is as asked.** -/
theorem untouched_delete {gone : Row → Bool}
    (hown : ∀ row ∈ db.rows t, gone row → owner db t row = some tenant) :
    Untouched tenant db (db.delete t gone) ↔ DeleteKept db tenant t gone := by
  have hmem : ∀ u row, row ∈ (db.delete t gone).rows u ↔
      row ∈ db.rows u ∧ ¬ db.goes t gone u row := by
    intro u row
    rw [Db.delete, Db.rows]
    simp
  constructor
  · rintro hsame rfl set hset store hstore hgone
    by_contra hne
    have hforeign : Foreign db tenant .optionSets set := (foreign_iff_tenantId rfl).2 hne
    obtain ⟨hleft, -⟩ := (hsame.foreign _ _).1 ⟨hset, hforeign⟩
    refine ((hmem _ _).1 hleft).2 ?_
    rw [Option.mem_def] at hstore
    simp [Db.goes, Db.under, Table.path, hstore, hgone]
  · intro hkept
    refine ⟨foreign_iff _ _ _ fun u row howner => ?_, fun u row hrow _ => ?_⟩
    · rw [hmem, ← howner]
      refine ⟨fun ⟨hrow, hforeign⟩ => ⟨⟨hrow, fun hgoes => ?_⟩, hforeign⟩,
        fun ⟨⟨hrow, _⟩, hforeign⟩ => ⟨hrow, hforeign⟩⟩
      rw [Db.goes, Bool.or_eq_true, Bool.and_eq_true, beq_iff_eq] at hgoes
      obtain ⟨rfl, hgone⟩ | hunder := hgoes
      · exact not_foreign_of_owned (hown row hrow hgone) hforeign
      · exact not_foreign_of_owned (owner_of_under hown hkept hrow hunder) hforeign
    · exact ⟨row, ((hmem u row).1 hrow).1, rfl, rfl⟩

end Optionia.Tenancy
