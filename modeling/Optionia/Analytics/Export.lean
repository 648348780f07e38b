import Optionia.Analytics.Service
import Optionia.Lib.Csv
/-!
# What an export says

`toCsv` puts a tab before a text that would open a formula, and then writes the
table as comma-separated values (`toList_toCsv`). It is read back as the table
with those tabs (`readsBack`), whose numbers are as they were and from which
the table can be told.
-/

namespace Optionia.Analytics

/-- A text, behind a tab where it would open a formula. -/
def tabbed (cell : String) : String :=
  if cell.toList.head?.any opensFormula then "\t" ++ cell else cell

/-- **The table as an export is to be read**: every cell is text, but for those
of the rows in the columns of numbers. -/
def shown (header : List String) (rows : List (List String)) (numericColumns : List ℕ) :
    List (List String) :=
  header.map tabbed :: rows.map fun row =>
    row.mapIdx fun column cell => if column ∈ numericColumns then cell else tabbed cell

def characters (table : List (List String)) : List (List Csv.Field) :=
  table.map fun row => row.map String.toList

/-- **An export reads back**, cell by cell, to the table as it is shown. -/
structure ReadsBack (numericColumns : List ℕ) : Prop where
  records : ∀ header rows, header ≠ [] → (∀ row ∈ rows, row ≠ []) →
    Csv.records (toCsv header rows numericColumns).toList =
      some (characters (shown header rows numericColumns))
  /-- With one at the end taken for the end of the last. -/
  parse : ∀ header rows, header ≠ [] → (∀ row ∈ rows, row ≠ []) → rows.getLast? ≠ some [""] →
    Csv.parse (toCsv header rows numericColumns).toList =
      some (characters (shown header rows numericColumns))
  apart : ∀ n header rows header' rows', 0 < n → (∀ row ∈ header :: rows, row.length = n) →
    (∀ row ∈ header' :: rows', row.length = n) →
    toCsv header rows numericColumns = toCsv header' rows' numericColumns →
      header = header' ∧ rows = rows'
  texts : ∀ header rows row column cell,
    (shown header rows numericColumns)[row]?.bind (·[column]?) = some cell →
      row = 0 ∨ column ∉ numericColumns → ∀ c ∈ cell.toList.head?, c ∉ ['=', '+', '-', '@']
  numbers : ∀ header rows row, ∀ column ∈ numericColumns,
    (shown header rows numericColumns)[row + 1]?.bind (·[column]?) = rows[row]?.bind (·[column]?)

/-! ## What is written -/

variable {header header' : List String} {rows rows' : List (List String)}
  {numericColumns : List ℕ}

/-- **A cell is guarded, and then written.** -/
theorem toList_escape (raw : String) (column : ℕ) (isHeader : Bool) :
    (escape numericColumns raw column isHeader).toList = Csv.writeField
      (if isHeader = false ∧ column ∈ numericColumns then raw else tabbed raw).toList := by
  have hguarded : (if (!(!isHeader && decide (column ∈ numericColumns))) &&
      raw.toList.head?.any opensFormula then "\t" ++ raw else raw) =
        if isHeader = false ∧ column ∈ numericColumns then raw else tabbed raw := by
    unfold tabbed
    cases isHeader <;> by_cases hcolumn : column ∈ numericColumns <;> simp [hcolumn]
  unfold escape Csv.writeField
  dsimp only
  rw [hguarded]
  generalize (if isHeader = false ∧ column ∈ numericColumns then raw else tabbed raw) = guarded
  have hspecial : Csv.special = fun c => c == '"' || c == ',' || c == '\r' || c == '\n' := rfl
  rw [hspecial]
  split_ifs
  · simp only [String.toList_append, String.toList_ofList]
    rfl
  · rfl

/-- **An export is the table as it is shown, written.** -/
theorem toList_toCsv (header : List String) (rows : List (List String)) (numericColumns : List ℕ) :
    (toCsv header rows numericColumns).toList =
      Csv.write (characters (shown header rows numericColumns)) := by
  have hrow : ∀ (row : List String) (isHeader : Bool),
      (",".intercalate (row.mapIdx fun column cell =>
        escape numericColumns cell column isHeader)).toList =
        Csv.writeRecord ((row.mapIdx fun column cell =>
          if isHeader = false ∧ column ∈ numericColumns then cell else tabbed cell).map
            String.toList) := by
    intro row isHeader
    rw [String.toList_intercalate, Csv.writeRecord]
    refine congrArg (List.intercalate _) (List.ext_getElem? fun column => ?_)
    simp [Function.comp_def, toList_escape]
  unfold toCsv Csv.write characters
  rw [String.toList_intercalate]
  refine congrArg (List.intercalate _) (List.ext_getElem? fun index => ?_)
  rw [List.getElem?_map, List.getElem?_mapIdx, List.getElem?_map, List.getElem?_map]
  unfold shown
  cases index with
  | zero =>
    simp only [List.getElem?_cons_zero, Option.map_some, hrow]
    refine congrArg (fun row => some (Csv.writeRecord row)) (List.ext_getElem? fun column => ?_)
    simp [Function.comp_def]
  | succ index =>
    simp only [List.getElem?_cons_succ, List.getElem?_map, Option.map_map]
    refine congrArg (fun f => Option.map f _) (funext fun row => (hrow row _).trans ?_)
    simp

/-! ## What is shown -/

theorem tabbed_injective : Function.Injective tabbed := by
  intro cell cell' h
  refine String.toList_injective ?_
  have hlist := congrArg String.toList h
  unfold tabbed at hlist
  split_ifs at hlist with hcell hcell' hcell'
  · simpa using hlist
  · rw [← hlist] at hcell'
    simp [opensFormula] at hcell'
  · rw [hlist] at hcell
    simp [opensFormula] at hcell
  · exact hlist

theorem characters_injective : Function.Injective characters :=
  List.map_injective_iff.2 (List.map_injective_iff.2 fun _ _ => String.toList_injective)

/-- **A table can be told from how it is shown.** -/
theorem shown_inj (h : shown header rows numericColumns = shown header' rows' numericColumns) :
    header = header' ∧ rows = rows' := by
  obtain ⟨hheader, hrows⟩ := List.cons.inj h
  refine ⟨List.map_injective_iff.2 tabbed_injective hheader,
    List.map_injective_iff.2 (fun row row' hrow => ?_) hrows⟩
  refine List.ext_getElem? fun column => ?_
  have hcell := congrArg (·[column]?) hrow
  rw [List.getElem?_mapIdx, List.getElem?_mapIdx] at hcell
  refine Option.map_injective (fun cell cell' heq => ?_) hcell
  split_ifs at heq
  · exact heq
  · exact tabbed_injective heq

theorem head_tabbed (cell : String) :
    ∀ c ∈ (tabbed cell).toList.head?, c ∉ ['=', '+', '-', '@'] := by
  unfold tabbed
  split_ifs with hcell
  · simp
  · intro c hc hmem
    rw [Option.mem_def.1 hc] at hcell
    simp [opensFormula] at hcell hmem
    tauto

theorem forall_characters (hheader : header ≠ []) (hrows : ∀ row ∈ rows, row ≠ []) :
    ∀ fs ∈ characters (shown header rows numericColumns), fs ≠ [] := by
  simp only [characters, shown, List.map_cons, List.forall_mem_cons, List.forall_mem_map]
  refine ⟨by simpa using hheader, fun row hrow => ?_⟩
  simpa using hrows row hrow

theorem getElem?_shown (row column : ℕ) :
    (shown header rows numericColumns)[row + 1]?.bind (·[column]?) =
      rows[row]?.bind fun cells =>
        cells[column]?.map fun cell => if column ∈ numericColumns then cell else tabbed cell := by
  unfold shown
  rw [List.getElem?_cons_succ, List.getElem?_map, Option.bind_map]
  refine Option.bind_congr fun cells _ => ?_
  exact List.getElem?_mapIdx

theorem tabbed_eq_empty_iff {cell : String} : (tabbed cell).toList = [] ↔ cell = "" := by
  unfold tabbed
  split_ifs with hcell
  · refine iff_of_false (by simp) ?_
    rintro rfl
    simp at hcell
  · simp

theorem getLast?_characters_ne {row : List String} (h : (row :: rows).getLast? ≠ some [""]) :
    (characters (shown header (row :: rows) numericColumns)).getLast? ≠ some [[]] := by
  unfold characters shown
  rw [List.map_cons, List.map_cons, List.map_cons, List.getLast?_cons_cons, ← List.map_cons,
    ← List.map_cons, List.getLast?_map, List.getLast?_map]
  intro hlast
  obtain ⟨cells, hcells, hshown⟩ := Option.map_eq_some_iff.1 hlast
  obtain ⟨last, hrow, rfl⟩ := Option.map_eq_some_iff.1 hcells
  refine h (hrow.trans (congrArg some ?_))
  have hlength := congrArg List.length hshown
  rw [List.length_map, List.length_mapIdx] at hlength
  obtain ⟨cell, rfl⟩ := List.length_eq_one_iff.1 hlength
  have hcell := (List.cons.inj hshown).1
  dsimp only at hcell
  split_ifs at hcell
  · rw [String.toList_eq_nil_iff.1 hcell]
  · rw [tabbed_eq_empty_iff.1 hcell]

/-! ## What is read -/

/-- **An export is read back as the table it shows.** -/
theorem records_toCsv (hheader : header ≠ []) (hrows : ∀ row ∈ rows, row ≠ []) :
    Csv.records (toCsv header rows numericColumns).toList =
      some (characters (shown header rows numericColumns)) := by
  rw [toList_toCsv]
  exact Csv.records_write (List.cons_ne_nil _ _) (forall_characters hheader hrows)

/-- **Every export reads back**, with the last of its line breaks where a table
does not end in a row of one empty cell. -/
theorem toCsv_readsBack (numericColumns : List ℕ) : ReadsBack numericColumns where
  records header rows := records_toCsv
  parse header rows hheader hrows hlast := by
    rw [toList_toCsv]
    refine Csv.parse_write (List.cons_ne_nil _ _) (forall_characters hheader hrows) ?_
    cases rows with
    | nil => exact .inl rfl
    | cons row rows => exact .inr (getLast?_characters_ne hlast)
  apart n header rows header' rows' hn hlength hlength' h := by
    have hne : ∀ row : List String, row.length = n → row ≠ [] := by
      rintro row hrow rfl
      exact hn.ne hrow
    have hread := @records_toCsv header rows numericColumns
      (hne _ (hlength _ List.mem_cons_self))
      fun row hrow => hne _ (hlength _ (List.mem_cons_of_mem _ hrow))
    rw [h, records_toCsv (hne _ (hlength' _ List.mem_cons_self))
      fun row hrow => hne _ (hlength' _ (List.mem_cons_of_mem _ hrow))] at hread
    exact shown_inj (characters_injective (Option.some.inj hread)).symm
  texts header rows row column cell hcell htext := by
    obtain ⟨raw, rfl⟩ : ∃ raw, cell = tabbed raw := by
      cases row with
      | zero =>
        obtain ⟨raw, -, hraw⟩ := List.mem_map.1 (List.mem_of_getElem? hcell)
        exact ⟨raw, hraw.symm⟩
      | succ row =>
        rw [getElem?_shown] at hcell
        obtain ⟨cells, -, hcell⟩ := Option.bind_eq_some_iff.1 hcell
        obtain ⟨raw, -, hraw⟩ := Option.map_eq_some_iff.1 hcell
        exact ⟨raw, hraw.symm.trans (if_neg (htext.resolve_left (Nat.succ_ne_zero row)))⟩
    exact head_tabbed raw
  numbers header rows row column hcolumn := by
    rw [getElem?_shown]
    refine Option.bind_congr fun cells _ => ?_
    rw [funext fun cell => if_pos hcolumn]
    rw [Option.map_id']

/-- **A last row of one empty cell is taken for the end of the row before.** -/
theorem toCsv_reads_short : ¬ ∀ header rows numericColumns,
    Csv.parse (toCsv header rows numericColumns).toList =
      some (characters (shown header rows numericColumns)) := by
  intro h
  have hshort := h ["a"] [[""]] []
  rw [toList_toCsv] at hshort
  revert hshort
  decide

end Optionia.Analytics
