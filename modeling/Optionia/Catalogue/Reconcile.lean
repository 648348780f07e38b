import Mathlib.Data.String.Basic
import Mathlib.Data.List.Sort
import Optionia.Lib.Chunks
/-!
# The daily sweep

`CatalogueReconciler` lists every product of the store to the cloud, a page at
a time, and `CatalogueIngestService::reconcile` deletes on the last page what
it holds from the first id upward and that page does not claim. A page that
claimed a row earlier is forgotten by then: so the sweep is right where the
mirror holds, of what is claimed, no more than the last page claims, and
nothing below the first id (`sweep_exact_iff`).
-/

namespace Optionia.Catalogue

/-! ## The mirror -/

/-- A row of the mirror. -/
structure MirrorRow where
  storeId : String
  externalId : String
  deriving DecidableEq

abbrev Mirror := List MirrorRow

/-- One page of a manifest. -/
structure ManifestPage where
  externalIds : List String
  rangeStart : Option String
  isFinal : Bool

/-- What the cloud answers to a page. -/
structure ReconcileResult where
  checked : ℕ
  stale : ℕ
  removed : ℕ

def reconcile (storeId : String) (page : ManifestPage) (mirror : Mirror) :
    Mirror × ReconcileResult :=
  let ids := page.externalIds
  let rangeStart := page.rangeStart.getD (ids.headD "")
  let held := mirror.filter fun row => row.storeId = storeId ∧ rangeStart ≤ row.externalId ∧
    (page.isFinal = true ∨ row.externalId ≤ ids.getLastD "")
  let stale := (held.map (·.externalId)).filter (· ∉ ids)
  if !page.isFinal then (mirror, ⟨ids.length, stale.length, 0⟩)
  else if stale = [] then (mirror, ⟨ids.length, 0, 0⟩)
  else
    let kept := mirror.filter fun row => ¬ (row.storeId = storeId ∧ row.externalId ∈ stale)
    (kept, ⟨ids.length, stale.length, mirror.length - kept.length⟩)

/-! ## The manifest -/

def pageSize : ℕ := 10000

/-- What becomes of a page that was posted. -/
inductive Answer where
  | ok
  | refused
  /-- The cloud acts on it, and the answer is lost. -/
  | lost
  deriving DecidableEq

/-- A sweep, where it ended. -/
structure Sweep where
  mirror : Mirror
  /-- How many rows were deleted, as far as the plugin was told. -/
  removed : ℕ
  finished : Bool

/-- `CatalogueReconciler::store_ids`: the ids as strings, in their order. -/
def storeIds (products : List ℕ) : List String := (products.map toString).mergeSort

/-- The loop of `send_pages`, from a page on. -/
def sendFrom (storeId rangeStart : String) (answers : ℕ → Answer) :
    ℕ → List (List String) → Mirror → ℕ → Sweep
  | _, [], mirror, removed => ⟨mirror, removed, true⟩
  | index, page :: pages, mirror, removed =>
    let (swept, result) := reconcile storeId ⟨page, some rangeStart, pages.isEmpty⟩ mirror
    match answers index with
    | .ok => sendFrom storeId rangeStart answers (index + 1) pages swept (removed + result.removed)
    | .refused => ⟨mirror, 0, false⟩
    | .lost => ⟨swept, 0, false⟩

def pages (ids : List String) : List (List String) := Chunks.chunks (pageSize - 1) ids

def lastPage (ids : List String) : List String := Chunks.last (pageSize - 1) ids

def sendPages (storeId : String) (ids : List String) (answers : ℕ → Answer) (mirror : Mirror) :
    Sweep :=
  sendFrom storeId (ids.headD "") answers 0 (pages ids) mirror 0

/-! ## What one page does -/

/-- A row that a final page leaves. -/
def Survives (storeId rangeStart : String) (page : List String) (row : MirrorRow) : Prop :=
  row.storeId = storeId → rangeStart ≤ row.externalId → row.externalId ∈ page

instance (storeId rangeStart : String) (page : List String) :
    DecidablePred (Survives storeId rangeStart page) := fun _ =>
  inferInstanceAs (Decidable (_ → _ → _))

/-- **A final page deletes what it does not claim**, from the first id upward. -/
theorem reconcile_final (storeId rangeStart : String) (page : List String) (mirror : Mirror) :
    (reconcile storeId ⟨page, some rangeStart, true⟩ mirror).1 =
      mirror.filter fun row => Survives storeId rangeStart page row := by
  have hstale : ∀ row : MirrorRow, row ∈ mirror → (Survives storeId rangeStart page row ↔
      ¬ (row.storeId = storeId ∧ row.externalId ∈
        ((mirror.filter fun row => row.storeId = storeId ∧ rangeStart ≤ row.externalId ∧
          (true = true ∨ row.externalId ≤ page.getLastD "")).map (·.externalId)).filter
          (· ∉ page))) := by
    intro row hrow
    rw [List.mem_filter, List.mem_map, decide_eq_true_eq]
    constructor
    · rintro hsurvives ⟨hstore, ⟨held, hheld, hid⟩, hunclaimed⟩
      rw [List.mem_filter, decide_eq_true_eq] at hheld
      rw [hid] at hheld
      exact hunclaimed (hsurvives hstore hheld.2.2.1)
    · intro hnot hstore hrange
      by_contra hunclaimed
      refine hnot ⟨hstore, ⟨row, ?_, rfl⟩, hunclaimed⟩
      rw [List.mem_filter, decide_eq_true_eq]
      exact ⟨hrow, hstore, hrange, Or.inl rfl⟩
  unfold reconcile
  dsimp only [Option.getD_some]
  rw [if_neg (by decide)]
  split_ifs with hnone
  · symm
    refine List.filter_eq_self.2 fun row hrow => decide_eq_true ((hstale row hrow).2 ?_)
    rw [hnone]
    exact fun h => List.not_mem_nil h.2
  · exact List.filter_congr fun row hrow => decide_eq_decide.2 (hstale row hrow).symm

/-! ## What a sweep does -/

/-- The final page is reached, and the cloud acts on it. -/
def Reached (answers : ℕ → Answer) (index count : ℕ) : Prop :=
  (∀ i < count, answers (index + i) = .ok) ∧ answers (index + count) ≠ .refused

/-- **Only the final page acts**, where it is reached. -/
theorem mirror_sendFrom (storeId rangeStart : String) (answers : ℕ → Answer) (index : ℕ)
    (page : List String) (rest : List (List String)) (mirror : Mirror) (removed : ℕ) :
    (Reached answers index rest.length →
        (sendFrom storeId rangeStart answers index (page :: rest) mirror removed).mirror =
          mirror.filter fun row => Survives storeId rangeStart (rest.getLastD page) row) ∧
      (¬ Reached answers index rest.length →
        (sendFrom storeId rangeStart answers index (page :: rest) mirror removed).mirror =
          mirror) := by
  induction rest generalizing index page removed with
  | nil =>
    unfold Reached sendFrom
    dsimp only [List.isEmpty_nil]
    rw [List.length_nil, Nat.add_zero]
    cases answers index with
    | ok => exact ⟨fun _ => reconcile_final _ _ _ _, fun hnot => absurd
        ⟨fun i hi => absurd hi (Nat.not_lt_zero i), by decide⟩ hnot⟩
    | refused => exact ⟨fun hreached => absurd rfl hreached.2, fun _ => rfl⟩
    | lost => exact ⟨fun _ => reconcile_final _ _ _ _, fun hnot => absurd
        ⟨fun i hi => absurd hi (Nat.not_lt_zero i), by decide⟩ hnot⟩
  | cons next rest ih =>
    have hreached : Reached answers index (next :: rest).length ↔
        answers index = .ok ∧ Reached answers (index + 1) rest.length := by
      unfold Reached
      rw [List.length_cons, Nat.add_right_comm index 1, Nat.add_assoc index]
      constructor
      · rintro ⟨hok, hlast⟩
        refine ⟨hok 0 (Nat.succ_pos _), fun i hi => ?_, hlast⟩
        rw [Nat.add_right_comm, Nat.add_assoc]
        exact hok (i + 1) (Nat.succ_lt_succ hi)
      · rintro ⟨hfirst, hok, hlast⟩
        refine ⟨fun i hi => ?_, hlast⟩
        cases i with
        | zero => exact hfirst
        | succ i =>
          rw [← Nat.add_assoc, Nat.add_right_comm]
          exact hok i (Nat.lt_of_succ_lt_succ hi)
    rw [hreached, List.getLastD_cons]
    rw [sendFrom]
    dsimp only [List.isEmpty_cons]
    cases hanswer : answers index with
    | ok =>
      obtain ⟨hyes, hno⟩ := ih (index + 1) next
        (removed + (reconcile storeId ⟨page, some rangeStart, false⟩ mirror).2.removed)
      exact ⟨fun h => hyes h.2, fun h => hno fun hrest => h ⟨rfl, hrest⟩⟩
    | refused => exact ⟨fun h => absurd h.1 (by decide), fun _ => rfl⟩
    | lost => exact ⟨fun h => absurd h.1 (by decide), fun _ => rfl⟩

/-! ## What a sweep is for -/

def AllAnswered (ids : List String) (answers : ℕ → Answer) : Prop :=
  ∀ i < (pages ids).length, answers i = .ok

/-- **A sweep removes exactly what the store no longer has**, and nothing where
a page fails. -/
def SweepKeeps (storeId : String) (ids : List String) (answers : ℕ → Answer) (mirror : Mirror) :
    Prop :=
  (AllAnswered ids answers → (sendPages storeId ids answers mirror).mirror =
      mirror.filter fun row => row.storeId ≠ storeId ∨ row.externalId ∈ ids) ∧
    (¬ AllAnswered ids answers → (sendPages storeId ids answers mirror).mirror = mirror)

/-- What the mirror holds of the store is at or above the first id, and what is
claimed of it is claimed by the last page. -/
def Covered (storeId : String) (ids : List String) (mirror : Mirror) : Prop :=
  ∀ row ∈ mirror, row.storeId = storeId → (∃ first ∈ ids.head?, first ≤ row.externalId) ∧
    (row.externalId ∈ ids → row.externalId ∈ lastPage ids)

/-- Only the answer to the last page is lost. -/
def LostAtEnd (ids : List String) (answers : ℕ → Answer) : Prop :=
  ∃ count, (pages ids).length = count + 1 ∧ (∀ i < count, answers i = .ok) ∧
    answers count = .lost

/-- The last page finds nothing to delete. -/
def NoneStale (storeId : String) (ids : List String) (mirror : Mirror) : Prop :=
  ∀ row ∈ mirror, Survives storeId (ids.headD "") (lastPage ids) row

/-! ## The exact condition -/

theorem filter_eq_filter_iff {p q : MirrorRow → Prop} [DecidablePred p] [DecidablePred q]
    (mirror : Mirror) :
    (mirror.filter fun row => p row) = (mirror.filter fun row => q row) ↔
      ∀ row ∈ mirror, p row ↔ q row := by
  constructor
  · intro h row hrow
    have hmem := congrArg (row ∈ ·) h
    simp only [List.mem_filter, hrow, true_and, decide_eq_true_eq, eq_iff_iff] at hmem
    exact hmem
  · exact fun h => List.filter_congr fun row hrow => decide_eq_decide.2 (h row hrow)

variable {products : List ℕ} {first : String} {ids : List String} {count : ℕ} {answers : ℕ → Answer}

theorem first_le_of_mem {id : String} (hfirst : (storeIds products).head? = some first)
    (hid : id ∈ storeIds products) : first ≤ id := by
  have hsorted : (storeIds products).Pairwise (· ≤ ·) := List.pairwise_mergeSort' (· ≤ ·) _
  cases hids : storeIds products with
  | nil =>
    rw [hids] at hid
    simp at hid
  | cons a ids =>
    rw [hids] at hfirst hid hsorted
    cases hfirst
    rcases List.mem_cons.1 hid with rfl | hmem
    · exact le_refl _
    · exact (List.pairwise_cons.1 hsorted).1 id hmem

theorem mirror_sendPages (answers : ℕ → Answer) (hcount : (pages ids).length = count + 1)
    (storeId : String) (mirror : Mirror) :
    (Reached answers 0 count → (sendPages storeId ids answers mirror).mirror =
        mirror.filter fun row => Survives storeId (ids.headD "") (lastPage ids) row) ∧
      (¬ Reached answers 0 count → (sendPages storeId ids answers mirror).mirror = mirror) := by
  have hlast : lastPage ids = (pages ids).getLastD [] := rfl
  unfold sendPages
  rw [hlast]
  cases hpages : pages ids with
  | nil =>
    rw [hpages] at hcount
    simp at hcount
  | cons page rest =>
    rw [hpages, List.length_cons] at hcount
    rw [List.getLastD_cons, ← Nat.succ_injective hcount]
    exact mirror_sendFrom storeId _ answers 0 page rest mirror 0

/-- A sweep with an answer to every page is right where the mirror is covered. -/
theorem survives_iff_covered (hfirst : (storeIds products).head? = some first) (storeId : String)
    (mirror : Mirror) : (∀ row ∈ mirror, Survives storeId first (lastPage (storeIds products)) row ↔
        (row.storeId ≠ storeId ∨ row.externalId ∈ storeIds products)) ↔
      Covered storeId (storeIds products) mirror := by
  constructor
  · intro h row hrow hstore
    have hclaims := h row hrow
    have hrange : first ≤ row.externalId := by
      by_cases hid : row.externalId ∈ storeIds products
      · exact first_le_of_mem hfirst hid
      · -- A row that is not claimed is deleted, so it is in range.
        by_contra hbelow
        rcases hclaims.1 fun _ hrange => absurd hrange hbelow with hother | hclaimed
        · exact hother hstore
        · exact hid hclaimed
    exact ⟨⟨first, hfirst, hrange⟩, fun hid => hclaims.2 (Or.inr hid) hstore hrange⟩
  · intro h row hrow
    constructor
    · intro hsurvives
      by_cases hstore : row.storeId = storeId
      · obtain ⟨⟨a, ha, hrange⟩, -⟩ := h row hrow hstore
        cases (Option.some_injective _ (hfirst.symm.trans ha))
        exact Or.inr (Chunks.mem_of_mem_last (hsurvives hstore hrange))
      · exact Or.inl hstore
    · rintro (hother | hid) hstore hrange
      · exact absurd hstore hother
      · exact (h row hrow hstore).2 hid

theorem pages_length (hfirst : ids.head? = some first) :
    ∃ count, (pages ids).length = count + 1 := by
  refine Nat.exists_eq_succ_of_ne_zero fun hlength => ?_
  rw [Chunks.chunks_eq_nil.1 (List.length_eq_zero_iff.1 hlength)] at hfirst
  simp at hfirst

theorem reached_of_allAnswered (hcount : (pages ids).length = count + 1)
    (hall : AllAnswered ids answers) : Reached answers 0 count := by
  unfold Reached
  simp only [Nat.zero_add]
  refine ⟨fun i hi => hall i (by omega), ?_⟩
  rw [hall count (by omega)]
  decide

/-- Where a page fails and the last one is reached all the same, it was the
answer that was lost. -/
theorem lostAtEnd_iff (hcount : (pages ids).length = count + 1) :
    LostAtEnd ids answers ↔ Reached answers 0 count ∧ ¬ AllAnswered ids answers := by
  unfold Reached
  simp only [Nat.zero_add]
  constructor
  · rintro ⟨n, hn, hok, hlost⟩
    obtain rfl : n = count := by omega
    refine ⟨⟨hok, by rw [hlost]; decide⟩, fun hall => ?_⟩
    have hanswer := hall n (by omega)
    rw [hlost] at hanswer
    exact absurd hanswer (by decide)
  · rintro ⟨⟨hok, hacted⟩, hfail⟩
    refine ⟨count, hcount, hok, ?_⟩
    cases hanswer : answers count with
    | ok =>
      refine absurd (fun i hi => ?_) hfail
      rcases Nat.lt_or_ge i count with hlt | hge
      · exact hok i hlt
      · obtain rfl : i = count := by omega
        exact hanswer
    | refused => exact absurd hanswer hacted
    | lost => rfl

/-- **A sweep is right exactly where the last page claims what the mirror holds
of the manifest.** It also holds nothing below the first id, and where the
answer to the last page is lost there was nothing to delete. -/
theorem sweep_exact_iff (storeId : String) (products : List ℕ) (answers : ℕ → Answer)
    (mirror : Mirror) :
    SweepKeeps storeId (storeIds products) answers mirror ↔
      (AllAnswered (storeIds products) answers → Covered storeId (storeIds products) mirror) ∧
        (LostAtEnd (storeIds products) answers →
          NoneStale storeId (storeIds products) mirror) := by
  cases hfirst : (storeIds products).head? with
  | none =>
    -- No manifest, no page: nothing is deleted, so nothing may be held.
    have hnone := List.head?_eq_none_iff.1 hfirst
    have hall : AllAnswered [] answers := fun i hi => by
      rw [pages, Chunks.chunks_nil] at hi
      exact absurd hi (Nat.not_lt_zero i)
    have hsweep : (sendPages storeId [] answers mirror).mirror = mirror := by
      rw [sendPages, pages, Chunks.chunks_nil]
      rfl
    rw [hnone]
    unfold SweepKeeps
    rw [hsweep]
    constructor
    · rintro ⟨hkeeps, -⟩
      refine ⟨fun _ row hrow hstore => ?_, ?_⟩
      · have hmem := hrow
        rw [hkeeps hall, List.mem_filter, decide_eq_true_eq] at hmem
        rcases hmem.2 with hother | hclaimed
        · exact absurd hstore hother
        · simp at hclaimed
      · rintro ⟨count, hcount, -⟩
        rw [pages, Chunks.chunks_nil] at hcount
        simp at hcount
    · rintro ⟨hcovered, -⟩
      refine ⟨fun _ => (List.filter_eq_self.2 fun row hrow => ?_).symm, fun _ => rfl⟩
      refine decide_eq_true (Or.inl fun hstore => ?_)
      obtain ⟨⟨a, ha, -⟩, -⟩ := hcovered hall row hrow hstore
      simp at ha
  | some first =>
    obtain ⟨count, hcount⟩ := pages_length hfirst
    have hhead : (storeIds products).headD "" = first := by
      rw [List.headD_eq_head?_getD, hfirst]
      rfl
    obtain ⟨hacts, hidle⟩ := mirror_sendPages answers hcount storeId mirror
    rw [hhead] at hacts
    unfold SweepKeeps NoneStale
    rw [hhead, lostAtEnd_iff hcount, ← survives_iff_covered hfirst, ← filter_eq_filter_iff]
    refine and_congr (forall_congr' fun hall => ?_) ?_
    · rw [hacts (reached_of_allAnswered hcount hall)]
    · constructor
      · rintro hkeeps ⟨hreached, hfail⟩ row hrow
        have hmem := hrow
        rw [← hkeeps hfail, hacts hreached, List.mem_filter, decide_eq_true_eq] at hmem
        exact hmem.2
      · intro hstale hfail
        by_cases hreached : Reached answers 0 count
        · rw [hacts hreached]
          exact List.filter_eq_self.2 fun row hrow =>
            decide_eq_true (hstale ⟨hreached, hfail⟩ row hrow)
        · exact hidle hreached

/-- **A store of two pages loses the first.** Every product is claimed and held,
every page is answered, and the rows of the first page are gone. -/
theorem claimed_rows_deleted :
    ¬ SweepKeeps "s" (storeIds (List.range 10001)) (fun _ => .ok)
      ((storeIds (List.range 10001)).map (MirrorRow.mk "s")) := by
  rintro ⟨hkeeps, -⟩
  have hnodup : (storeIds (List.range 10001)).Nodup := by
    refine (List.mergeSort_perm _ _).nodup_iff.2 (List.nodup_range.map fun a b hab => ?_)
    have h := congrArg (fun id : String => Nat.ofDigitChars 10 id.toList 0) hab
    simp only [Nat.toString_eq_repr, Nat.toList_repr,
      Nat.ofDigitChars_toDigits (by decide : 1 < 10) (le_refl 10)] at h
    exact h
  have hlength : (storeIds (List.range 10001)).length = 10001 := by
    rw [storeIds, List.length_mergeSort, List.length_map, List.length_range]
  generalize hids : storeIds (List.range 10001) = ids at *
  cases ids with
  | nil => simp at hlength
  | cons first ids =>
    obtain ⟨count, hcount⟩ := pages_length (rfl : (first :: ids).head? = some first)
    have hall : AllAnswered (first :: ids) fun _ => .ok := fun _ _ => rfl
    obtain ⟨hacts, -⟩ := mirror_sendPages _ hcount "s" ((first :: ids).map (MirrorRow.mk "s"))
    have hkept := hkeeps hall
    rw [hacts (reached_of_allAnswered hcount hall), filter_eq_filter_iff] at hkept
    refine Chunks.head_notMem_last hnodup ?_
      ((hkept ⟨"s", first⟩ List.mem_cons_self).2 (Or.inr List.mem_cons_self) rfl (le_refl first))
    rw [hlength]
    decide

end Optionia.Catalogue
