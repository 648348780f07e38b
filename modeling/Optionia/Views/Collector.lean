import Optionia.Lib.OrderedMap
import Optionia.Lib.Calls
/-!
# Counting which options a customer saw

The plugin keeps one number for each set, option and day, under a key that
packs the three. A beacon adds to the numbers, a drain unpacks them into the
rows it sends, and what was sent is subtracted again.

Where none of the three contains the separator, unpacking undoes packing
(`explode_pairKey`), and where one does the key is never sent
(`viewsOf_pending`).
-/

namespace Optionia.Views

/-- A set, an option and a day. -/
abbrev Pair := String × String × String

abbrev Counts := OrderedMap String ℕ

/-- One storage key for a set, an option and a day. -/
def pairKey (pair : Pair) : String := pair.1 ++ "|" ++ pair.2.1 ++ "|" ++ pair.2.2

/-- A key split at its separators. -/
def explode (key : String) : List String := (key.toList.splitOn '|').map String.ofList

/-- The most any one option may accumulate between two drains. -/
def maxPerOption : ℕ := 1000000

/-- The most pairs held at once. -/
def maxPairs : ℕ := 500

/-- Count one option, and note it, unless it is no key or there is no room. -/
def addOne (setId day : String) (acc : Counts × List Pair) : Option String → Counts × List Pair
  | none => acc
  | some optionKey =>
    let key := pairKey (setId, optionKey, day)
    if optionKey = "" then acc
    else if acc.1.get? key = none ∧ maxPairs ≤ acc.1.entries.length then acc
    else if maxPerOption ≤ acc.1.getD key 0 then acc
    else (acc.1.set key (acc.1.getD key 0 + 1), acc.2 ++ [(setId, optionKey, day)])

/-- Add views to the running counts, and say which were counted. An option that
is no string is none. -/
def add (counts : Counts) (setId : String) (options : List (Option String)) (day : String) :
    Counts × List Pair :=
  if setId = "" ∨ day = "" ∨ options = [] then (counts, [])
  else options.foldl (addOne setId day) (counts, [])

/-- One row of a report. -/
structure ViewCount where
  optionSetId : String
  optionKey : String
  day : String
  views : ℕ
  deriving DecidableEq

def ViewCount.pair (row : ViewCount) : Pair := (row.optionSetId, row.optionKey, row.day)

/-- The row of a stored count, where its key yields exactly three parts. -/
def rowOf (entry : String × ℕ) : Option ViewCount :=
  match explode entry.1 with
  | [optionSetId, optionKey, day] => some ⟨optionSetId, optionKey, day, entry.2⟩
  | _ => none

/-- Everything accumulated, in the shape the API accepts. -/
def pending (counts : Counts) : List ViewCount := counts.entries.filterMap rowOf

/-- Subtract one row that was sent. -/
def clearOne (counts : Counts) (row : ViewCount) : Counts :=
  match counts.get? (pairKey row.pair) with
  | none => counts
  | some views =>
    if row.views < views then counts.set (pairKey row.pair) (views - row.views)
    else counts.erase (pairKey row.pair)

def clear (counts : Counts) (sent : List ViewCount) : Counts := sent.foldl clearOne counts

/-- The views that some rows report of a pair. -/
def viewsOf (rows : List ViewCount) (pair : Pair) : ℕ :=
  (rows.map fun row => if row.pair = pair then row.views else 0).sum

/-! ## Packing -/

variable {counts : Counts} {pair pair' : Pair} {row : ViewCount} {rows : List ViewCount}
  {key : String}

/-- None of the three contains the separator. -/
def Plain (pair : Pair) : Prop :=
  '|' ∉ pair.1.toList ∧ '|' ∉ pair.2.1.toList ∧ '|' ∉ pair.2.2.toList

instance : DecidablePred Plain := fun _ => inferInstanceAs (Decidable (_ ∧ _ ∧ _))

theorem explode_eq (pair : Pair) :
    explode (pairKey pair) = explode pair.1 ++ explode pair.2.1 ++ explode pair.2.2 := by
  have hbar : ("|" : String).toList = ['|'] := rfl
  unfold explode pairKey
  rw [String.toList_append, String.toList_append, String.toList_append, String.toList_append, hbar,
    List.append_assoc, List.append_assoc, List.singleton_append, List.append_assoc,
    List.singleton_append, List.splitOn_append_cons_self, List.splitOn_append_cons_self,
    List.map_append, List.map_append, List.append_assoc]

theorem explode_of_notMem {s : String} (h : '|' ∉ s.toList) : explode s = [s] := by
  unfold explode
  rw [List.splitOn_eq_singleton h, List.map_singleton, String.ofList_toList]

theorem one_le_length_explode (s : String) : 1 ≤ (explode s).length := by
  unfold explode
  rw [List.length_map]
  exact List.length_pos_of_ne_nil (List.splitOn_ne_nil _ _)

theorem two_le_length_explode {s : String} (h : '|' ∈ s.toList) : 2 ≤ (explode s).length := by
  obtain ⟨before, after, hsplit⟩ := List.append_of_mem h
  have hbefore := List.length_pos_of_ne_nil (List.splitOn_ne_nil '|' before)
  have hafter := List.length_pos_of_ne_nil (List.splitOn_ne_nil '|' after)
  unfold explode
  rw [hsplit, List.splitOn_append_cons_self, List.length_map, List.length_append]
  omega

/-- **Unpacking undoes packing** where no part contains the separator. -/
theorem explode_pairKey (h : Plain pair) :
    explode (pairKey pair) = [pair.1, pair.2.1, pair.2.2] := by
  rw [explode_eq, explode_of_notMem h.1, explode_of_notMem h.2.1, explode_of_notMem h.2.2]
  rfl

/-- **A packed key yields three parts only then.** -/
theorem plain_of_length (h : (explode (pairKey pair)).length = 3) : Plain pair := by
  rw [explode_eq, List.length_append, List.length_append] at h
  have h1 := one_le_length_explode pair.1
  have h2 := one_le_length_explode pair.2.1
  have h3 := one_le_length_explode pair.2.2
  refine ⟨fun hmem => ?_, fun hmem => ?_, fun hmem => ?_⟩
  · have htwo := two_le_length_explode hmem
    omega
  · have htwo := two_le_length_explode hmem
    omega
  · have htwo := two_le_length_explode hmem
    omega

/-- **No other pair has the key of one without separators.** -/
theorem pairKey_inj (h : Plain pair) : pairKey pair' = pairKey pair ↔ pair' = pair := by
  refine ⟨fun heq => ?_, congrArg pairKey⟩
  have hparts := explode_pairKey h
  rw [← heq] at hparts
  have hplain' : Plain pair' := plain_of_length (by rw [hparts]; rfl)
  rw [explode_pairKey hplain'] at hparts
  simp only [List.cons.injEq, and_true] at hparts
  exact Prod.ext hparts.1 (Prod.ext hparts.2.1 hparts.2.2)

theorem pairKey_of_explode {setId optionKey day : String}
    (h : explode key = [setId, optionKey, day]) : pairKey (setId, optionKey, day) = key := by
  have hjoin : ['|'].intercalate (key.toList.splitOn '|') = key.toList :=
    List.intercalate_splitOn '|'
  unfold explode at h
  obtain ⟨parts, hparts⟩ : ∃ parts, key.toList.splitOn '|' = parts := ⟨_, rfl⟩
  rw [hparts] at h hjoin
  match parts, h with
  | [a, b, c], h =>
    simp only [List.map_cons, List.map_nil, List.cons.injEq, and_true] at h
    obtain ⟨rfl, rfl, rfl⟩ := h
    have hlist : (pairKey (String.ofList a, String.ofList b, String.ofList c)).toList =
        key.toList := by
      rw [← hjoin]
      simp [pairKey, List.intercalate]
    exact String.toList_inj.1 hlist

/-! ## What is sent -/

theorem sum_entries (counts : Counts) (key : String) :
    (counts.entries.map fun entry => if entry.1 = key then entry.2 else 0).sum =
      counts.getD key 0 := by
  obtain ⟨entries, hnodup⟩ := counts
  show (entries.map fun entry => if entry.1 = key then entry.2 else 0).sum =
    (entries.lookup key).getD 0
  induction entries with
  | nil => rfl
  | cons entry entries ih =>
    rw [List.map_cons, List.nodup_cons] at hnodup
    rw [List.map_cons, List.sum_cons, ih hnodup.2, List.lookup_cons]
    by_cases hkey : entry.1 = key
    · have hnone : entries.lookup key = none := by
        rw [List.lookup_eq_none_iff]
        intro other hother
        have hne : entry.1 ≠ other.1 := fun heq =>
          hnodup.1 (List.mem_map.2 ⟨other, hother, heq.symm⟩)
        simpa [← hkey] using hne
      have hbeq : (key == entry.1) = true := by simp [hkey]
      rw [if_pos hkey, hnone, hbeq]
      rfl
    · have hbeq : (key == entry.1) = false := by
        rw [beq_eq_false_iff_ne]
        exact fun h => hkey h.symm
      rw [if_neg hkey, hbeq, Nat.zero_add]

theorem plain_of_rowOf {entry : String × ℕ} (h : rowOf entry = some row) : Plain row.pair := by
  unfold rowOf at h
  split at h
  · rename_i setId optionKey day hparts
    obtain rfl := Option.some.inj h
    refine plain_of_length ?_
    show (explode (pairKey (setId, optionKey, day))).length = 3
    rw [pairKey_of_explode hparts, hparts]
    rfl
  · simp at h

theorem plain_of_mem_pending (h : row ∈ pending counts) : Plain row.pair := by
  obtain ⟨entry, -, hrow⟩ := List.mem_filterMap.1 h
  exact plain_of_rowOf hrow

theorem views_rowOf (hpair : Plain pair) (entry : String × ℕ) :
    ((rowOf entry).toList.map fun row => if row.pair = pair then row.views else 0).sum =
      if entry.1 = pairKey pair then entry.2 else 0 := by
  obtain ⟨key, views⟩ := entry
  by_cases hkey : key = pairKey pair
  · have hrow : rowOf (key, views) = some ⟨pair.1, pair.2.1, pair.2.2, views⟩ := by
      unfold rowOf
      rw [hkey, explode_pairKey hpair]
    rw [hrow, if_pos hkey]
    show (if pair = pair then views else 0) + 0 = views
    rw [if_pos rfl, Nat.add_zero]
  · rw [if_neg hkey]
    cases hrow : rowOf (key, views) with
    | none => rfl
    | some row =>
      have hne : row.pair ≠ pair := by
        rintro rfl
        unfold rowOf at hrow
        split at hrow
        · rename_i setId optionKey day hparts
          obtain rfl := Option.some.inj hrow
          exact hkey (pairKey_of_explode hparts).symm
        · simp at hrow
      show (if row.pair = pair then row.views else 0) + 0 = 0
      rw [if_neg hne]

/-- **What is pending of a pair is the number under its key**, where no part
contains the separator. -/
theorem viewsOf_pending (counts : Counts) (hpair : Plain pair) :
    viewsOf (pending counts) pair = counts.getD (pairKey pair) 0 := by
  rw [← sum_entries]
  unfold viewsOf pending
  generalize counts.entries = entries
  induction entries with
  | nil => rfl
  | cons entry entries ih =>
    have hone := views_rowOf hpair entry
    rw [List.map_cons, List.sum_cons, ← ih, ← hone, List.filterMap_cons]
    cases rowOf entry with
    | none => exact (Nat.zero_add _).symm
    | some row => rfl

theorem viewsOf_pending_of_not_plain (counts : Counts) (hpair : ¬ Plain pair) :
    viewsOf (pending counts) pair = 0 := by
  refine List.sum_eq_zero fun n hn => ?_
  obtain ⟨row, hrow, rfl⟩ := List.mem_map.1 hn
  have hne : row.pair ≠ pair := fun heq => hpair (heq ▸ plain_of_mem_pending hrow)
  exact if_neg hne

/-! ## What is cleared -/

theorem getD_clearOne (counts : Counts) (row : ViewCount) (key : String) :
    (clearOne counts row).getD key 0 =
      counts.getD key 0 - if pairKey row.pair = key then row.views else 0 := by
  unfold clearOne
  cases hget : counts.get? (pairKey row.pair) with
  | none =>
    dsimp only
    by_cases hkey : pairKey row.pair = key
    · have hzero : counts.getD key 0 = 0 := by
        rw [← hkey, OrderedMap.getD, hget]
        rfl
      rw [hzero, Nat.zero_sub]
    · rw [if_neg hkey, Nat.sub_zero]
  | some views =>
    dsimp only
    have hviews : counts.getD (pairKey row.pair) 0 = views := by
      rw [OrderedMap.getD, hget]
      rfl
    by_cases hkey : pairKey row.pair = key
    · rw [if_pos hkey, ← hkey, hviews]
      split_ifs with hlt
      · rw [OrderedMap.getD, OrderedMap.get?_set, if_pos rfl]
        rfl
      · rw [OrderedMap.getD, OrderedMap.get?_erase, if_pos rfl]
        show 0 = views - row.views
        omega
    · rw [if_neg hkey, Nat.sub_zero]
      split_ifs
      · rw [OrderedMap.getD, OrderedMap.get?_set_ne _ _ (fun h => hkey h.symm)]
        rfl
      · rw [OrderedMap.getD, OrderedMap.get?_erase, if_neg fun h => hkey h.symm]
        rfl

/-- **Clearing subtracts, of each key, the rows that have it**, and stops at
nothing. -/
theorem getD_clear (counts : Counts) (sent : List ViewCount) (key : String) :
    (clear counts sent).getD key 0 = counts.getD key 0 -
      (sent.map fun row => if pairKey row.pair = key then row.views else 0).sum := by
  unfold clear
  induction sent generalizing counts with
  | nil => rfl
  | cons row sent ih =>
    rw [List.foldl_cons, ih, getD_clearOne, List.map_cons, List.sum_cons]
    omega

theorem sum_rows (hpair : Plain pair) (rows : List ViewCount) :
    (rows.map fun row => if pairKey row.pair = pairKey pair then row.views else 0).sum =
      viewsOf rows pair := by
  unfold viewsOf
  simp only [pairKey_inj hpair]

/-! ## What is added -/

theorem getD_addOne (setId day : String) (acc : Counts × List Pair) (option : Option String)
    (base : ℕ) (h : acc.1.getD key 0 = base + acc.2.countP fun pair => pairKey pair = key) :
    (addOne setId day acc option).1.getD key 0 =
      base + (addOne setId day acc option).2.countP fun pair => pairKey pair = key := by
  unfold addOne
  cases option with
  | none => exact h
  | some optionKey =>
    dsimp only
    split_ifs
    · exact h
    · exact h
    · exact h
    · rw [List.countP_append, List.countP_singleton, OrderedMap.getD, OrderedMap.get?_set]
      by_cases hkey : pairKey (setId, optionKey, day) = key
      · rw [if_pos hkey.symm, if_pos (decide_eq_true hkey), hkey, h]
        show base + _ + 1 = base + (_ + 1)
        omega
      · rw [if_neg fun heq => hkey heq.symm, if_neg (by simpa using hkey), Nat.add_zero]
        exact h

/-- **A beacon adds to each key what it counted of it.** -/
theorem getD_add (counts : Counts) (setId : String) (options : List (Option String)) (day : String)
    (key : String) : (add counts setId options day).1.getD key 0 =
      counts.getD key 0 +
        (add counts setId options day).2.countP fun pair => pairKey pair = key := by
  have hfold : ∀ (acc : Counts × List Pair),
      acc.1.getD key 0 = counts.getD key 0 + acc.2.countP (fun pair => pairKey pair = key) →
        (options.foldl (addOne setId day) acc).1.getD key 0 = counts.getD key 0 +
          (options.foldl (addOne setId day) acc).2.countP fun pair => pairKey pair = key := by
    induction options with
    | nil => exact fun acc h => h
    | cons option options ih =>
      intro acc h
      exact ih _ (getD_addOne setId day acc option _ h)
  unfold add
  split_ifs
  · rfl
  · exact hfold (counts, []) rfl

end Optionia.Views

/-! ## Draining the view counts

A drain reads what is pending, posts it, and clears what it sent once the cloud
has accepted it, or has refused it for good. The cloud adds what arrives to
what the store reported before. Any number of beacons and drains run at once;
each beacon, each read, each post and each clear is taken at once.
-/

namespace Optionia.Views

/-- What the cloud holds of a store. -/
abbrev Totals := OrderedMap Pair ℕ

/-- Add a batch of counts to what the store has already reported. -/
def record (views : List ViewCount) (totals : Totals) : Totals :=
  views.foldl (fun totals view => totals.update 0 view.pair (· + view.views)) totals

/-- The most rows sent in one request. -/
def maxRows : ℕ := 500

/-- What the plugin learns of a post. -/
inductive Answer where
  /-- A 2xx, which the cloud gives when it has recorded the batch. -/
  | ok
  /-- Any other status, or 0 where there was no answer. -/
  | status (code : ℕ)
  deriving DecidableEq

/-- Whether a status says that the batch is wrong, and not that the cloud is
unavailable. -/
def permanent (status : ℕ) : Bool :=
  decide (400 ≤ status) && decide (status < 500) && status != 429 && status != 401

/-- What a post meets. -/
structure Input where
  /-- How often the cloud records the batch without the answer arriving. -/
  lost : ℕ := 0
  answer : Answer := .ok

/-- What is stored on either side. Neither reads the last two. -/
structure Ledger where
  counts : Counts := ∅
  cloud : Totals := ∅
  counted : Totals := ∅
  /-- What was in batches the cloud refused for good. -/
  refused : Totals := ∅

/-- What happens. -/
inductive Request where
  | add (setId : String) (options : List (Option String)) (day : String)
  | drain

/-- How far it is. -/
inductive Phase where
  | adding (setId : String) (options : List (Option String)) (day : String)
  | reading
  | posting (batch : List ViewCount)
  | clearing (batch : List ViewCount)
  | done

/-- The phase a request starts in. -/
def enter : Request → Phase
  | .add setId options day => .adding setId options day
  | .drain => .reading

def post (input : Input) (ledger : Ledger) (batch : List ViewCount) : Ledger × Phase :=
  let cloud := (record batch)^[input.lost] ledger.cloud
  match input.answer with
  | .ok => ({ ledger with cloud := record batch cloud }, .clearing batch)
  | .status code =>
    if permanent code then
      ({ ledger with cloud, refused := record batch ledger.refused }, .clearing batch)
    else ({ ledger with cloud }, .done)

/-- **The next statement.** -/
def statement (input : Input) (ledger : Ledger) : Phase → Ledger × Phase
  | .adding setId options day =>
    ({ ledger with
        counts := (add ledger.counts setId options day).1
        counted := (add ledger.counts setId options day).2.foldl
          (fun counted pair => counted.update 0 pair (· + 1)) ledger.counted }, .done)
  | .reading =>
    (ledger, if pending ledger.counts = [] then .done
      else .posting ((pending ledger.counts).take maxRows))
  | .posting batch => post input ledger batch
  | .clearing batch => ({ ledger with counts := clear ledger.counts batch }, .done)
  | .done => (ledger, .done)

/-- **The view counts of a store.** Beacons arrive and drains start at any
time. -/
def reporting : Calls.System Ledger Request Phase Input where
  enter _ request := some (enter request)
  statement := statement

/-- What is stored, and what is under way. -/
abbrev State := Calls.State Ledger Request Phase

abbrev Action := Calls.Action Request Input

def fresh : State := ⟨{}, []⟩

/-! ## The cloud's sums -/

/-- **The cloud adds what a batch reports of a pair.** -/
theorem getD_record (views : List ViewCount) (totals : Totals) (pair : Pair) :
    (record views totals).getD pair 0 = totals.getD pair 0 + viewsOf views pair := by
  unfold record viewsOf
  induction views generalizing totals with
  | nil => rfl
  | cons view views ih =>
    rw [List.foldl_cons, ih, OrderedMap.getD_update, List.map_cons, List.sum_cons]
    by_cases hpair : view.pair = pair
    · rw [if_pos hpair.symm, if_pos hpair, hpair]
      omega
    · rw [if_neg fun h => hpair h.symm, if_neg hpair]
      omega

theorem getD_record_iterate (views : List ViewCount) (totals : Totals) (pair : Pair) (n : ℕ) :
    ((record views)^[n] totals).getD pair 0 = totals.getD pair 0 + n * viewsOf views pair := by
  induction n with
  | zero => rw [Function.iterate_zero_apply, Nat.zero_mul, Nat.add_zero]
  | succ n ih =>
    rw [Function.iterate_succ_apply', getD_record, ih, Nat.succ_mul]
    omega

theorem getD_counted (pairs : List Pair) (totals : Totals) (pair : Pair) :
    (pairs.foldl (fun counted pair => counted.update 0 pair (· + 1)) totals).getD pair 0 =
      totals.getD pair 0 + pairs.countP fun other => other = pair := by
  induction pairs generalizing totals with
  | nil => rfl
  | cons other pairs ih =>
    rw [List.foldl_cons, ih, OrderedMap.getD_update, List.countP_cons]
    by_cases hpair : other = pair
    · rw [if_pos hpair.symm, if_pos (decide_eq_true hpair), hpair]
      omega
    · rw [if_neg fun h => hpair h.symm, if_neg (by simpa using hpair)]
      omega

end Optionia.Views
