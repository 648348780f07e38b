import Optionia.Js.Date
import Optionia.Php.Numbers
import Optionia.Views.AtLeastOnce
/-!
# What beacons leave for the cloud

A beacon's body is whatever a visitor posts. The plugin looks at its day, and
the cloud at every row of a batch. What the plugin lets pass and the cloud does
not is a set or an option that is too long, and a day with a line's end behind
it; a set or an option with a separator is stored under a key that is never
sent. Beacons without these leave batches the cloud takes, and nothing else,
whatever runs at once (`sound_of_fine`).
-/

namespace Optionia.Views

open Runs Calls.System

/-! ## The plugin's check -/

/-- The body of a beacon. -/
structure Beacon where
  set : Php.Value
  options : Php.Value
  day : Php.Value

def maxOptions : ℕ := 100

/-- `\d{4}-\d{2}-\d{2}`, and nothing else. -/
def isoShaped : List Char → Bool
  | [a, b, c, d, '-', e, f, '-', g, h] => [a, b, c, d, e, f, g, h].all Decimal.isDigit
  | _ => false

/-- `preg_match( '/^\d{4}-\d{2}-\d{2}$/', $day )`: its end may stand before a
line's. -/
def matchesDay (day : String) : Bool :=
  isoShaped day.toList ||
    (decide (day.toList.getLast? = some '\n') && isoShaped day.toList.dropLast)

def checkdate (month day year : ℤ) : Bool :=
  decide (1 ≤ month ∧ month ≤ 12 ∧ 1 ≤ day ∧ 1 ≤ year ∧ year ≤ 32767 ∧
    day ≤ Js.daysIn year month.toNat)

def isRealDate (day : String) : Bool :=
  match (day.toList.splitOn '-').map fun part => Php.stringToInt (String.ofList part) with
  | [year, month, d] => checkdate month d year
  | _ => false

/-- The options that are strings, as many as are looked at. -/
def Beacon.keys (b : Beacon) : List String :=
  match b.options with
  | .arr entries => (entries.filterMap fun p => match p.2 with
    | .str key => some key
    | _ => none).take maxOptions
  | _ => []

/-- `ViewEndpoint::handle`: what a beacon adds, unless it is dropped. -/
def Beacon.handle (b : Beacon) : Option Request :=
  if b.options.isArray ∧ matchesDay b.day.castString ∧ isRealDate b.day.castString then
    some (.add b.set.castString (b.keys.map some) b.day.castString)
  else none

/-! ## The cloud's -/

/-- `IsRealDate` -/
def isRealDateDto (value : String) : Bool :=
  match Js.parse (value.toList ++ "T00:00:00.000Z".toList) with
  | some parsed => decide ((Js.toISOString parsed).take 10 = value.toList)
  | none => false

section Sound

variable (isLength : String → ℕ → ℕ → Bool)

/-- `ViewCountDto`, with the validator's measure of a text. -/
def viewCountDto (row : ViewCount) : Bool :=
  isLength row.optionSetId 1 36 && isLength row.optionKey 1 64 && isoShaped row.day.toList &&
    isRealDateDto row.day && decide (1 ≤ row.views ∧ row.views ≤ 1000000)

def reportViewsDto (views : List ViewCount) : Bool :=
  decide (views.length ≤ 500) && views.all (viewCountDto isLength)

/-- **Nothing is refused, and nothing stays**: the cloud takes every row that is
pending and every batch that is read, and what is stored is pending. -/
structure Sound (s : State) : Prop where
  pending : ∀ row ∈ pending s.data.counts, viewCountDto isLength row = true
  batches : ∀ call ∈ s.calls, reportViewsDto isLength call.2.rows = true
  stored : ∀ entry ∈ s.data.counts.entries, (rowOf entry).isSome = true

/-- A beacon that is not dropped names a set and options of lengths the cloud
takes and without separators, on a day that ends with its digits. -/
def Beacon.Fine (b : Beacon) : Prop :=
  b.handle.isSome = true → b.set.castString ≠ "" → ∀ key ∈ b.keys, key ≠ "" →
    isLength b.set.castString 1 36 = true ∧ isLength key 1 64 = true ∧
      '|' ∉ b.set.castString.toList ∧ '|' ∉ key.toList ∧ '\n' ∉ b.day.castString.toList

end Sound

/-- What happens to a store's counts. -/
inductive Event where
  | beacon (b : Beacon)
  | drain
  | advance (call : ℕ) (input : Input)

def Event.action? : Event → Option Action
  | .beacon b => b.handle.map .start
  | .drain => some (.start .drain)
  | .advance call input => some (.advance call input)

/-! ## Days -/

theorem stringToInt_digits {ds : List Char} (hne : ds ≠ []) (hds : ∀ c ∈ ds, Decimal.isDigit c = true)
    (hsmall : Decimal.digitsValue ds < 2 ^ 63) :
    Php.stringToInt (String.ofList ds) = Decimal.digitsValue ds := by
  obtain ⟨c, cs, rfl⟩ := List.exists_cons_of_ne_nil hne
  have hspace : Php.numeralSpace c = false := by
    have hc := hds c List.mem_cons_self
    simp only [Php.numeralSpace, Bool.or_eq_false_iff, beq_eq_false_iff_ne, and_assoc]
    refine ⟨?_, ?_, ?_, ?_, ?_, ?_⟩ <;> rintro rfl <;> exact absurd hc (by decide)
  have hsign : Decimal.splitSign (c :: cs) = (false, c :: cs) :=
    @Decimal.splitSign_signText false _ fun d hd => hds d (List.mem_of_mem_head? hd)
  have hrun := @Decimal.takeWhile_digits _ [] hds (by simp)
  rw [List.append_nil] at hrun
  have hnumeral : Php.numeral? (String.ofList (c :: cs)) =
      some ⟨Decimal.scaled (c :: cs) [] 0, true, []⟩ := by
    unfold Php.numeral?
    rw [String.toList_ofList, List.dropWhile_cons_of_neg (by rw [hspace]; exact Bool.false_ne_true),
      hsign]
    dsimp only
    unfold Decimal.mantissa?
    rw [hrun.1, hrun.2]
    simp [Php.takeExponent, Decimal.signed]
  have hvalue : Decimal.scaled (c :: cs) [] 0 = (Decimal.digitsValue (c :: cs) : ℕ) := by
    simp [Decimal.scaled]
  rw [Php.stringToInt, hnumeral]
  dsimp only
  rw [if_pos rfl, hvalue, Rat.num_natCast, Php.saturate]
  omega

theorem padded_digitsValue {ds : List Char} (hds : ∀ c ∈ ds, Decimal.isDigit c = true) :
    Js.padded ds.length (Decimal.digitsValue ds) = ds ∧
      Decimal.digitsValue ds < 10 ^ ds.length := by
  induction ds using List.reverseRecOn with
  | nil => exact ⟨rfl, Nat.zero_lt_one⟩
  | append_singleton ds c ih =>
    obtain ⟨hinit, hlast⟩ := List.forall_mem_append.1 hds
    obtain ⟨hpadded, hlt⟩ := ih hinit
    have hc : 48 ≤ c.toNat ∧ c.toNat ≤ 57 := by
      have h := hlast c (List.mem_singleton_self c)
      rw [Decimal.isDigit, Bool.and_eq_true, decide_eq_true_eq, decide_eq_true_eq] at h
      exact h
    have hvalue : Decimal.digitsValue (ds ++ [c]) =
        10 * Decimal.digitsValue ds + (c.toNat - 48) := by
      rw [Decimal.digitsValue_append]
      change 10 ^ 1 * _ + (10 * 0 + (c.toNat - 48)) = _
      omega
    have hinner : (10 * Decimal.digitsValue ds + (c.toNat - 48)) / 10 = Decimal.digitsValue ds := by
      omega
    have hdigit : 48 + (10 * Decimal.digitsValue ds + (c.toNat - 48)) % 10 = c.toNat := by omega
    rw [List.length_append, List.length_singleton, Js.padded, hvalue, hinner, hpadded, hdigit,
      Char.ofNat_toNat, pow_succ]
    exact ⟨rfl, by omega⟩

theorem isoShaped_cases {cs : List Char} (h : isoShaped cs = true) : ∃ year month day,
    cs = year ++ '-' :: (month ++ '-' :: day) ∧ year.length = 4 ∧ month.length = 2 ∧
      day.length = 2 ∧ ∀ c ∈ year ++ (month ++ day), Decimal.isDigit c = true := by
  unfold isoShaped at h
  split at h
  · next a b c d e f g k =>
    exact ⟨[a, b, c, d], [e, f], [g, k], rfl, rfl, rfl, rfl, List.all_eq_true.1 h⟩
  · exact absurd h Bool.false_ne_true

/-- **A day the calendar has is its own ISO text.** -/
theorem toISOString_day {year month day : ℕ} (hyear : year ≤ 9999)
    (hmonth : 1 ≤ month ∧ month ≤ 12) (hday : 1 ≤ day ∧ day ≤ Js.daysIn year month) :
    ∃ t : Js.Instant, Js.toISOString t = Js.padded 4 year ++ '-' :: (Js.padded 2 month ++
      '-' :: (Js.padded 2 day ++ "T00:00:00.000Z".toList)) := by
  have hlong : Js.daysIn year month ≤ 31 := by
    unfold Js.daysIn
    split_ifs <;> omega
  have hwithin : |Js.daysOf ⟨year, month, day⟩ * 86400000| ≤ 8640000000000000 := by
    rw [abs_le]
    unfold Js.daysOf Js.daysBefore
    dsimp only
    split_ifs <;> omega
  refine ⟨⟨_, hwithin⟩, ?_⟩
  have hdays : Js.daysOf ⟨year, month, day⟩ * 86400000 / 86400000 = Js.daysOf ⟨year, month, day⟩ ∧
      (Js.daysOf ⟨year, month, day⟩ * 86400000 % 86400000).toNat = 0 := by omega
  unfold Js.toISOString
  dsimp only
  rw [hdays.1, hdays.2, Js.civilOf_daysOf hmonth hday, Js.yearText, if_pos (by dsimp only; omega)]
  rfl

/-- **A day the plugin lets pass is one the cloud takes**, where no line ends
behind it. -/
theorem day_accepted {day : String} (hmatch : matchesDay day = true)
    (hreal : isRealDate day = true) (hline : '\n' ∉ day.toList) :
    isoShaped day.toList = true ∧ isRealDateDto day = true ∧ '|' ∉ day.toList := by
  have hshaped : isoShaped day.toList = true := by
    obtain h | h := Bool.or_eq_true_iff.1 hmatch
    · exact h
    · exact absurd (List.mem_of_getLast? (of_decide_eq_true (Bool.and_eq_true_iff.1 h).1)) hline
  obtain ⟨year, month, d, htext, hyear, hmonth, hd, hdigits⟩ := isoShaped_cases hshaped
  obtain ⟨hyears, hrest⟩ := List.forall_mem_append.1 hdigits
  obtain ⟨hmonths, hdays⟩ := List.forall_mem_append.1 hrest
  have hnone : ∀ {ds : List Char} {c : Char}, Decimal.isDigit c = false →
      (∀ c ∈ ds, Decimal.isDigit c = true) → c ∉ ds := by
    intro ds c hc hds hmem
    rw [hds c hmem] at hc
    exact absurd hc (by decide)
  have hint : ∀ {ds : List Char}, ds ≠ [] → ds.length ≤ 4 →
      (∀ c ∈ ds, Decimal.isDigit c = true) →
        Php.stringToInt (String.ofList ds) = Decimal.digitsValue ds := by
    intro ds hne hlength hds
    refine stringToInt_digits hne hds ((padded_digitsValue hds).2.trans_le ?_)
    exact (Nat.pow_le_pow_right (by decide) hlength).trans (by decide)
  have hparts : day.toList.splitOn '-' = [year, month, d] := by
    rw [htext, List.splitOn_append_cons_self, List.splitOn_append_cons_self,
      List.splitOn_eq_singleton (hnone (by decide) hyears),
      List.splitOn_eq_singleton (hnone (by decide) hmonths),
      List.splitOn_eq_singleton (hnone (by decide) hdays)]
    rfl
  have hexists : checkdate (Decimal.digitsValue month) (Decimal.digitsValue d)
      (Decimal.digitsValue year) = true := by
    rw [isRealDate, hparts, List.map_cons, List.map_cons, List.map_cons, List.map_nil,
      hint (List.ne_nil_of_length_pos (by omega)) (by omega) hyears,
      hint (List.ne_nil_of_length_pos (by omega)) (by omega) hmonths,
      hint (List.ne_nil_of_length_pos (by omega)) (by omega) hdays] at hreal
    exact hreal
  obtain ⟨hmonth1, hmonth12, hday1, -, -, hdayIn⟩ := of_decide_eq_true hexists
  rw [Int.toNat_natCast] at hdayIn
  obtain ⟨hyearText, hyearLt⟩ := padded_digitsValue hyears
  rw [hyear] at hyearText hyearLt
  obtain ⟨t, ht⟩ := toISOString_day (by omega : Decimal.digitsValue year ≤ 9999)
    (by omega : 1 ≤ Decimal.digitsValue month ∧ Decimal.digitsValue month ≤ 12)
    (by omega : 1 ≤ Decimal.digitsValue d ∧ Decimal.digitsValue d ≤ _)
  have hmonthText := (padded_digitsValue hmonths).1
  have hdayText := (padded_digitsValue hdays).1
  rw [hmonth] at hmonthText
  rw [hd] at hdayText
  have hiso : Js.toISOString t = day.toList ++ "T00:00:00.000Z".toList := by
    rw [ht, hyearText, hmonthText, hdayText, htext]
    simp only [List.append_assoc, List.cons_append]
  have hlength : day.toList.length = 10 := by
    rw [htext]
    simp only [List.length_append, List.length_cons, hyear, hmonth, hd]
  refine ⟨hshaped, ?_, ?_⟩
  · rw [isRealDateDto, ← hiso, Js.parse_toISOString]
    dsimp only
    rw [hiso, List.take_left' hlength, decide_eq_true rfl]
  · rw [htext]
    simp only [List.mem_append, List.mem_cons, not_or]
    exact ⟨hnone (by decide) hyears, by decide, hnone (by decide) hmonths, by decide,
      hnone (by decide) hdays⟩

/-! ## What is stored -/

section Stored

variable {isLength : String → ℕ → ℕ → Bool} {counts : Counts} {setId day : String}

/-- A pair without separators that the cloud takes. -/
def Storable (isLength : String → ℕ → ℕ → Bool) (pair : Pair) : Prop :=
  Plain pair ∧ viewCountDto isLength ⟨pair.1, pair.2.1, pair.2.2, 1⟩ = true

/-- **What the store has is of such pairs**, each seen as often as may be. -/
def Held (isLength : String → ℕ → ℕ → Bool) (counts : Counts) : Prop :=
  ∀ key views, counts.get? key = some views → (∃ pair, Storable isLength pair ∧
    pairKey pair = key) ∧ 1 ≤ views ∧ views ≤ maxPerOption

theorem Storable.row {pair : Pair} (h : Storable isLength pair) {views : ℕ} (hleast : 1 ≤ views)
    (hmost : views ≤ maxPerOption) :
    viewCountDto isLength ⟨pair.1, pair.2.1, pair.2.2, views⟩ = true := by
  have hdto := h.2
  unfold viewCountDto at hdto ⊢
  rw [Bool.and_eq_true] at hdto ⊢
  exact ⟨hdto.1, decide_eq_true ⟨hleast, hmost⟩⟩

/-- **What is stored is pending, and taken.** -/
theorem Held.rowOf (h : Held isLength counts) {entry : String × ℕ} (hentry : entry ∈ counts.entries) :
    ∃ row, Views.rowOf entry = some row ∧ viewCountDto isLength row = true := by
  obtain ⟨⟨pair, hpair, hkey⟩, hleast, hmost⟩ := h entry.1 entry.2 (OrderedMap.get?_eq_some.2 hentry)
  have hparts := explode_pairKey hpair.1
  rw [hkey] at hparts
  refine ⟨⟨pair.1, pair.2.1, pair.2.2, entry.2⟩, ?_, hpair.row hleast hmost⟩
  rw [Views.rowOf, hparts]

theorem Held.pending (h : Held isLength counts) {row : ViewCount} (hrow : row ∈ pending counts) :
    viewCountDto isLength row = true := by
  obtain ⟨entry, hentry, heq⟩ := List.mem_filterMap.1 hrow
  obtain ⟨row', hrow', hdto⟩ := h.rowOf hentry
  rw [hrow'] at heq
  obtain rfl := Option.some.inj heq
  exact hdto

/-- **A batch of what is pending is taken.** -/
theorem Held.batch (h : Held isLength counts) :
    reportViewsDto isLength ((Views.pending counts).take maxRows) = true := by
  rw [reportViewsDto, Bool.and_eq_true]
  refine ⟨decide_eq_true (List.length_take_le _ _), List.all_eq_true.2 fun row hrow => ?_⟩
  exact h.pending (List.mem_of_mem_take hrow)

theorem held_addOne {acc : Counts × List Pair} (h : Held isLength acc.1) {option : Option String}
    (hoption : ∀ key, option = some key → key ≠ "" → Storable isLength (setId, key, day)) :
    Held isLength (addOne setId day acc option).1 := by
  cases option with
  | none => exact h
  | some optionKey =>
    unfold addOne
    dsimp only
    split_ifs with hempty _ hmost
    · exact h
    · exact h
    · exact h
    · intro key views hviews
      obtain ⟨rfl, rfl⟩ | ⟨-, hold⟩ := OrderedMap.get?_set_eq_some.1 hviews
      · exact ⟨⟨_, hoption optionKey rfl hempty, rfl⟩, by omega, by omega⟩
      · exact h key views hold

theorem held_add (h : Held isLength counts) {options : List (Option String)}
    (hoptions : ∀ key, some key ∈ options → setId ≠ "" → key ≠ "" →
      Storable isLength (setId, key, day)) : Held isLength (add counts setId options day).1 := by
  unfold add
  split_ifs with hempty
  · exact h
  · have hset : setId ≠ "" := fun heq => hempty (.inl heq)
    have hfold : ∀ (rest : List (Option String)) (acc : Counts × List Pair),
        (∀ option ∈ rest, option ∈ options) → Held isLength acc.1 →
          Held isLength (rest.foldl (addOne setId day) acc).1 := by
      intro rest
      induction rest with
      | nil => exact fun _ _ hacc => hacc
      | cons option rest ih =>
        intro acc hsub hacc
        obtain ⟨hhead, htail⟩ := List.forall_mem_cons.1 hsub
        refine ih _ htail (held_addOne hacc fun key hkey hne => ?_)
        exact hoptions key (hkey ▸ hhead) hset hne
    exact hfold options (counts, []) (fun _ hmem => hmem) h

theorem held_clear (h : Held isLength counts) (sent : List ViewCount) :
    Held isLength (clear counts sent) := by
  unfold clear
  induction sent generalizing counts with
  | nil => exact h
  | cons row sent ih =>
    refine ih fun key views hviews => ?_
    unfold clearOne at hviews
    split at hviews
    · exact h key views hviews
    · next old hold =>
      split_ifs at hviews with hmore
      · obtain ⟨rfl, rfl⟩ | ⟨-, hsame⟩ := OrderedMap.get?_set_eq_some.1 hviews
        · obtain ⟨hpair, -, hmost⟩ := h _ old hold
          exact ⟨hpair, by omega, by omega⟩
        · exact h key views hsame
      · rw [OrderedMap.get?_erase] at hviews
        split_ifs at hviews
        exact h key views hviews

/-! ## Over whole runs -/

/-- What a call is about to add can be stored, and what it has read is taken. -/
def Phase.Taken (isLength : String → ℕ → ℕ → Bool) : Phase → Prop
  | .adding setId options day => ∀ key, some key ∈ options → setId ≠ "" → key ≠ "" →
      Storable isLength (setId, key, day)
  | phase => reportViewsDto isLength phase.rows = true

/-- **The invariant**: of the store, and of every call. -/
structure Clean (isLength : String → ℕ → ℕ → Bool) (s : State) : Prop where
  held : Held isLength s.data.counts
  calls : ∀ (i : ℕ) request phase, s.calls[i]? = some (request, phase) → phase.Taken isLength

/-- **What a statement leaves is clean.** -/
theorem taken_statement (input : Input) {ledger : Ledger} {phase : Phase}
    (h : Held isLength ledger.counts) (hphase : phase.Taken isLength) :
    Held isLength (statement input ledger phase).1.counts ∧
      (statement input ledger phase).2.Taken isLength := by
  have hempty : reportViewsDto isLength [] = true := rfl
  cases phase with
  | adding setId options day => exact ⟨held_add h hphase, hempty⟩
  | reading =>
    refine ⟨h, ?_⟩
    unfold statement
    dsimp only
    split_ifs
    · exact hempty
    · exact h.batch
  | posting batch =>
    unfold statement post
    dsimp only
    split
    · exact ⟨h, hphase⟩
    · split_ifs
      · exact ⟨h, hphase⟩
      · exact ⟨h, hempty⟩
  | clearing batch => exact ⟨held_clear h batch, hempty⟩
  | done => exact ⟨h, hempty⟩

theorem taken_enter {b : Beacon} (hfine : b.Fine isLength) {request : Request}
    (h : b.handle = some request) : (enter request).Taken isLength := by
  have hsome : b.handle.isSome = true := by
    rw [h]
    rfl
  unfold Beacon.handle at h
  split_ifs at h with hdropped
  obtain rfl := Option.some.inj h
  intro key hkey hset hne
  obtain ⟨key', hkey', heq⟩ := List.mem_map.1 hkey
  obtain rfl := Option.some.inj heq
  obtain ⟨hsetLength, hkeyLength, hsetBar, hkeyBar, hline⟩ := hfine hsome hset key' hkey' hne
  obtain ⟨hshaped, hreal, hdayBar⟩ := day_accepted hdropped.2.1 hdropped.2.2 hline
  refine ⟨⟨hsetBar, hkeyBar, hdayBar⟩, ?_⟩
  rw [viewCountDto, hsetLength, hkeyLength, hshaped, hreal]
  rfl

theorem clean_step {s : State} (h : Clean isLength s) {action : Action}
    (hstart : ∀ request, action = .start request → (enter request).Taken isLength) :
    Clean isLength (reporting.step s action) := by
  refine ⟨?_, fun i request phase hcall => ?_⟩
  · refine data_step (Q := fun data : Ledger => Held isLength data.counts) h.held fun i input request phase _ hcall => ?_
    exact (taken_statement input h.held (h.calls i request phase hcall)).1
  · obtain hold | ⟨-, rfl, henter⟩ | ⟨input, phase', rfl, hcall', rfl⟩ := getElem?_step hcall
    · exact h.calls i request phase hold
    · obtain rfl := Option.some.inj henter
      exact hstart request rfl
    · exact (taken_statement input h.held (h.calls i request phase' hcall')).2

theorem Clean.sound {s : State} (h : Clean isLength s) : Sound isLength s := by
  refine ⟨fun row hrow => h.held.pending hrow, fun call hcall => ?_, fun entry hentry => ?_⟩
  · obtain ⟨i, hi⟩ := List.mem_iff_getElem?.1 hcall
    have htaken := h.calls i call.1 call.2 hi
    cases hphase : call.2 with
    | adding setId options day => rfl
    | _ =>
      rw [hphase] at htaken
      exact htaken
  · obtain ⟨row, hrow, -⟩ := h.held.rowOf hentry
    rw [hrow]
    rfl

end Stored

/-- **One bad beacon costs nothing that waits behind it**, where every beacon
that is not dropped is fine: in whatever order beacons and drains run and
whatever becomes of the posts. -/
theorem sound_of_fine (isLength : String → ℕ → ℕ → Bool) (events : List Event)
    (hfine : ∀ b, .beacon b ∈ events → b.Fine isLength) :
    Sound isLength (run reporting.step fresh (events.filterMap Event.action?)) := by
  have hclean : ∀ (events : List Event) (s : State), (∀ b, .beacon b ∈ events → b.Fine isLength) →
      Clean isLength s → Clean isLength (run reporting.step s (events.filterMap Event.action?)) := by
    intro events
    induction events with
    | nil => exact fun _ _ hs => hs
    | cons event events ih =>
      intro s hfine hs
      have hrest : ∀ b, .beacon b ∈ events → b.Fine isLength := fun b hb =>
        hfine b (List.mem_cons_of_mem _ hb)
      cases haction : event.action? with
      | none =>
        rw [List.filterMap_cons_none haction]
        exact ih s hrest hs
      | some action =>
        rw [List.filterMap_cons_some haction]
        refine ih _ hrest (clean_step hs fun request heq => ?_)
        subst heq
        cases event with
        | beacon b =>
          obtain ⟨request', hhandle, heq⟩ := Option.map_eq_some_iff.1 haction
          obtain rfl : request' = request := by injection heq
          exact taken_enter (hfine b List.mem_cons_self) hhandle
        | drain =>
          obtain rfl : Request.drain = request := by injection Option.some.inj haction
          rfl
        | advance call input => simp [Event.action?] at haction
  refine (hclean events fresh hfine ⟨fun key views hviews => ?_, fun i _ _ hcall => ?_⟩).sound
  · exact absurd hviews.symm (Option.some_ne_none views)
  · exact absurd hcall.symm (Option.some_ne_none _)

def plainLength (text : String) (least greatest : ℕ) : Bool :=
  decide (least ≤ text.length ∧ text.length ≤ greatest)

/-- One option was seen, on a day as it is posted. -/
def seenOn (day : String) : List Event :=
  [.beacon ⟨.str "set", .arr [("0", .str "engraving")], .str day⟩, .advance 0 {}]

/-- A day is counted, and taken. -/
theorem sound_seen : (pending (run reporting.step fresh
      ((seenOn "2026-09-29").filterMap Event.action?)).data.counts).length = 1 ∧
    Sound plainLength (run reporting.step fresh ((seenOn "2026-09-29").filterMap Event.action?)) := by
  refine ⟨by decide +kernel, sound_of_fine plainLength _ fun b hb => ?_⟩
  obtain rfl : b = ⟨.str "set", .arr [("0", .str "engraving")], .str "2026-09-29"⟩ := by
    simpa [seenOn] using hb
  unfold Beacon.Fine
  decide +kernel

/-- **A day with a line's end behind it costs its batch.** -/
theorem not_forall_sound : ¬ ∀ (isLength : String → ℕ → ℕ → Bool) (events : List Event),
    Sound isLength (run reporting.step fresh (events.filterMap Event.action?)) := by
  intro h
  have hrow : (⟨"set", "engraving", "2026-09-29\n", 1⟩ : ViewCount) ∈ pending (run reporting.step
      fresh ((seenOn "2026-09-29\n").filterMap Event.action?)).data.counts := by
    decide +kernel
  exact absurd ((h plainLength _).pending _ hrow) (by decide +kernel)

end Optionia.Views
