import Optionia.Engine.Reordered
import Optionia.Reporting.OrderPayload
/-!
# What is shown of a choice

A resolution snapshots the labels of what was chosen, and `OptionLabel` reads
them again: an option by its label, a chosen value by its own, and a typed
answer as it is (`label_written`). What has no label is shown by its id or its
key.
-/

namespace Optionia.Reporting

open Php Engine Engine.SelectionResolver

/-! ## As the configuration has it -/

/-- The name of an option: its label, or its id where it has none. -/
def nameShown (option : Value) (id : String) : String :=
  if trim (optionLabel option) = "" then id else trim (optionLabel option)

/-- One answer: the label of the value that is chosen by it, where it has one. -/
def answerShown (option : Value) (key : String) : String :=
  let chosen := trim (labelOr (valueAt option key) "value_key")
  if isChoice option && chosen != "" then chosen else trim key

/-- What was answered: one by one, where there are several. -/
def valueShown (option : Value) : Value → String
  | .arr es => OptionLabel.join.intercalate
      ((es.map fun p => answerShown option p.2.castString).filter (· ≠ ""))
  | v => answerShown option v.castString

/-! ## What a verdict names -/

/-- Keys that answer an option answer no choice, and keys that choose are some
of a choice. -/
theorem verdictOfKeys_spec (ctx : Context) (option option' : Value) {keys : List String}
    (hnodup : keys.Nodup) (hne : keys ≠ []) :
    (∀ answer, verdictOfKeys ctx option keys = .answered option' answer →
        option' = option ∧ isChoice option = false) ∧
      ∀ chosen, verdictOfKeys ctx option keys = .chosen option' chosen →
        option' = option ∧ isChoice option = true ∧ chosen ≠ [] := by
  unfold verdictOfKeys
  cases hread : read ctx.platform ctx.today option (keys.headD "") with
  | none =>
    have hchoice := read_eq_none_iff.1 hread
    dsimp only
    cases hviolation : choiceViolation ctx option keys with
    | some violation => exact ⟨nofun, nofun⟩
    | none =>
      refine ⟨nofun, fun chosen h => ?_⟩
      obtain ⟨rfl, rfl⟩ := Verdict.chosen.inj h
      have hperm := authored_perm hnodup (of_choiceViolation hviolation).1
      exact ⟨rfl, hchoice, fun hnil => hne (List.nil_perm.1 (hnil ▸ hperm))⟩
  | some reading =>
    have hchoice : isChoice option = false := by
      by_contra htrue
      have hnone : read ctx.platform ctx.today option (keys.headD "") = none :=
        read_eq_none_iff.2 (Bool.not_eq_false _ ▸ htrue)
      exact absurd (hread.symm.trans hnone) (Option.some_ne_none reading)
    cases reading with
    | skipped => exact ⟨nofun, nofun⟩
    | refused violation => exact ⟨nofun, nofun⟩
    | taken answer =>
      refine ⟨fun answer' h => ?_, nofun⟩
      exact ⟨(Verdict.answered.inj h).1.symm, hchoice⟩

variable {option : Value} {rows : List Selection}

/-- **A verdict is about the option of its selection.** -/
theorem verdict_spec {ctx : Context} {p : String × Value} :
    (∀ answer, verdict ctx p = .answered option answer →
        ctx.options.get? p.1 = some option ∧ isChoice option = false) ∧
      ∀ chosen, verdict ctx p = .chosen option chosen →
        ctx.options.get? p.1 = some option ∧ isChoice option = true ∧ chosen ≠ [] := by
  unfold verdict
  cases hoption : ctx.options.get? p.1 with
  | none => exact ⟨nofun, nofun⟩
  | some found =>
    dsimp only
    split
    · exact ⟨nofun, nofun⟩
    · cases hsent : sentKeys found p.2 with
      | none => exact ⟨nofun, nofun⟩
      | some sent =>
        cases sent with
        | nil => exact ⟨nofun, nofun⟩
        | cons first rest =>
          have hne : distinct ((first :: rest).map Value.castString) ≠ [] :=
            distinct_ne_nil (List.cons_ne_nil _ _)
          obtain ⟨hanswered, hchosen⟩ := verdictOfKeys_spec ctx found option
            (nodup_distinct _) hne
          refine ⟨fun answer h => ?_, fun chosen h => ?_⟩
          · obtain ⟨rfl, hchoice⟩ := hanswered answer h
            exact ⟨rfl, hchoice⟩
          · obtain ⟨rfl, hrest⟩ := hchosen chosen h
            exact ⟨rfl, hrest⟩

/-! ## What a label is read as -/

theorem lookup_ofList (vs : List Value) {key : String} (h : ∀ i : ℕ, toString i ≠ key) :
    (Value.ofList vs).field key = .null := by
  unfold Value.ofList Value.field
  dsimp only
  rw [List.lookup_eq_none_iff.2, Option.getD_none]
  intro p hp
  obtain ⟨i, hi, rfl⟩ := List.mem_mapIdx.1 hp
  exact bne_iff_ne.2 fun heq => h i heq.symm

theorem toString_ne {i : ℕ} {key : String} (h : key.toList.any (fun c => !c.isDigit) = true) :
    toString i ≠ key := by
  rintro rfl
  obtain ⟨c, hc, hdigit⟩ := List.any_eq_true.1 h
  have hmem : c ∈ Nat.toDigits 10 i := by simpa using hc
  rw [Decimal.isDigit_iff.1 (Decimal.isDigit_of_mem_toDigits hmem)] at hdigit
  exact absurd hdigit (by decide)

theorem pairs_ofList (option : Value) (vs : List Value) :
    OptionLabel.pairs (.ofList (vs.map (labelsFor option))) = vs.map (labelsFor option) := by
  unfold OptionLabel.pairs Value.isset
  rw [lookup_ofList _ fun _ => toString_ne (by decide), lookup_ofList _ fun _ =>
    toString_ne (by decide), Value.items_ofList]
  rw [if_neg (by decide)]
  refine List.filter_eq_self.2 fun label hlabel => ?_
  obtain ⟨v, -, rfl⟩ := List.mem_map.1 hlabel
  rfl

theorem name_eq {label : Value} {id : String} (texts : List String) (hne : texts ≠ [])
    (hpairs : OptionLabel.pairs label = texts.map (Engine.label option)) :
    OptionLabel.name label id = nameShown option id := by
  have hname : ∀ text, OptionLabel.text ((Engine.label option text).field "option") =
      trim (optionLabel option) := fun _ => rfl
  unfold OptionLabel.name nameShown
  rw [hpairs, List.map_map]
  obtain ⟨first, rest, rfl⟩ := List.exists_cons_of_ne_nil hne
  rw [List.map_cons, Function.comp_apply, hname]
  by_cases hempty : trim (optionLabel option) = ""
  · rw [if_pos hempty, List.find?_eq_none.2, Option.getD_none]
    intro text htext
    rw [List.mem_cons] at htext
    rcases htext with rfl | htext
    · simpa using hempty
    · obtain ⟨text', -, rfl⟩ := List.mem_map.1 htext
      simpa [hname] using hempty
  · rw [if_neg hempty, List.find?_cons_of_pos (by simpa using hempty), Option.getD_some]

theorem value_eq {label : Value} {fallback : Value} (keys : List String) (text : String → String)
    (hpairs : OptionLabel.pairs label = (keys.map text).map (Engine.label option))
    (hkeys : (if fallback.isArray then fallback.items else [fallback]) = keys.map .str) :
    OptionLabel.value label fallback = OptionLabel.join.intercalate
      ((keys.map fun key => if trim (text key) = "" then trim key else trim (text key)).filter
        (· ≠ "")) := by
  have hparts : ((OptionLabel.pairs label).mapIdx fun index pair =>
      if OptionLabel.text (pair.field "value") = "" then
        OptionLabel.text ((keys.map Value.str).getD index .null)
      else OptionLabel.text (pair.field "value")) =
      keys.map fun key => if trim (text key) = "" then trim key else trim (text key) := by
    rw [hpairs]
    refine List.ext_getElem (by simp) fun i hi hi' => ?_
    have hkey : i < keys.length := by simpa using hi'
    rw [List.getElem_mapIdx, List.getElem_map, List.getElem_map, List.getElem_map,
      List.getD_eq_getElem?_getD, List.getElem?_eq_getElem (by simpa using hkey), List.getElem_map]
    rfl
  unfold OptionLabel.value
  dsimp only
  rw [hkeys, hparts]
  split
  · next hnone =>
    -- Where no part is left, no key has a text either.
    rw [hnone, List.filter_eq_nil_iff.2]
    intro shown hshown
    obtain ⟨v, hv, rfl⟩ := List.mem_map.1 hshown
    obtain ⟨key, hkey, rfl⟩ := List.mem_map.1 (List.mem_of_mem_filter hv)
    have hempty := List.filter_eq_nil_iff.1 hnone _ (List.mem_map_of_mem hkey)
    have htrim : OptionLabel.text (.str key) = trim key := rfl
    rw [htrim]
    split at hempty
    · exact hempty
    · next hlabel => exact absurd hlabel (by simpa using hempty)
  · rfl

theorem intercalate_one (s : String) :
    OptionLabel.join.intercalate ([s].filter (· ≠ "")) = s := by
  by_cases hempty : s = ""
  · subst hempty
    rfl
  · rw [List.filter_eq_self.2 fun t ht => by rw [List.mem_singleton.1 ht]; simpa using hempty]
    rfl

/-- **What is written of an option is shown as the configuration has it**: by
the option's name, and the answer by the labels of its values. -/
theorem label_written {ctx : Context} {p : String × Value} {w : Written}
    (h : (verdict ctx p).written? ctx p.1 = some w) :
    ∃ option, ctx.options.get? p.1 = some option ∧
      OptionLabel.name w.label p.1 = nameShown option p.1 ∧
      OptionLabel.value w.label w.answer = valueShown option w.answer := by
  cases hverdict : verdict ctx p with
  | refused violation =>
    rw [hverdict] at h
    exact nomatch h
  | skipped =>
    rw [hverdict] at h
    exact nomatch h
  | answered option answer =>
    rw [hverdict] at h
    obtain rfl := Option.some.inj h
    obtain ⟨hoption, hchoice⟩ := verdict_spec.1 answer hverdict
    refine ⟨option, hoption, name_eq [answer] (List.cons_ne_nil _ _) rfl, ?_⟩
    refine (value_eq [answer] id rfl rfl).trans ?_
    have hshown : answerShown option answer = trim answer := by
      unfold answerShown
      rw [hchoice]
      rfl
    change _ = answerShown option answer
    rw [List.map_singleton, intercalate_one, hshown]
    exact ite_eq_right_iff.2 fun _ => rfl
  | chosen option keys =>
    rw [hverdict] at h
    obtain rfl := Option.some.inj h
    obtain ⟨hoption, hchoice, hne⟩ := verdict_spec.2 keys hverdict
    have hshown : ∀ key, answerShown option key =
        if trim (labelOr (valueAt option key) "value_key") = "" then trim key
        else trim (labelOr (valueAt option key) "value_key") := by
      intro key
      unfold answerShown
      dsimp only
      rw [hchoice, Bool.true_and]
      by_cases hempty : trim (labelOr (valueAt option key) "value_key") = ""
      · rw [if_pos hempty, if_neg (by simpa using hempty)]
      · rw [if_neg hempty, if_pos (by simpa using hempty)]
    refine ⟨option, hoption, ?_⟩
    dsimp only
    unfold choiceLabel stored
    dsimp only
    by_cases hmany : takesMany option = true
    · rw [if_pos hmany, if_pos hmany]
      have hpairs : OptionLabel.pairs (.ofList ((keys.map (valueAt option)).map
          (labelsFor option))) = (keys.map fun key =>
            labelOr (valueAt option key) "value_key").map (Engine.label option) := by
        rw [pairs_ofList, List.map_map, List.map_map]
        rfl
      refine ⟨name_eq _ (by simpa using hne) hpairs, ?_⟩
      have hkeys : (if (Value.ofList (keys.map .str)).isArray then
          (Value.ofList (keys.map .str)).items else [.ofList (keys.map .str)]) = keys.map .str :=
        Value.items_ofList _
      rw [value_eq _ _ hpairs hkeys]
      have hentries : ((keys.map Value.str).mapIdx fun i v => (toString i, v)).map
          (fun p => answerShown option p.2.castString) = keys.map (answerShown option) := by
        refine List.ext_getElem (by simp) fun i hi hi' => ?_
        rw [List.getElem_map, List.getElem_mapIdx, List.getElem_map, List.getElem_map]
        rfl
      change _ = OptionLabel.join.intercalate ((((keys.map Value.str).mapIdx fun i v =>
        (toString i, v)).map (fun p => answerShown option p.2.castString)).filter (· ≠ ""))
      rw [hentries]
      exact congrArg (fun shown => OptionLabel.join.intercalate (shown.filter (· ≠ "")))
        (List.map_congr_left fun key _ => (hshown key).symm)
    · obtain ⟨key, rest, rfl⟩ := List.exists_cons_of_ne_nil hne
      rw [if_neg hmany, if_neg hmany]
      refine ⟨name_eq [labelOr (valueAt option key) "value_key"]
        (List.cons_ne_nil _ _) rfl, ?_⟩
      refine (value_eq [key]
        (fun key => labelOr (valueAt option key) "value_key") rfl rfl).trans ?_
      rw [List.map_singleton, intercalate_one, ← hshown]
      rfl

/-! ## What a report lists

The rows of an order's lines come in a row, as many as the bound lists, and
all of them are counted (`selections_eq`). A row is named by the last row of
its line that shows its value (`shownUnder_iff`). So two orders of which one
line differs report alike where the listed rows and the amount of that line
are alike (`build_eq_iff`).
-/

/-! ## Listing -/

/-- **All rows are counted and the first are listed.** -/
theorem selections_eq (shop : Shop) (items : List OrderItem) :
    (selections shop items).selections =
        (items.flatMap (lineSelections shop)).take maxSelections ∧
      (selections shop items).revenue =
        ((items.flatMap (lineSelections shop)).map Selection.priceDeltaMinor).sum := by
  have hfold : ∀ (rows : List Selection) (listed : Listed),
      listed.selections.length ≤ maxSelections →
      (listed.full = true → listed.selections.length = maxSelections) →
      (rows.foldl Listed.add listed).selections =
          listed.selections ++ rows.take (maxSelections - listed.selections.length) ∧
        (rows.foldl Listed.add listed).revenue =
          listed.revenue + (rows.map Selection.priceDeltaMinor).sum := by
    intro rows
    induction rows with
    | nil =>
      intro listed _ _
      rw [List.take_nil, List.append_nil, List.map_nil, List.sum_nil, add_zero]
      exact ⟨rfl, rfl⟩
    | cons row rows ih =>
      intro listed hlength hfull
      have hrevenue : (listed.add row).revenue = listed.revenue + row.priceDeltaMinor := by
        unfold Listed.add
        dsimp only
        split_ifs <;> rfl
      by_cases hroom : listed.selections.length < maxSelections
      · have hadd : listed.add row = ⟨listed.selections ++ [row],
            listed.revenue + row.priceDeltaMinor, listed.full⟩ := by
          have hnot : ¬ listed.full = true := fun h => absurd (hfull h) (by omega)
          unfold Listed.add
          rw [if_neg hnot, if_neg (by omega)]
        obtain ⟨hselections, htotal⟩ := ih (listed.add row)
          (by rw [hadd, List.length_append, List.length_singleton]; omega)
          (fun h => absurd (hfull (by rw [hadd] at h; exact h)) (by omega))
        have htake : (row :: rows).take (maxSelections - listed.selections.length) =
            row :: rows.take (maxSelections - (listed.selections ++ [row]).length) := by
          rw [List.length_append, List.length_singleton,
            show maxSelections - listed.selections.length =
              maxSelections - (listed.selections.length + 1) + 1 by omega, List.take_succ_cons]
        rw [List.foldl_cons, hselections, htotal, hrevenue, htake, hadd, List.append_assoc,
          List.singleton_append, List.map_cons, List.sum_cons, add_assoc]
        exact ⟨rfl, rfl⟩
      · have hselections : (listed.add row).selections = listed.selections := by
          unfold Listed.add
          dsimp only
          rw [if_pos (by omega : maxSelections ≤ listed.selections.length)]
          split_ifs <;> rfl
        have hroom' : maxSelections - listed.selections.length = 0 := by omega
        obtain ⟨hrest, htotal⟩ := ih (listed.add row) (by rw [hselections]; exact hlength)
          (fun _ => by rw [hselections]; omega)
        rw [List.foldl_cons, hrest, htotal, hrevenue, hselections, hroom', List.take_zero,
          List.take_zero, List.map_cons, List.sum_cons, add_assoc]
        exact ⟨rfl, rfl⟩
  obtain ⟨hselections, hrevenue⟩ := hfold (items.flatMap (lineSelections shop)) ⟨[], 0, false⟩
    (Nat.zero_le _) (fun h => absurd h Bool.false_ne_true)
  exact ⟨hselections, hrevenue.trans (zero_add _)⟩

/-! ## Names -/

/-- The last row that shows a value, its price taken off. -/
def lastShowing (rows : List (String × String)) (value : String) : Option (String × String) :=
  (rows.filter fun row => withoutPrice row.2 = value).getLast?

/-- The name a value is shown under: that of the last row that shows it, and
the option's id where there is none. -/
def shownUnder (rows : List (String × String)) (value optionId : String) : String :=
  (lastShowing rows value).elim optionId Prod.fst

/-- **The last row that shows a value names its option.** -/
theorem optionLabelFor_eq (shop : Shop) (item : OrderItem) (optionId valueKey : String) :
    optionLabelFor shop item optionId valueKey =
      shownUnder (shop.formattedMetaData item) valueKey optionId := by
  unfold optionLabelFor
  generalize shop.formattedMetaData item = rows
  induction rows using List.reverseRecOn with
  | nil => rfl
  | append_singleton rows row ih =>
    unfold shownUnder lastShowing at ih ⊢
    rw [List.foldl_append, List.foldl_cons, List.foldl_nil, ih, List.filter_append]
    by_cases hrow : withoutPrice row.2 = valueKey
    · have hshows : [row].filter (fun row => withoutPrice row.2 = valueKey) = [row] := by
        simp [hrow]
      rw [if_pos hrow, hshows, List.getLast?_concat]
      rfl
    · have hshows : [row].filter (fun row => withoutPrice row.2 = valueKey) = [] := by
        simp [hrow]
      rw [if_neg hrow, hshows, List.append_nil]

/-! ## Clamping -/

theorem clamp_eq_empty {s : String} {n : ℕ} (hn : 0 < n) : clamp s n = "" ↔ s = "" := by
  unfold clamp
  rw [← String.toList_inj, String.toList_ofList, ← String.toList_inj]
  change s.toList.take n = [] ↔ s.toList = []
  rw [List.take_eq_nil_iff]
  exact or_iff_right (Nat.ne_of_gt hn)

theorem clamp_clamp {s : String} {m n : ℕ} (h : m ≤ n) : clamp (clamp s n) m = clamp s m := by
  unfold clamp
  rw [String.toList_ofList, List.take_take, min_eq_left h]

/-- **A row says the first characters of its answer**, and nothing more of
it. -/
theorem values_eq_iff {shop : Shop} {item item' : OrderItem} {optionId answer answer' : String} :
    ((selectionOf shop item optionId answer).valueKey =
        (selectionOf shop item' optionId answer').valueKey ∧
      (selectionOf shop item optionId answer).valueLabel =
        (selectionOf shop item' optionId answer').valueLabel) ↔
      clamp answer maxValueLabel = clamp answer' maxValueLabel := by
  have hempty : ∀ {s : String}, clamp s maxValueLabel = "" ↔ s = "" := clamp_eq_empty (by decide)
  change (_ ∧ valueLabelFor answer = valueLabelFor answer') ↔ _
  constructor
  · rintro ⟨-, hlabel⟩
    unfold valueLabelFor at hlabel
    split_ifs at hlabel with h h' h'
    · exact Option.some.inj hlabel
    · rw [not_not.1 h, not_not.1 h']
  · intro h
    have hkey : clamp answer maxValueKey = clamp answer' maxValueKey := by
      rw [← clamp_clamp (show maxValueKey ≤ maxValueLabel by decide), h,
        clamp_clamp (by decide)]
    have hnil : answer = "" ↔ answer' = "" := by rw [← hempty, h, hempty]
    constructor
    · unfold selectionOf
      dsimp only
      rw [hkey]
    · unfold valueLabelFor
      rw [h]
      by_cases hanswer : answer = ""
      · rw [if_neg (not_not.2 hanswer), if_neg (not_not.2 (hnil.1 hanswer))]
      · rw [if_pos hanswer, if_pos fun h' => hanswer (hnil.2 h')]

/-! ## Attributing -/

/-- What a line's options earned, as it is told. -/
def lineMinor (item : OrderItem) : ℤ := (lineMinor? item).getD 0

/-- Rows, with an amount on the first. -/
def withAmount (amount : ℤ) : List Selection → List Selection
  | [] => []
  | first :: rest => { first with priceDeltaMinor := amount } :: rest

theorem attributeDelta_eq (item : OrderItem) (hzero : ∀ row ∈ rows, row.priceDeltaMinor = 0) :
    attributeDelta rows item = withAmount (lineMinor item) rows := by
  cases rows with
  | nil => rfl
  | cons first rest =>
    unfold attributeDelta lineMinor
    cases lineMinor? item with
    | some minor => rfl
    | none =>
      have hfirst := hzero first List.mem_cons_self
      change first :: rest = { first with priceDeltaMinor := 0 } :: rest
      rw [← hfirst]

theorem length_withAmount (amount : ℤ) (rows : List Selection) :
    (withAmount amount rows).length = rows.length := by
  cases rows <;> rfl

theorem sum_withAmount {amount : ℤ} (hne : rows ≠ [])
    (hzero : ∀ row ∈ rows, row.priceDeltaMinor = 0) :
    ((withAmount amount rows).map Selection.priceDeltaMinor).sum = amount := by
  obtain ⟨first, rest, rfl⟩ := List.exists_cons_of_ne_nil hne
  have hrest : (rest.map Selection.priceDeltaMinor).sum = 0 := by
    refine List.sum_eq_zero fun n hn => ?_
    obtain ⟨row, hrow, rfl⟩ := List.mem_map.1 hn
    exact hzero row (List.mem_cons_of_mem _ hrow)
  change amount + (rest.map Selection.priceDeltaMinor).sum = amount
  rw [hrest, add_zero]

/-- **Rows with one amount are alike where the rows are.** -/
theorem take_withAmount_inj {amount : ℤ} {rows' : List Selection} (m : ℕ)
    (hzero : ∀ row ∈ rows, row.priceDeltaMinor = 0)
    (hzero' : ∀ row ∈ rows', row.priceDeltaMinor = 0) :
    (withAmount amount rows).take m = (withAmount amount rows').take m ↔
      rows.take m = rows'.take m := by
  cases m with
  | zero => simp
  | succ m =>
    cases rows with
    | nil => cases rows' <;> simp [withAmount]
    | cons first rest =>
      cases rows' with
      | nil => simp [withAmount]
      | cons first' rest' =>
        have hfirst := hzero first List.mem_cons_self
        have hfirst' := hzero' first' List.mem_cons_self
        cases first
        cases first'
        simp only at hfirst hfirst'
        subst hfirst hfirst'
        simp [withAmount]

end Optionia.Reporting
