import Optionia.Engine.StoredAnswers
import Optionia.Rules.Restated
/-!
# Resolving what was resolved

The map of selections a resolution stores, sent back against the same sets,
resolves to the same resolution (`resolve_restated`): where the rules read
the stored answers as they read the request, where stored texts are clean,
and where stored numbers are still accepted.

The loop takes, of the stored map, what it took of the request, turn by turn
(`foldl_restated`); the rules say the same of every target
(`evaluation_restated`), so both loops run in one context.
-/

namespace Optionia.Engine.SelectionResolver

open Php Rules

/-! ## The loop -/

/-- Every stored answer is read again as itself. -/
def ReadAgain (ctx : Context) (chosen : OrderedMap String Value) : Prop :=
  ∀ id option answer, ctx.options.get? id = some option → chosen.get? id = some (.str answer) →
    CleanText ctx.platform option answer ∧ AcceptedNumber option answer

theorem counted_eq (t : Taken) (option : Value) (answer : String) :
    (t.counted option answer).errors = t.errors ∧ (t.counted option answer).chosen = t.chosen := by
  unfold Taken.counted
  split
  · exact ⟨rfl, rfl⟩
  · exact ⟨rfl, rfl⟩

variable {ctx : Context} {t : Taken} {id : String} {raw : Value}
  {selections restated : OrderedMap String Value} {P : Platform} {optionSets : List Value}

theorem Turned.errors {t' : Taken} (h : Turned ctx t id raw t') :
    ∃ more, t'.errors = t.errors ++ more := by
  cases h with
  | refused bytes violation => exact ⟨_, rfl⟩
  | skipped => exact ⟨[], (List.append_nil _).symm⟩
  | answered option keys answer =>
    refine ⟨[], ?_⟩
    rw [List.append_nil, ← (counted_eq t option answer).1]
    rfl
  | chosen => exact ⟨[], (List.append_nil _).symm⟩

theorem errors_foldl (ctx : Context) (entries : List (String × Value)) (t : Taken)
    (h : (entries.foldl (Taken.turn ctx) t).errors = []) : t.errors = [] := by
  induction entries generalizing t with
  | nil => exact h
  | cons selection entries ih =>
    obtain ⟨more, hmore⟩ := (turned ctx t selection).errors
    have hstep := ih _ h
    rw [hmore, List.append_eq_nil_iff] at hstep
    exact hstep.1

theorem turn_eq_take {option : Value} {keys : List String}
    (hoption : ctx.options.get? id = some option) (hshown : ctx.ruleHidden id = false)
    (hkeys : keysSent option raw = some keys) (hne : keys ≠ []) :
    t.turn ctx (id, raw) = t.take ctx id option keys := by
  obtain ⟨sent, hsent, rfl⟩ := Option.map_eq_some_iff.1 hkeys
  have hsentNe : sent ≠ [] := by
    rintro rfl
    exact hne rfl
  obtain ⟨first, rest, rfl⟩ := List.exists_cons_of_ne_nil hsentNe
  unfold Taken.turn
  dsimp only
  rw [hoption]
  dsimp only
  rw [hshown, if_neg Bool.false_ne_true, hsent]

theorem answer_taken {answer : String} {option : Value}
    (h : (t.counted option answer).textBytes ≤ maxTextBytes) :
    t.answer ctx id option (.taken answer) =
      (t.counted option answer).accept ctx id option answer := by
  unfold Taken.counted at h ⊢
  by_cases htext : (isFreeText option && !isHidden option) = true
  · rw [if_pos htext] at h ⊢
    exact (if_pos htext).trans (if_neg (not_lt.2 h))
  · rw [if_neg htext]
    exact if_neg htext

/-- **A turn without an error skips, or writes one entry; that entry sent
instead makes the same turn.** -/
theorem Turned.again {t' : Taken} (h : Turned ctx t id raw t') (herrors : t'.errors = [])
    (hbytes : t.textBytes ≤ maxTextBytes) :
    t' = t ∨ ∃ v, t'.chosen = t.chosen.set id v ∧ t'.textBytes ≤ maxTextBytes ∧
      ((∀ option answer, ctx.options.get? id = some option → v = .str answer →
        CleanText ctx.platform option answer ∧ AcceptedNumber option answer) →
        t.turn ctx (id, v) = t') := by
  cases h with
  | refused bytes violation =>
    exact absurd herrors (List.append_ne_nil_of_right_ne_nil _ (List.cons_ne_nil _ _))
  | skipped => exact Or.inl rfl
  | answered option keys answer hoption hshown hkeys hread hfits =>
    rw [max_eq_right hbytes] at hfits
    refine Or.inr ⟨.str answer, ?_, hfits, fun hstands => ?_⟩
    · rw [← (counted_eq t option answer).2]
      rfl
    · obtain ⟨hclean, haccepted⟩ := hstands option answer hoption rfl
      rw [turn_eq_take hoption hshown (keysSent_str option answer) (List.cons_ne_nil _ _)]
      unfold Taken.take
      rw [List.headD_cons, read_stored hclean haccepted hread]
      exact answer_taken hfits
  | chosen option keys hoption hshown hkeys hne hread hsound =>
    refine Or.inr ⟨stored option (authored option keys), rfl, hbytes, fun _ => ?_⟩
    have hnodup := nodup_keysSent hkeys
    obtain ⟨hknown, -⟩ := of_choiceViolation hsound
    have hperm := authored_perm hnodup hknown
    have hback : keysSent option (stored option (authored option keys)) =
        some (authored option keys) := by
      refine keysSent_stored (hperm.nodup_iff.2 hnodup) (fun hnil => hne ?_) fun hone => ?_
      · exact List.nil_perm.1 (hnil ▸ hperm)
      · rw [hperm.length_eq]
        exact length_keysSent hone hkeys
    have hchoice := read_eq_none_iff.1 hread
    have hne' : authored option keys ≠ [] := fun hnil => hne (List.nil_perm.1 (hnil ▸ hperm))
    rw [turn_eq_take hoption hshown hback hne']
    unfold Taken.take
    rw [read_eq_none_iff.2 hchoice]
    dsimp only
    rw [choiceViolation_authored hnodup hsound, authored_authored option keys hnodup hknown]

/-- **The loop takes the entries it wrote as it took the selections.** A loop
that refuses nothing writes its entries in the order of their selections;
over those entries alone it runs the same. -/
theorem foldl_restated {entries : List (String × Value)} {final : Taken}
    (hnodup : (entries.map Prod.fst).Nodup)
    (hfresh : ∀ id ∈ entries.map Prod.fst, id ∉ t.chosen.keys) (hbytes : t.textBytes ≤ maxTextBytes)
    (hfinal : entries.foldl (Taken.turn ctx) t = final) (herrors : final.errors = []) :
    ∃ written : List (String × Value), final.chosen.entries = t.chosen.entries ++ written ∧
      (∀ id ∈ written.map Prod.fst, id ∈ entries.map Prod.fst) ∧
      (ReadAgain ctx final.chosen → written.foldl (Taken.turn ctx) t = final) := by
  induction entries generalizing t with
  | nil => exact ⟨[], by rw [List.append_nil, ← hfinal]; rfl, fun _ h => h, fun _ => hfinal⟩
  | cons selection entries ih =>
    obtain ⟨id, raw⟩ := selection
    rw [List.map_cons, List.nodup_cons] at hnodup
    rw [List.foldl_cons] at hfinal
    have hstep : (t.turn ctx (id, raw)).errors = [] :=
      errors_foldl ctx entries _ (by rw [hfinal]; exact herrors)
    have hrest : ∀ id' ∈ entries.map Prod.fst, id' ∉ t.chosen.keys :=
      fun id' h => hfresh id' (List.mem_cons_of_mem _ h)
    rcases (turned ctx t (id, raw)).again hstep hbytes with hskip | ⟨v, hchosen, hfits, hagain⟩
    · rw [hskip] at hfinal
      obtain ⟨written, hwritten, hids, hsame⟩ := ih hnodup.2 hrest hbytes hfinal
      exact ⟨written, hwritten, fun id' h => List.mem_cons_of_mem _ (hids id' h), hsame⟩
    · have hfresh' : ∀ id' ∈ entries.map Prod.fst, id' ∉ (t.turn ctx (id, raw)).chosen.keys := by
        intro id' h hmem
        rw [hchosen, OrderedMap.mem_keys_set] at hmem
        rcases hmem with rfl | hmem
        · exact hnodup.1 h
        · exact hrest id' h hmem
      obtain ⟨written, hwritten, hids, hsame⟩ := ih hnodup.2 hfresh' hfits hfinal
      have hentries : final.chosen.entries = t.chosen.entries ++ (id, v) :: written := by
        rw [hwritten, hchosen, OrderedMap.entries_set_of_not_mem (hfresh id List.mem_cons_self),
          List.append_assoc, List.singleton_append]
      refine ⟨(id, v) :: written, hentries, fun id' h => ?_, fun hstands => ?_⟩
      · rcases List.mem_cons.1 h with rfl | h
        · exact List.mem_cons_self
        · exact List.mem_cons_of_mem _ (hids id' h)
      · have hv : final.chosen.get? id = some v := by
          refine OrderedMap.get?_eq_some.2 ?_
          rw [hentries]
          exact List.mem_append_right _ List.mem_cons_self
        rw [List.foldl_cons, hagain fun option answer hoption hstr =>
          hstands id option answer hoption (by rw [hv, hstr])]
        exact hsame hstands

/-- **The loop over what it took takes the same.** -/
theorem takeAll_restated (herrors : (takeAll ctx selections).errors = []) :
    (takeAll ctx selections).chosen.keys ⊆ selections.keys ∧
      (ReadAgain ctx (takeAll ctx selections).chosen →
        takeAll ctx (takeAll ctx selections).chosen = takeAll ctx selections) := by
  obtain ⟨written, hwritten, hids, hsame⟩ := foldl_restated selections.nodup
    (fun _ _ h => absurd h List.not_mem_nil) (Nat.zero_le _)
    (rfl : selections.entries.foldl (Taken.turn ctx) .start = takeAll ctx selections) herrors
  have hentries : (takeAll ctx selections).chosen.entries = written := hwritten
  refine ⟨fun id hid => hids id (by rw [← hentries]; exact hid), fun hstands => ?_⟩
  have hloop : takeAll ctx (takeAll ctx selections).chosen =
      written.foldl (Taken.turn ctx) .start := by rw [← hentries]; rfl
  exact hloop.trans (hsame hstands)

/-! ## The rules -/

/-- The rules read two requests alike: every condition of every rule holds of
the one where it holds of the other. -/
def ReadAlike (P : Platform) (optionSets : List Value)
    (selections restated : OrderedMap String Value) : Prop :=
  ∀ rule ∈ indexRules optionSets, ∀ condition ∈ RuleEvaluator.conditions rule,
    RuleEvaluator.conditionHolds condition (ruleAnswers P (indexOptions optionSets) restated) =
      RuleEvaluator.conditionHolds condition (ruleAnswers P (indexOptions optionSets) selections)

theorem keys_ruleAnswers {options : OrderedMap String Value} (h : restated.keys ⊆ selections.keys) :
    (ruleAnswers P options restated).keys ⊆ (ruleAnswers P options selections).keys := by
  unfold ruleAnswers
  generalize options.entries = entries
  induction entries generalizing selections restated with
  | nil => exact h
  | cons p entries ih =>
    rw [List.foldl_cons, List.foldl_cons]
    refine ih ?_
    split
    · exact h
    · split
      · intro id hid
        have hid' : id ∈ (restated.eraseAll [p.1]).keys := hid
        rw [OrderedMap.mem_keys_eraseAll] at hid'
        have hkept : id ∈ (selections.eraseAll [p.1]).keys :=
          OrderedMap.mem_keys_eraseAll.2 ⟨h hid'.1, hid'.2⟩
        exact hkept
      · intro id hid
        rw [OrderedMap.mem_keys_set] at hid ⊢
        exact hid.imp_right fun hmem => h hmem

theorem conditionHolds_without {answers restated : RuleEvaluator.Answers} {condition : Value}
    (h : RuleEvaluator.conditionHolds condition restated =
      RuleEvaluator.conditionHolds condition answers) (out : Set String) :
    RuleEvaluator.conditionHolds condition (restated.without out) =
      RuleEvaluator.conditionHolds condition (answers.without out) := by
  unfold RuleEvaluator.conditionHolds OrderedMap.getD at h ⊢
  rw [OrderedMap.get?_without, OrderedMap.get?_without]
  by_cases hout : RuleEvaluator.optionId condition ∈ out
  · rw [if_pos hout, if_pos hout]
  · rw [if_neg hout, if_neg hout]
    exact h

/-- **Rules that read two requests alike fire alike on them**, whatever is
taken out. -/
theorem firedAlike (h : ReadAlike P optionSets selections restated) :
    FiredAlike RuleEvaluator.evaluator (indexRules optionSets)
      (ruleAnswers P (indexOptions optionSets) selections)
      (ruleAnswers P (indexOptions optionSets) restated) := by
  intro rule hrule out
  have hholds : ∀ condition ∈ RuleEvaluator.conditions rule,
      (condition.isArray && RuleEvaluator.conditionHolds condition
        ((ruleAnswers P (indexOptions optionSets) selections).without out)) =
      (condition.isArray && RuleEvaluator.conditionHolds condition
        ((ruleAnswers P (indexOptions optionSets) restated).without out)) := by
    intro condition hcondition
    rw [conditionHolds_without (h rule hrule condition hcondition) out]
  obtain ⟨hany, hall⟩ := any_all_congr hholds
  have hfires : RuleEvaluator.ruleFires rule
      ((ruleAnswers P (indexOptions optionSets) selections).without out) =
      RuleEvaluator.ruleFires rule
        ((ruleAnswers P (indexOptions optionSets) restated).without out) := by
    unfold RuleEvaluator.ruleFires
    dsimp only
    rw [hany, hall]
  change RuleEvaluator.fired rule _ = RuleEvaluator.fired rule _
  unfold RuleEvaluator.fired
  rw [hfires]

/-- **The rules say the same of every target**, and settle again. -/
theorem evaluation_restated (hsettled : (evaluation P optionSets selections).refused = none)
    (hkeys : restated.keys ⊆ selections.keys)
    (halike : ReadAlike P optionSets selections restated) :
    (evaluation P optionSets restated).refused = none ∧
      ∀ t, stateAt (evaluation P optionSets restated).states t =
        stateAt (evaluation P optionSets selections).states t :=
  evaluate_restated (tellsApart_plugin _) (tellsApart_plugin _) rfl (keys_ruleAnswers hkeys)
    (firedAlike halike) hsettled

theorem context_congr {base : ℤ} {today : Option String} {states states' : States}
    (h : ∀ t, stateAt states t = stateAt states' t) :
    context P optionSets base today states = context P optionSets base today states' := by
  have hstates : stateAt states = stateAt states' := funext h
  have hoptions : ∀ id, id ∈ hiddenOptions states (indexContainment optionSets) ↔
      id ∈ hiddenOptions states' (indexContainment optionSets) := by
    intro id
    rw [mem_hiddenOptions, mem_hiddenOptions, hstates]
  have hvalues : ∀ id, id ∈ hiddenValues (indexRules optionSets) states ↔
      id ∈ hiddenValues (indexRules optionSets) states' := by
    intro id
    rw [mem_hiddenValues, mem_hiddenValues, HiddenValue, HiddenValue, hstates]
  unfold context
  rw [hstates]
  congr 1
  · exact funext fun id => decide_eq_decide.2 (hoptions id)
  · exact funext fun id => decide_eq_decide.2 (hvalues id)

/-! ## The result -/

/-- What a resolution stores is read as the request was: by the rules, as
clean text, as numbers still accepted. -/
structure Restates (P : Platform) (optionSets : List Value)
    (selections stored : OrderedMap String Value) : Prop where
  /-- Rules read what is stored as they read the request. -/
  rules : ReadAlike P optionSets selections stored
  texts : ∀ id option text, (indexOptions optionSets).get? id = some option →
    stored.get? id = some (.str text) → CleanText P option text
  numbers : ∀ id option text, (indexOptions optionSets).get? id = some option →
    stored.get? id = some (.str text) → AcceptedNumber option text

/-- **What was resolved resolves again, to the same resolution.** -/
theorem resolve_restated {P : Platform} {optionSets : List Value}
    {selections : OrderedMap String Value} {base : ℤ} {today : Option String} {r : Resolution}
    (h : resolve P optionSets selections base today = .ok r)
    (hstored : Restates P optionSets selections r.resolved) :
    resolve P optionSets r.resolved base today = .ok r := by
  obtain ⟨hsettled, hconclude⟩ := resolve_eq_ok h
  obtain ⟨herrors, -, totalMinor, -, hr⟩ := conclude_eq_ok hconclude
  obtain ⟨hkeys, hagain⟩ := takeAll_restated herrors
  have hchosen : r.resolved = (takeAll (context P optionSets base today
      (evaluation P optionSets selections).states) selections).chosen := by
    rw [hr]
    rfl
  rw [← hchosen] at hkeys hagain
  obtain ⟨hsettled', hstates⟩ := evaluation_restated hsettled hkeys hstored.rules
  have hloop := hagain fun id option answer hoption hanswer =>
    ⟨hstored.texts id option answer hoption hanswer,
      hstored.numbers id option answer hoption hanswer⟩
  unfold resolve
  dsimp only
  rw [hsettled', Option.isSome_none, if_neg Bool.false_ne_true, context_congr hstates, hloop]
  exact hconclude

/-! ## Where a resubmission parts -/

/-- An option of a kind, with its validation. -/
def field (id kind : String) (validation : Value) : Value :=
  .arr [("id", .str id), ("type", .str kind), ("value_kind", .str kind),
    ("validation", validation)]

/-- A set of one group, with its options and rules. -/
def oneGroup (options rules : List Value) : List Value :=
  [.arr [("id", .str "s"),
    ("groups", .ofList [.arr [("id", .str "g"), ("options", .ofList options)]]),
    ("rules", .ofList rules)]]

/-- The rule that a note is required where `q` is seven. -/
def noteOnSeven : Value :=
  .arr [("target_type", .str "option"), ("target_id", .str "note"), ("action", .str "require"),
    ("match_type", .str "all"),
    ("conditions", .ofList [.arr [("option_id", .str "q"), ("operator", .str "equals"),
      ("value", .str "7")]])]

/-- A platform whose tag stripper takes `<b>` out. -/
def tagPlatform : Platform :=
  { asciiPlatform with stripTags := fun s => if s = "<b>" then "" else s }

def answers (id answer : String) : OrderedMap String Value :=
  (∅ : OrderedMap String Value).set id (.str answer)

/-- What a request resolves to, and what that, sent back, resolves to. -/
def twice (P : Platform) (optionSets : List Value) (selections : OrderedMap String Value) :
    Option (OrderedMap String Value) × Option (OrderedMap String Value) :=
  let first := (resolve P optionSets selections 1000 none).value.map (·.resolved)
  (first, first.bind fun stored =>
    (resolve P optionSets stored 1000 none).value.map (·.resolved))

theorem restates_seven :
    Restates asciiPlatform (oneGroup [field "q" "number" .null] []) (answers "q" "007")
      (answers "q" "7") := by
  have hq : ∀ {id : String} {option : Value},
      (indexOptions (oneGroup [field "q" "number" .null] [])).get? id = some option →
      id = "q" ∧ option = withField (field "q" "number" .null) "__set_id" (.str "s") := by
    intro id option hoption
    have hentries : (indexOptions (oneGroup [field "q" "number" .null] [])).entries =
        [("q", withField (field "q" "number" .null) "__set_id" (.str "s"))] := by decide +kernel
    have hmem := OrderedMap.get?_eq_some.1 hoption
    rw [hentries, List.mem_singleton] at hmem
    exact Prod.mk.inj hmem
  refine ⟨?_, ?_, ?_⟩
  · intro rule hrule
    exact absurd hrule List.not_mem_nil
  · intro id option text hoption _ htext
    obtain ⟨-, rfl⟩ := hq hoption
    exact absurd htext (by decide)
  · intro id option text hoption htext _
    obtain ⟨rfl, rfl⟩ := hq hoption
    obtain rfl : "7" = text := Value.str.inj (Option.some.inj htext)
    exact ⟨.ofInt 7, by decide +kernel, by decide +kernel⟩

/-- A padded number is stored as it is read, and resolves again. -/
theorem resolve_restated_seven :
    ∃ r, resolve asciiPlatform (oneGroup [field "q" "number" .null] []) (answers "q" "007") 1000
        none = .ok r ∧ r.resolved = answers "q" "7" ∧
      resolve asciiPlatform (oneGroup [field "q" "number" .null] []) r.resolved 1000 none =
        .ok r := by
  obtain ⟨r, hr⟩ := @eq_ok_of_value (resolve asciiPlatform (oneGroup [field "q" "number" .null] [])
    (answers "q" "007") 1000 none) (by decide +kernel)
  have hfirst : ((resolve asciiPlatform (oneGroup [field "q" "number" .null] [])
      (answers "q" "007") 1000 none).value.map (·.resolved)) = some (answers "q" "7") := by
    decide +kernel
  rw [hr] at hfirst
  have hstored : r.resolved = answers "q" "7" := Option.some.inj hfirst
  exact ⟨r, hr, hstored, resolve_restated hr (hstored ▸ restates_seven)⟩

/-- **Sent back, a resolution may be refused or differ**: a rule reads the
stored spelling of a number, a bound refuses its six places, a text loses the
tag that its first cleaning made. -/
theorem resubmission_differs :
    twice asciiPlatform
        (oneGroup [field "q" "number" .null, field "note" "text" .null] [noteOnSeven])
        (answers "q" "007") = (some (answers "q" "7"), none) ∧
      twice asciiPlatform
        (oneGroup [field "q" "number" (.arr [("max", .str "0.1234567")])] [])
        (answers "q" "0.1234567") = (some (answers "q" "0.123457"), none) ∧
      twice tagPlatform (oneGroup [field "t" "text" .null] []) (answers "t" "<\x0Bb>") =
        (some (answers "t" "<b>"), some ∅) := by
  decide +kernel

end Optionia.Engine.SelectionResolver
