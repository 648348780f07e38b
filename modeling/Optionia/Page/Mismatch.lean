import Optionia.Page.Posting
/-!
# Rules that tell what is posted from what is read

One rule is enough where an option does not post what the page reads: one that
asks for the value, for its emptiness, or whether it is above or below zero.
And nine rules, each hiding an option once the one before is unanswered, bring
an evaluation to its last pass, where an empty value under a tenth holds up
what is evaluated on the posted map alone.
-/

namespace Optionia.Page

open Wire Rules

/-! ## One rule -/

/-- A rule that hides a target where one condition holds. -/
def hideWhen (o operator : String) (value : Json) (target : String) : Json :=
  .obj [("target_id", .str target), ("action", .str "hide"),
    ("conditions", .arr [.obj [("option_id", .str o), ("operator", .str operator),
      ("value", value)]])]

variable {o operator target t : String} {value : Json} {answers : Js.Answers}

theorem operand_parse (value : Json) :
    operand (Json.obj [("option_id", .str o), ("operator", .str operator), ("value", value)]).parse
      = value.parse := by
  have hfield : (Json.obj [("option_id", .str o), ("operator", .str operator),
      ("value", value)]).parse.field "value" = value.parse := rfl
  rw [operand, hfield]
  cases value <;> rfl

theorem fired_hideWhen :
    fired (hideWhen o operator value target).parse answers =
      if Js.operatorHolds operator (answers.getD o .null) value.parse then
        some ⟨target, "hide", none⟩
      else none := by
  have hconditions : conditions (hideWhen o operator value target).parse =
      [(Json.obj [("option_id", .str o), ("operator", .str operator), ("value", value)]).parse] := rfl
  have hmatch : ((hideWhen o operator value target).parse.field "match_type").strictEq
      (.str "any") = false := rfl
  have hholds : conditionHolds
      (Json.obj [("option_id", .str o), ("operator", .str operator), ("value", value)]).parse answers
        = Js.operatorHolds operator (answers.getD o .null) value.parse := by
    rw [conditionHolds, operand_parse]
    rfl
  rw [fired, ruleFires, hconditions, hmatch]
  simp only [List.isEmpty_cons, Bool.false_eq_true, if_false, List.all_cons, List.all_nil,
    Bool.and_true, hholds]
  rfl

theorem hides_hideWhen :
    (∃ e, evaluator.fired (hideWhen o operator value target).parse answers = some e ∧
      e.target = t ∧ e.action = "hide") ↔
    target = t ∧ Js.operatorHolds operator (answers.getD o .null) value.parse = true := by
  change (∃ e, fired _ answers = some e ∧ _) ↔ _
  rw [fired_hideWhen]
  constructor
  · rintro ⟨e, he, rfl, -⟩
    split at he
    · case isTrue h =>
      obtain rfl := Option.some.inj he
      exact ⟨rfl, h⟩
    · exact (Option.some_ne_none e he.symm).elim
  · rintro ⟨rfl, h⟩
    exact ⟨_, if_pos h, rfl, rfl⟩

/-- **Alone, over a target with nothing under it, the rule hides that target
exactly where its condition holds.** -/
theorem mem_hiddenTargets_hideWhen {optionsUnder : Containment} (answers : Answers)
    (h : under optionsUnder target = []) :
    target ∈ hiddenTargets [hideWhen o operator value target] answers optionsUnder ↔
      Js.operatorHolds operator (readAnswer (answers.get? o)) value.parse = true := by
  have hides (t : String) :
      evaluator.Hides [(hideWhen o operator value target).parse] (toJs answers) t ↔
        target = t ∧
          Js.operatorHolds operator (readAnswer (answers.get? o)) value.parse = true := by
    rw [← getD_toJs, ← hides_hideWhen, Evaluator.Hides]
    simp only [List.mem_singleton, exists_eq_left]
  have hclear : ∀ t ∈ {t | evaluator.Hides [(hideWhen o operator value target).parse]
      (toJs answers) t}, ∀ o ∈ under optionsUnder t, o ∉ (toJs answers).keys := by
    intro t ht o ho
    rw [← ((hides t).1 ht).1, h] at ho
    simp at ho
  obtain ⟨-, hhidden⟩ := (settles_with_iff (tellsApart answers) rfl hclear).2 fun _ => Iff.rfl
  rw [mem_hiddenTargets]
  exact (hhidden target).trans ((hides target).trans (and_iff_right rfl))

/-! ## Options that do not post what is read -/

/-- No operator tells two answers apart on a published operand. -/
def AlikeOn (a b : Option Answer) : Prop :=
  ∀ operator (value : Json), Js.operatorHolds operator (readAnswer a) value.parse =
    Js.operatorHolds operator (readAnswer b) value.parse

theorem alikeOn_of_hidesAlike {block : Block} {field : Field}
    (h : ∀ rules, HidesAlike rules block) (hmem : field ∈ block.fields) :
    AlikeOn (field.control.answer.map .one) field.control.posts := by
  intro operator value
  have hone := h [hideWhen field.id operator value ""] ""
  rw [mem_hiddenTargets_hideWhen _ Block.under_containmentIn_empty,
    mem_hiddenTargets_hideWhen _ Block.under_containmentIn_empty, Block.get?_answersIn hmem,
    Block.get?_posted hmem] at hone
  exact Bool.eq_iff_iff.2 hone

theorem eq_of_alikeOn {s s' : String} (h : AlikeOn (some (.one s)) (some (.one s'))) : s = s' := by
  by_cases hempty : s = ""
  · have hset : false = Js.supplied (.str s') := by
      subst hempty
      exact h "is_not_empty" .null
    rw [Js.supplied] at hset
    rw [hempty, not_not.1 (of_decide_eq_false hset.symm)]
  · have hequals : (decide (s ≠ "") && s == s) = (decide (s' ≠ "") && s' == s) :=
      h "equals" (.str s)
    rw [decide_eq_true hempty, beq_self_eq_true, Bool.true_and] at hequals
    exact (beq_iff_eq.1 (Bool.and_eq_true_iff.1 hequals.symm).2).symm

theorem operatorHolds_greater (a v : Js.Value) :
    Js.operatorHolds "greater_than" a v = Js.compareNumeric a v fun a b => b.lt a := rfl

theorem operatorHolds_less (a v : Js.Value) :
    Js.operatorHolds "less_than" a v = Js.compareNumeric a v fun a b => a.lt b := rfl

theorem exists_comparison {s : String} (h : WritesNumber s) :
    ∃ operator value, (operator = "greater_than" ∨ operator = "less_than") ∧
      Js.operatorHolds operator (.str s) (Json.parse (.int value)) = true := by
  obtain ⟨x, hx⟩ := Option.isSome_iff_exists.1 h
  obtain ⟨v, rfl⟩ : ∃ v, x = .finite v := by
    rw [Js.numericValue, Option.bind_eq_some_iff] at hx
    obtain ⟨q, -, hq⟩ := hx
    rw [Js.finite?] at hq
    split at hq
    · case isTrue hfinite =>
      obtain rfl := Option.some.inj hq
      exact Binary64.isFinite_iff.1 hfinite
    · exact (Option.some_ne_none _ hq.symm).elim
  have hbound (n : ℤ) (hn : |n| ≤ 2 ^ 53) : ∃ w : Binary64.Finite,
      Js.numericValue (Json.parse (.int n)) = some (.finite w) ∧ w.val = n := by
    obtain ⟨w, hw, hval⟩ := Binary64.exists_ofInt_eq hn
    refine ⟨w, ?_, hval⟩
    change Js.finite? (Binary64.ofInt n) = _
    rw [hw]
    rfl
  obtain ⟨zero, hzero, hzeroval⟩ := hbound 0 (by decide)
  obtain ⟨one, hone, honeval⟩ := hbound 1 (by decide)
  rcases lt_trichotomy v.val 0 with hlt | heq | hgt
  · refine ⟨"less_than", 0, .inr rfl, ?_⟩
    rw [operatorHolds_less, Js.compareNumeric, hx, hzero]
    exact decide_eq_true (by rw [hzeroval]; exact_mod_cast hlt)
  · refine ⟨"less_than", 1, .inr rfl, ?_⟩
    rw [operatorHolds_less, Js.compareNumeric, hx, hone]
    exact decide_eq_true (by rw [heq, honeval]; norm_num)
  · refine ⟨"greater_than", 0, .inl rfl, ?_⟩
    rw [operatorHolds_greater, Js.compareNumeric, hx, hzero]
    exact decide_eq_true (by rw [hzeroval]; exact_mod_cast hgt)

/-- A value that is read as a list is its one member, not empty and no
number. -/
theorem eq_singleton_of_alikeOn {s : String} {l : List String} (hne : l ≠ [])
    (h : AlikeOn (some (.one s)) (some (.many l))) : l = [s] ∧ s ≠ "" ∧ ¬ WritesNumber s := by
  have hlist : Js.supplied (.arr (l.map .str)) = true := by
    rw [Js.supplied, List.isEmpty_map, Bool.not_eq_true', List.isEmpty_eq_false_iff]
    exact hne
  have hempty : s ≠ "" := by
    have hset : decide (s ≠ "") = Js.supplied (.arr (l.map .str)) := h "is_not_empty" .null
    exact of_decide_eq_true (hset.trans hlist)
  have hequals : (decide (s ≠ "") && s == s) =
      (Js.supplied (.arr (l.map .str)) && Js.isExactly (.arr (l.map .str)) (.str s)) :=
    h "equals" (.str s)
  rw [decide_eq_true hempty, beq_self_eq_true, hlist, Bool.true_and, Bool.true_and] at hequals
  refine ⟨?_, hempty, fun hnumber => ?_⟩
  · rcases l with _ | ⟨member, _ | ⟨second, rest⟩⟩
    · exact absurd rfl hne
    · have hmember : (member == s) = true := hequals.symm
      rw [beq_iff_eq.1 hmember]
    · exact absurd hequals.symm Bool.false_ne_true
  · obtain ⟨operator, value, hoperator, hholds⟩ := exists_comparison hnumber
    have hlistholds := (h operator (.int value)).symm.trans hholds
    obtain rfl | rfl := hoperator
    · exact absurd hlistholds Bool.false_ne_true
    · exact absurd hlistholds Bool.false_ne_true

/-- **An option that no rule tells apart posts what the page reads.** -/
theorem Control.readAsPosted_of_alikeOn {control : Control}
    (h : AlikeOn (control.answer.map .one) control.posts) : control.ReadAsPosted := by
  cases control with
  | radio checked =>
    rintro value rfl
    exact (eq_of_alikeOn h).symm
  | checkbox cardinality boxes =>
    cases cardinality with
    | one =>
      rw [ReadAsPosted]
      rw [answer, posts] at h
      cases hfirst : (checkedValues boxes).head? with
      | none =>
        rw [List.head?_eq_none_iff.1 hfirst]
        rfl
      | some first =>
        cases hlast : (checkedValues boxes).getLast? with
        | none =>
          rw [List.getLast?_eq_none_iff.1 hlast] at hfirst
          exact (Option.some_ne_none first hfirst.symm).elim
        | some last =>
          rw [hfirst, hlast] at h
          exact congrArg some (eq_of_alikeOn h)
    | many =>
      rw [ReadAsPosted]
      rw [answer, posts] at h
      cases hchecked : checkedValues boxes with
      | nil => exact .inl rfl
      | cons value rest =>
        rw [hchecked] at h
        obtain ⟨hone, hempty, hnumber⟩ := eq_singleton_of_alikeOn (List.cons_ne_nil _ _) h
        obtain ⟨htext, hrest⟩ := List.cons.inj hone
        exact .inr ⟨value, by rw [List.map_eq_nil_iff.1 hrest], htext, hempty, hnumber⟩
  | select selected =>
    rintro value rfl
    by_cases hempty : value = ""
    · rw [hempty, postedText_empty]
    · rw [answer, Option.filter_some, if_pos (decide_eq_true hempty)] at h
      exact (eq_of_alikeOn h).symm
  | typed value | hidden value =>
    rw [ReadAsPosted]
    by_cases hempty : value = ""
    · rw [hempty, postedText_empty]
    · rw [answer, if_pos hempty] at h
      exact (eq_of_alikeOn h).symm

/-! ## Nine hides and an empty value -/

/-- An option is hidden once it is answered, and each next one once the one
before is not. -/
def chainOfHides (chain : ℕ → String) : List Json :=
  hideWhen (chain 0) "is_not_empty" .null (chain 0) ::
    (List.range 9).map fun i => hideWhen (chain i) "is_empty" .null (chain (i + 1))

section Chain

variable {block : Block} {chain : ℕ → String} {items : Set String} {n : ℕ}

theorem supplied_readAnswer (answer : Option Answer) :
    Js.supplied (readAnswer answer) = supplied answer := by
  rcases answer with _ | text | texts
  · rfl
  · rfl
  · exact congrArg (!·) (List.isEmpty_map)

theorem isSome_of_supplied {answer : Option Answer} (h : supplied answer = true) :
    answer.isSome := by
  cases answer with
  | none => exact absurd h Bool.false_ne_true
  | some answer => rfl

theorem supplied_without {o : String} (h : o ∈ answeredIds block) (out : Set String)
    [Decidable (o ∈ out)] :
    Js.supplied (((toJs (posted block)).without out).getD o .null) = !decide (o ∈ out) := by
  rw [OrderedMap.getD, OrderedMap.get?_without]
  by_cases hout : o ∈ out
  · rw [if_pos hout, decide_eq_true hout]
    rfl
  · rw [if_neg hout, decide_eq_false hout, ← OrderedMap.getD, getD_toJs]
    exact (supplied_readAnswer _).trans h

theorem mem_hiddenOnce_chain (hanswered : ∀ i < 9, chain i ∈ answeredIds block) {out : Set String}
    {t : String} :
    t ∈ hiddenOnce evaluator ((chainOfHides chain).map Json.parse) (toJs (posted block)) out ↔
      (chain 0 = t ∧ chain 0 ∉ out) ∨ ∃ i < 9, chain (i + 1) = t ∧ chain i ∈ out := by
  classical
  have hset (o : String) (h : o ∈ answeredIds block) :
      Js.operatorHolds "is_not_empty" (((toJs (posted block)).without out).getD o .null)
        (Json.parse .null) = true ↔ o ∉ out := by
    change Js.supplied _ = true ↔ _
    rw [supplied_without h, Bool.not_eq_true', decide_eq_false_iff_not]
  have hunset (o : String) (h : o ∈ answeredIds block) :
      Js.operatorHolds "is_empty" (((toJs (posted block)).without out).getD o .null)
        (Json.parse .null) = true ↔ o ∈ out := by
    change (!Js.supplied _) = true ↔ _
    rw [supplied_without h, Bool.not_not, decide_eq_true_eq]
  change evaluator.Hides _ _ t ↔ _
  rw [Evaluator.Hides, chainOfHides, List.map_cons]
  simp only [List.mem_cons, exists_eq_or_imp, List.mem_map, List.mem_range,
    exists_exists_and_eq_and, hides_hideWhen]
  rw [hset _ (hanswered 0 (by decide))]
  refine or_congr_right (exists_congr fun i => and_congr_right fun hi => ?_)
  rw [hunset _ (hanswered i hi)]

theorem mem_takenBy_chain (hfields : ∀ i ≤ 9, ∃ field ∈ block.fields, field.id = chain i)
    (hn : n ≤ 10) {o : String} :
    o ∈ Cascade.takenBy items (underSet (containmentIn block)) {t | ∃ i < n, chain i = t} ↔
      o ∈ items ∧ ∃ i < n, chain i = o := by
  have hself (i : ℕ) (hi : i < n) : under (containmentIn block) (chain i) = [chain i] := by
    obtain ⟨field, hmem, hid⟩ := hfields i (by omega)
    rw [← hid, Block.under_containmentIn hmem]
  refine and_congr_right fun _ => ?_
  constructor
  · rintro ⟨t, ⟨i, hi, rfl⟩, hunder⟩
    change o ∈ under _ _ at hunder
    rw [hself i hi] at hunder
    exact ⟨i, hi, (List.mem_singleton.1 hunder).symm⟩
  · rintro ⟨i, hi, rfl⟩
    refine ⟨chain i, ⟨i, hi, rfl⟩, ?_⟩
    change chain i ∈ under _ _
    rw [hself i hi]
    exact List.mem_singleton_self _

/-- **The chain hides one option more in every pass.** -/
theorem fired_chain (hinj : ∀ i ≤ 9, ∀ j ≤ 9, chain i = chain j → i = j)
    (hanswered : ∀ i < 9, chain i ∈ answeredIds block)
    (hfields : ∀ i ≤ 9, ∃ field ∈ block.fields, field.id = chain i)
    (hitems : ∀ i < 9, chain i ∈ items) (hn : n ≤ 10) :
    Cascade.fired items (underSet (containmentIn block))
      (hiddenOnce evaluator ((chainOfHides chain).map Json.parse) (toJs (posted block))) n =
      {t | ∃ i < n, chain i = t} := by
  induction n with
  | zero =>
    refine (Set.eq_empty_iff_forall_notMem.2 fun t ht => ?_).symm
    obtain ⟨i, hi, -⟩ := ht
    exact Nat.not_lt_zero i hi
  | succ n ih =>
    have hout (i : ℕ) (hi : i < 9) :
        chain i ∈ Cascade.takenBy items (underSet (containmentIn block))
          {t | ∃ i < n, chain i = t} ↔ i < n := by
      rw [mem_takenBy_chain hfields (by omega), and_iff_right (hitems i hi)]
      exact ⟨fun ⟨j, hj, heq⟩ => hinj j (by omega) i (by omega) heq ▸ hj, fun h => ⟨i, h, rfl⟩⟩
    rw [Cascade.fired, ih (by omega)]
    refine Set.ext fun t => ?_
    rw [Set.mem_union, mem_hiddenOnce_chain hanswered, hout 0 (by decide)]
    constructor
    · rintro (⟨i, hi, rfl⟩ | ⟨rfl, hzero⟩ | ⟨i, hi, rfl, hmem⟩)
      · exact ⟨i, by omega, rfl⟩
      · exact ⟨0, by omega, rfl⟩
      · exact ⟨i + 1, by have := (hout i hi).1 hmem; omega, rfl⟩
    · rintro ⟨i, hi, rfl⟩
      rcases Nat.lt_or_eq_of_le (Nat.le_of_lt_succ hi) with hlt | rfl
      · exact .inl ⟨i, hlt, rfl⟩
      · cases i with
        | zero => exact .inr (.inl ⟨rfl, Nat.lt_irrefl 0⟩)
        | succ i => exact .inr (.inr ⟨i, by omega, rfl, (hout i (by omega)).2 (by omega)⟩)

/-- **An empty value under the tenth option is refused on the posted map, and
not on what is read.** -/
theorem chain_not_alike (hinj : ∀ i ≤ 9, ∀ j ≤ 9, chain i = chain j → i = j)
    (hanswered : ∀ i < 9, chain i ∈ answeredIds block)
    (hfields : ∀ i ≤ 9, ∃ field ∈ block.fields, field.id = chain i)
    (hitems : ∀ i < 9, chain i ∈ (toJs (answersIn block)).keys)
    (hunread : chain 9 ∉ (toJs (answersIn block)).keys)
    (hposted : ∀ i ≤ 9, chain i ∈ (toJs (posted block)).keys)
    (halike : RulesReadAlike (chainOfHides chain) block) :
    ¬ HidesAlike (chainOfHides chain) block := by
  intro h
  have hfired {items : Set String} (hitems : ∀ i < 9, chain i ∈ items) {n : ℕ} (hn : n ≤ 10) :=
    fired_chain hinj hanswered hfields hitems hn
  have hread : (settled (chainOfHides chain) (answersIn block) (containmentIn block)).refused
      = none := by
    refine (refused_eq_none_iff (tellsApart _) rfl).2 ?_
    rw [CompleteAfter, Cascade.Complete, Cascade.taken, Cascade.taken, halike.hiddenOnce_eq,
      hfired hitems le_rfl, hfired hitems (by decide)]
    refine Set.ext fun o => ?_
    rw [mem_takenBy_chain hfields le_rfl, mem_takenBy_chain hfields (by decide)]
    refine and_congr_right fun ho => ?_
    constructor
    · rintro ⟨i, hi, rfl⟩
      rcases Nat.lt_or_eq_of_le (Nat.le_of_lt_succ hi) with hlt | rfl
      · exact ⟨i, hlt, rfl⟩
      · exact absurd ho hunread
    · rintro ⟨i, hi, rfl⟩
      exact ⟨i, by omega, rfl⟩
  have hrefused : (settled (chainOfHides chain) (posted block) (containmentIn block)).refused
      ≠ none := by
    intro hnone
    have hposted' : ∀ i < 9, chain i ∈ {o | o ∈ (toJs (posted block)).keys} :=
      fun i hi => hposted i hi.le
    have hcomplete := (refused_eq_none_iff (tellsApart _) rfl).1 hnone
    rw [CompleteAfter, Cascade.Complete, Cascade.taken, Cascade.taken, hfired hposted' le_rfl,
      hfired hposted' (by decide)] at hcomplete
    have hlast : chain 9 ∈ Cascade.takenBy {o | o ∈ (toJs (posted block)).keys}
        (underSet (containmentIn block)) {t | ∃ i < 10, chain i = t} :=
      (mem_takenBy_chain hfields le_rfl).2 ⟨hposted 9 le_rfl, 9, by decide, rfl⟩
    rw [hcomplete, mem_takenBy_chain hfields (by decide)] at hlast
    obtain ⟨-, i, hi, heq⟩ := hlast
    have := hinj i (by omega) 9 le_rfl heq
    omega
  have hhidden : chain 0 ∈ hiddenTargets (chainOfHides chain) (answersIn block)
      (containmentIn block) := by
    rw [mem_hiddenTargets]
    refine (hidden_iff (tellsApart _) rfl hread _).2 ?_
    rw [Rules.hiddenTargets, halike.hiddenOnce_eq, hfired hitems le_rfl]
    exact ⟨0, by decide, rfl⟩
  rw [h, mem_hiddenTargets] at hhidden
  exact absurd hhidden (Bool.eq_false_iff.1 (hidden_of_refused hrefused _))

/-- Nine answered options and one that posts an empty value make a chain. -/
theorem exists_chain {blank : Field} (hnine : 9 ≤ (answered block).length)
    (hmem : blank ∈ block.fields) (hblank : blank.control.PostsBlank) :
    ∃ chain : ℕ → String, (∀ i ≤ 9, ∀ j ≤ 9, chain i = chain j → i = j) ∧
      (∀ i < 9, ∃ field ∈ answered block, field.id = chain i) ∧ chain 9 = blank.id := by
  have hnine' : ((answered block).take 9).length = 9 := List.length_take_of_le hnine
  obtain ⟨ids, hids⟩ : ∃ ids, ids = ((answered block).take 9).map (·.id) ++ [blank.id] := ⟨_, rfl⟩
  have hlength : ids.length = 10 := by
    rw [hids, List.length_append, List.length_map, hnine', List.length_singleton]
  have hnodup : ids.Nodup := by
    rw [hids, ← List.concat_eq_append, List.nodup_concat]
    refine ⟨fun hin => ?_, ?_⟩
    · obtain ⟨field, hfield, hid⟩ := List.mem_map.1 hin
      obtain ⟨hfields, hsupplied⟩ := List.mem_filter.1 (List.mem_of_mem_take hfield)
      obtain rfl := List.inj_on_of_nodup_map Block.nodup_fields hfields hmem hid
      exact Control.not_postsBlank hsupplied hblank
    · exact Block.nodup_fields.sublist
        (((List.take_sublist _ _).trans List.filter_sublist).map _)
  have hget (i : ℕ) (hi : i < ids.length) : ids[i]?.getD "" = ids[i] := by
    rw [List.getElem?_eq_getElem hi]
    rfl
  refine ⟨fun i => ids[i]?.getD "", fun i hi j hj heq => ?_, fun i hi => ?_, ?_⟩
  · dsimp only at heq
    rw [hget i (by omega), hget j (by omega)] at heq
    exact (hnodup.getElem_inj_iff).1 heq
  · have hi' : i < ((answered block).take 9).length := by omega
    refine ⟨((answered block).take 9)[i], List.mem_of_mem_take (List.getElem_mem hi'), ?_⟩
    dsimp only
    rw [hids, List.getElem?_append_left (by rwa [List.length_map]), List.getElem?_map,
      List.getElem?_eq_getElem hi']
    rfl
  · dsimp only
    rw [hids, List.getElem?_append_right (by rw [List.length_map, hnine']), List.length_map, hnine']
    rfl

end Chain

/-! ## When the page feeds its rules what it submits -/

theorem rulesReadAlike_of_readAsPosted {block : Block}
    (h : ∀ field ∈ block.fields, field.control.ReadAsPosted) (rules : List Json) :
    RulesReadAlike rules block := by
  intro rule _ condition _
  rw [conditionHolds, conditionHolds, getD_toJs, getD_toJs]
  by_cases hmem : condition.string "option_id" ∈ block.fields.map (·.id)
  · obtain ⟨field, hfield, hid⟩ := List.mem_map.1 hmem
    rw [← hid, Block.get?_answersIn hfield, Block.get?_posted hfield,
      Control.alike (h field hfield)]
  · rw [(Block.get?_of_not_mem hmem).1, (Block.get?_of_not_mem hmem).2]

/-- **The page hides, by every rule set, what the posted map hides, exactly
where each option posts one value as it is read** — text without a bare line
break, of a group at cardinality one the same first and last checked value, of
one at cardinality many nothing or a single value, not empty and no number —
**and where no empty value is posted beside nine answered options.** -/
theorem hides_alike_iff (block : Block) :
    (∀ rules, HidesAlike rules block) ↔
      (∀ field ∈ block.fields, field.control.ReadAsPosted) ∧ WithinLimit block := by
  constructor
  · intro h
    have hread : ∀ field ∈ block.fields, field.control.ReadAsPosted :=
      fun field hmem => Control.readAsPosted_of_alikeOn (alikeOn_of_hidesAlike h hmem)
    refine ⟨hread, ?_⟩
    by_contra hlimit
    rw [WithinLimit, not_or, not_le] at hlimit
    obtain ⟨hnine, hsome⟩ := hlimit
    push Not at hsome
    obtain ⟨blank, hmem, hblank⟩ := hsome
    obtain ⟨chain, hinj, hanswered, hlast⟩ := exists_chain hnine hmem hblank
    have hfield : ∀ i < 9, ∃ field ∈ block.fields, field.id = chain i ∧
        supplied field.control.posts = true := by
      intro i hi
      obtain ⟨field, hfield, hid⟩ := hanswered i hi
      obtain ⟨hfields, hsupplied⟩ := List.mem_filter.1 hfield
      exact ⟨field, hfields, hid, hsupplied⟩
    refine chain_not_alike hinj ?_ ?_ ?_ ?_ ?_
      (rulesReadAlike_of_readAsPosted hread (chainOfHides chain)) (h _)
    · intro i hi
      obtain ⟨field, hfields, hid, hsupplied⟩ := hfield i hi
      change supplied ((posted block).get? (chain i)) = true
      rwa [← hid, Block.get?_posted hfields]
    · intro i hi
      rcases Nat.lt_or_eq_of_le hi with hlt | rfl
      · obtain ⟨field, hfields, hid, -⟩ := hfield i hlt
        exact ⟨field, hfields, hid⟩
      · exact ⟨blank, hmem, hlast.symm⟩
    · intro i hi
      obtain ⟨field, hfields, hid, hsupplied⟩ := hfield i hi
      rw [mem_keys_toJs, ← hid, Block.get?_answersIn hfields, Option.isSome_map]
      exact Control.isSome_answer (isSome_of_supplied hsupplied)
        (Control.not_postsBlank hsupplied)
    · rw [mem_keys_toJs, hlast, Block.get?_answersIn hmem, hblank.2]
      exact Bool.false_ne_true
    · intro i hi
      rcases Nat.lt_or_eq_of_le hi with hlt | rfl
      · obtain ⟨field, hfields, hid, hsupplied⟩ := hfield i hlt
        rw [mem_keys_toJs, ← hid, Block.get?_posted hfields]
        exact isSome_of_supplied hsupplied
      · rw [mem_keys_toJs, hlast, Block.get?_posted hmem, hblank.1]
        rfl
  · rintro ⟨hread, hlimit⟩ rules
    exact hides_alike (rulesReadAlike_of_readAsPosted hread rules) hlimit

/-- Two boxes of a group, checked. -/
def twoChecked : Block where
  groups := [⟨"g", [⟨"colours", .checkbox .many [⟨"red", true⟩, ⟨"blue", true⟩]⟩,
    ⟨"glitter", .typed "gold"⟩]⟩]
  distinct := by decide
  named := by decide

/-- **The page reads the first checked box alone.** The rule asks for the
second. -/
theorem second_box_unread : ¬ ∀ block rules, HidesAlike rules block := by
  intro h
  have hglitter := h twoChecked [hideWhen "colours" "in" (.arr [.str "blue"]) "glitter"] "glitter"
  exact absurd hglitter (by decide +kernel)

end Optionia.Page
