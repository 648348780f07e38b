import Optionia.Rules.Settling
/-!
# Evaluators that read one settlement alike

Two evaluators need not read every answers map alike to come to the same
outcome: it is enough that they read alike what each round of the one leaves
(`agree_of_rounds`). What is said of prices in the end is what the rules that
fire on the answers left say (`price_evaluate`), and of that the amounts alone
matter (`price_accumulate`).
-/

namespace Optionia.Rules

variable {R α R' α' : Type} {E : Evaluator R α} {E' : Evaluator R' α'}
variable {rules : List R} {rules' : List R'} {answers : OrderedMap String α}
variable {answers' : OrderedMap String α'} {optionsUnder optionsUnder' : Containment}

/-! ## Round by round -/

/-- What the rules that fire on some answers say of a target. -/
def saidOf (E : Evaluator R α) (rules : List R) (answers : OrderedMap String α) (t : String) :
    TargetState :=
  stateAt (accumulate (rules.filterMap fun rule => E.fired rule answers)) t

theorem hidden_saidOf {t : String} : (saidOf E rules answers t).hidden = true ↔
    E.Hides rules answers t := by
  rw [saidOf, hidden_stateAt_accumulate]
  constructor
  · rintro ⟨e, he, ht, ha⟩
    obtain ⟨rule, hrule, hfires⟩ := List.mem_filterMap.1 he
    exact ⟨rule, hrule, e, hfires, ht, ha⟩
  · rintro ⟨rule, hrule, e, hfires, ht, ha⟩
    exact ⟨e, List.mem_filterMap.2 ⟨rule, hrule, hfires⟩, ht, ha⟩

/-- **Of what each round of the one leaves, both say the same.** -/
structure SaidAlike (E : Evaluator R α) (rules : List R) (answers : OrderedMap String α)
    (optionsUnder : Containment) (E' : Evaluator R' α') (rules' : List R')
    (answers' : OrderedMap String α') (optionsUnder' : Containment) : Prop where
  keys : answers.keys = answers'.keys
  under : ∀ t, underSet optionsUnder t = underSet optionsUnder' t
  /-- And the same is said of every target, round by round. -/
  said : ∀ n t, saidOf E rules (answers.without (takenOut E rules answers optionsUnder n)) t =
    saidOf E' rules' (answers'.without (takenOut E rules answers optionsUnder n)) t

namespace SaidAlike

variable (h : SaidAlike E rules answers optionsUnder E' rules' answers' optionsUnder')

include h

theorem hiddenTargets_eq (n : ℕ) : hiddenTargets E rules answers optionsUnder n =
    hiddenTargets E' rules' answers' optionsUnder' n := by
  have hunder : underSet optionsUnder = underSet optionsUnder' := funext h.under
  rw [hiddenTargets, hiddenTargets, ← h.keys, ← hunder]
  refine Cascade.fired_congr (fun k => Set.ext fun t => ?_) n
  show E.Hides rules (answers.without _) t ↔ E'.Hides rules' (answers'.without _) t
  rw [← hidden_saidOf, ← hidden_saidOf]
  exact iff_of_eq (congrArg (·.hidden = true) (h.said k t))

theorem takenOut_eq (n : ℕ) : takenOut E rules answers optionsUnder n =
    takenOut E' rules' answers' optionsUnder' n := by
  have hunder : underSet optionsUnder = underSet optionsUnder' := funext h.under
  have hfired := h.hiddenTargets_eq n
  unfold hiddenTargets at hfired
  rw [takenOut, takenOut, Cascade.taken, Cascade.taken, hfired, h.keys, hunder]

theorem settlesAt_iff (hE : E.TellsApart answers) (hE' : E'.TellsApart answers') (n : ℕ) :
    (E.loop rules answers optionsUnder).SettlesAt ([], answers) n ↔
      (E'.loop rules' answers' optionsUnder').SettlesAt ([], answers') n := by
  rw [Rules.settlesAt_iff hE, Rules.settlesAt_iff hE']
  show takenOut E rules answers optionsUnder (n + 1) = takenOut E rules answers optionsUnder n ↔
    takenOut E' rules' answers' optionsUnder' (n + 1) =
      takenOut E' rules' answers' optionsUnder' n
  rw [h.takenOut_eq, h.takenOut_eq]

theorem stateAt_resolve_eq (n : ℕ) (t : String) :
    stateAt ((E.loop rules answers optionsUnder).resolve
        ((E.loop rules answers optionsUnder).after ([], answers) n).2
        ((E.loop rules answers optionsUnder).after ([], answers) n).1) t =
      stateAt ((E'.loop rules' answers' optionsUnder').resolve
        ((E'.loop rules' answers' optionsUnder').after ([], answers') n).2
        ((E'.loop rules' answers' optionsUnder').after ([], answers') n).1) t := by
  obtain ⟨hhidden, hleft⟩ := @after_eq R α E rules answers optionsUnder n
  obtain ⟨hhidden', hleft'⟩ := @after_eq R' α' E' rules' answers' optionsUnder' n
  have hsaid := h.said n t
  unfold saidOf at hsaid
  show stateAt (E.resolve rules _ _) t = stateAt (E'.resolve rules' _ _) t
  rw [stateAt_resolve, stateAt_resolve, hleft, hleft', hsaid, ← h.takenOut_eq]
  have hmem : t ∈ ((E.loop rules answers optionsUnder).after ([], answers) n).1 ↔
      t ∈ ((E'.loop rules' answers' optionsUnder').after ([], answers') n).1 := by
    rw [hhidden t, hhidden' t, h.hiddenTargets_eq n]
  by_cases hin : t ∈ ((E.loop rules answers optionsUnder).after ([], answers) n).1
  · rw [if_pos hin, if_pos (hmem.1 hin)]
  · rw [if_neg hin, if_neg fun hin' => hin (hmem.2 hin')]

/-- **Evaluators that read one settlement alike come to the same outcome.** -/
theorem agree (hE : E.TellsApart answers) (hE' : E'.TellsApart answers')
    (hmax : E.maxPasses = E'.maxPasses) :
    (E.evaluate rules answers optionsUnder).Agree
      (E'.evaluate rules' answers' optionsUnder') := by
  have hsettles := h.settlesAt_iff hE hE'
  unfold Evaluator.evaluate
  rw [← hmax]
  cases hrun : (E.loop rules answers optionsUnder).runFrom E.maxPasses 1 [] answers with
  | none =>
    have hnever := (Settle.Loop.runFrom_eq_none_iff _ E.maxPasses 1 ([], answers)).1 hrun
    have hrun' : (E'.loop rules' answers' optionsUnder').runFrom E.maxPasses 1 [] answers' = none :=
      (Settle.Loop.runFrom_eq_none_iff _ E.maxPasses 1 ([], answers')).2
        fun n hn hs => hnever n hn ((hsettles n).2 hs)
    rw [hrun']
    exact ⟨rfl, rfl, fun t => rfl⟩
  | some r =>
    obtain ⟨n, hn, hs, hfirst, hstates, hpasses⟩ :=
      (Settle.Loop.runFrom_eq_some_iff _ E.maxPasses 1 ([], answers) r.1 r.2).1 hrun
    have hrun' := (Settle.Loop.runFrom_eq_some_iff (E'.loop rules' answers' optionsUnder')
      E.maxPasses 1 ([], answers') _ (1 + n)).2
        ⟨n, hn, (hsettles n).1 hs, fun m hm hs' => hfirst m hm ((hsettles m).2 hs'), rfl, rfl⟩
    dsimp only at hrun'
    rw [hrun']
    refine ⟨rfl, hpasses, fun t => ?_⟩
    show stateAt r.1 t = _
    rw [hstates]
    exact h.stateAt_resolve_eq n t

end SaidAlike

/-! ## Prices -/

theorem taken_of_complete {n m : ℕ} (h : CompleteAfter E rules answers optionsUnder m)
    (hm : m ≤ n) :
    takenOut E rules answers optionsUnder n = takenOut E rules answers optionsUnder m := by
  induction n, hm using Nat.le_induction with
  | base => rfl
  | succ k hk ih => exact (Cascade.Complete.mono h hk).trans ih

/-- What is said of the price of a target is what the rules that fire on the
answers left say of it. -/
theorem price_evaluate {n : ℕ} (hE : E.TellsApart answers) (hmax : E.maxPasses = n + 1)
    (h : (E.evaluate rules answers optionsUnder).refused = none) (t : String) :
    (stateAt (E.evaluate rules answers optionsUnder).states t).priceMinor =
        (saidOf E rules (answers.without (takenOut E rules answers optionsUnder n)) t).priceMinor ∧
      (stateAt (E.evaluate rules answers optionsUnder).states t).priceConflict =
        (saidOf E rules
          (answers.without (takenOut E rules answers optionsUnder n)) t).priceConflict := by
  unfold Evaluator.evaluate at h ⊢
  cases hrun : (E.loop rules answers optionsUnder).runFrom E.maxPasses 1 [] answers with
  | none =>
    rw [hrun] at h
    simp at h
  | some r =>
    obtain ⟨m, hm, hs, -, hr, -⟩ := (Settle.Loop.runFrom_eq_some_iff _ E.maxPasses 1 ([], answers)
      r.1 r.2).1 hrun
    have hcomplete := (settlesAt_iff hE m).1 hs
    have hout : takenOut E rules answers optionsUnder n =
        takenOut E rules answers optionsUnder m :=
      taken_of_complete hcomplete (by omega)
    obtain ⟨-, hcurrent⟩ := @after_eq R α E rules answers optionsUnder m
    show (stateAt r.1 t).priceMinor = _ ∧ (stateAt r.1 t).priceConflict = _
    rw [hr, hout]
    show (stateAt (E.resolve rules _ _) t).priceMinor = _ ∧
      (stateAt (E.resolve rules _ _) t).priceConflict = _
    rw [stateAt_resolve, hcurrent]
    split_ifs <;> exact ⟨rfl, rfl⟩

/-- The price that an effect sets, where it sets one. -/
def Effect.price (e : Effect) : Option ℤ := if e.action = "set_price" then e.amount else none

theorem price_act (e : Effect) (s : TargetState) :
    (e.act s).priceMinor = ((e.price.map (setPrice s)).getD s).priceMinor ∧
      (e.act s).priceConflict = ((e.price.map (setPrice s)).getD s).priceConflict := by
  unfold Effect.act Effect.price
  by_cases hprice : e.action = "set_price"
  · rw [hprice, if_neg (by decide), if_neg (by decide), if_neg (by decide), if_pos rfl, if_pos rfl]
    cases e.amount <;> exact ⟨rfl, rfl⟩
  · rw [if_neg hprice, if_neg hprice]
    split_ifs <;> exact ⟨rfl, rfl⟩

/-- The prices that effects set of a target. -/
def pricesOf (es : List Effect) (t : String) : List ℤ :=
  (es.filter fun e => e.target = t).filterMap Effect.price

/-- A state says what prices that were set come to: the one they agree on, or
that they do not. -/
structure Prices (s : TargetState) (amounts : List ℤ) : Prop where
  conflict : s.priceConflict = true ↔ ∃ a ∈ amounts, ∃ b ∈ amounts, a ≠ b
  minor : ∀ a, s.priceMinor = some a ↔ a ∈ amounts ∧ ∀ b ∈ amounts, b = a

theorem Prices.setPrice {s : TargetState} {amounts : List ℤ} (h : Prices s amounts) (a : ℤ) :
    Prices (setPrice s a) (amounts ++ [a]) := by
  unfold Rules.setPrice
  by_cases hconflict : conflicts s a = true
  · rw [if_pos hconflict]
    have hdiffer : ∃ b ∈ amounts ++ [a], ∃ c ∈ amounts ++ [a], b ≠ c := by
      unfold conflicts at hconflict
      rw [Bool.or_eq_true, Bool.and_eq_true] at hconflict
      obtain hconflict | ⟨hsome, hne⟩ := hconflict
      · obtain ⟨b, hb, c, hc, hbc⟩ := h.conflict.1 hconflict
        exact ⟨b, List.mem_append_left _ hb, c, List.mem_append_left _ hc, hbc⟩
      · obtain ⟨b, hb⟩ := Option.isSome_iff_exists.1 hsome
        refine ⟨b, List.mem_append_left _ ((h.minor b).1 hb).1, a,
          List.mem_append_right _ (List.mem_singleton.2 rfl), ?_⟩
        rintro rfl
        exact absurd hb (bne_iff_ne.1 hne)
    refine ⟨iff_of_true rfl hdiffer, fun c => iff_of_false (fun hc => Option.some_ne_none _ hc.symm) ?_⟩
    rintro ⟨-, hall⟩
    obtain ⟨b, hb, c', hc', hne⟩ := hdiffer
    exact hne ((hall b hb).trans (hall c' hc').symm)
  · rw [if_neg hconflict]
    unfold conflicts at hconflict
    rw [Bool.or_eq_true, Bool.and_eq_true, not_or, not_and] at hconflict
    obtain ⟨hnone, hsame⟩ := hconflict
    have hall : ∀ b ∈ amounts ++ [a], b = a := by
      intro b hb
      obtain hb | hb := List.mem_append.1 hb
      · have hminor : s.priceMinor = some b := (h.minor b).2 ⟨hb, fun c hc => by
          by_contra hne
          exact hnone (h.conflict.2 ⟨c, hc, b, hb, hne⟩)⟩
        by_contra hne
        refine hsame (by rw [hminor]; rfl) (bne_iff_ne.2 ?_)
        rw [hminor]
        exact fun heq => hne (Option.some.inj heq)
      · exact List.mem_singleton.1 hb
    have hmem : a ∈ amounts ++ [a] := List.mem_append_right _ (List.mem_singleton.2 rfl)
    refine ⟨iff_of_false hnone ?_, fun c => ?_⟩
    · rintro ⟨b, hb, c, hc, hne⟩
      exact hne ((hall b hb).trans (hall c hc).symm)
    · show some a = some c ↔ _
      rw [Option.some.injEq]
      constructor
      · rintro rfl
        exact ⟨hmem, hall⟩
      · rintro ⟨-, h⟩
        exact h a hmem

theorem Prices.minor_eq_none_iff {s : TargetState} {amounts : List ℤ} (h : Prices s amounts)
    (hagree : s.priceConflict = false) : s.priceMinor = none ↔ amounts = [] := by
  constructor
  · intro hnone
    rw [List.eq_nil_iff_forall_not_mem]
    intro a ha
    have hsome : s.priceMinor = some a := (h.minor a).2 ⟨ha, fun b hb => by
      by_contra hne
      have hconflict := h.conflict.2 ⟨b, hb, a, ha, hne⟩
      rw [hagree] at hconflict
      exact Bool.false_ne_true hconflict⟩
    exact absurd (hsome.symm.trans hnone) (Option.some_ne_none a)
  · rintro rfl
    rw [Option.eq_none_iff_forall_ne_some]
    exact fun a ha => List.not_mem_nil ((h.minor a).1 ha).1

/-- **What is said of a target's price rests on the amounts alone.** -/
theorem price_accumulate (es : List Effect) (t : String) :
    Prices (stateAt (accumulate es) t) (pricesOf es t) := by
  rw [stateAt_accumulate, pricesOf]
  generalize es.filter (fun e => decide (e.target = t)) = l
  induction l using List.reverseRecOn with
  | nil => exact ⟨by simp [seed], by simp [seed]⟩
  | append_singleton l e ih =>
    rw [List.foldl_append, List.foldl_cons, List.foldl_nil, List.filterMap_append]
    obtain ⟨hminor, hconflict⟩ := price_act e (l.foldl (fun s e => e.act s) seed)
    cases hprice : e.price with
    | none =>
      rw [hprice] at hminor hconflict
      have hnil : [e].filterMap Effect.price = [] := by simp [hprice]
      rw [hnil, List.append_nil]
      exact ⟨by rw [hconflict]; exact ih.conflict, by rw [hminor]; exact ih.minor⟩
    | some a =>
      rw [hprice] at hminor hconflict
      have hone : [e].filterMap Effect.price = [a] := by simp [hprice]
      rw [hone]
      have hset := ih.setPrice a
      exact ⟨by rw [hconflict]; exact hset.conflict, by rw [hminor]; exact hset.minor⟩

end Optionia.Rules

/-! ## How many passes an evaluation takes

Every pass that does not settle hides a target it had not hidden, so an
evaluation takes one pass more than there are targets to hide at most, and one
of nine targets or fewer is never refused. What it then says is hidden is all
that any pass hid, and its last pass read the answers without it
(`evaluation_bounded`).
-/

namespace Optionia.Rules

variable {R α : Type} {E : Evaluator R α} {rules : List R} {answers : OrderedMap String α}
  {optionsUnder : Containment}

/-! ## Passes -/

/-- The answers that pass `n + 1` reads. -/
def Evaluator.passAnswers (E : Evaluator R α) (rules : List R) (answers : OrderedMap String α)
    (optionsUnder : Containment) (n : ℕ) : OrderedMap String α :=
  ((E.loop rules answers optionsUnder).after ([], answers) n).2

def Evaluator.passStates (E : Evaluator R α) (rules : List R) (answers : OrderedMap String α)
    (optionsUnder : Containment) (n : ℕ) : States :=
  E.resolve rules (E.passAnswers rules answers optionsUnder n)
    ((E.loop rules answers optionsUnder).after ([], answers) n).1

/-- **An evaluation of rules that may hide `d` targets.** -/
structure Evaluator.Bounded (E : Evaluator R α) (rules : List R) (answers : OrderedMap String α)
    (optionsUnder : Containment) (d : ℕ) : Prop where
  /-- It refuses, or settles after at most `d + 1` passes. -/
  ends : (E.evaluate rules answers optionsUnder).refused = none →
    (E.evaluate rules answers optionsUnder).passes ≤ d + 1
  /-- It does not refuse where there are nine targets at most. -/
  settles : d ≤ 9 → (E.evaluate rules answers optionsUnder).refused = none
  /-- What a pass hid is hidden in the end. -/
  keeps : (E.evaluate rules answers optionsUnder).refused = none →
    ∀ n < (E.evaluate rules answers optionsUnder).passes, ∀ t,
      (stateAt (E.passStates rules answers optionsUnder n) t).hidden = true →
        (stateAt (E.evaluate rules answers optionsUnder).states t).hidden = true
  /-- The last pass read the answers without the options under what is hidden. -/
  leaves : (E.evaluate rules answers optionsUnder).refused = none →
    E.passAnswers rules answers optionsUnder
        ((E.evaluate rules answers optionsUnder).passes - 1) =
      clearHidden answers optionsUnder (collect [] (E.evaluate rules answers optionsUnder).states)

/-- **What a settled evaluation returns**: the states of the first pass that
settles, and its number. -/
theorem outcome_of_settled (h : (E.evaluate rules answers optionsUnder).refused = none) :
    ∃ n, (E.loop rules answers optionsUnder).SettlesAt ([], answers) n ∧
      (∀ m < n, ¬ (E.loop rules answers optionsUnder).SettlesAt ([], answers) m) ∧
      (E.evaluate rules answers optionsUnder).states = E.passStates rules answers optionsUnder n ∧
      (E.evaluate rules answers optionsUnder).passes = n + 1 := by
  unfold Evaluator.evaluate at h ⊢
  cases hrun : (E.loop rules answers optionsUnder).runFrom E.maxPasses 1 [] answers with
  | none =>
    rw [hrun] at h
    simp at h
  | some r =>
    obtain ⟨n, -, hsettles, hfirst, hstates, hpasses⟩ :=
      (Settle.Loop.runFrom_eq_some_iff _ E.maxPasses 1 ([], answers) r.1 r.2).1 hrun
    refine ⟨n, hsettles, hfirst, hstates, ?_⟩
    have hcount : r.2 = 1 + n := hpasses
    change r.2 = n + 1
    omega

theorem hidden_passStates (n : ℕ) (t : String) :
    (stateAt (E.passStates rules answers optionsUnder n) t).hidden = true ↔
      t ∈ hiddenTargets E rules answers optionsUnder (n + 1) := by
  obtain ⟨hhidden, hread⟩ := @after_eq R α E rules answers optionsUnder n
  rw [Evaluator.passStates, hidden_resolve, hhidden t, Evaluator.passAnswers, hread]
  rfl

/-- **What is hidden in the end, a rule hides on what some pass reads.** -/
theorem hides_of_hidden {t : String}
    (h : (stateAt (E.evaluate rules answers optionsUnder).states t).hidden = true) :
    ∃ left : OrderedMap String α, E.Hides rules left t := by
  by_cases hrefused : (E.evaluate rules answers optionsUnder).refused = none
  · obtain ⟨n, -, -, hstates, -⟩ := outcome_of_settled hrefused
    rw [hstates, hidden_passStates] at h
    obtain ⟨k, -, hfire⟩ := Cascade.mem_fired_iff.1 h
    exact ⟨_, hfire⟩
  · rw [hidden_of_refused hrefused] at h
    simp at h

/-- **Evaluations whose rules hide no target beyond some keep the bound of
their number.** -/
theorem bounded {targets : Finset String} (hE : E.TellsApart answers) (hmax : E.maxPasses = 10)
    (htargets : ∀ (left : OrderedMap String α) (t : String), E.Hides rules left t → t ∈ targets) :
    E.Bounded rules answers optionsUnder targets.card := by
  have hcomplete : ∀ n, targets.card ≤ n → CompleteAfter E rules answers optionsUnder n :=
    fun n hn => Cascade.complete_of_triggers (fun out t ht => htargets _ t ht) hn
  refine ⟨fun h => ?_, fun hnine => ?_, fun h => ?_, fun h => ?_⟩
  · obtain ⟨n, -, hfirst, -, hpasses⟩ := outcome_of_settled h
    -- The pass after all targets settles, if none did before.
    have hn : n ≤ targets.card := by
      by_contra hlate
      have hlt : targets.card < n := by omega
      exact hfirst _ hlt ((settlesAt_iff hE _).2 (hcomplete _ le_rfl))
    omega
  · exact (refused_eq_none_iff hE hmax).2 (hcomplete 9 hnine)
  · obtain ⟨n, -, -, hstates, hpasses⟩ := outcome_of_settled h
    intro k hk t ht
    rw [hpasses] at hk
    rw [hidden_passStates] at ht
    rw [hstates, hidden_passStates]
    have hle : k + 1 ≤ n + 1 := by omega
    exact Cascade.fired_mono hle ht
  · obtain ⟨n, hsettles, -, hstates, hpasses⟩ := outcome_of_settled h
    have hhidden : ∀ t, t ∈ collect [] (E.evaluate rules answers optionsUnder).states ↔
        t ∈ hiddenTargets E rules answers optionsUnder (n + 1) := by
      intro t
      rw [mem_collect, hstates, hidden_passStates]
      exact or_iff_right List.not_mem_nil
    have hlast : (E.evaluate rules answers optionsUnder).passes - 1 = n := by omega
    rw [hlast, clearHidden_eq_without hhidden, Evaluator.passAnswers, (after_eq n).2]
    -- The pass settled, so what it hid took no more answers out.
    have hout : takenOut E rules answers optionsUnder (n + 1) =
        takenOut E rules answers optionsUnder n := (settlesAt_iff hE n).1 hsettles
    exact congrArg answers.without hout.symm

/-! ## The plugin and the cloud -/

/-- The distinct targets of the plugin's hide rules. -/
def pluginHideTargets (rules : List Php.Value) : List String :=
  ((rules.filter fun rule => rule.isArray && decide (rule.string "action" = "hide")).map
    (·.string "target_id")).dedup

/-- The distinct targets of the cloud's hide rules. -/
def cloudHideTargets (rules : List Cloud.EvaluableRule) : List String :=
  ((rules.filter fun rule => decide (rule.action = "hide")).map (·.targetId)).dedup

theorem mem_pluginHideTargets {rules : List Php.Value} {answers : Engine.RuleEvaluator.Answers}
    {t : String} (h : Engine.RuleEvaluator.evaluator.Hides rules answers t) :
    t ∈ pluginHideTargets rules := by
  obtain ⟨rule, hrule, e, hfired, rfl, hhide⟩ := h
  change Engine.RuleEvaluator.fired rule answers = some e at hfired
  unfold Engine.RuleEvaluator.fired at hfired
  split at hfired
  · next hfires =>
    obtain rfl := Option.some.inj hfired
    rw [Bool.and_eq_true] at hfires
    have hkept : (rule.isArray && decide (rule.string "action" = "hide")) = true := by
      rw [hfires.1, Bool.true_and, decide_eq_true_eq]
      exact hhide
    exact List.mem_dedup.2 (List.mem_map.2 ⟨rule, List.mem_filter.2 ⟨hrule, hkept⟩, rfl⟩)
  · simp at hfired

theorem mem_cloudHideTargets {rules : List Cloud.EvaluableRule} {answers : Js.Answers} {t : String}
    (h : Cloud.evaluator.Hides rules answers t) : t ∈ cloudHideTargets rules := by
  obtain ⟨rule, hrule, e, hfired, rfl, hhide⟩ := h
  change Cloud.fired rule answers = some e at hfired
  unfold Cloud.fired at hfired
  split at hfired
  · obtain rfl := Option.some.inj hfired
    have hkept : decide (rule.action = "hide") = true := decide_eq_true hhide
    exact List.mem_dedup.2 (List.mem_map.2 ⟨rule, List.mem_filter.2 ⟨hrule, hkept⟩, rfl⟩)
  · simp at hfired

theorem card_toFinset_of_dedup {names : List String} :
    names.dedup.toFinset.card = names.dedup.length :=
  List.toFinset_card_of_nodup (List.nodup_dedup names)

/-- **Evaluation is bounded by the targets there are to hide**, in the plugin
and in the cloud, whose answers arrive as JSON. -/
theorem evaluation_bounded :
    (∀ (rules : List Php.Value) (answers : Engine.RuleEvaluator.Answers)
      (optionsUnder : Containment), Engine.RuleEvaluator.evaluator.Bounded rules answers
        optionsUnder (pluginHideTargets rules).length) ∧
    ∀ (rules : List Cloud.EvaluableRule) (answers : OrderedMap String Wire.Json)
      (optionsUnder : Containment), Cloud.evaluator.Bounded rules
        (answers.mapValues Wire.Json.parse) optionsUnder (cloudHideTargets rules).length := by
  constructor
  · intro rules answers optionsUnder
    have hcard : (pluginHideTargets rules).toFinset.card = (pluginHideTargets rules).length :=
      card_toFinset_of_dedup
    rw [← hcard]
    exact bounded (tellsApart_plugin answers) rfl
      fun _ _ hhides => List.mem_toFinset.2 (mem_pluginHideTargets hhides)
  · intro rules answers optionsUnder
    have hcard : (cloudHideTargets rules).toFinset.card = (cloudHideTargets rules).length :=
      card_toFinset_of_dedup
    rw [← hcard]
    exact bounded (tellsApart_cloud (selfSame_mapValues_parse answers)) rfl
      fun _ _ hhides => List.mem_toFinset.2 (mem_cloudHideTargets hhides)

end Optionia.Rules
