import Optionia.Engine.Resubmission
/-!
# Hidden inputs

The value of an option of type `hidden` is the merchant's. Two requests that
agree on every other option are read alike by the rules, and whatever they
send for hidden inputs reaches no other option's entry, price or error; where
they name the same hidden inputs in the same places, each with a scalar in
both or in neither, they resolve to the same result (`hidden_inputs`).

What is sent is still looked at: that there is an entry, where it stands, and
that it is a scalar.
-/

namespace Optionia.Engine.SelectionResolver

open Php Rules

/-! ## Outside hidden inputs -/

/-- An id is of no hidden input. -/
def besideHidden (options : OrderedMap String Value) (id : String) : Bool :=
  !(options.get? id).any isHidden

/-- Two requests agree on every option that is no hidden input. -/
def AgreeBeside (options selections selections' : OrderedMap String Value) : Prop :=
  selections.restrict (besideHidden options) = selections'.restrict (besideHidden options)

instance (options selections selections' : OrderedMap String Value) :
    Decidable (AgreeBeside options selections selections') :=
  inferInstanceAs (Decidable (_ = _))

variable {selections selections' chosen chosen' : OrderedMap String Value} {id : String}
  {P : Platform} {optionSets : List Value} {option raw : Value} {ctx : Context} {t t' : Taken}
  {p : String × Value} {errors found errors' found' : List Error} {entries : List (String × Value)}
  {r r' : Resolution} {today : Option String}

theorem AgreeBeside.get? {options : OrderedMap String Value}
    (h : AgreeBeside options selections selections') (hid : besideHidden options id = true) :
    selections.get? id = selections'.get? id := by
  rw [← selections.get?_restrict hid, ← selections'.get?_restrict hid, h]

/-! ## The rules -/

/-- **What the rules read**: of a hidden input what is configured, of
anything else what was sent. -/
theorem get?_ruleAnswers (P : Platform) (options selections : OrderedMap String Value)
    (id : String) : (ruleAnswers P options selections).get? id =
      match (options.get? id).filter isHidden with
      | some option => if configured P option = "" then none else some (.str (configured P option))
      | none => selections.get? id := by
  obtain ⟨entries, hnodup⟩ := options
  unfold ruleAnswers OrderedMap.get?
  dsimp only
  induction entries generalizing selections with
  | nil => rfl
  | cons p entries ih =>
    obtain ⟨id', option⟩ := p
    rw [List.map_cons, List.nodup_cons] at hnodup
    rw [List.foldl_cons, ih _ hnodup.2]
    by_cases hid : id = id'
    · obtain rfl := hid
      have hnone : entries.lookup id = none := by
        refine List.lookup_eq_none_iff.2 fun q hq => bne_iff_ne.2 fun heq => ?_
        exact hnodup.1 (List.mem_map.2 ⟨q, hq, heq.symm⟩)
      rw [hnone, List.lookup_cons_self, Option.filter_none, Option.filter_some]
      dsimp only
      by_cases hhidden : isHidden option = true
      · rw [hhidden, Bool.not_true, if_neg Bool.false_ne_true, if_pos rfl]
        dsimp only
        by_cases hnothing : configured P option = ""
        · rw [if_pos hnothing, if_pos hnothing]
          exact (selections.get?_eraseAll [id] id).trans (if_pos List.mem_cons_self)
        · rw [if_neg hnothing, if_neg hnothing]
          exact selections.get?_set_self id _
      · rw [Bool.not_eq_true] at hhidden
        rw [hhidden]
        rfl
    · rw [List.lookup_cons, beq_false_of_ne hid]
      dsimp only
      have hstep : (if (!isHidden option) = true then selections
          else if configured P option = "" then selections.erase id'
          else selections.set id' (.str (configured P option))).entries.lookup id =
          selections.entries.lookup id := by
        split
        · rfl
        split
        · refine (selections.get?_eraseAll [id'] id).trans (if_neg ?_)
          exact fun hmem => hid (List.mem_singleton.1 hmem)
        · exact selections.get?_set_ne _ hid
      rw [hstep]

theorem AgreeBeside.get?_ruleAnswers {options : OrderedMap String Value}
    (h : AgreeBeside options selections selections') (id : String) :
    (ruleAnswers P options selections).get? id = (ruleAnswers P options selections').get? id := by
  rw [SelectionResolver.get?_ruleAnswers, SelectionResolver.get?_ruleAnswers]
  cases hoption : (options.get? id).filter isHidden with
  | some option => rfl
  | none =>
    refine h.get? ?_
    unfold besideHidden
    rw [Option.filter_eq_none_iff] at hoption
    rw [Bool.not_eq_true', Option.any_eq_false]
    exact fun option ho => Bool.not_eq_true _ ▸ hoption option ho

/-- **What is sent for hidden inputs reaches no rule.** -/
theorem evaluation_agree (h : AgreeBeside (indexOptions optionSets) selections selections') :
    (evaluation P optionSets selections).Agree (evaluation P optionSets selections') := by
  have hread := h.get?_ruleAnswers (P := P)
  have hkeys : ∀ id, id ∈ (ruleAnswers P (indexOptions optionSets) selections).keys ↔
      id ∈ (ruleAnswers P (indexOptions optionSets) selections').keys := by
    intro id
    rw [← OrderedMap.isSome_get?, ← OrderedMap.isSome_get?, hread]
  refine agree_of_fired compares_eq rfl (fun ks t => ?_) (fun ks ks' => ?_)
  · have hfired : ∀ rule, RuleEvaluator.evaluator.fired rule
          ((ruleAnswers P (indexOptions optionSets) selections).eraseAll ks) =
        RuleEvaluator.evaluator.fired rule
          ((ruleAnswers P (indexOptions optionSets) selections').eraseAll ks) := by
      intro rule
      refine readsOnly_plugin rule _ _ fun o _ => ?_
      rw [OrderedMap.get?_eraseAll, OrderedMap.get?_eraseAll, hread]
    rw [List.filterMap_congr fun rule _ => hfired rule]
  · refine decide_eq_decide.2 ?_
    rw [OrderedMap.eraseAll_eq_iff, OrderedMap.eraseAll_eq_iff]
    exact forall_congr' fun id => imp_congr_left (hkeys id)

/-! ## A turn of a hidden input -/

theorem takesMany_of_hidden (h : isHidden option = true) : takesMany option = false := by
  unfold isHidden at h
  unfold takesMany
  rw [beq_iff_eq.1 h, beq_false_of_ne (by decide : "hidden" ≠ "checkbox"), Bool.and_false]

/-- Of what is sent for a hidden input, all that is asked is whether it is a
scalar. -/
theorem sentKeys_hidden (h : isHidden option = true) :
    sentKeys option raw = if raw.isScalar then some [raw] else none := by
  unfold sentKeys
  rw [takesMany_of_hidden h, Bool.false_and, if_neg Bool.false_ne_true]
  cases hraw : raw.isScalar with
  | true =>
    dsimp only
    rw [if_pos rfl, Option.filter_some, List.all_cons, List.all_nil, hraw]
    rfl
  | false => rfl

/-- **The turn of a hidden input**, by whether a scalar was sent. -/
theorem turn_hidden (hoption : ctx.options.get? id = some option)
    (hhidden : isHidden option = true) : t.turn ctx (id, raw) =
      if ctx.ruleHidden id then t.refuse id ⟨errorHiddenByRule, []⟩
      else if raw.isScalar then t.answer ctx id option (readHidden ctx.platform option)
      else t.refuse id ⟨errorNotScalar, []⟩ := by
  unfold Taken.turn
  dsimp only
  rw [hoption]
  dsimp only
  rw [sentKeys_hidden hhidden]
  refine if_congr Iff.rfl rfl ?_
  cases hraw : raw.isScalar with
  | false => rfl
  | true =>
    rw [if_pos rfl, if_pos rfl]
    dsimp only
    unfold Taken.take read
    rw [if_pos hhidden]

/-! ## Requests that stand alike -/

/-- Two selections stand alike: a hidden input is sent a scalar in both or in
neither, another option the same. -/
def StandsAlike (options : OrderedMap String Value) (p q : String × Value) : Prop :=
  p.1 = q.1 ∧ if besideHidden options p.1 then p.2 = q.2 else p.2.isScalar = q.2.isScalar

/-- **Two requests name the same options in the same places**, and each pair
stands alike. -/
def NamedAlike (options selections selections' : OrderedMap String Value) : Prop :=
  List.Forall₂ (StandsAlike options) selections.entries selections'.entries

theorem hidden_of_not_beside {options : OrderedMap String Value}
    (h : ¬ besideHidden options id = true) :
    ∃ option, options.get? id = some option ∧ isHidden option = true := by
  unfold besideHidden at h
  rw [Bool.not_eq_true', Bool.not_eq_false, Option.any_eq_true] at h
  exact h

theorem StandsAlike.turn {q : String × Value} (h : StandsAlike ctx.options p q) (t : Taken) :
    t.turn ctx p = t.turn ctx q := by
  obtain ⟨id, raw⟩ := p
  obtain ⟨id', raw'⟩ := q
  obtain ⟨hid, hraw⟩ := h
  obtain rfl : id = id' := hid
  dsimp only at hraw
  by_cases hbeside : besideHidden ctx.options id = true
  · rw [if_pos hbeside] at hraw
    rw [hraw]
  · rw [if_neg hbeside] at hraw
    obtain ⟨option, hoption, hhidden⟩ := hidden_of_not_beside hbeside
    rw [turn_hidden hoption hhidden, turn_hidden hoption hhidden, hraw]

theorem NamedAlike.agreeBeside {options : OrderedMap String Value}
    (h : NamedAlike options selections selections') :
    AgreeBeside options selections selections' := by
  refine OrderedMap.ext ?_
  change selections.entries.filter _ = selections'.entries.filter _
  unfold NamedAlike at h
  generalize selections.entries = entries at h ⊢
  generalize selections'.entries = entries' at h ⊢
  induction h with
  | nil => rfl
  | cons hpq _ ih =>
    obtain ⟨hid, hraw⟩ := hpq
    rw [List.filter_cons, List.filter_cons, ih, ← hid]
    split
    · next hbeside =>
      rw [if_pos hbeside] at hraw
      rw [Prod.ext hid hraw]
    · rfl

/-- **And they resolve to the same result.** -/
theorem NamedAlike.resolve (h : NamedAlike (indexOptions optionSets) selections selections')
    (base : ℤ) (today : Option String) :
    resolve P optionSets selections base today = resolve P optionSets selections' base today := by
  have hagree := evaluation_agree (P := P) h.agreeBeside
  have hloop : ∀ ctx : Context, ctx.options = indexOptions optionSets →
      takeAll ctx selections = takeAll ctx selections' := by
    intro ctx hctx
    unfold takeAll
    unfold NamedAlike at h
    generalize selections.entries = entries at h ⊢
    generalize selections'.entries = entries' at h ⊢
    generalize Taken.start = t
    induction h generalizing t with
    | nil => rfl
    | cons hpq _ ih =>
      rw [List.foldl_cons, List.foldl_cons, StandsAlike.turn (hctx ▸ hpq), ih]
  unfold SelectionResolver.resolve
  dsimp only
  rw [hagree.refused, context_congr hagree.states, hloop _ rfl]

/-! ## Prices read nothing of what was collected -/

theorem setPriceFor_fst (option : Value) (states : String → TargetState)
    (optionId valueId : String) (unpriced unpriced' : List String) :
    (setPriceFor option states optionId valueId unpriced).1 =
      (setPriceFor option states optionId valueId unpriced').1 := by
  unfold setPriceFor
  dsimp only
  generalize (if valueId = "" then seed else states valueId) = ofValue
  split
  · rfl
  split
  · rfl
  split
  · rfl
  · rfl

theorem deltaFor_fst (value : Value) (base : ℤ) (unpriced unpriced' : List String) :
    (deltaFor value base unpriced).1 = (deltaFor value base unpriced').1 := by
  unfold deltaFor
  dsimp only
  split
  · rfl
  split
  · split
    · rfl
    split
    · rfl
    · rfl
  split
  · rfl
  · rfl

theorem perUnitDelta_fst (pricing : Value) (answer : String) (unpriced unpriced' : List String) :
    (perUnitDelta pricing answer unpriced).1 = (perUnitDelta pricing answer unpriced').1 := by
  unfold perUnitDelta
  split
  · split
    · rfl
    split
    · rfl
    · rfl
  · rfl

theorem tieredDelta_fst (pricing : Value) (answer : String) (unpriced unpriced' : List String) :
    (tieredDelta pricing answer unpriced).1 = (tieredDelta pricing answer unpriced').1 := by
  unfold tieredDelta
  split
  · rfl
  split
  · split
    · rfl
    · rfl
  · exact perUnitDelta_fst _ answer unpriced unpriced'

theorem optionDelta_fst (measure : String → ℕ) (option : Value) (answer : String)
    (unpriced unpriced' : List String) (ruled : Ruled) :
    (optionDelta measure option answer unpriced ruled).1 =
      (optionDelta measure option answer unpriced' ruled).1 := by
  unfold optionDelta
  dsimp only
  cases ruled with
  | refused => rfl
  | price amount => rfl
  | silent =>
    dsimp only
    split
    · rfl
    split
    · rfl
    split
    · split
      · rfl
      · rfl
    split
    · split
      · rfl
      split
      · exact tieredDelta_fst _ answer unpriced unpriced'
      · exact perUnitDelta_fst _ answer unpriced unpriced'
    · rfl

/-- What an answered option adds to the price. -/
def answerDelta (ctx : Context) (id : String) (option : Value) (answer : String) : ℤ :=
  (optionDelta (Text.measure ctx.platform) option answer []
    (setPriceFor option ctx.states id "" []).1).1

theorem deltas_accept (t : Taken) (ctx : Context) (id : String) (option : Value)
    (answer : String) :
    (t.accept ctx id option answer).deltas =
      t.deltas.set id (.int (answerDelta ctx id option answer)) := by
  unfold answerDelta
  rw [setPriceFor_fst option ctx.states id "" [] t.unpriced,
    optionDelta_fst _ option answer [] (setPriceFor option ctx.states id "" t.unpriced).2]
  rfl

theorem total_foldl (ctx : Context) (id : String) (option : Value) (values : List Value)
    {a b : Added} (htotal : a.total = b.total) :
    (values.foldl (fun (added : Added) value => added.add ctx id option value) a).total =
      (values.foldl (fun (added : Added) value => added.add ctx id option value) b).total := by
  induction values generalizing a b with
  | nil => exact htotal
  | cons value values ih =>
    have hruled := setPriceFor_fst option ctx.states id (value.text "id") a.unpriced b.unpriced
    rw [List.foldl_cons, List.foldl_cons]
    refine ih ?_
    unfold Added.add
    dsimp only
    rw [hruled]
    split
    · exact htotal
    · rw [htotal]
    · rw [htotal, deltaFor_fst value ctx.base _
        (setPriceFor option ctx.states id (value.text "id") b.unpriced).2]

theorem weight_foldl (ctx : Context) (id : String) (option : Value) (values : List Value)
    {a b : Added} (hweight : a.weightGrams = b.weightGrams) :
    (values.foldl (fun (added : Added) value => added.add ctx id option value) a).weightGrams =
      (values.foldl (fun (added : Added) value => added.add ctx id option value) b).weightGrams
    := by
  induction values generalizing a b with
  | nil => exact hweight
  | cons value values ih =>
    have hadd : ∀ added : Added, (added.add ctx id option value).weightGrams =
        added.weightGrams.add (weightFor value) := by
      intro added
      unfold Added.add
      dsimp only
      split
      · rfl
      · rfl
      · rfl
    rw [List.foldl_cons, List.foldl_cons]
    refine ih ?_
    rw [hadd, hadd, hweight]

/-! ## What is taken beside hidden inputs -/

/-- The errors about options that are no hidden inputs. -/
def besideErrors (options : OrderedMap String Value) (errors : List Error) : List Error :=
  errors.filter fun error => error.field.any (besideHidden options)

/-- What was taken and refused of options that are no hidden inputs. Types and
sets are collected from all options alike, and are left out. -/
def Taken.beside (options : OrderedMap String Value) (t : Taken) : Taken where
  errors := besideErrors options t.errors
  deltas := t.deltas.restrict (besideHidden options)
  chosen := t.chosen.restrict (besideHidden options)
  labels := t.labels.restrict (besideHidden options)
  unpriced := []
  setIds := []
  optionSets := t.optionSets.restrict (besideHidden options)
  weightGrams := t.weightGrams
  skuSuffixes := t.skuSuffixes.restrict (besideHidden options)
  textBytes := t.textBytes

variable {options : OrderedMap String Value}

theorem Taken.beside_congr (errors : besideErrors options t.errors = besideErrors options t'.errors)
    (deltas : t.deltas.restrict (besideHidden options) = t'.deltas.restrict (besideHidden options))
    (chosen : t.chosen.restrict (besideHidden options) = t'.chosen.restrict (besideHidden options))
    (labels : t.labels.restrict (besideHidden options) = t'.labels.restrict (besideHidden options))
    (optionSets : t.optionSets.restrict (besideHidden options) =
      t'.optionSets.restrict (besideHidden options)) (weightGrams : t.weightGrams = t'.weightGrams)
    (skuSuffixes : t.skuSuffixes.restrict (besideHidden options) =
      t'.skuSuffixes.restrict (besideHidden options)) (textBytes : t.textBytes = t'.textBytes) :
    t.beside options = t'.beside options := by
  unfold Taken.beside
  rw [errors, deltas, chosen, labels, optionSets, weightGrams, skuSuffixes, textBytes]

theorem besideErrors_append (errors more : List Error) :
    besideErrors options (besideErrors options errors ++ more) =
      besideErrors options (errors ++ more) := by
  unfold besideErrors
  rw [List.filter_append, List.filter_append, List.filter_filter]
  simp only [Bool.and_self]

theorem besideErrors_besideErrors (errors : List Error) :
    besideErrors options (besideErrors options errors) = besideErrors options errors := by
  have h : besideErrors options (besideErrors options errors ++ []) =
      besideErrors options (errors ++ []) := besideErrors_append errors []
  rwa [List.append_nil, List.append_nil] at h

theorem Taken.beside_beside (t : Taken) : (t.beside options).beside options = t.beside options :=
  Taken.beside_congr (besideErrors_besideErrors _) (OrderedMap.restrict_restrict _ _)
    (OrderedMap.restrict_restrict _ _) (OrderedMap.restrict_restrict _ _)
    (OrderedMap.restrict_restrict _ _) rfl (OrderedMap.restrict_restrict _ _) rfl

theorem beside_refuse (t : Taken) (id : String) (violation : Violation) :
    ((t.beside options).refuse id violation).beside options =
      (t.refuse id violation).beside options :=
  Taken.beside_congr (besideErrors_append _ _) (OrderedMap.restrict_restrict _ _)
    (OrderedMap.restrict_restrict _ _) (OrderedMap.restrict_restrict _ _)
    (OrderedMap.restrict_restrict _ _) rfl (OrderedMap.restrict_restrict _ _) rfl

theorem beside_accept (t : Taken) (ctx : Context) (id : String) (option : Value)
    (answer : String) :
    ((t.beside options).accept ctx id option answer).beside options =
      (t.accept ctx id option answer).beside options := by
  refine Taken.beside_congr (besideErrors_besideErrors _) ?_
    (OrderedMap.restrict_set_restrict _ _ _ _) (OrderedMap.restrict_set_restrict _ _ _ _) ?_ rfl
    (OrderedMap.restrict_restrict _ _) rfl
  · rw [deltas_accept, deltas_accept]
    exact OrderedMap.restrict_set_restrict _ _ _ _
  · unfold Taken.accept
    dsimp only
    split
    · exact OrderedMap.restrict_restrict _ _
    · exact OrderedMap.restrict_set_restrict _ _ _ _

theorem beside_choose (t : Taken) (ctx : Context) (id : String) (option : Value)
    (keys : List String) :
    ((t.beside options).choose ctx id option keys).beside options =
      (t.choose ctx id option keys).beside options := by
  have htotal := total_foldl ctx id option (keys.map (valueAt option))
    (a := ⟨.int 0, [], t.weightGrams⟩) (b := ⟨.int 0, t.unpriced, t.weightGrams⟩) rfl
  have hweight := weight_foldl ctx id option (keys.map (valueAt option))
    (a := ⟨.int 0, [], t.weightGrams⟩) (b := ⟨.int 0, t.unpriced, t.weightGrams⟩) rfl
  refine Taken.beside_congr (besideErrors_besideErrors _) ?_
    (OrderedMap.restrict_set_restrict _ _ _ _) (OrderedMap.restrict_set_restrict _ _ _ _)
    (OrderedMap.restrict_restrict _ _) hweight ?_ rfl
  · change ((t.deltas.restrict _).set id _).restrict _ = (t.deltas.set id _).restrict _
    rw [OrderedMap.restrict_set_restrict]
    unfold Taken.beside
    dsimp only
    rw [htotal]
  · unfold Taken.choose
    dsimp only
    split
    · exact OrderedMap.restrict_restrict _ _
    · exact OrderedMap.restrict_set_restrict _ _ _ _

theorem beside_answer (t : Taken) (ctx : Context) (id : String) (option : Value)
    (reading : Reading) :
    ((t.beside options).answer ctx id option reading).beside options =
      (t.answer ctx id option reading).beside options := by
  cases reading with
  | skipped => exact t.beside_beside
  | refused violation => exact beside_refuse t id violation
  | taken answer =>
    unfold Taken.answer
    dsimp only
    by_cases htext : (isFreeText option && !isHidden option) = true
    · rw [if_pos htext, if_pos htext]
      by_cases hmuch : maxTextBytes < t.textBytes + answer.utf8ByteSize
      · have hmuch' : maxTextBytes < (t.beside options).textBytes + answer.utf8ByteSize := hmuch
        rw [if_pos hmuch, if_pos hmuch']
        exact beside_refuse { t with textBytes := t.textBytes + answer.utf8ByteSize } id _
      · have hmuch' : ¬ maxTextBytes < (t.beside options).textBytes + answer.utf8ByteSize := hmuch
        rw [if_neg hmuch, if_neg hmuch']
        exact beside_accept { t with textBytes := t.textBytes + answer.utf8ByteSize } ctx id
          option answer
    · rw [if_neg htext, if_neg htext]
      exact beside_accept t ctx id option answer

/-- **A turn makes nothing, beside hidden inputs, of what was taken of
them.** -/
theorem beside_turn (t : Taken) (ctx : Context) (p : String × Value) :
    ((t.beside options).turn ctx p).beside options = (t.turn ctx p).beside options := by
  unfold Taken.turn
  cases ctx.options.get? p.1 with
  | none => exact beside_refuse t p.1 _
  | some option =>
    dsimp only
    cases ctx.ruleHidden p.1 with
    | true => exact beside_refuse t p.1 _
    | false =>
    rw [if_neg Bool.false_ne_true, if_neg Bool.false_ne_true]
    cases sentKeys option p.2 with
    | none => exact beside_refuse t p.1 _
    | some sent =>
      cases sent with
      | nil => exact t.beside_beside
      | cons first rest =>
        dsimp only
        unfold Taken.take
        cases read ctx.platform ctx.today option
            ((distinct ((first :: rest).map Value.castString)).headD "") with
        | some reading => exact beside_answer t ctx p.1 option reading
        | none =>
          dsimp only
          cases choiceViolation ctx option
              (distinct ((first :: rest).map Value.castString)) with
          | some violation => exact beside_refuse t p.1 violation
          | none => exact beside_choose t ctx p.1 option _

theorem restrict_set_hidden {α : Type} (h : ¬ besideHidden options id = true)
    (m : OrderedMap String α) (a : α) :
    (m.set id a).restrict (besideHidden options) = m.restrict (besideHidden options) := by
  rw [OrderedMap.restrict_set, if_neg h]

/-- **The turn of a hidden input changes nothing beside them.** -/
theorem beside_turn_hidden (h : ¬ besideHidden ctx.options p.1 = true) :
    (t.turn ctx p).beside ctx.options = t.beside ctx.options := by
  obtain ⟨id, raw⟩ := p
  obtain ⟨option, hoption, hhidden⟩ := hidden_of_not_beside h
  have hrefuse : ∀ violation, (t.refuse id violation).beside ctx.options =
      t.beside ctx.options := by
    intro violation
    refine Taken.beside_congr ?_ rfl rfl rfl rfl rfl rfl rfl
    have hnone : besideErrors ctx.options [⟨violation.code, some id, violation.params⟩] = [] :=
      List.filter_cons_of_neg h
    unfold besideErrors at hnone
    unfold Taken.refuse besideErrors
    rw [List.filter_append, hnone, List.append_nil]
  rw [turn_hidden hoption hhidden]
  split
  · exact hrefuse _
  split
  · unfold readHidden
    split
    · rfl
    · unfold Taken.answer
      dsimp only
      rw [hhidden, Bool.not_true, Bool.and_false, if_neg Bool.false_ne_true]
      refine Taken.beside_congr rfl ?_ (restrict_set_hidden h _ _) (restrict_set_hidden h _ _) ?_
        rfl rfl rfl
      · rw [deltas_accept]
        exact restrict_set_hidden h _ _
      · unfold Taken.accept
        dsimp only
        split
        · rfl
        · exact restrict_set_hidden h _ _
  · exact hrefuse _

/-- **Nor does the loop make anything of them**: beside hidden inputs it takes
what it takes of the other selections alone. -/
theorem beside_foldl (ctx : Context) (entries : List (String × Value)) (t : Taken) :
    (entries.foldl (Taken.turn ctx) t).beside ctx.options =
      ((entries.filter fun p => besideHidden ctx.options p.1).foldl (Taken.turn ctx) t).beside
        ctx.options := by
  have hview : ∀ (l : List (String × Value)) (t : Taken),
      (l.foldl (Taken.turn ctx) (t.beside ctx.options)).beside ctx.options =
        (l.foldl (Taken.turn ctx) t).beside ctx.options := by
    intro l
    induction l with
    | nil => exact fun t => t.beside_beside
    | cons p l ih =>
      intro t
      rw [List.foldl_cons, List.foldl_cons, ← ih, beside_turn, ih]
  induction entries generalizing t with
  | nil => rfl
  | cons p entries ih =>
    rw [List.foldl_cons, ih, List.filter_cons]
    split
    · rfl
    · next hidden => rw [← hview, beside_turn_hidden hidden, hview]

/-- **Requests that agree are taken alike beside hidden inputs.** -/
theorem AgreeBeside.takeAll (h : AgreeBeside ctx.options selections selections') :
    (takeAll ctx selections).beside ctx.options = (takeAll ctx selections').beside ctx.options := by
  have hentries : (selections.entries.filter fun p => besideHidden ctx.options p.1) =
      selections'.entries.filter fun p => besideHidden ctx.options p.1 :=
    congrArg OrderedMap.entries h
  unfold SelectionResolver.takeAll
  rw [beside_foldl, hentries, ← beside_foldl]

/-! ## What is required beside hidden inputs -/

/-- Whether an option is reported already is said by the errors about such
options. -/
theorem alreadyReported_beside (h : besideHidden options id = true) :
    alreadyReported (besideErrors options errors) id = alreadyReported errors id := by
  unfold alreadyReported besideErrors
  rw [List.any_filter]
  congr 1
  refine funext fun error => ?_
  by_cases hfield : error.field = some id
  · rw [hfield, Option.any_some, h, Bool.true_and]
  · rw [decide_eq_false hfield, Bool.and_false]

/-- What a turn of the required pass finds: nothing, or that its own option is
missing. -/
theorem eq_of_require (h : require ctx chosen (some errors) p = some found) :
    found = errors ∨ found = errors ++ [⟨errorRequired, some p.1, []⟩] := by
  unfold require at h
  split at h
  · exact Or.inl (Option.some.inj h).symm
  split at h
  · exact Or.inl (Option.some.inj h).symm
  split at h
  · simp at h
  rw [Option.map_some] at h
  split at h
  · exact Or.inl (Option.some.inj h).symm
  · exact Or.inr (Option.some.inj h).symm

/-- **A turn of the required pass finds the same beside hidden inputs**, where
the same was found and chosen. -/
theorem beside_require (hchosen : chosen.restrict (besideHidden ctx.options) =
      chosen'.restrict (besideHidden ctx.options))
    (herrors : besideErrors ctx.options errors = besideErrors ctx.options errors')
    (h : require ctx chosen (some errors) p = some found)
    (h' : require ctx chosen' (some errors') p = some found') :
    besideErrors ctx.options found = besideErrors ctx.options found' := by
  by_cases hbeside : besideHidden ctx.options p.1 = true
  · have hget : chosen.get? p.1 = chosen'.get? p.1 := by
      rw [← chosen.get?_restrict hbeside, hchosen, chosen'.get?_restrict hbeside]
    have hreported : alreadyReported errors p.1 = alreadyReported errors' p.1 := by
      rw [← alreadyReported_beside hbeside, herrors, alreadyReported_beside hbeside]
    unfold require at h h'
    rw [Option.map_some, hget, hreported] at h
    rw [Option.map_some] at h'
    by_cases hhidden : ctx.ruleHidden p.1 = true
    · rw [if_pos hhidden] at h h'
      rw [← Option.some.inj h, ← Option.some.inj h', herrors]
    rw [if_neg hhidden] at h h'
    by_cases htaken : (!isRequired ctx.states p.1 p.2 || (chosen'.get? p.1).isSome) = true
    · rw [if_pos htaken] at h h'
      rw [← Option.some.inj h, ← Option.some.inj h', herrors]
    rw [if_neg htaken] at h h'
    by_cases hinteger : isIntegerKey p.1 = true
    · rw [if_pos hinteger] at h
      simp at h
    rw [if_neg hinteger] at h h'
    by_cases hfound : alreadyReported errors' p.1 = true
    · rw [if_pos hfound] at h h'
      rw [← Option.some.inj h, ← Option.some.inj h', herrors]
    · rw [if_neg hfound] at h h'
      rw [← Option.some.inj h, ← Option.some.inj h', ← besideErrors_append, herrors,
        besideErrors_append]
  · -- Whatever is found of a hidden input is about it.
    have hnone : ∀ {errors found : List Error},
        found = errors ∨ found = errors ++ [⟨errorRequired, some p.1, []⟩] →
        besideErrors ctx.options found = besideErrors ctx.options errors := by
      rintro errors found (rfl | rfl)
      · rfl
      · have hone : besideErrors ctx.options [⟨errorRequired, some p.1, []⟩] = [] :=
          List.filter_cons_of_neg hbeside
        unfold besideErrors at hone ⊢
        rw [List.filter_append, hone, List.append_nil]
    rw [hnone (eq_of_require h), hnone (eq_of_require h'), herrors]

/-- **And so does the whole pass.** -/
theorem beside_foldl_require (hchosen : chosen.restrict (besideHidden ctx.options) =
      chosen'.restrict (besideHidden ctx.options))
    (herrors : besideErrors ctx.options errors = besideErrors ctx.options errors')
    (h : entries.foldl (require ctx chosen) (some errors) = some found)
    (h' : entries.foldl (require ctx chosen') (some errors') = some found') :
    besideErrors ctx.options found = besideErrors ctx.options found' := by
  have hthrown : ∀ (chosen : OrderedMap String Value) (l : List (String × Value)),
      l.foldl (require ctx chosen) none = none := by
    intro chosen l
    induction l with
    | nil => rfl
    | cons p l ih =>
      have hstep : require ctx chosen none p = none := by
        unfold require
        split_ifs <;> rfl
      rw [List.foldl_cons, hstep, ih]
  induction entries generalizing errors errors' with
  | nil =>
    rw [← Option.some.inj h, ← Option.some.inj h']
    exact herrors
  | cons p entries ih =>
    rw [List.foldl_cons] at h h'
    cases hp : require ctx chosen (some errors) p with
    | none =>
      rw [hp, hthrown] at h
      simp at h
    | some between =>
      cases hp' : require ctx chosen' (some errors') p with
      | none =>
        rw [hp', hthrown] at h'
        simp at h'
      | some between' =>
        rw [hp] at h
        rw [hp'] at h'
        exact ih (beside_require hchosen herrors hp hp') h h'

/-! ## Results beside hidden inputs -/

/-- The errors of a result about options that are no hidden inputs. -/
def Result.besideErrors (options : OrderedMap String Value) : Result → List Error
  | .errors found => SelectionResolver.besideErrors options found
  | _ => []

/-- Two resolutions agree on every option that is no hidden input. -/
structure Resolution.AgreeBeside (options : OrderedMap String Value) (r r' : Resolution) :
    Prop where
  deltas : r.deltas.restrict (besideHidden options) = r'.deltas.restrict (besideHidden options)
  resolved : r.resolved.restrict (besideHidden options) =
    r'.resolved.restrict (besideHidden options)
  labels : r.labels.restrict (besideHidden options) = r'.labels.restrict (besideHidden options)
  optionSets : r.optionSets.restrict (besideHidden options) =
    r'.optionSets.restrict (besideHidden options)
  skuSuffixes : r.skuSuffixes.restrict (besideHidden options) =
    r'.skuSuffixes.restrict (besideHidden options)
  weightDeltaGrams : r.weightDeltaGrams = r'.weightDeltaGrams

theorem Resolution.AgreeBeside.get? (h : r.AgreeBeside options r')
    (hid : besideHidden options id = true) :
    r.resolved.get? id = r'.resolved.get? id ∧ r.deltas.get? id = r'.deltas.get? id ∧
      r.labels.get? id = r'.labels.get? id := by
  refine ⟨?_, ?_, ?_⟩
  · rw [← r.resolved.get?_restrict hid, h.resolved, r'.resolved.get?_restrict hid]
  · rw [← r.deltas.get?_restrict hid, h.deltas, r'.deltas.get?_restrict hid]
  · rw [← r.labels.get?_restrict hid, h.labels, r'.labels.get?_restrict hid]

/-- What a loop concludes is what the required pass found, unless it throws. -/
theorem besideErrors_conclude (h : conclude ctx t ≠ .threw) :
    ∃ found, ctx.options.entries.foldl (require ctx t.chosen) (some t.errors) = some found ∧
      (conclude ctx t).besideErrors ctx.options = besideErrors ctx.options found := by
  unfold conclude at h ⊢
  cases hfold : ctx.options.entries.foldl (require ctx t.chosen) (some t.errors) with
  | none =>
    rw [hfold] at h
    exact absurd rfl h
  | some found =>
    refine ⟨found, rfl, ?_⟩
    cases found with
    | cons error found => rfl
    | nil =>
      dsimp only
      split
      · rfl
      · rfl

/-- Loops that took the same beside hidden inputs conclude the same about
options beside them. -/
theorem besideErrors_conclude_eq (hview : t.beside ctx.options = t'.beside ctx.options)
    (h : conclude ctx t ≠ .threw) (h' : conclude ctx t' ≠ .threw) :
    (conclude ctx t).besideErrors ctx.options = (conclude ctx t').besideErrors ctx.options := by
  obtain ⟨found, hfound, herrors⟩ := besideErrors_conclude h
  obtain ⟨found', hfound', herrors'⟩ := besideErrors_conclude h'
  rw [herrors, herrors']
  exact beside_foldl_require (congrArg Taken.chosen hview) (congrArg Taken.errors hview) hfound
    hfound'

theorem agreeBeside_conclude (hview : t.beside ctx.options = t'.beside ctx.options)
    (h : conclude ctx t = .ok r) (h' : conclude ctx t' = .ok r') :
    r.AgreeBeside ctx.options r' := by
  obtain ⟨-, -, total, -, rfl⟩ := conclude_eq_ok h
  obtain ⟨-, -, total', -, rfl⟩ := conclude_eq_ok h'
  have hweight : (t.beside ctx.options).weightGrams = (t'.beside ctx.options).weightGrams :=
    congrArg Taken.weightGrams hview
  exact ⟨congrArg Taken.deltas hview, congrArg Taken.chosen hview, congrArg Taken.labels hview,
    congrArg Taken.optionSets hview, congrArg Taken.skuSuffixes hview, hweight⟩

/-! ## The entry of a hidden input -/

/-- What a hidden input answers with, where something is configured. -/
def configured? (P : Platform) (option : Value) : Option String :=
  if configured P option = "" then none else some (configured P option)

theorem Turned.elsewhere {id' : String} (h : Turned ctx t id raw t') (hne : id' ≠ id) :
    t'.chosen.get? id' = t.chosen.get? id' ∧ t'.deltas.get? id' = t.deltas.get? id' ∧
      t'.labels.get? id' = t.labels.get? id' := by
  have hcounted : ∀ option answer, (t.counted option answer).chosen = t.chosen ∧
      (t.counted option answer).deltas = t.deltas ∧
      (t.counted option answer).labels = t.labels := by
    intro option answer
    unfold Taken.counted
    split
    · exact ⟨rfl, rfl, rfl⟩
    · exact ⟨rfl, rfl, rfl⟩
  cases h with
  | refused bytes violation => exact ⟨rfl, rfl, rfl⟩
  | skipped => exact ⟨rfl, rfl, rfl⟩
  | answered option keys answer =>
    obtain ⟨hchosen, hdeltas, hlabels⟩ := hcounted option answer
    refine ⟨?_, ?_, ?_⟩
    · exact (OrderedMap.get?_set_ne _ _ hne).trans (by rw [hchosen])
    · rw [deltas_accept, OrderedMap.get?_set_ne _ _ hne, hdeltas]
    · exact (OrderedMap.get?_set_ne _ _ hne).trans (by rw [hlabels])
  | chosen option keys =>
    exact ⟨OrderedMap.get?_set_ne _ _ hne, OrderedMap.get?_set_ne _ _ hne,
      OrderedMap.get?_set_ne _ _ hne⟩

theorem elsewhere_foldl (h : id ∉ entries.map Prod.fst) (t : Taken) :
    (entries.foldl (Taken.turn ctx) t).chosen.get? id = t.chosen.get? id ∧
      (entries.foldl (Taken.turn ctx) t).deltas.get? id = t.deltas.get? id ∧
      (entries.foldl (Taken.turn ctx) t).labels.get? id = t.labels.get? id := by
  induction entries generalizing t with
  | nil => exact ⟨rfl, rfl, rfl⟩
  | cons p entries ih =>
    rw [List.map_cons, List.mem_cons, not_or] at h
    obtain ⟨hchosen, hdeltas, hlabels⟩ := (turned ctx t p).elsewhere h.1
    rw [List.foldl_cons, ← hchosen, ← hdeltas, ← hlabels]
    exact ih h.2 _

/-- **A loop without errors takes of a hidden input it is sent what is
configured**, at the price of that. -/
theorem takeAll_hidden (herrors : (takeAll ctx selections).errors = [])
    (hoption : ctx.options.get? id = some option) (hhidden : isHidden option = true)
    (hsent : id ∈ selections.keys) :
    (takeAll ctx selections).chosen.get? id = (configured? ctx.platform option).map .str ∧
      (takeAll ctx selections).deltas.get? id =
        (configured? ctx.platform option).map
          (fun answer => .int (answerDelta ctx id option answer)) ∧
      (takeAll ctx selections).labels.get? id =
        (configured? ctx.platform option).map (label option) := by
  obtain ⟨⟨id', raw⟩, hmem, heq⟩ := List.mem_map.1 hsent
  obtain rfl : id' = id := heq
  obtain ⟨before, after, hsplit⟩ := List.append_of_mem hmem
  have hnodup := selections.nodup
  rw [hsplit, List.map_append, List.map_cons, List.nodup_append, List.nodup_cons] at hnodup
  obtain ⟨-, ⟨hafter, -⟩, hbefore⟩ := hnodup
  unfold takeAll at herrors ⊢
  rw [hsplit, List.foldl_append, List.foldl_cons] at herrors ⊢
  obtain ⟨hchosen, hdeltas, hlabels⟩ := @elsewhere_foldl _ ctx _
    (fun h => hbefore id' h id' List.mem_cons_self rfl) Taken.start
  generalize before.foldl (Taken.turn ctx) Taken.start = t at herrors hchosen hdeltas hlabels ⊢
  have hturn : (t.turn ctx (id', raw)).errors = [] := errors_foldl ctx after _ herrors
  obtain ⟨hchosen', hdeltas', hlabels'⟩ :=
    elsewhere_foldl hafter (t.turn ctx (id', raw))
  rw [hchosen', hdeltas', hlabels']
  have hrefused : ∀ violation, (t.refuse id' violation).errors ≠ [] := fun violation =>
    List.append_ne_nil_of_right_ne_nil _ (List.cons_ne_nil _ _)
  rw [turn_hidden hoption hhidden] at hturn ⊢
  split at hturn
  · exact absurd hturn (hrefused _)
  split at hturn
  · next hshown hscalar =>
    rw [if_neg hshown, if_pos hscalar]
    unfold readHidden configured?
    split
    · exact ⟨hchosen, hdeltas, hlabels⟩
    · unfold Taken.answer
      dsimp only
      rw [hhidden, Bool.not_true, Bool.and_false, if_neg Bool.false_ne_true, deltas_accept]
      exact ⟨OrderedMap.get?_set_self _ _ _, OrderedMap.get?_set_self _ _ _,
        OrderedMap.get?_set_self _ _ _⟩
  · exact absurd hturn (hrefused _)

/-! ## The result -/

theorem resolve_eq_of_settled {base : ℤ} (h : (evaluation P optionSets selections).refused = none) :
    resolve P optionSets selections base today =
      conclude (context P optionSets base today (evaluation P optionSets selections).states)
        (takeAll (context P optionSets base today (evaluation P optionSets selections).states)
          selections) := by
  unfold resolve
  dsimp only
  rw [h, Option.isSome_none, if_neg Bool.false_ne_true]

/-- **A hidden input that was sent resolves to what the merchant
configured**, and to nothing where nothing is. -/
theorem resolved_hidden {base : ℤ} (h : resolve P optionSets selections base today = .ok r)
    (hoption : (indexOptions optionSets).get? id = some option) (hhidden : isHidden option = true)
    (hsent : id ∈ selections.keys) : r.resolved.get? id = (configured? P option).map .str ∧
      r.deltas.get? id = (configured? P option).map (fun answer => .int (answerDelta
        (context P optionSets base today (evaluation P optionSets selections).states) id option
        answer)) ∧
      r.labels.get? id = (configured? P option).map (label option) := by
  obtain ⟨-, hconclude⟩ := resolve_eq_ok h
  obtain ⟨herrors, -, total, -, rfl⟩ := conclude_eq_ok hconclude
  exact takeAll_hidden herrors hoption hhidden hsent

theorem AgreeBeside.agree_of_ok {base : ℤ}
    (h : AgreeBeside (indexOptions optionSets) selections selections')
    (hr : resolve P optionSets selections base today = .ok r)
    (hr' : resolve P optionSets selections' base today = .ok r') :
    r.AgreeBeside (indexOptions optionSets) r' := by
  have hconclude := (resolve_eq_ok hr).2
  have hconclude' := (resolve_eq_ok hr').2
  rw [← context_congr (evaluation_agree h).states] at hconclude'
  exact agreeBeside_conclude h.takeAll hconclude hconclude'

/-- **What a request sends for hidden inputs decides nothing else.** Of two
requests that agree on every other option, the rules say the same; where they
name the same options in the same places, a hidden input with a scalar in both
or in neither, they resolve to the same result. Every other option is refused
alike, and entered and priced alike where both are accepted; and a hidden
input that an accepted request names holds what the merchant configured, at
the same price in both. -/
theorem hidden_inputs {P : Platform} {optionSets : List Value}
    {selections selections' : OrderedMap String Value} (base : ℤ) (today : Option String)
    (h : AgreeBeside (indexOptions optionSets) selections selections') :
    (evaluation P optionSets selections).Agree (evaluation P optionSets selections') ∧
    (NamedAlike (indexOptions optionSets) selections selections' →
      resolve P optionSets selections base today =
        resolve P optionSets selections' base today) ∧
    (resolve P optionSets selections base today ≠ .threw →
      resolve P optionSets selections' base today ≠ .threw →
      (resolve P optionSets selections base today).besideErrors (indexOptions optionSets) =
        (resolve P optionSets selections' base today).besideErrors (indexOptions optionSets)) ∧
    ∀ r, resolve P optionSets selections base today = .ok r →
      (∀ id option, (indexOptions optionSets).get? id = some option → isHidden option = true →
        id ∈ selections.keys → r.resolved.get? id = (configured? P option).map .str) ∧
      ∀ r', resolve P optionSets selections' base today = .ok r' →
        r.AgreeBeside (indexOptions optionSets) r' ∧
        ∀ id ∈ selections.keys, id ∈ selections'.keys →
          r.resolved.get? id = r'.resolved.get? id ∧ r.deltas.get? id = r'.deltas.get? id ∧
            r.labels.get? id = r'.labels.get? id := by
  have hagree := evaluation_agree (P := P) h
  have hcontext : context P optionSets base today (evaluation P optionSets selections).states =
      context P optionSets base today (evaluation P optionSets selections').states :=
    context_congr hagree.states
  refine ⟨hagree, fun hnamed => hnamed.resolve base today, fun hthrew hthrew' => ?_,
    fun r hr => ⟨fun id option hoption hhidden hsent => ?_, fun r' hr' => ⟨?_, ?_⟩⟩⟩
  · by_cases hsettled : (evaluation P optionSets selections).refused = none
    · rw [resolve_eq_of_settled hsettled] at hthrew ⊢
      rw [resolve_eq_of_settled (hagree.refused ▸ hsettled), ← hcontext] at hthrew' ⊢
      exact besideErrors_conclude_eq h.takeAll hthrew hthrew'
    · have hrefused := Option.isSome_iff_ne_none.2 hsettled
      unfold resolve
      dsimp only
      rw [← hagree.refused, if_pos hrefused, if_pos hrefused]
  · exact (resolved_hidden hr hoption hhidden hsent).1
  · exact h.agree_of_ok hr hr'
  · intro id hsent hsent'
    by_cases hbeside : besideHidden (indexOptions optionSets) id = true
    · exact (h.agree_of_ok hr hr').get? hbeside
    · obtain ⟨option, hoption, hhidden⟩ := hidden_of_not_beside hbeside
      obtain ⟨hresolved, hdeltas, hlabels⟩ := resolved_hidden hr hoption hhidden hsent
      obtain ⟨hresolved', hdeltas', hlabels'⟩ := resolved_hidden hr' hoption hhidden hsent'
      rw [hresolved, hresolved', hdeltas, hdeltas', hlabels, hlabels', hcontext]
      exact ⟨rfl, rfl, rfl⟩

/-! ## What is still looked at -/

/-- A hidden input, with what is configured. -/
def hiddenField (id configured : String) : Value :=
  .arr [("id", .str id), ("type", .str "hidden"), ("value_kind", .str "text"),
    ("default_value", .str configured)]

/-- A set of one hidden input, and a text. -/
def batchSets : List Value := oneGroup [hiddenField "h" "batch-77", field "t" "text" .null] []

/-- A request for the hidden input and the text. -/
def batchRequest (sent : Value) : OrderedMap String Value :=
  ((∅ : OrderedMap String Value).set "h" sent).set "t" (.str "y")

/-- Whatever text is forged, the result is the same. -/
theorem hidden_inputs_forged :
    resolve asciiPlatform batchSets (batchRequest (.str "FORGED")) 1000 none =
      resolve asciiPlatform batchSets (batchRequest (.str "")) 1000 none :=
  (hidden_inputs 1000 none (by decide +kernel)).2.1
    (.cons ⟨rfl, by decide +kernel⟩ (.cons ⟨rfl, by decide +kernel⟩ .nil))

/-- What a request resolves to, as stored. -/
def storedOf (selections : OrderedMap String Value) : Option (List (String × Value)) :=
  (resolve asciiPlatform batchSets selections 1000 none).value.map (·.resolved.entries)

/-- **A list for a hidden input is refused, an entry for it is needed, and it
stands where it was sent**, in requests that agree on the text. -/
theorem hidden_inputs_differ :
    AgreeBeside (indexOptions batchSets) (batchRequest (.str "x"))
        (batchRequest (.ofList [.str "x"])) ∧
      AgreeBeside (indexOptions batchSets) (batchRequest (.str "x")) (answers "t" "y") ∧
      AgreeBeside (indexOptions batchSets) (batchRequest (.str "x"))
        ((answers "t" "y").set "h" (.str "x")) ∧
      storedOf (batchRequest (.str "x")) = some [("h", .str "batch-77"), ("t", .str "y")] ∧
      storedOf (batchRequest (.ofList [.str "x"])) = none ∧
      storedOf (answers "t" "y") = some [("t", .str "y")] ∧
      storedOf ((answers "t" "y").set "h" (.str "x")) =
        some [("t", .str "y"), ("h", .str "batch-77")] := by
  decide +kernel

end Optionia.Engine.SelectionResolver
