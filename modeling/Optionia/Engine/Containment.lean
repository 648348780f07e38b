import Optionia.Engine.Indexes
/-!
# What a hidden target takes with it

An option stands under itself and under its group. `index_containment` says
so of every target that is no value, and of no target says more
(`under_indexContainment`, `under_of_mem_indexContainment`): a value's id
maps to no option, whatever else bears that id.
-/

namespace Optionia.Engine

open Php Rules

/-- An option stands under a target: it is the target, or in its group. -/
def Under (optionSets : List Value) (target id : String) : Prop :=
  ∃ p ∈ placedOptions optionSets, p.option.text "id" = id ∧
    (target = id ∨ target ≠ "" ∧ p.group.text "id" = target)

/-- An option is one of the sets'. -/
def IsOption (optionSets : List Value) (id : String) : Prop :=
  ∃ p ∈ placedOptions optionSets, p.option.text "id" = id

/-- No value bears the id of an option or of a group. -/
def OwnIds (optionSets : List Value) : Prop :=
  ∀ p ∈ placedOptions optionSets, ∀ value ∈ valuesWithId p.option, ∀ id,
    ¬ Under optionSets (value.text "id") id

variable {optionSets : List Value} {id t : String} {states : States}

/-- Ids are values' own where no value's is an option's, nor the name of a
group. -/
theorem ownIds_iff : OwnIds optionSets ↔
    ∀ p ∈ placedOptions optionSets, ∀ value ∈ valuesWithId p.option,
      ∀ q ∈ placedOptions optionSets, value.text "id" ≠ q.option.text "id" ∧
        (value.text "id" ≠ "" → q.group.text "id" ≠ value.text "id") := by
  constructor
  · intro h p hp value hv q hq
    exact ⟨fun hid => h p hp value hv _ ⟨q, hq, rfl, Or.inl hid⟩,
      fun hne hg => h p hp value hv _ ⟨q, hq, rfl, Or.inr ⟨hne, hg⟩⟩⟩
  · rintro h p hp value hv id ⟨q, hq, rfl, hid | ⟨hne, hg⟩⟩
    · exact (h p hp value hv q hq).1 hid
    · exact (h p hp value hv q hq).2 hne hg

instance (optionSets : List Value) : Decidable (OwnIds optionSets) :=
  decidable_of_iff _ ownIds_iff.symm

/-! ## The index of options -/

theorem mem_keys_indexOptions : id ∈ (indexOptions optionSets).keys ↔ IsOption optionSets id := by
  unfold indexOptions IsOption
  have hkeys : ∀ (l : List Placed) (m : OrderedMap String Value),
      id ∈ (l.foldl (fun options p => options.set (p.option.text "id")
        (withField p.option "__set_id" (.str (p.set.text "id")))) m).keys ↔
        id ∈ m.keys ∨ ∃ p ∈ l, p.option.text "id" = id := by
    intro l
    induction l with
    | nil => simp
    | cons p l ih =>
      intro m
      rw [List.foldl_cons, ih, OrderedMap.mem_keys_set]
      simp only [List.mem_cons, exists_eq_or_imp]
      constructor
      · rintro ((rfl | h) | h)
        · exact Or.inr (Or.inl rfl)
        · exact Or.inl h
        · exact Or.inr (Or.inr h)
      · rintro (h | rfl | h)
        · exact Or.inl (Or.inr h)
        · exact Or.inl (Or.inl rfl)
        · exact Or.inr h
  rw [hkeys]
  simp

/-! ## One option -/

theorem under_set_nil (m : Containment) (k t : String) :
    under (m.set k []) t = if t = k then [] else under m t := by
  unfold under OrderedMap.getD
  rw [OrderedMap.get?_set]
  split
  · rfl
  · rfl

theorem mem_under_update (m : Containment) (k id t o : String) :
    o ∈ under (m.update [] k (· ++ [id])) t ↔ o ∈ under m t ∨ t = k ∧ o = id := by
  have hread : under (m.update [] k (· ++ [id])) t =
      if t = k then under m k ++ [id] else under m t := OrderedMap.getD_update m [] k t _
  rw [hread]
  by_cases ht : t = k
  · rw [if_pos ht, List.mem_append, List.mem_singleton, ht]
    exact or_congr_right ⟨fun h => ⟨rfl, h⟩, fun h => h.2⟩
  · rw [if_neg ht]
    exact ⟨Or.inl, fun h => h.resolve_right fun h => ht h.1⟩

theorem under_foldl_set_nil (values : List Value) (m : Containment) (t : String) :
    under (values.foldl (fun under value => under.set (value.text "id") []) m) t =
      if ∃ value ∈ values, value.text "id" = t then [] else under m t := by
  induction values generalizing m with
  | nil => simp
  | cons value values ih =>
    rw [List.foldl_cons, ih, under_set_nil]
    by_cases hrest : ∃ v ∈ values, v.text "id" = t
    · have hany : ∃ v ∈ value :: values, v.text "id" = t := by
        obtain ⟨v, hv, ht⟩ := hrest
        exact ⟨v, List.mem_cons_of_mem _ hv, ht⟩
      rw [if_pos hrest, if_pos hany]
    · rw [if_neg hrest]
      by_cases hhead : t = value.text "id"
      · rw [if_pos hhead, if_pos ⟨value, List.mem_cons_self, hhead.symm⟩]
      · have hnone : ¬ ∃ v ∈ value :: values, v.text "id" = t := by
          rintro ⟨v, hv, ht⟩
          rcases List.mem_cons.1 hv with rfl | hv
          · exact hhead ht.symm
          · exact hrest ⟨v, hv, ht⟩
        rw [if_neg hhead, if_neg hnone]

/-- An option joins a target: itself, or its group where that has a name. -/
def Joins (p : Placed) (target : String) : Prop :=
  target = p.option.text "id" ∨ target ≠ "" ∧ p.group.text "id" = target

/-- **What one option does to the containment**: it joins its targets, and
its values' targets are emptied. -/
theorem mem_under_contain (m : Containment) (p : Placed) (t id : String) :
    id ∈ under (contain m p) t ↔
      (¬ ∃ value ∈ valuesWithId p.option, value.text "id" = t) ∧
        (id ∈ under m t ∨ Joins p t ∧ p.option.text "id" = id) := by
  unfold contain Joins
  dsimp only
  rw [under_foldl_set_nil]
  by_cases hvalue : ∃ value ∈ valuesWithId p.option, value.text "id" = t
  · rw [if_pos hvalue]
    exact ⟨fun h => absurd h List.not_mem_nil, fun h => absurd hvalue h.1⟩
  have hstart : id ∈ under (if p.group.text "id" = "" then m
      else m.update [] (p.group.text "id") (· ++ [p.option.text "id"])) t ↔
      id ∈ under m t ∨ (t ≠ "" ∧ p.group.text "id" = t) ∧ p.option.text "id" = id := by
    by_cases hgroup : p.group.text "id" = ""
    · rw [if_pos hgroup]
      refine ⟨Or.inl, fun h => h.resolve_right ?_⟩
      rintro ⟨⟨hne, hg⟩, -⟩
      exact hne (hg.symm.trans hgroup)
    · rw [if_neg hgroup, mem_under_update]
      refine or_congr_right ⟨?_, ?_⟩
      · rintro ⟨rfl, rfl⟩
        exact ⟨⟨hgroup, rfl⟩, rfl⟩
      · rintro ⟨⟨-, hg⟩, ho⟩
        exact ⟨hg.symm, ho.symm⟩
  rw [if_neg hvalue, mem_under_update, hstart]
  constructor
  · rintro ((h | ⟨hg, ho⟩) | ⟨ht, ho⟩)
    · exact ⟨hvalue, Or.inl h⟩
    · exact ⟨hvalue, Or.inr ⟨Or.inr hg, ho⟩⟩
    · exact ⟨hvalue, Or.inr ⟨Or.inl ht, ho.symm⟩⟩
  · rintro ⟨-, h | ⟨ht | hg, ho⟩⟩
    · exact Or.inl (Or.inl h)
    · exact Or.inr ⟨ht, ho.symm⟩
    · exact Or.inl (Or.inr ⟨hg, ho⟩)

/-! ## The index of what a target contains -/

theorem under_of_joins {p : Placed} (hp : p ∈ placedOptions optionSets) (hjoins : Joins p t)
    (hid : p.option.text "id" = id) : Under optionSets t id :=
  ⟨p, hp, hid, hjoins.imp_left fun h => h.trans hid⟩

/-- **A target contains no option that does not stand under it.** -/
theorem under_of_mem_indexContainment (h : id ∈ under (indexContainment optionSets) t) :
    Under optionSets t id := by
  unfold indexContainment at h
  have hfold : ∀ (l : List Placed) (m : Containment), (∀ p ∈ l, p ∈ placedOptions optionSets) →
      (id ∈ under m t → Under optionSets t id) → id ∈ under (l.foldl contain m) t →
      Under optionSets t id := by
    intro l
    induction l with
    | nil => exact fun m _ hm h => hm h
    | cons p l ih =>
      intro m hl hm h
      rw [List.foldl_cons] at h
      refine ih (contain m p) (fun q hq => hl q (List.mem_cons_of_mem _ hq)) (fun hstep => ?_) h
      rcases ((mem_under_contain m p t id).1 hstep).2 with hm' | ⟨hjoins, hid⟩
      · exact hm hm'
      · exact under_of_joins (hl p List.mem_cons_self) hjoins hid
  exact hfold _ ∅ (fun _ hp => hp) (fun h => absurd h List.not_mem_nil) h

/-- **A target that is no value's contains every option under it.** -/
theorem mem_indexContainment (hids : OwnIds optionSets) (h : Under optionSets t id) :
    id ∈ under (indexContainment optionSets) t := by
  obtain ⟨p, hp, hid, htarget⟩ := h
  have hjoins : Joins p t := htarget.imp_left fun ht => ht.trans hid.symm
  have hvalue : ∀ q ∈ placedOptions optionSets,
      ¬ ∃ value ∈ valuesWithId q.option, value.text "id" = t := by
    rintro q hq ⟨value, hv, rfl⟩
    exact hids q hq value hv id ⟨p, hp, hid, htarget⟩
  -- Once an option has joined, no later turn empties the target.
  have hfold : ∀ (l : List Placed) (m : Containment), (∀ q ∈ l, q ∈ placedOptions optionSets) →
      (id ∈ under m t ∨ p ∈ l) → id ∈ under (l.foldl contain m) t := by
    intro l
    induction l with
    | nil => exact fun m _ h => h.resolve_right List.not_mem_nil
    | cons q l ih =>
      intro m hl h
      rw [List.foldl_cons]
      refine ih (contain m q) (fun r hr => hl r (List.mem_cons_of_mem _ hr)) ?_
      have hnone := hvalue q (hl q List.mem_cons_self)
      rcases h with h | h
      · exact Or.inl ((mem_under_contain m q t id).2 ⟨hnone, Or.inl h⟩)
      · rcases List.mem_cons.1 h with rfl | h
        · exact Or.inl ((mem_under_contain m p t id).2 ⟨hnone, Or.inr ⟨hjoins, hid⟩⟩)
        · exact Or.inr h
  exact hfold _ ∅ (fun _ hp => hp) (Or.inr hp)

/-! ## Hidden options and values -/

/-- Rules hide an option: they hide a target it stands under. -/
def HiddenOption (optionSets : List Value) (states : States) (id : String) : Prop :=
  ∃ t, (stateAt states t).hidden = true ∧ Under optionSets t id

theorem mem_keys_of_hidden (h : (stateAt states t).hidden = true) : t ∈ states.keys := by
  by_contra hnone
  rw [stateAt, OrderedMap.getD, OrderedMap.get?_eq_none.2 hnone] at h
  exact Bool.false_ne_true h

theorem mem_hiddenOptions {containment : Containment} : id ∈ hiddenOptions states containment ↔
      ∃ t, (stateAt states t).hidden = true ∧ id ∈ under containment t := by
  unfold hiddenOptions
  rw [List.mem_flatMap]
  constructor
  · rintro ⟨⟨t, state⟩, hmem, hid⟩
    obtain ⟨hentry, hhidden⟩ := List.mem_filter.1 hmem
    refine ⟨t, ?_, hid⟩
    rw [stateAt, OrderedMap.getD, OrderedMap.get?_eq_some.2 hentry]
    exact hhidden
  · rintro ⟨t, hhidden, hid⟩
    obtain ⟨state, hstate⟩ := Option.isSome_iff_exists.1
      (OrderedMap.isSome_get?.2 (mem_keys_of_hidden hhidden))
    refine ⟨(t, state), List.mem_filter.2 ⟨OrderedMap.get?_eq_some.1 hstate, ?_⟩, hid⟩
    rw [stateAt, OrderedMap.getD, hstate] at hhidden
    exact hhidden

/-- **Every option the resolver counts as hidden is hidden by rules.** -/
theorem hiddenOption_of_mem (h : id ∈ hiddenOptions states (indexContainment optionSets)) :
    HiddenOption optionSets states id := by
  obtain ⟨t, hhidden, hunder⟩ := mem_hiddenOptions.1 h
  exact ⟨t, hhidden, under_of_mem_indexContainment hunder⟩

/-- **And where values bear ids of their own, the resolver counts every one
that is.** -/
theorem mem_of_hiddenOption (hids : OwnIds optionSets) (h : HiddenOption optionSets states id) :
    id ∈ hiddenOptions states (indexContainment optionSets) := by
  obtain ⟨t, hhidden, hunder⟩ := h
  exact mem_hiddenOptions.2 ⟨t, hhidden, mem_indexContainment hids hunder⟩

/-- Rules hide a value: one that targets values does, by its id. -/
def HiddenValue (optionSets : List Value) (states : States) (id : String) : Prop :=
  ∃ rule ∈ indexRules optionSets, rule.text "target_type" = "value" ∧
    rule.text "target_id" = id ∧ (stateAt states id).hidden = true

/-- **The values the resolver counts as hidden are those rules hide.** -/
theorem mem_hiddenValues :
    id ∈ hiddenValues (indexRules optionSets) states ↔ HiddenValue optionSets states id := by
  unfold hiddenValues HiddenValue
  rw [List.mem_map]
  constructor
  · rintro ⟨rule, hmem, rfl⟩
    obtain ⟨hrule, htest⟩ := List.mem_filter.1 hmem
    rw [Bool.and_eq_true, decide_eq_true_eq] at htest
    exact ⟨rule, hrule, htest.1, rfl, htest.2⟩
  · rintro ⟨rule, hrule, htype, rfl, hhidden⟩
    refine ⟨rule, List.mem_filter.2 ⟨hrule, ?_⟩, rfl⟩
    rw [Bool.and_eq_true, decide_eq_true_eq]
    exact ⟨htype, hhidden⟩

end Optionia.Engine
