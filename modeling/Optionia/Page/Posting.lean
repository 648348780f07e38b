import Optionia.Page.Submission
/-!
# An options block, what the page reads in it and what its form posts

`answersIn` goes through the options of a block and takes one answer from each,
by what it finds there: the option itself where it is the control, a checked
box, a select, a typed field. The form posts every control with a name, each
box of a group under the name of the group; where the name ends in `[]` they
become a list, and where it does not the last one stays.
-/

namespace Optionia.Page

open Wire Rules

/-! ## The block -/

/-- A box of a checkbox group. -/
structure Box where
  value : String
  checked : Bool

/-- How many values an option takes. -/
inductive Cardinality where
  | one
  | many

/-- A control, in the state it is in. -/
inductive Control where
  | radio (checked : Option String)
  | checkbox (cardinality : Cardinality) (boxes : List Box)
  /-- A select, with the value of the selected option. -/
  | select (selected : Option String)
  /-- A field that is typed into, or the token of an upload. -/
  | typed (value : String)
  | hidden (value : String)

/-- An option of a block. -/
structure Field where
  id : String
  control : Control

/-- A group of options. -/
structure Group where
  id : String
  fields : List Field

/-- An options block. Groups and options have ids of their own; the templates
render none without. -/
structure Block where
  groups : List Group
  distinct : (groups.map (·.id) ++ (groups.flatMap (·.fields)).map (·.id)).Nodup
  named : "" ∉ groups.map (·.id) ++ (groups.flatMap (·.fields)).map (·.id)

/-- The options of a block, in their order. -/
def Block.fields (block : Block) : List Field := block.groups.flatMap (·.fields)

/-- What `value` and `checked` say of the boxes of a group. -/
def checkedValues (boxes : List Box) : List String :=
  (boxes.filter (·.checked)).map (·.value)

/-- `containmentIn`; a value is under nothing, as what the block does not
have. -/
def containmentIn (block : Block) : Containment :=
  block.groups.foldl (fun under group =>
    group.fields.foldl (fun under field => under.set field.id [field.id])
      (under.set group.id (group.fields.map (·.id)))) ∅

/-! ## What the page reads -/

/-- An option's answer, as the page reads it. -/
def Control.answer : Control → Option String
  | .hidden value => if value ≠ "" then some value else none
  | .radio checked => checked
  | .checkbox _ boxes => (checkedValues boxes).head?
  | .select selected => selected.filter (· ≠ "")
  | .typed value => if value ≠ "" then some value else none

/-- The answers some reading finds in options. -/
def collectAnswers (read : Field → Option Answer) (fields : List Field) : Answers :=
  fields.foldl (fun answers field => (read field).elim answers (answers.set field.id)) ∅

def answersIn (block : Block) : Answers :=
  collectAnswers (fun field => if field.id = "" then none else field.control.answer.map .one)
    block.fields

/-! ## What the form posts -/

/-- Line breaks as a form posts them, of characters. -/
def postedChars : List Char → List Char
  | [] => []
  | '\r' :: '\n' :: cs => '\r' :: '\n' :: postedChars cs
  | '\r' :: cs | '\n' :: cs => '\r' :: '\n' :: postedChars cs
  | c :: cs => c :: postedChars cs

/-- A value as a form posts it: every line break is written `\r\n`. -/
def postedText (value : String) : String := String.ofList (postedChars value.toList)

def Control.posts : Control → Option Answer
  | .hidden value | .typed value => some (.one (postedText value))
  | .radio checked => checked.map fun value => .one (postedText value)
  | .checkbox .one boxes => (checkedValues boxes).getLast?.map fun value => .one (postedText value)
  | .checkbox .many boxes =>
    if (checkedValues boxes).isEmpty then none
    else some (.many ((checkedValues boxes).map postedText))
  | .select selected => selected.map fun value => .one (postedText value)

def posted (block : Block) : Answers := collectAnswers (·.control.posts) block.fields

/-! ## Looking an option up -/

variable {fields : List Field} {o : String} {m : Containment} {groups : List Group}

theorem get?_collectAnswers_of_not_mem (read : Field → Option Answer) (h : o ∉ fields.map (·.id)) :
    (collectAnswers read fields).get? o = none := by
  induction fields using List.reverseRecOn with
  | nil => rfl
  | append_singleton fields field ih =>
    rw [List.map_append, List.mem_append, not_or, List.map_singleton, List.mem_singleton] at h
    rw [collectAnswers, List.foldl_append]
    change ((read field).elim (collectAnswers read fields) _).get? o = none
    cases read field with
    | none => exact ih h.1
    | some answer => exact (OrderedMap.get?_set_ne _ answer h.2).trans (ih h.1)

/-- **What was collected under an option's id is what was read in it.** -/
theorem get?_collectAnswers (read : Field → Option Answer) {field : Field}
    (hnodup : (fields.map (·.id)).Nodup) (hmem : field ∈ fields) :
    (collectAnswers read fields).get? field.id = read field := by
  induction fields using List.reverseRecOn with
  | nil => simp at hmem
  | append_singleton fields last ih =>
    rw [List.map_append, List.map_singleton, ← List.concat_eq_append, List.nodup_concat] at hnodup
    obtain ⟨hlast, hnodup⟩ := hnodup
    rw [collectAnswers, List.foldl_append]
    change ((read last).elim (collectAnswers read fields) _).get? field.id = read field
    obtain hmem | hmem := List.mem_append.1 hmem
    · have hne : field.id ≠ last.id := fun h => hlast (h ▸ List.mem_map_of_mem hmem)
      cases read last with
      | none => exact ih hnodup hmem
      | some answer => exact (OrderedMap.get?_set_ne _ answer hne).trans (ih hnodup hmem)
    · obtain rfl := List.mem_singleton.1 hmem
      cases hread : read field with
      | none => exact get?_collectAnswers_of_not_mem read hlast
      | some answer => exact OrderedMap.get?_set_self _ _ _

/-- The options of a group are under themselves, whatever is written around
them. -/
theorem get?_foldl_fields (h : o ∈ fields.map (·.id) ∨ m.get? o = some [o]) :
    (fields.foldl (fun under field => under.set field.id [field.id]) m).get? o = some [o] := by
  induction fields generalizing m with
  | nil => exact h.resolve_left List.not_mem_nil
  | cons field fields ih =>
    refine ih ?_
    by_cases hid : o = field.id
    · subst hid
      exact .inr (OrderedMap.get?_set_self ..)
    · rw [OrderedMap.get?_set_ne _ _ hid]
      exact h.imp_left fun hmem => (List.mem_cons.1 hmem).resolve_left hid

theorem get?_containmentIn (hgroup : o ∉ groups.map (·.id))
    (h : o ∈ (groups.flatMap (·.fields)).map (·.id) ∨ m.get? o = some [o]) :
    (groups.foldl (fun under group =>
      group.fields.foldl (fun under field => under.set field.id [field.id])
        (under.set group.id (group.fields.map (·.id)))) m).get? o = some [o] := by
  induction groups generalizing m with
  | nil => exact h.resolve_left List.not_mem_nil
  | cons group groups ih =>
    rw [List.map_cons, List.mem_cons, not_or] at hgroup
    refine ih hgroup.2 ?_
    rw [List.flatMap_cons, List.map_append, List.mem_append, or_assoc] at h
    obtain hmem | hmem | hm := h
    · exact .inr (get?_foldl_fields (.inl hmem))
    · exact .inl hmem
    · refine .inr (get?_foldl_fields (.inr ?_))
      rwa [OrderedMap.get?_set_ne _ _ hgroup.1]

theorem get?_containmentIn_of_not_mem
    (h : o ∉ groups.map (·.id) ++ (groups.flatMap (·.fields)).map (·.id)) :
    (groups.foldl (fun under group =>
      group.fields.foldl (fun under field => under.set field.id [field.id])
        (under.set group.id (group.fields.map (·.id)))) m).get? o = m.get? o := by
  have hfields : ∀ {fields : List Field} {m : Containment}, o ∉ fields.map (·.id) →
      (fields.foldl (fun under field => under.set field.id [field.id]) m).get? o = m.get? o := by
    intro fields
    induction fields with
    | nil => exact fun _ => rfl
    | cons field fields ih =>
      intro m hmem
      rw [List.map_cons, List.mem_cons, not_or] at hmem
      exact (ih hmem.2).trans (OrderedMap.get?_set_ne _ _ hmem.1)
  induction groups generalizing m with
  | nil => rfl
  | cons group groups ih =>
    simp only [List.map_cons, List.flatMap_cons, List.map_append, List.mem_append, List.mem_cons,
      not_or] at h
    obtain ⟨⟨hid, hgroups⟩, hown, hrest⟩ := h
    rw [List.foldl_cons, ih (by simp only [List.mem_append, not_or]; exact ⟨hgroups, hrest⟩),
      hfields hown, OrderedMap.get?_set_ne _ _ hid]

namespace Block

variable {block : Block} {field : Field}

theorem nodup_fields : (block.fields.map (·.id)).Nodup := (List.nodup_append.1 block.distinct).2.1

theorem id_ne_empty (h : field ∈ block.fields) : field.id ≠ "" := fun hid =>
  block.named (List.mem_append_right _ (hid ▸ List.mem_map_of_mem h))

/-- **An option controls itself.** -/
theorem under_containmentIn (h : field ∈ block.fields) :
    under (containmentIn block) field.id = [field.id] := by
  have hmem : field.id ∈ block.fields.map (·.id) := List.mem_map_of_mem h
  have hgroup : field.id ∉ block.groups.map (·.id) := fun hg =>
    (List.nodup_append.1 block.distinct).2.2 _ hg _ hmem rfl
  rw [under, OrderedMap.getD, containmentIn, get?_containmentIn hgroup (.inl hmem)]
  rfl

theorem under_containmentIn_empty : under (containmentIn block) "" = [] := by
  rw [under, OrderedMap.getD, containmentIn, get?_containmentIn_of_not_mem block.named]
  rfl

theorem get?_answersIn (h : field ∈ block.fields) :
    (answersIn block).get? field.id = field.control.answer.map .one := by
  rw [answersIn, get?_collectAnswers _ nodup_fields h, if_neg (id_ne_empty h)]

theorem get?_posted (h : field ∈ block.fields) :
    (posted block).get? field.id = field.control.posts :=
  get?_collectAnswers _ nodup_fields h

theorem get?_of_not_mem {o : String} (h : o ∉ block.fields.map (·.id)) :
    (answersIn block).get? o = none ∧ (posted block).get? o = none :=
  ⟨get?_collectAnswers_of_not_mem _ h, get?_collectAnswers_of_not_mem _ h⟩

end Block

end Optionia.Page

/-! ## What the page reads and what it posts

The page evaluates its rules on the answers it reads in the controls, the
plugin on those the form posts. A condition is read alike in both where the
option posts one value, as it stands; a list is read as its one member except
by a numeric comparison. So the two differ exactly in the options of
`Control.ReadAsPosted`, and at the pass limit, which an empty value that is
posted and not read can cross (`hides_alike_iff`).
-/

namespace Optionia.Page

open Wire Rules

/-! ## Reading an answer -/

/-- An answer as a condition reads it. -/
def readAnswer (answer : Option Answer) : Js.Value := (answer.map Answer.toJs).getD .null

/-- No operator tells two answers apart. -/
def Alike (a b : Option Answer) : Prop :=
  ∀ operator operand, Js.operatorHolds operator (readAnswer a) operand =
    Js.operatorHolds operator (readAnswer b) operand

def WritesNumber (value : String) : Prop := (Js.numericValue (.str value)).isSome

/-- What an option posts is one value, and the one the page reads: as it
stands, and from a list no empty value and no number. -/
def Control.ReadAsPosted : Control → Prop
  | .hidden value | .typed value => postedText value = value
  | .radio checked => ∀ value ∈ checked, postedText value = value
  | .select selected => ∀ value ∈ selected, postedText value = value
  | .checkbox .one boxes =>
    (checkedValues boxes).head? = (checkedValues boxes).getLast?.map postedText
  | .checkbox .many boxes =>
    checkedValues boxes = [] ∨ ∃ value, checkedValues boxes = [value] ∧
      postedText value = value ∧ value ≠ "" ∧ ¬ WritesNumber value

@[simp] theorem postedText_empty : postedText "" = "" := rfl

theorem alike_blank : Alike none (some (.one "")) :=
  Js.operatorHolds_congr rfl (fun h => absurd h Bool.false_ne_true) (by decide)

theorem alike_singleton {value : String} (hne : value ≠ "") (hnumber : ¬ WritesNumber value) :
    Alike (some (.one value)) (some (.many [value])) := by
  refine Js.operatorHolds_congr (decide_eq_true hne) (fun _ => rfl) ?_
  exact Option.not_isSome_iff_eq_none.1 hnumber

variable {control : Control}

/-- **What is read as it is posted is read alike.** -/
theorem Control.alike (h : control.ReadAsPosted) :
    Alike (control.answer.map .one) control.posts := by
  cases control with
  | radio checked =>
    cases checked with
    | none => exact fun _ _ => rfl
    | some value =>
      rw [answer, posts, Option.map_some, Option.map_some, h value rfl]
      exact fun _ _ => rfl
  | checkbox cardinality boxes =>
    cases cardinality with
    | one =>
      rw [ReadAsPosted] at h
      rw [answer, posts, h, Option.map_map]
      exact fun _ _ => rfl
    | many =>
      rw [answer, posts]
      obtain hnone | ⟨value, hone, htext, hne, hnumber⟩ := h
      · rw [hnone]
        exact fun _ _ => rfl
      · rw [hone, List.map_singleton, htext]
        exact alike_singleton hne hnumber
  | select selected =>
    cases selected with
    | none => exact fun _ _ => rfl
    | some value =>
      rw [answer, posts, Option.map_some, h value rfl]
      by_cases hempty : value = ""
      · subst hempty
        exact alike_blank
      · rw [Option.filter_some, if_pos (decide_eq_true hempty)]
        exact fun _ _ => rfl
  | typed value | hidden value =>
    rw [ReadAsPosted] at h
    rw [answer, posts, h]
    by_cases hempty : value = ""
    · subst hempty
      exact alike_blank
    · rw [if_pos hempty]
      exact fun _ _ => rfl

theorem alike_unsupplied {answer : Option Answer} (h : supplied answer = false) :
    Alike none answer := by
  rcases answer with _ | text | texts
  · exact fun _ _ => rfl
  · rw [supplied, decide_eq_false_iff_not, not_not] at h
    rw [h]
    exact alike_blank
  · rw [supplied, Bool.not_eq_false', List.isEmpty_iff] at h
    subst h
    exact Js.operatorHolds_congr rfl (fun h => absurd h Bool.false_ne_true) rfl

/-! ## Rules on two readings -/

variable (rules : List Json) (block : Block)

/-- The rules hide the same on what the page reads as on what the form
posts. -/
def HidesAlike : Prop :=
  ∀ t, t ∈ hiddenTargets rules (answersIn block) (containmentIn block) ↔
    t ∈ hiddenTargets rules (posted block) (containmentIn block)

/-- No condition of the rules tells the two apart. -/
def RulesReadAlike : Prop :=
  ∀ rule ∈ rules, ∀ condition ∈ conditions rule.parse,
    conditionHolds condition (toJs (answersIn block)) =
      conditionHolds condition (toJs (posted block))

/-- The options a condition sees answered. -/
def answered : List Field := block.fields.filter fun field => supplied field.control.posts

/-- A control posts an empty value that the page does not read. -/
def Control.PostsBlank (control : Control) : Prop :=
  control.posts = some (.one "") ∧ control.answer = none

/-- The pass limit is out of reach, or nothing empty is posted to cross it. -/
def WithinLimit : Prop :=
  (answered block).length ≤ 8 ∨ ∀ field ∈ block.fields, ¬ field.control.PostsBlank

variable {rules block}

theorem getD_toJs (answers : Answers) (o : String) :
    (toJs answers).getD o .null = readAnswer (answers.get? o) := by
  rw [OrderedMap.getD, toJs, OrderedMap.get?_mapValues]
  rfl

/-- A condition on the answers left reads none where the option is out, and
what it read before where it is not. -/
theorem conditionHolds_without (condition : Js.Value) (answers : Answers) (out : Set String)
    [Decidable (condition.string "option_id" ∈ out)] :
    conditionHolds condition ((toJs answers).without out) =
      if condition.string "option_id" ∈ out then conditionHolds condition ∅
      else conditionHolds condition (toJs answers) := by
  unfold conditionHolds
  rw [OrderedMap.getD, OrderedMap.get?_without]
  split
  · rfl
  · rfl

/-- Rules none of whose conditions tells two answers maps apart hide the same
on them. -/
theorem hides_congr {rules : List Js.Value} {a b : Js.Answers}
    (h : ∀ rule ∈ rules, ∀ condition ∈ conditions rule,
      conditionHolds condition a = conditionHolds condition b) (t : String) :
    evaluator.Hides rules a t ↔ evaluator.Hides rules b t := by
  have hfired : ∀ rule ∈ rules, evaluator.fired rule a = evaluator.fired rule b := by
    intro rule hrule
    obtain ⟨hany, hall⟩ := any_all_congr (h rule hrule)
    change fired rule a = fired rule b
    rw [fired, fired, ruleFires, ruleFires, hany, hall]
  constructor
  · rintro ⟨rule, hrule, e, he, hhides⟩
    exact ⟨rule, hrule, e, hfired rule hrule ▸ he, hhides⟩
  · rintro ⟨rule, hrule, e, he, hhides⟩
    exact ⟨rule, hrule, e, (hfired rule hrule).symm ▸ he, hhides⟩

theorem RulesReadAlike.hiddenOnce_eq (h : RulesReadAlike rules block) :
    hiddenOnce evaluator (rules.map Json.parse) (toJs (answersIn block)) =
      hiddenOnce evaluator (rules.map Json.parse) (toJs (posted block)) := by
  classical
  refine funext fun out => Set.ext fun t => hides_congr (fun parsed hparsed condition hcond => ?_) t
  obtain ⟨rule, hrule, rfl⟩ := List.mem_map.1 hparsed
  rw [conditionHolds_without, conditionHolds_without, h rule hrule condition hcond]

/-- The ids of the answered options. -/
def answeredIds (block : Block) : Set String := {o | supplied ((posted block).get? o)}

/-- **Only answered options matter to what the rules hide.** -/
theorem matters_answeredIds (rules : List Js.Value) (block : Block) :
    Cascade.Matters (hiddenOnce evaluator rules (toJs (posted block))) (answeredIds block) := by
  classical
  refine fun out => Set.ext fun t => hides_congr (fun rule _ condition _ => ?_) t
  rw [conditionHolds_without, conditionHolds_without]
  by_cases hout : condition.string "option_id" ∈ out
  · by_cases hcore : condition.string "option_id" ∈ answeredIds block
    · rw [if_pos hout, if_pos ⟨hout, hcore⟩]
    · rw [if_pos hout, if_neg fun h => hcore h.2, conditionHolds, conditionHolds, getD_toJs,
        ← alike_unsupplied (Bool.eq_false_iff.2 hcore)]
      rfl
  · rw [if_neg hout, if_neg fun h => hout h.1]

/-! ## Which options have an answer -/

theorem Control.isSome_posts (h : control.answer.isSome) : control.posts.isSome := by
  cases control with
  | radio checked => rwa [posts, Option.isSome_map]
  | checkbox cardinality boxes =>
    rw [answer, List.isSome_head?] at h
    cases cardinality with
    | one => rwa [posts, Option.isSome_map, List.getLast?_isSome]
    | many => rw [posts, if_neg (by rwa [List.isEmpty_iff]), Option.isSome_some]
  | select selected =>
    cases selected with
    | none => exact h
    | some value => rfl
  | typed value | hidden value => rfl

theorem Control.isSome_answer (h : control.posts.isSome) (hblank : ¬ control.PostsBlank) :
    control.answer.isSome := by
  cases control with
  | radio checked => rwa [posts, Option.isSome_map] at h
  | checkbox cardinality boxes =>
    rw [answer, List.isSome_head?]
    rintro hnone
    cases cardinality with
    | one =>
      rw [posts, hnone] at h
      simp at h
    | many =>
      rw [posts, hnone] at h
      simp at h
  | select selected =>
    cases selected with
    | none => exact h
    | some value =>
      by_cases hempty : value = ""
      · subst hempty
        exact absurd ⟨rfl, rfl⟩ hblank
      · rw [answer, Option.filter_some, if_pos (decide_eq_true hempty), Option.isSome_some]
  | typed value | hidden value =>
    by_cases hempty : value = ""
    · subst hempty
      exact absurd ⟨rfl, rfl⟩ hblank
    · rw [answer, if_pos hempty, Option.isSome_some]

theorem Control.not_postsBlank (h : supplied control.posts) : ¬ control.PostsBlank := by
  rintro ⟨hblank, -⟩
  rw [hblank] at h
  exact absurd h (by decide)

theorem mem_keys_toJs {answers : Answers} {o : String} :
    o ∈ (toJs answers).keys ↔ (answers.get? o).isSome := by
  rw [toJs, OrderedMap.keys_mapValues, OrderedMap.isSome_get?]

theorem mem_keys_iff {o : String}
    (h : ∀ field ∈ block.fields, field.id = o → ¬ field.control.PostsBlank) :
    o ∈ (toJs (answersIn block)).keys ↔ o ∈ (toJs (posted block)).keys := by
  rw [mem_keys_toJs, mem_keys_toJs]
  by_cases hmem : o ∈ block.fields.map (·.id)
  · obtain ⟨field, hfield, rfl⟩ := List.mem_map.1 hmem
    rw [Block.get?_answersIn hfield, Block.get?_posted hfield, Option.isSome_map]
    exact ⟨Control.isSome_posts, fun hposts => Control.isSome_answer hposts (h field hfield rfl)⟩
  · rw [(Block.get?_of_not_mem hmem).1, (Block.get?_of_not_mem hmem).2]

theorem mem_answered {o : String} (h : o ∈ answeredIds block) :
    ∃ field ∈ answered block, field.id = o := by
  change supplied ((posted block).get? o) = true at h
  by_cases hmem : o ∈ block.fields.map (·.id)
  · obtain ⟨field, hfield, rfl⟩ := List.mem_map.1 hmem
    rw [Block.get?_posted hfield] at h
    exact ⟨field, List.mem_filter.2 ⟨hfield, h⟩, rfl⟩
  · rw [(Block.get?_of_not_mem hmem).2] at h
    exact absurd h Bool.false_ne_true

/-! ## Rules that are read alike -/

/-- Within the limit, the rules settle on what the page reads where they settle
on what the form posts. -/
theorem WithinLimit.settle_iff (hlimit : WithinLimit block) (h : RulesReadAlike rules block) :
    (settled rules (answersIn block) (containmentIn block)).refused = none ↔
      (settled rules (posted block) (containmentIn block)).refused = none := by
  have hmatters := matters_answeredIds (rules.map Json.parse) block
  rw [settled, settled, evaluate, evaluate, refused_eq_none_iff (tellsApart _) rfl,
    refused_eq_none_iff (tellsApart _) rfl, CompleteAfter, CompleteAfter, h.hiddenOnce_eq]
  obtain hfew | hblank := hlimit
  · -- Both are complete: no more than eight answered options can hold them up.
    have hs : ∀ o ∈ answeredIds block,
        o ∈ ((answered block).map (·.id)).toFinset := by
      intro o ho
      obtain ⟨field, hfield, rfl⟩ := mem_answered ho
      exact List.mem_toFinset.2 (List.mem_map_of_mem hfield)
    have hcard : ((answered block).map (·.id)).toFinset.card < 9 := by
      refine Nat.lt_succ_of_le ((List.toFinset_card_le _).trans ?_)
      rwa [List.length_map]
    exact ⟨fun _ => Cascade.complete_of_card hmatters (fun o _ => hs o) hcard,
      fun _ => Cascade.complete_of_card hmatters (fun o _ => hs o) hcard⟩
  · -- Both go through the same options.
    have hkeys : {o | o ∈ (toJs (answersIn block)).keys} = {o | o ∈ (toJs (posted block)).keys} :=
      Set.ext fun o => mem_keys_iff fun field hmem _ => hblank field hmem
    rw [hkeys]

/-- **Rules that are read alike hide alike**, within the limit. -/
theorem hides_alike (h : RulesReadAlike rules block) (hlimit : WithinLimit block) :
    HidesAlike rules block := by
  intro t
  have hkeys : ∀ o ∈ answeredIds block,
      o ∈ (toJs (answersIn block)).keys ↔ o ∈ (toJs (posted block)).keys := by
    intro o ho
    refine mem_keys_iff fun field hmem hid => ?_
    subst hid
    change supplied ((posted block).get? field.id) = true at ho
    rw [Block.get?_posted hmem] at ho
    exact Control.not_postsBlank ho
  have hmatters := matters_answeredIds (rules.map Json.parse) block
  rw [← h.hiddenOnce_eq] at hmatters
  rw [mem_hiddenTargets, mem_hiddenTargets, settled, settled, evaluate, evaluate,
    hidden_eq_of_matters (tellsApart _) (tellsApart _) rfl h.hiddenOnce_eq hmatters hkeys
      (hlimit.settle_iff h)]

end Optionia.Page
