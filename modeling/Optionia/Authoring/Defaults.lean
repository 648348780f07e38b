import Optionia.Lib.Calls
/-!
# The default among the values of an option

A value that becomes its option's default is written first, and one statement
(`makeSoleDefault`) takes the default from every other. Requests run at once, a
statement at a time. An option at rest has at most one default, and one that
has a default keeps one for as long as no value is deleted or said to be none
(`defaults_kept`).
-/

namespace Optionia.Authoring.Defaults

open Runs Calls.System

/-! ## The service -/

/-- A row of `option_values`. -/
structure OptionValue where
  isDefault : Bool
  live : Bool := true
  deriving DecidableEq

/-- The values of an option, each at the place that is its id. -/
abbrev Values := List OptionValue

/-- `OptionValuesRepository.findById` -/
def findById (values : Values) (id : ℕ) : Option OptionValue := values[id]?.filter (·.live)

/-- What is asked of `OptionValuesService`. -/
inductive Request where
  | create (isDefault : Bool)
  | update (id : ℕ) (isDefault : Option Bool)
  | duplicate (id : ℕ)
  | remove (id : ℕ)

/-- What `update` writes of a row. -/
inductive Patch where
  | setDefault (isDefault : Bool)
  | setDeleted

def Patch.apply : Patch → OptionValue → OptionValue
  | .setDefault isDefault, value => { value with isDefault }
  | .setDeleted, value => { value with live := false }

/-- How far it is. -/
inductive Phase where
  | creating (isDefault : Bool)
  | duplicating (id : ℕ)
  | updating (id : ℕ) (isDefault : Option Bool)
  | removing (id : ℕ)
  /-- `scopedIds`, before what it finds is written. -/
  | matching (id : ℕ) (patch : Patch)
  | writing (id : ℕ) (patch : Patch)
  /-- `makeSoleDefault` -/
  | clearing (keepId : ℕ)
  | done

def enter : Request → Phase
  | .create isDefault => .creating isDefault
  | .update id isDefault => .updating id isDefault
  | .duplicate id => .duplicating id
  | .remove id => .removing id

/-- What follows a patch, also one that matched no row. -/
def Patch.next (id : ℕ) : Patch → Phase
  | .setDefault true => .clearing id
  | _ => .done

def makeSoleDefault (values : Values) (keepId : ℕ) : Values :=
  values.mapIdx fun id value =>
    if value.live then { value with isDefault := decide (id = keepId) } else value

/-- **The next statement**, and whether a check of the call refuses it: one of
its input, or that no rule targets the value. -/
def statement (refused : Bool) (values : Values) : Phase → Values × Phase
  | .creating isDefault =>
    if refused then (values, .done)
    else (values ++ [{ isDefault }], if isDefault then .clearing values.length else .done)
  | .duplicating id => (values, if (findById values id).isSome then .creating false else .done)
  | .updating id isDefault =>
    -- `buildPatch` leaves out what stays as it is.
    (values, match (findById values id).bind fun value =>
        isDefault.filter fun isDefault => !refused && isDefault != value.isDefault with
      | some isDefault => .matching id (.setDefault isDefault)
      | none => .done)
  | .removing id =>
    (values, if (findById values id).isSome ∧ refused = false then .matching id .setDeleted
      else .done)
  | .matching id patch =>
    (values, if (findById values id).isSome then .writing id patch else patch.next id)
  | .writing id patch => (values.modify id patch.apply, patch.next id)
  | .clearing keepId => (makeSoleDefault values keepId, .done)
  | .done => (values, .done)

/-- **The values of an option.** -/
def service : Calls.System Values Request Phase Bool where
  enter _ request := some (enter request)
  statement := statement

abbrev State := Calls.State Values Request Phase

abbrev Action := Calls.Action Request Bool

def fresh : State := ⟨[], []⟩

/-! ## Defaults -/

variable {values : Values} {refused : Bool} {phase : Phase} {s : State} {id : ℕ}

def IsLive (values : Values) (id : ℕ) : Prop :=
  ∃ value, values[id]? = some value ∧ value.live = true

def IsDefault (values : Values) (id : ℕ) : Prop :=
  ∃ value, values[id]? = some value ∧ value.live = true ∧ value.isDefault = true

/-- Some call is about to make a value the only default. -/
def Pending (s : State) (id : ℕ) : Prop :=
  ∃ (i : ℕ) (request : Request), s.calls[i]? = some (request, .clearing id)

/-- A request that deletes no value and says of none that it is no default. -/
def Request.Gentle : Request → Prop
  | .remove _ => False
  | .update _ isDefault => isDefault ≠ some false
  | _ => True

def Gentle : Action → Prop
  | .start request => request.Gentle
  | .advance _ _ => True

/-- **What a run keeps of the defaults.** -/
structure DefaultsKept (actions : List Action) : Prop where
  /-- No two defaults, but for those that calls are about to settle. -/
  one : ∃ keepId, ∀ id, IsDefault (run service.step fresh actions).data id →
    id = keepId ∨ Pending (run service.step fresh actions) id
  kept : (∀ action ∈ actions, Gentle action) → ∀ before, before <+: actions →
    (∃ id, IsDefault (run service.step fresh before).data id) →
      ∃ id, IsDefault (run service.step fresh actions).data id

/-! ## What a statement does -/

theorem getElem?_makeSoleDefault (values : Values) (keepId id : ℕ) :
    (makeSoleDefault values keepId)[id]? = values[id]?.map fun value =>
      if value.live then { value with isDefault := decide (id = keepId) } else value :=
  List.getElem?_mapIdx

/-- **A default is left by who clears the others, or was one, or is about to
be the only one.** -/
theorem isDefault_statement (h : IsDefault (statement refused values phase).1 id) :
    phase = .clearing id ∨ (∀ keepId, phase ≠ .clearing keepId) ∧
      (IsDefault values id ∨ (statement refused values phase).2 = .clearing id) := by
  cases phase with
  | clearing keepId =>
    obtain ⟨value, hvalue, hlive, hdefault⟩ := h
    rw [statement, getElem?_makeSoleDefault] at hvalue
    obtain ⟨value, -, rfl⟩ := Option.map_eq_some_iff.1 hvalue
    refine .inl (congrArg Phase.clearing ?_)
    split_ifs at hlive hdefault with hwas
    · exact (of_decide_eq_true hdefault).symm
    · exact absurd hlive hwas
  | creating isDefault =>
    refine .inr ⟨fun _ => Phase.noConfusion, ?_⟩
    cases refused with
    | true => exact .inl h
    | false =>
    obtain ⟨value, hvalue, hlive, hdefault⟩ := h
    obtain hlt | hle := Nat.lt_or_ge id values.length
    · exact .inl ⟨value, (List.getElem?_append_left hlt).symm.trans hvalue, hlive, hdefault⟩
    · rw [statement, if_neg Bool.false_ne_true, List.getElem?_append_right hle,
        List.getElem?_singleton] at hvalue
      split_ifs at hvalue with hlast
      obtain rfl := Option.some.inj hvalue
      obtain rfl : values.length = id := by omega
      exact .inr (if_pos hdefault)
  | writing written patch =>
    refine .inr ⟨fun _ => Phase.noConfusion, ?_⟩
    obtain ⟨value, hvalue, hlive, hdefault⟩ := h
    rw [statement, List.getElem?_modify] at hvalue
    obtain ⟨before, hbefore, rfl⟩ := Option.map_eq_some_iff.1 hvalue
    by_cases heq : written = id
    · rw [if_pos heq] at hlive hdefault
      cases patch with
      | setDefault isDefault =>
        obtain rfl : isDefault = true := hdefault
        exact .inr (congrArg Phase.clearing heq)
      | setDeleted => exact absurd hlive Bool.false_ne_true
    · rw [if_neg heq] at hlive hdefault
      exact .inl ⟨before, hbefore, hlive, hdefault⟩
  | _ => exact .inr ⟨fun _ => Phase.noConfusion, .inl h⟩

/-- **So at most one is a default that no call is about to settle.** -/
theorem one_step (h : ∃ keepId, ∀ id, IsDefault s.data id → id = keepId ∨ Pending s id)
    (action : Action) : ∃ keepId, ∀ id, IsDefault (service.step s action).data id →
      id = keepId ∨ Pending (service.step s action) id := by
  obtain ⟨keepId, hone⟩ := h
  obtain hsame | ⟨request, phase, -, -, hstep⟩ | ⟨i, refused, request, phase, -, hcall, hstep⟩ :=
    step_cases service s action
  · exact ⟨keepId, by rw [hsame]; exact hone⟩
  · rw [hstep]
    refine ⟨keepId, fun id hid => (hone id hid).imp_right ?_⟩
    rintro ⟨j, request', hpending⟩
    obtain ⟨hlt, -⟩ := List.getElem?_eq_some_iff.1 hpending
    exact ⟨j, request', (List.getElem?_append_left hlt).trans hpending⟩
  · rw [hstep]
    by_cases hclears : ∃ keepId, phase = .clearing keepId
    · obtain ⟨keepId, rfl⟩ := hclears
      refine ⟨keepId, fun id hid => .inl ?_⟩
      obtain heq | ⟨hne, -⟩ := isDefault_statement hid
      · exact (Phase.clearing.inj heq).symm
      · exact absurd rfl (hne keepId)
    · refine ⟨keepId, fun id hid => ?_⟩
      obtain heq | ⟨-, hwas | hnext⟩ := isDefault_statement hid
      · exact absurd ⟨id, heq⟩ hclears
      · refine (hone id hwas).imp_right ?_
        rintro ⟨j, request', hpending⟩
        refine ⟨j, request', ?_⟩
        by_cases hij : i = j
        · subst hij
          rw [hcall] at hpending
          exact absurd ⟨id, (Prod.mk.inj (Option.some.inj hpending)).2⟩ hclears
        · exact (List.getElem?_set_ne hij).trans hpending
      · exact .inr ⟨i, request, hnext ▸ getElem?_set_self hcall⟩

/-! ## Where no value is deleted -/

/-- What a gentle request is about to do. -/
def Phase.Gentle (values : Values) : Phase → Prop
  | .updating _ isDefault => isDefault ≠ some false
  | .removing _ => False
  | .matching id (.setDefault true) | .writing id (.setDefault true) | .clearing id =>
    IsLive values id
  | .matching _ _ | .writing _ _ => False
  | _ => True

theorem isLive_of_findById (h : (findById values id).isSome = true) : IsLive values id := by
  obtain ⟨value, hvalue⟩ := Option.isSome_iff_exists.1 h
  obtain ⟨hvalue, hlive⟩ := Option.filter_eq_some_iff.1 hvalue
  exact ⟨value, hvalue, hlive⟩

/-- What a gentle statement leaves: it deletes nothing, goes on gently, and an
option that has a default keeps one. -/
structure GentleStep (values : Values) (after : Values × Phase) : Prop where
  live : ∀ id, IsLive values id → IsLive after.1 id
  gentle : after.2.Gentle after.1
  default : (∃ id, IsDefault values id) → ∃ id, IsDefault after.1 id

theorem GentleStep.of_gentle (h : phase.Gentle values) : GentleStep values (values, phase) :=
  ⟨fun _ => id, h, id⟩

theorem gentleStep_create (isDefault : Bool) :
    GentleStep values (statement false values (.creating isDefault)) := by
  have hold : ∀ id value, values[id]? = some value →
      (values ++ [OptionValue.mk isDefault true])[id]? = some value := fun id value hvalue =>
    (List.getElem?_append_left (List.getElem?_eq_some_iff.1 hvalue).1).trans hvalue
  refine ⟨fun id hid => hid.imp fun value hvalue => ⟨hold id value hvalue.1, hvalue.2⟩, ?_,
    fun hid => hid.imp fun id => Exists.imp fun value hvalue =>
      ⟨hold id value hvalue.1, hvalue.2⟩⟩
  cases isDefault with
  | false => trivial
  | true => exact ⟨⟨true, true⟩, List.getElem?_concat_length, rfl⟩

theorem gentleStep_write (h : IsLive values id) :
    GentleStep values (statement refused values (.writing id (.setDefault true))) := by
  obtain ⟨value, hvalue, hlive⟩ := h
  have hnew : (values.modify id (Patch.setDefault true).apply)[id]? =
      some { value with isDefault := true } := by
    rw [List.getElem?_modify, hvalue]
    exact congrArg some (if_pos rfl)
  refine ⟨fun other hother => ?_, ⟨_, hnew, hlive⟩, fun _ => ⟨id, _, hnew, hlive, rfl⟩⟩
  obtain ⟨found, hfound, hfoundLive⟩ := hother
  refine ⟨_, by rw [statement, List.getElem?_modify, hfound]; rfl, ?_⟩
  dsimp only
  split_ifs <;> exact hfoundLive

theorem gentleStep_clear (h : IsLive values id) :
    GentleStep values (statement refused values (.clearing id)) := by
  have hnew : ∀ (other : ℕ) (value : OptionValue), values[other]? = some value →
      value.live = true → (makeSoleDefault values id)[other]? =
        some { value with isDefault := decide (other = id) } := by
    intro other value hvalue hlive
    rw [getElem?_makeSoleDefault, hvalue, Option.map_some, if_pos hlive]
  refine ⟨fun other hother => ?_, trivial, fun _ => ?_⟩
  · obtain ⟨value, hvalue, hlive⟩ := hother
    exact ⟨_, hnew other value hvalue hlive, hlive⟩
  · obtain ⟨value, hvalue, hlive⟩ := h
    exact ⟨id, _, hnew id value hvalue hlive, hlive, decide_eq_true rfl⟩

/-- **A gentle call takes gentle statements.** -/
theorem gentleStep_statement (hphase : phase.Gentle values) :
    GentleStep values (statement refused values phase) := by
  cases phase with
  | creating isDefault =>
    cases refused with
    | true => exact .of_gentle trivial
    | false => exact gentleStep_create isDefault
  | duplicating id =>
    refine .of_gentle ?_
    split_ifs <;> trivial
  | updating id isDefault =>
    refine .of_gentle ?_
    split
    · next patched hpatch =>
      obtain ⟨value, hvalue, hpatch⟩ := Option.bind_eq_some_iff.1 hpatch
      obtain ⟨rfl, -⟩ := Option.filter_eq_some_iff.1 hpatch
      cases patched with
      | false => exact absurd rfl hphase
      | true => exact isLive_of_findById (Option.isSome_iff_exists.2 ⟨value, hvalue⟩)
    · trivial
  | matching id patch =>
    obtain (_ | _) | _ := patch
    case setDefault.true =>
      refine .of_gentle ?_
      split_ifs <;> exact hphase
    all_goals exact False.elim hphase
  | writing id patch =>
    obtain (_ | _) | _ := patch
    case setDefault.true => exact gentleStep_write hphase
    all_goals exact False.elim hphase
  | clearing keepId => exact gentleStep_clear hphase
  | removing id => exact False.elim hphase
  | done => exact .of_gentle hphase

/-- What other calls are about to do stays gentle. -/
theorem Phase.Gentle.mono {values' : Values} (h : phase.Gentle values)
    (hlive : ∀ id, IsLive values id → IsLive values' id) : phase.Gentle values' := by
  obtain _ | _ | _ | _ | ⟨_, (_ | _) | _⟩ | ⟨_, (_ | _) | _⟩ | _ | _ := phase
  case matching.setDefault.true => exact hlive _ h
  case writing.setDefault.true => exact hlive _ h
  case clearing => exact hlive _ h
  all_goals exact h

/-! ## Over whole runs -/

/-- Every call is gentle, and the option has a default, where it had one. -/
structure AllGentle (had : Prop) (s : State) : Prop where
  calls : ∀ (i : ℕ) request phase, s.calls[i]? = some (request, phase) → phase.Gentle s.data
  default : had → ∃ id, IsDefault s.data id

theorem allGentle_step {had : Prop} (s : State) (action : Action) (haction : Gentle action)
    (h : AllGentle had s) : AllGentle had (service.step s action) := by
  refine ⟨?_, fun hhad => ?_⟩
  · refine forall_calls (K := fun (values : Values) _ (phase : Phase) => phase.Gentle values)
      ?_ (fun i refused request phase _ _ hphase => (gentleStep_statement hphase).gentle)
      (fun i refused request phase _ hcall _ other hother =>
        hother.mono (gentleStep_statement (h.calls i request phase hcall)).live) h.calls
    rintro request phase rfl henter
    obtain rfl := Option.some.inj henter
    cases request <;> exact haction
  · exact data_step (Q := fun values : Values => ∃ id, IsDefault values id) (h.default hhad)
      fun i refused request phase _ hcall =>
        (gentleStep_statement (h.calls i request phase hcall)).default (h.default hhad)

/-- **An option at rest has at most one default, and keeps one** while nobody
deletes a value or says that it is none. -/
theorem defaults_kept (actions : List Action) : DefaultsKept actions := by
  have hone := invariant_of_forall
    (I := fun s : State => ∃ keepId, ∀ id, IsDefault s.data id → id = keepId ∨ Pending s id)
    (fun s action h => one_step h action) (s := fresh)
    ⟨0, fun id hid => by simp [IsDefault, fresh] at hid⟩ actions
  refine ⟨hone, fun hgentle before hbefore hthere => ?_⟩
  obtain ⟨rest, rfl⟩ := hbefore
  have hall : Throughout service.step (fun _ => Gentle) fresh (before ++ rest) :=
    throughout_of_prefix fun _ action _ hsplit =>
      hgentle action (hsplit ▸ List.mem_append_right _ List.mem_cons_self)
  obtain ⟨hfirst, hrest⟩ := throughout_append.1 hall
  have hcalls : AllGentle False (run service.step fresh before) :=
    invariant allGentle_step hfirst ⟨fun i _ _ hcall => by simp [fresh] at hcall, False.elim⟩
  rw [run_append]
  exact (invariant (I := AllGentle True) allGentle_step hrest
    ⟨hcalls.calls, fun _ => hthere⟩).default trivial

end Optionia.Authoring.Defaults
