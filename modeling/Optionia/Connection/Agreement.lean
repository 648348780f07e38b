import Optionia.Connection.Requests
/-!
# The state and the token

What the connection state says of the token, in every state a run from a fresh
install reaches, and what a callback says of the state it leaves
(`agrees_iff`). Between any two statements of the requests it is right just
when no write contradicts the other option (`Phase.Fits`). Where the
statements that follow an answer of the cloud are taken together, and one
looks between them, it is right just when no exchange fails while a credential
is stored, and none succeeds in a state that cannot become connected
(`Phase.Timely`).
-/

namespace Optionia.Connection

open Runs Calls.System

/-! ## What is asked of a state -/

/-- **The state and the token agree.** -/
structure Agrees (options : Options) : Prop where
  disconnected : options.current = .disconnected → options.storeToken = none
  connected : options.current = .connected → options.storeToken ≠ none

/-- What a callback returned is what it left. -/
def Phase.truthful : Phase → Prop
  | .returned (some .connected) left => left = .connected
  | _ => True

/-- A callback returns that it connected only when the state it leaves is
connected. -/
def Truthful (s : State) : Prop :=
  ∀ (i : ℕ) request phase, s.calls[i]? = some (request, phase) → phase.truthful

/-- Everything that is claimed of a state. -/
def Right (s : State) : Prop := Agrees s.data ∧ Truthful s

/-- A request that is between two of its statements. -/
def Phase.midway : Phase → Bool
  | .writing _ _ => true
  | _ => false

/-- No request is between two of its statements. -/
def Resting (s : State) : Prop :=
  ∀ (i : ℕ) request phase, s.calls[i]? = some (request, phase) → phase.midway = false

/-! ## What is asked of an action -/

/-- **What a callback needs**: that no credential is stored when it disconnects
the store for want of one, and that the machine permits the move, or there is
none to make, when it has one. -/
def Phase.Timely (options : Options) : Phase → Prop
  | .writing (.put .disconnected :: _) (some .failed) => options.storeToken = none
  | .writing [.transition .connected] (some .connected) =>
    can options.current .connected = true ∨ options.current = .connected
  | _ => True

/-- **What every write needs**: that it does not contradict the other option. -/
def Phase.Fits (options : Options) : Phase → Prop
  | .writing (.storeToken _ :: _) _ => options.current ≠ .disconnected
  | .writing (.deleteToken :: _) _ => options.current ≠ .connected
  | .writing (.put .connected :: _) _ => options.storeToken ≠ none
  | .writing (.put .disconnected :: _) _ => options.storeToken = none
  | .writing [.transition .connected] (some .connected) =>
    can options.current .connected = true ∨ options.current = .connected
  | _ => True

/-- A request that is between two of its statements takes the next. -/
def Uninterrupted (s : State) (action : Action) : Prop :=
  ∀ (i : ℕ) request phase, s.calls[i]? = some (request, phase) → phase.midway = true →
    ∃ input, action = .advance i input

/-- **Right in every state a run reaches.** -/
def RightThroughout (actions : List Action) : Prop :=
  ∀ before, before <+: actions → Right (run plugin.step fresh before)

/-- **Right whenever no request is between two of its statements.** -/
def RightAtRest (actions : List Action) : Prop :=
  ∀ before, before <+: actions →
    Resting (run plugin.step fresh before) → Right (run plugin.step fresh before)

/-! ## What is left to do -/

/-- The state a callback's last transition is to. -/
def Result.target : Result → Option ConnectionState
  | .connected => some .connected
  | .failed => some .disconnected
  | .none | .refused => .none

/-- The state a statement is about to move to. -/
def Write.target : Write → Option ConnectionState
  | .transition target | .transitionFrom _ target | .put target => some target
  | _ => none

/-- Statements that move to a state last, and not before. -/
def Ends (target : ConnectionState) (writes : List Write) : Prop :=
  writes = [.put target] ∨ ∃ before, writes = before ++ [.transition target] ∧
    ∀ write ∈ before, write.target ≠ some target

/-- What is left of a request is never nothing, and a callback's transition is
the last of it. -/
def Phase.Shaped : Phase → Prop
  | .writing writes result => writes ≠ [] ∧
      ∀ target, result.bind Result.target = some target → Ends target writes
  | _ => True

variable {options : Options} {target : ConnectionState} {write : Write} {rest : List Write}
  {result : Option Result} {phase : Phase} {input : Input} {s : State} {action : Action}

theorem Ends.ne_nil (h : Ends target (write :: rest)) (hput : write ≠ .put target)
    (htransition : write ≠ .transition target) : rest ≠ [] := by
  rintro rfl
  obtain heq | ⟨before, heq, -⟩ := h
  · exact hput (List.cons.inj heq).1
  · obtain ⟨-, heq⟩ := List.append_inj' (show [] ++ [write] = _ from heq) rfl
    exact htransition (List.cons.inj heq).1

theorem Ends.eq_nil_of_put (h : Ends target (.put target :: rest)) : rest = [] := by
  obtain heq | ⟨before, heq, hbefore⟩ := h
  · exact (List.cons.inj heq).2
  · cases before with
    | nil => exact absurd (List.cons.inj heq).1 (by simp)
    | cons first before =>
      obtain rfl := (List.cons.inj heq).1
      exact absurd rfl (hbefore _ List.mem_cons_self)

theorem Ends.apply (h : Ends target (write :: rest)) (now : ℤ) (options : Options) :
    (write.apply now options rest).2 = [] ∨ Ends target (write.apply now options rest).2 := by
  obtain heq | ⟨before, heq, hbefore⟩ := h
  · obtain ⟨rfl, rfl⟩ := List.cons.inj heq
    exact .inl rfl
  cases before with
  | nil =>
    obtain ⟨rfl, rfl⟩ := List.cons.inj heq
    unfold Write.apply
    dsimp only
    split_ifs
    · exact .inr (.inl rfl)
    · exact .inl rfl
  | cons first before =>
    obtain ⟨rfl, rfl⟩ := List.cons.inj heq
    have hrest : Ends target (before ++ [.transition target]) :=
      .inr ⟨before, rfl, fun write hwrite => hbefore write (List.mem_cons_of_mem _ hwrite)⟩
    have hfirst : write.target ≠ some target := hbefore write List.mem_cons_self
    -- A move that is permitted leaves its write to be done first.
    have hmore : ∀ other : Write, other.target = write.target →
        Ends target (other :: (before ++ [.transition target])) := by
      refine fun other hother => .inr ⟨other :: before, rfl, fun next hnext => ?_⟩
      obtain rfl | hnext := List.mem_cons.1 hnext
      · rw [hother]
        exact hfirst
      · exact hbefore next (List.mem_cons_of_mem _ hnext)
    cases write with
    | transition other =>
      unfold Write.apply
      dsimp only
      split_ifs
      · exact .inr (hmore (.put other) rfl)
      · exact .inr hrest
    | transitionFrom sources other =>
      unfold Write.apply
      dsimp only
      split_ifs
      · exact .inr (hmore (.transition other) rfl)
      · exact .inr hrest
    | _ => exact .inr hrest

/-! ## One statement -/

theorem shaped_proceed (h : ∀ target, result.bind Result.target = some target → rest = [] ∨
    Ends target rest) : (proceed options result rest).Shaped := by
  cases rest with
  | nil => trivial
  | cons write rest =>
    exact ⟨List.cons_ne_nil write rest, fun target htarget =>
      (h target htarget).resolve_left (List.cons_ne_nil write rest)⟩

theorem target_of_announced {response : Response} (hwrite : write ∈ announced response) :
    write.target = some .revoked := by
  unfold announced onUnauthorized at hwrite
  split at hwrite
  · rw [List.mem_singleton.1 hwrite]
    rfl
  · simp at hwrite

/-- **What a callback is left with, once the exchange was answered.** -/
theorem ends_afterExchange (response : Response) :
    ∃ target, (afterExchange response).2.target = some target ∧
      Ends target (announced response ++ (afterExchange response).1) := by
  -- Before the transition nothing is moved but to the revoked state.
  have hends : ∀ (before : List Write) (target : ConnectionState), target ≠ .revoked →
      (∀ write ∈ before, write.target = none) →
        Ends target (announced response ++ (before ++ [.transition target])) := by
    refine fun before target hrevoked hbefore =>
      .inr ⟨announced response ++ before, (List.append_assoc _ _ _).symm, fun write hwrite => ?_⟩
    obtain hwrite | hwrite := List.mem_append.1 hwrite
    · rw [target_of_announced hwrite]
      exact fun heq => hrevoked (Option.some.inj heq).symm
    · rw [hbefore write hwrite]
      exact Option.some_ne_none target |>.symm
  have hfailed : Ends .disconnected
      (announced response ++ [.forget, .transition .disconnected]) :=
    hends [.forget] .disconnected (by decide) fun write hwrite => by
      rw [List.mem_singleton.1 hwrite]
      rfl
  unfold afterExchange
  split
  · split
    · split_ifs
      · exact ⟨.disconnected, rfl, hfailed⟩
      · refine ⟨.connected, rfl, hends _ .connected (by decide) fun write hwrite => ?_⟩
        simp only [List.mem_append, List.mem_cons, List.not_mem_nil, or_false,
          Option.mem_toList, Option.map_eq_some_iff] at hwrite
        obtain ((rfl | rfl) | ⟨_, -, rfl⟩) | ⟨_, -, rfl⟩ := hwrite
        · rfl
        · rfl
        · rfl
        · rfl
    · exact ⟨.disconnected, rfl, hfailed⟩
  · exact ⟨.disconnected, rfl, hfailed⟩

theorem shaped_statement (input : Input) (options : Options) (h : phase.Shaped) :
    (statement input options phase).2.Shaped := by
  have hnone : ∀ rest : List Write, (proceed options none rest).Shaped := fun rest =>
    shaped_proceed fun target htarget => absurd htarget.symm (Option.some_ne_none target)
  cases phase with
  | initiating | telling | fetching | asking => exact hnone _
  | handling query userCanManage =>
    unfold statement handle
    dsimp only
    split_ifs
    · trivial
    · trivial
    · split
      · exact ⟨List.cons_ne_nil _ _, fun target htarget => absurd htarget.symm
          (Option.some_ne_none target)⟩
      · trivial
      · split_ifs
        · trivial
        · trivial
  | exchanging code verifier =>
    obtain ⟨target, htarget, hends⟩ := ends_afterExchange input.response
    refine shaped_proceed fun target' htarget' => .inr ?_
    obtain rfl : target = target' := Option.some.inj (htarget.symm.trans htarget')
    exact hends
  | starting =>
    unfold statement
    dsimp only
    split_ifs
    · trivial
    · trivial
  | writing writes result =>
    cases writes with
    | nil => trivial
    | cons write rest =>
      exact shaped_proceed fun target htarget => (h.2 target htarget).apply input.now options
  | returned result left => trivial

/-- A request that is not between two of its statements leaves the options
alone, and returns nothing a callback would not. -/
theorem statement_waiting (input : Input) (options : Options) (hwaits : phase.midway = false)
    (htruthful : phase.truthful) :
    (statement input options phase).1 = options ∧
      (statement input options phase).2.truthful := by
  have hnone : ∀ rest, (proceed options none rest).truthful := fun rest => by
    cases rest with
    | nil => trivial
    | cons write rest => trivial
  cases phase with
  | initiating | telling | fetching | asking => exact ⟨rfl, hnone _⟩
  | handling query userCanManage =>
    refine ⟨rfl, ?_⟩
    unfold statement handle
    dsimp only
    split_ifs
    · trivial
    · trivial
    · split
      · trivial
      · trivial
      · split_ifs
        · trivial
        · trivial
  | exchanging code verifier =>
    refine ⟨rfl, ?_⟩
    obtain ⟨target, -, hends⟩ := ends_afterExchange input.response
    unfold statement
    dsimp only
    cases hwrites : announced input.response ++ (afterExchange input.response).1 with
    | nil =>
      rw [hwrites] at hends
      obtain heq | ⟨before, heq, -⟩ := hends
      · simp at heq
      · simp at heq
    | cons write rest => trivial
  | starting =>
    refine ⟨rfl, ?_⟩
    unfold statement
    dsimp only
    split_ifs
    · trivial
    · trivial
  | writing writes result => exact absurd hwaits (by simp [Phase.midway])
  | returned result left => exact ⟨rfl, htruthful⟩

/-- What is left leads to an honest answer, unless it is nothing and the
callback says it connected. -/
theorem truthful_proceed :
    (proceed options result rest).truthful ↔
      (rest = [] → result = some .connected → options.current = .connected) := by
  cases rest with
  | nil =>
    rw [proceed]
    unfold Phase.truthful
    split
    · rename_i heq
      obtain ⟨rfl, rfl⟩ := Phase.returned.inj heq
      exact ⟨fun h _ _ => h, fun h => h rfl rfl⟩
    · rename_i hnot
      refine ⟨fun _ _ hconnected => ?_, fun _ => trivial⟩
      subst hconnected
      exact absurd rfl (hnot options.current)
  | cons write rest => exact ⟨fun _ hnil => absurd hnil (List.cons_ne_nil _ _), fun _ => trivial⟩

/-- **A statement leaves the state and the token in agreement, and the callback
honest, just when it does not contradict the other option.** -/
theorem fits_iff (input : Input) (hagrees : Agrees options)
    (hshaped : (Phase.writing (write :: rest) result).Shaped) :
    (Phase.writing (write :: rest) result).Fits options ↔
      Agrees (statement input options (.writing (write :: rest) result)).1 ∧
        (statement input options (.writing (write :: rest) result)).2.truthful := by
  -- A callback that connected ends in its transition.
  have hends : result = some .connected → Ends .connected (write :: rest) := fun hresult =>
    hshaped.2 .connected (by rw [hresult]; rfl)
  have hrest : write ≠ .put .connected → write ≠ .transition .connected → rest = [] →
      result ≠ some .connected :=
    fun hput htransition hnil hresult => (hends hresult).ne_nil hput htransition hnil
  unfold statement
  dsimp only
  rw [truthful_proceed]
  cases write with
  | forget | remember state verifier | store storeId | tenant tenantName =>
    refine iff_of_true trivial ⟨⟨hagrees.disconnected, hagrees.connected⟩, fun hnil hresult => ?_⟩
    exact absurd hresult (hrest (by simp) (by simp) hnil)
  | storeToken token =>
    refine ⟨fun hfits => ⟨⟨fun h => absurd h hfits, fun _ => Option.some_ne_none token⟩,
      fun hnil hresult => absurd hresult (hrest (by simp) (by simp) hnil)⟩, ?_⟩
    rintro ⟨hafter, -⟩ hdisconnected
    exact absurd (hafter.disconnected hdisconnected) (Option.some_ne_none token)
  | deleteToken =>
    refine ⟨fun hfits => ⟨⟨fun _ => rfl, fun h => absurd h hfits⟩,
      fun hnil hresult => absurd hresult (hrest (by simp) (by simp) hnil)⟩, ?_⟩
    rintro ⟨hafter, -⟩ hconnected
    exact absurd rfl (hafter.connected hconnected)
  | transitionFrom sources target =>
    refine iff_of_true trivial ⟨hagrees, fun hnil hresult => ?_⟩
    have hleft : rest ≠ [] := fun hnil' => hrest (by simp) (by simp) hnil' hresult
    unfold Write.apply at hnil
    dsimp only at hnil
    split_ifs at hnil
    exact absurd hnil hleft
  | transition target =>
    unfold Write.apply
    dsimp only
    by_cases hlast : target = .connected ∧ rest = [] ∧ result = some .connected
    · obtain ⟨rfl, rfl, rfl⟩ := hlast
      rw [Phase.Fits]
      by_cases hcan : can options.current .connected = true
      · rw [if_pos hcan]
        exact iff_of_true (.inl hcan) ⟨hagrees, fun hnil => absurd hnil (List.cons_ne_nil _ _)⟩
      · rw [if_neg hcan]
        refine ⟨fun hfits => ⟨hagrees, fun _ _ => hfits.resolve_left hcan⟩, fun h => .inr ?_⟩
        exact h.2 rfl rfl
    · have hfits : (Phase.writing (.transition target :: rest) result).Fits options := by
        unfold Phase.Fits
        split
        · rename_i heq
          exact absurd (Phase.writing.inj heq).1 (by simp)
        · rename_i heq
          exact absurd (Phase.writing.inj heq).1 (by simp)
        · rename_i heq
          exact absurd (Phase.writing.inj heq).1 (by simp)
        · rename_i heq
          exact absurd (Phase.writing.inj heq).1 (by simp)
        · rename_i heq
          obtain ⟨hwrites, hresult⟩ := Phase.writing.inj heq
          obtain ⟨htarget, hnil⟩ := List.cons.inj hwrites
          exact absurd ⟨Write.transition.inj htarget, hnil, hresult⟩ hlast
        · trivial
      refine iff_of_true hfits ⟨hagrees, fun hnil hresult => ?_⟩
      by_cases hcan : can options.current target = true
      · rw [if_pos hcan] at hnil
        exact absurd hnil (List.cons_ne_nil _ _)
      · rw [if_neg hcan] at hnil
        by_cases htarget : target = .connected
        · exact absurd ⟨htarget, hnil, hresult⟩ hlast
        · exact absurd hresult (hrest (by simp) (fun heq => htarget (Write.transition.inj heq)) hnil)
  | put target =>
    have hhonest : rest = [] → result = some .connected → target = .connected := by
      intro hnil hresult
      by_contra htarget
      exact hrest (fun heq => htarget (Write.put.inj heq)) (by simp) hnil hresult
    cases target with
    | disconnected =>
      exact ⟨fun hfits => ⟨⟨fun _ => hfits, fun h => absurd h (by simp)⟩,
        hhonest⟩, fun h => h.1.disconnected rfl⟩
    | connected =>
      exact ⟨fun hfits => ⟨⟨fun h => absurd h (by simp), fun _ => hfits⟩,
        hhonest⟩, fun h => h.1.connected rfl⟩
    | connecting | error | revoked =>
      exact iff_of_true trivial ⟨⟨fun h => absurd h (by simp),
        fun h => absurd h (by simp)⟩, hhonest⟩

/-! ## Between any two statements -/

/-- Every request's statements are of the shape they start in. -/
def ShapedCalls (s : State) : Prop :=
  ∀ (i : ℕ) request phase, s.calls[i]? = some (request, phase) → phase.Shaped

variable {request : Request} {writes : List Write}

theorem enter_waits (h : plugin.enter s request = some phase) :
    phase.midway = false ∧ phase.truthful ∧ phase.Shaped := by
  cases request with
  | _ =>
    obtain rfl := Option.some.inj h
    exact ⟨rfl, trivial, trivial⟩

theorem shapedCalls_step (s : State) (action : Action) (h : ShapedCalls s) :
    ShapedCalls (plugin.step s action) :=
  forall_calls (K := fun _ _ phase => Phase.Shaped phase)
    (fun _ _ _ henter => (enter_waits henter).2.2)
    (fun _ input _ _ _ _ hshaped => shaped_statement input s.data hshaped)
    (fun _ _ _ _ _ _ _ _ hshaped => hshaped) h

theorem right_start (h : Right s) : Right (plugin.step s (.start request)) := by
  refine ⟨by rw [data_start]; exact h.1,
    forall_calls (K := fun _ _ phase => Phase.truthful phase) ?_ ?_ ?_ h.2⟩
  · exact fun _ _ _ henter => (enter_waits henter).2.1
  · exact fun _ _ _ _ heq => absurd heq (by simp)
  · exact fun _ _ _ _ heq => absurd heq (by simp)

/-- **After a statement every callback is honest just when the one that took it
is.** -/
theorem truthful_advance_iff {i : ℕ} (hcall : s.calls[i]? = some (request, phase))
    (h : Truthful s) :
    Truthful (plugin.step s (.advance i input)) ↔ (statement input s.data phase).2.truthful := by
  constructor
  · intro hall
    refine hall i request _ ?_
    rw [step_advance hcall]
    exact getElem?_set_self hcall
  · intro hnew j request' phase' hcall'
    obtain hold | ⟨-, heq, -⟩ | ⟨input', phase'', heq, hold, rfl⟩ :=
      getElem?_step hcall'
    · exact h j request' phase' hold
    · simp at heq
    · obtain ⟨rfl, rfl⟩ := Calls.Action.advance.inj heq
      rw [hcall] at hold
      obtain ⟨-, rfl⟩ := Prod.mk.inj (Option.some.inj hold)
      exact hnew

/-- **An action leaves everything right just when the statement it takes
fits.** -/
theorem right_step_iff (hshaped : ShapedCalls s) (hright : Right s) :
    Asks Phase.Fits s action ↔ Right (plugin.step s action) := by
  cases action with
  | start request => exact iff_of_true trivial (right_start hright)
  | advance i input =>
    cases hcall : s.calls[i]? with
    | none =>
      rw [step_of_none hcall]
      refine iff_of_true (fun request phase hcall' => ?_) hright
      exact absurd (hcall.symm.trans hcall').symm (Option.some_ne_none _)
    | some call =>
      obtain ⟨request, phase⟩ := call
      rw [asks_advance_iff hcall, Right, truthful_advance_iff hcall hright.2, step_advance hcall]
      change phase.Fits s.data ↔ Agrees (statement input s.data phase).1 ∧
        (statement input s.data phase).2.truthful
      by_cases hwaits : phase.midway = false
      · obtain ⟨hdata, htruthful⟩ :=
          statement_waiting input s.data hwaits (hright.2 i request phase hcall)
        rw [hdata]
        refine iff_of_true ?_ ⟨hright.1, htruthful⟩
        cases phase with
        | writing writes result => exact absurd hwaits (by simp [Phase.midway])
        | _ => trivial
      · cases phase with
        | writing writes result =>
          cases writes with
          | nil => exact absurd rfl (hshaped i request _ hcall).1
          | cons write rest => exact fits_iff input hright.1 (hshaped i request _ hcall)
        | _ => exact absurd rfl hwaits

/-! ## Between two stretches of statements -/

/-- Agreement, and a credential where a sync may recover. -/
structure Sound (options : Options) : Prop extends Agrees options where
  error : options.current = .error → options.storeToken ≠ none

/-- **What the statements that are left lead to**, taken one after the other,
each timely: to options that are sound. -/
inductive Leads (result : Option Result) : List Write → Options → Prop where
  | done {options : Options} (h : Sound options) : Leads result [] options
  /-- They are after the next statement and the rest. -/
  | step {write : Write} {rest : List Write} {options : Options}
      (h : (Phase.writing (write :: rest) result).Timely options →
        ∀ now, Leads result (write.apply now options rest).2 (write.apply now options rest).1) :
      Leads result (write :: rest) options

/-- Options whose state was just written are sound where the token is as the
state says. -/
theorem sound_put (hdisconnected : target = .disconnected → options.storeToken = none)
    (hconnected : target = .connected → options.storeToken ≠ none)
    (herror : target = .error → options.storeToken ≠ none) :
    Sound { options with connectionState := some target } :=
  ⟨⟨hdisconnected, hconnected⟩, herror⟩

/-- A transition leads where its write does if the machine permits it, and
where the rest does if not. -/
theorem Leads.transition
    (hput : can options.current target = true →
      (Phase.writing (.put target :: rest) result).Timely options →
        Leads result rest { options with connectionState := some target })
    (hstay : can options.current target = false →
      (Phase.writing (.transition target :: rest) result).Timely options →
        Leads result rest options) :
    Leads result (.transition target :: rest) options := by
  refine .step fun htimely now => ?_
  unfold Write.apply
  dsimp only
  cases hcan : can options.current target with
  | true => exact .step fun htimely' _ => hput hcan htimely'
  | false => exact hstay hcan htimely

theorem Leads.transitionFrom {sources : List ConnectionState}
    (hmove : options.current ∈ sources → Leads result (.transition target :: rest) options)
    (hstay : options.current ∉ sources → Leads result rest options) :
    Leads result (.transitionFrom sources target :: rest) options := by
  refine .step fun _ now => ?_
  unfold Write.apply
  dsimp only
  split_ifs with hsources
  · exact hmove hsources
  · exact hstay hsources

theorem Leads.announced (response : Response) (hsound : Sound options)
    (hrest : ∀ options' : Options, Sound options' → Leads result rest options') :
    Leads result (announced response ++ rest) options := by
  unfold Connection.announced onUnauthorized
  split
  · refine .transitionFrom (fun _ => .transition (fun _ _ => hrest _ ?_) fun _ _ => ?_) fun _ => ?_
    · exact sound_put (fun h => absurd h (by decide)) (fun h => absurd h (by decide))
        fun h => absurd h (by decide)
    · exact hrest options hsound
    · exact hrest options hsound
  · exact hrest options hsound

theorem can_disconnected (source : ConnectionState) : can source .disconnected = true := by
  cases source with
  | _ => rfl

/-- **A callback that has no credential leads on** where none is stored. -/
theorem leads_failed (options : Options) :
    Leads (some .failed) [.forget, .transition .disconnected] options := by
  refine .step fun _ now => .transition (fun _ htimely => .done ?_) fun hcan => ?_
  · exact sound_put (fun _ => htimely) (fun h => absurd h (by decide)) fun h => absurd h (by decide)
  · exact absurd (can_disconnected _) (by rw [hcan]; exact Bool.false_ne_true)

/-- **A callback that has one leads on** where the store can be connected. -/
theorem leads_connected {others : List Write} (token : String)
    (hothers : ∀ write ∈ others, ∃ value, write = .store value ∨ write = .tenant value) :
    ∀ options : Options, Leads (some .connected)
      ([.forget, .storeToken token] ++ others ++ [.transition .connected]) options := by
  have htail : ∀ others : List Write,
      (∀ write ∈ others, ∃ value, write = .store value ∨ write = .tenant value) →
        ∀ options : Options, options.storeToken = some token →
          Leads (some .connected) (others ++ [.transition .connected]) options := by
    intro others hothers
    induction others with
    | nil =>
      intro options htoken
      have hstored : options.storeToken ≠ none := by
        rw [htoken]
        exact Option.some_ne_none token
      refine .transition (fun _ _ => .done ?_) fun hcan htimely => .done ?_
      · exact sound_put (fun h => absurd h (by decide)) (fun _ => hstored) fun _ => hstored
      · have hconnected : options.current = .connected :=
          htimely.resolve_left (by rw [hcan]; exact Bool.false_ne_true)
        refine ⟨⟨fun h => absurd (hconnected.symm.trans h) (by decide), fun _ => hstored⟩, fun _ => ?_⟩
        exact hstored
    | cons write others ih =>
      intro options htoken
      have hrest := ih fun write hwrite => hothers write (List.mem_cons_of_mem _ hwrite)
      obtain ⟨value, rfl | rfl⟩ := hothers write List.mem_cons_self
      · exact .step fun _ _ => hrest _ htoken
      · exact .step fun _ _ => hrest _ htoken
  exact fun options => .step fun _ _ => .step fun _ _ => htail others hothers _ rfl

theorem leads_afterExchange (response : Response) (options : Options) :
    Leads (some (afterExchange response).2) (afterExchange response).1 options := by
  unfold afterExchange
  split
  · split
    · split_ifs
      · exact leads_failed options
      · rw [List.append_assoc [Write.forget, _]]
        refine leads_connected _ (fun write hwrite => ?_) options
        simp only [List.mem_append, Option.mem_toList, Option.map_eq_some_iff] at hwrite
        obtain ⟨value, -, rfl⟩ | ⟨value, -, rfl⟩ := hwrite
        · exact ⟨some value, .inl rfl⟩
        · exact ⟨some value, .inr rfl⟩
    · exact leads_failed options
  · exact leads_failed options

theorem leads_clearLocally (options : Options) : Leads none clearLocally options := by
  refine .step fun _ _ => .step fun _ _ => .step fun _ _ => .step fun _ _ =>
    .transition (fun _ _ => .done ?_) fun hcan => ?_
  · exact sound_put (fun _ => rfl) (fun h => absurd h (by decide)) fun h => absurd h (by decide)
  · exact absurd (can_disconnected _) (by rw [hcan]; exact Bool.false_ne_true)

theorem leads_recover (hsound : Sound options) : Leads none recover options := by
  refine .transitionFrom (fun hsource => .transition (fun _ _ => .done ?_) fun _ _ => .done hsound)
    fun _ => .done hsound
  have hstored := hsound.error (List.mem_singleton.1 hsource)
  exact sound_put (fun h => absurd h (by decide)) (fun _ => hstored) fun _ => hstored

theorem leads_degrade (hsound : Sound options) : Leads none degrade options := by
  refine .transitionFrom (fun hsource => .transition (fun _ _ => .done ?_) fun _ _ => .done hsound)
    fun _ => .done hsound
  have hstored := hsound.connected (List.mem_singleton.1 hsource)
  exact sound_put (fun h => absurd h (by decide)) (fun _ => hstored) fun _ => hstored

theorem leads_afterInitiate (state verifier : String) (response : Response)
    (hsound : Sound options) : Leads none (afterInitiate state verifier response) options := by
  unfold afterInitiate
  split
  · split
    · split_ifs
      · exact .done hsound
      · refine .step fun _ _ => .transition (fun _ _ => .done ?_) fun _ _ => .done ?_
        · exact sound_put (fun h => absurd h (by decide)) (fun h => absurd h (by decide))
            fun h => absurd h (by decide)
        · exact ⟨⟨hsound.disconnected, hsound.connected⟩, hsound.error⟩
    · exact .done hsound
  · exact .done hsound

theorem leads_afterFetch (input : Input) (hsound : Sound options) :
    Leads none (afterFetch input) options := by
  unfold afterFetch
  split
  · split_ifs
    · exact leads_recover hsound
    · exact leads_degrade hsound
  · split_ifs
    · exact leads_recover hsound
    · exact leads_degrade hsound
  · exact .announced _ hsound fun options' hsound' => leads_degrade hsound'

/-- **What a request goes on to do when the cloud has answered leads on.** -/
theorem leads_statement (hsound : Sound options) (hwaits : phase.midway = false)
    (h : (statement input options phase).2 = .writing writes result) :
    Leads result writes options := by
  have hproceed : ∀ {result' rest}, proceed options result' rest = .writing writes result →
      Leads result' rest options → Leads result writes options := by
    intro result' rest heq hleads
    cases rest with
    | nil => exact absurd heq (by simp [proceed])
    | cons write rest =>
      obtain ⟨rfl, rfl⟩ := Phase.writing.inj heq
      exact hleads
  cases phase with
  | initiating state verifier =>
    exact hproceed h (.announced _ hsound fun _ hsound' => leads_afterInitiate _ _ _ hsound')
  | handling query userCanManage =>
    unfold statement handle at h
    dsimp only at h
    split_ifs at h
    split at h
    · obtain ⟨rfl, rfl⟩ := Phase.writing.inj h
      exact .step fun _ _ => .done ⟨⟨hsound.disconnected, hsound.connected⟩, hsound.error⟩
    · simp at h
    · split_ifs at h
  | exchanging code verifier =>
    exact hproceed h (.announced _ hsound fun options' _ => leads_afterExchange _ options')
  | telling => exact hproceed h (.announced _ hsound fun options' _ => leads_clearLocally options')
  | starting =>
    unfold statement at h
    dsimp only at h
    split_ifs at h
  | fetching => exact hproceed h (leads_afterFetch input hsound)
  | asking =>
    have hleads : Leads none (announced input.response ++ []) options :=
      .announced _ hsound fun _ hsound' => .done hsound'
    rw [List.append_nil] at hleads
    exact hproceed h hleads
  | writing writes result => exact absurd hwaits (by simp [Phase.midway])
  | returned result left => exact absurd h (by simp [statement])

/-! ## What is kept where nothing is interrupted -/

/-- **Where nothing is interrupted**: what is left of the one request that is
between two of its statements leads to sound options, and where there is none
the options are. -/
structure Orderly (s : State) : Prop where
  /-- Every request's statements are of the shape they start in. -/
  shaped : ShapedCalls s
  /-- No callback has returned what it did not leave. -/
  truthful : Truthful s
  sound : Resting s → Sound s.data
  /-- What is left of a request leads to options that are. -/
  leads : ∀ (i : ℕ) request writes result,
    s.calls[i]? = some (request, .writing writes result) → Leads result writes s.data

/-- A request that is between two of its statements is the one that takes the
next. -/
theorem Uninterrupted.eq {i j : ℕ} (h : Uninterrupted s (.advance i input))
    (hcall : s.calls[j]? = some (request, phase)) (hmidway : phase.midway = true) : j = i := by
  obtain ⟨input', heq⟩ := h j request phase hcall hmidway
  exact (Calls.Action.advance.inj heq).1.symm

theorem Uninterrupted.resting {i : ℕ} (h : Uninterrupted s (.advance i input))
    (hcall : s.calls[i]? = some (request, phase)) (hwaits : phase.midway = false) : Resting s := by
  intro j request' phase' hcall'
  rw [← Bool.not_eq_true]
  intro hmidway
  obtain rfl := h.eq hcall' hmidway
  rw [hcall] at hcall'
  obtain ⟨-, rfl⟩ := Prod.mk.inj (Option.some.inj hcall')
  exact Bool.false_ne_true (hwaits.symm.trans hmidway)

theorem Uninterrupted.resting_step {i : ℕ} (h : Uninterrupted s (.advance i input))
    (hcall : s.calls[i]? = some (request, phase))
    (hlast : (statement input s.data phase).2.midway = false) :
    Resting (plugin.step s (.advance i input)) := by
  intro j request' phase' hcall'
  obtain hold | ⟨-, heq, -⟩ | ⟨input', phase'', heq, hold, rfl⟩ :=
    getElem?_step hcall'
  · rw [← Bool.not_eq_true]
    intro hmidway
    obtain rfl := h.eq hold hmidway
    rw [step_advance hcall] at hcall'
    rw [getElem?_set_self hcall] at hcall'
    obtain ⟨-, rfl⟩ := Prod.mk.inj (Option.some.inj hcall')
    exact Bool.false_ne_true (hlast.symm.trans hmidway)
  · simp at heq
  · obtain ⟨rfl, rfl⟩ := Calls.Action.advance.inj heq
    rw [hcall] at hold
    obtain ⟨-, rfl⟩ := Prod.mk.inj (Option.some.inj hold)
    exact hlast

theorem Uninterrupted.resting_of_start (h : Uninterrupted s (.start request)) : Resting s := by
  intro i request' phase hcall
  rw [← Bool.not_eq_true]
  intro hmidway
  obtain ⟨input, heq⟩ := h i request' phase hcall hmidway
  simp at heq

theorem rest_of_apply_eq_nil {now : ℤ} (h : (write.apply now options rest).2 = []) : rest = [] := by
  cases write with
  | transition target | transitionFrom sources target =>
    unfold Write.apply at h
    dsimp only at h
    split_ifs at h
    exact h
  | _ => exact h

/-- **A timely statement leaves the callback honest.** -/
theorem truthful_of_timely (hshaped : (Phase.writing (write :: rest) result).Shaped)
    (htimely : (Phase.writing (write :: rest) result).Timely options) :
    (statement input options (.writing (write :: rest) result)).2.truthful := by
  refine truthful_proceed.2 fun hnil hresult => ?_
  have hrest : rest = [] := rest_of_apply_eq_nil hnil
  subst hresult hrest
  obtain heq | ⟨before, heq, -⟩ := hshaped.2 .connected rfl
  · obtain rfl := (List.cons.inj heq).1
    rfl
  · obtain ⟨-, heq⟩ := List.append_inj' (show [] ++ [write] = _ from heq) rfl
    obtain rfl := (List.cons.inj heq).1
    refine htimely.resolve_left fun hcan => ?_
    dsimp only at hnil
    rw [if_pos hcan] at hnil
    exact absurd hnil (List.cons_ne_nil _ _)

theorem leads_of_timely {result' : Option Result} (h : Leads result (write :: rest) options)
    (htimely : (Phase.writing (write :: rest) result).Timely options)
    (hwriting : (statement input options (.writing (write :: rest) result)).2 =
      .writing writes result') :
    Leads result' writes (statement input options (.writing (write :: rest) result)).1 := by
  have hafter : Leads result (write.apply input.now options rest).2
      (write.apply input.now options rest).1 := by
    cases h with
    | step hstep => exact hstep htimely input.now
  unfold statement proceed at hwriting
  dsimp only at hwriting
  cases hrest : (write.apply input.now options rest).2 with
  | nil =>
    rw [hrest] at hwriting
    simp at hwriting
  | cons next rest' =>
    rw [hrest] at hwriting hafter
    obtain ⟨rfl, rfl⟩ := Phase.writing.inj hwriting
    exact hafter

theorem sound_of_timely (h : Leads result (write :: rest) options)
    (htimely : (Phase.writing (write :: rest) result).Timely options)
    (hlast : (statement input options (.writing (write :: rest) result)).2.midway = false) :
    Sound (statement input options (.writing (write :: rest) result)).1 := by
  have hafter : Leads result (write.apply input.now options rest).2
      (write.apply input.now options rest).1 := by
    cases h with
    | step hstep => exact hstep htimely input.now
  unfold statement proceed at hlast
  dsimp only at hlast
  cases hrest : (write.apply input.now options rest).2 with
  | nil =>
    rw [hrest] at hafter
    cases hafter with
    | done hsound => exact hsound
  | cons next rest' =>
    rw [hrest] at hlast
    exact absurd hlast (by simp [Phase.midway])

/-- **An action that interrupts nothing and is timely keeps all this.** -/
theorem orderly_step (hmay : Uninterrupted s action) (htimely : Asks Phase.Timely s action)
    (h : Orderly s) : Orderly (plugin.step s action) := by
  cases action with
  | start request =>
    have hresting : Resting s := hmay.resting_of_start
    refine ⟨shapedCalls_step s _ h.shaped, ?_, fun _ => by rw [data_start]; exact h.sound hresting, ?_⟩
    · exact forall_calls (K := fun _ _ phase => Phase.truthful phase)
        (fun _ _ _ henter => (enter_waits henter).2.1) (fun _ _ _ _ heq => absurd heq (by simp))
        (fun _ _ _ _ heq => absurd heq (by simp)) h.truthful
    · intro i request' writes result hcall
      obtain hold | ⟨-, -, henter⟩ | ⟨_, _, heq, -⟩ := getElem?_step hcall
      · exact absurd (hresting i request' _ hold) (by simp [Phase.midway])
      · exact absurd (enter_waits henter).1 (by simp [Phase.midway])
      · simp at heq
  | advance i input =>
    cases hcall : s.calls[i]? with
    | none =>
      rw [step_of_none hcall]
      exact h
    | some call =>
      obtain ⟨request, phase⟩ := call
      rw [asks_advance_iff hcall] at htimely
      have hdata : (plugin.step s (.advance i input)).data = (statement input s.data phase).1 := by
        rw [step_advance hcall]
        rfl
      -- What is left of a request after the action is what is left of this one.
      have hleads : (∀ writes result,
          (statement input s.data phase).2 = .writing writes result →
            Leads result writes (statement input s.data phase).1) →
          ∀ (j : ℕ) request' writes result,
            (plugin.step s (.advance i input)).calls[j]? = some (request', .writing writes result) →
              Leads result writes (plugin.step s (.advance i input)).data := by
        intro hnew j request' writes result hcall'
        rw [hdata]
        refine hnew writes result ?_
        have hji : j = i := by
          obtain hold | ⟨-, heq, -⟩ | ⟨_, _, heq, -⟩ := getElem?_step hcall'
          · exact hmay.eq hold rfl
          · simp at heq
          · exact (Calls.Action.advance.inj heq).1.symm
        rw [hji, step_advance hcall, getElem?_set_self hcall] at hcall'
        exact (Prod.mk.inj (Option.some.inj hcall')).2
      by_cases hwaits : phase.midway = false
      · have hsound : Sound s.data := h.sound (hmay.resting hcall hwaits)
        obtain ⟨hsame, htruthful⟩ :=
          statement_waiting input s.data hwaits (h.truthful i request phase hcall)
        refine ⟨shapedCalls_step s _ h.shaped, (truthful_advance_iff hcall h.truthful).2 htruthful,
          fun _ => by rw [hdata, hsame]; exact hsound, hleads fun writes result hwriting => ?_⟩
        rw [hsame]
        exact leads_statement hsound hwaits hwriting
      · cases phase with
        | writing writes result =>
          cases writes with
          | nil => exact absurd rfl (h.shaped i request _ hcall).1
          | cons write rest =>
            have hleft := h.leads i request _ _ hcall
            refine ⟨shapedCalls_step s _ h.shaped, (truthful_advance_iff hcall h.truthful).2
              (truthful_of_timely (h.shaped i request _ hcall) htimely), fun hresting => ?_,
              hleads fun writes' result' hwriting => leads_of_timely hleft htimely hwriting⟩
            rw [hdata]
            refine sound_of_timely hleft htimely (hresting i request _ ?_)
            rw [step_advance hcall]
            exact getElem?_set_self hcall
        | _ => exact absurd rfl hwaits

/-- **An action that interrupts nothing leads to a state that is right, if at
rest, just when it is timely.** -/
theorem timely_iff (hmay : Uninterrupted s action) (h : Orderly s) :
    Asks Phase.Timely s action ↔
      (Resting (plugin.step s action) → Right (plugin.step s action)) := by
  constructor
  · intro htimely hresting
    have hafter := orderly_step hmay htimely h
    exact ⟨(hafter.sound hresting).toAgrees, hafter.truthful⟩
  · intro hright
    cases action with
    | start request => trivial
    | advance i input =>
      intro request phase hcall
      unfold Phase.Timely
      split
      · -- The write is the callback's last, and leaves the store disconnected.
        rename_i rest
        obtain rfl : rest = [] := ((h.shaped i request _ hcall).2 .disconnected rfl).eq_nil_of_put
        obtain ⟨hagrees, -⟩ := hright (hmay.resting_step hcall rfl)
        rw [step_advance hcall] at hagrees
        exact hagrees.disconnected rfl
      · by_cases hcan : can s.data.current .connected = true
        · exact .inl hcan
        -- The machine refuses the move, and the callback returns all the same.
        · have hreturns : (statement input s.data
              (.writing [.transition .connected] (some .connected))).2 =
                .returned (some .connected) s.data.current := by
            unfold statement Write.apply
            dsimp only
            rw [if_neg hcan, proceed]
          obtain ⟨-, htruthful⟩ := hright (hmay.resting_step hcall (by rw [hreturns]; rfl))
          rw [truthful_advance_iff hcall h.truthful, hreturns] at htruthful
          exact .inr htruthful
      · trivial

/-! ## Runs -/

theorem right_fresh : Right fresh :=
  ⟨⟨fun _ => rfl, fun h => absurd h (by decide)⟩, fun _ _ _ h => absurd h (by simp [fresh])⟩

theorem orderly_fresh : Orderly fresh where
  shaped _ _ _ h := absurd h (by simp [fresh])
  truthful := right_fresh.2
  sound _ := ⟨right_fresh.1, fun h => absurd h (by decide)⟩
  leads _ _ _ _ h := absurd h (by simp [fresh])

/-- **What the state says of the token.** Between any two statements it is
right, and so is what every callback returned, just when no statement
contradicts the other option. Where no request is interrupted between an
answer of the cloud and its next wait or its end, it is right at every rest
just when no callback disconnects a store that holds a token, and none that
was given one finds a state that is neither connected nor may become so. -/
theorem agrees_iff (actions : List Action) :
    (RightThroughout actions ↔ Throughout plugin.step (Asks Phase.Fits) fresh actions) ∧
      (Throughout plugin.step Uninterrupted fresh actions →
        (RightAtRest actions ↔ Throughout plugin.step (Asks Phase.Timely) fresh actions)) := by
  constructor
  · have hmay : Throughout plugin.step (fun _ _ => True) fresh actions :=
      throughout_of_forall (fun _ _ => trivial) fresh actions
    refine forall_prefix_iff (I := fun s => ShapedCalls s ∧ Right s) ?_ ?_ hmay ?_ right_fresh
    · rintro s action - hfits ⟨hshaped, hright⟩
      exact ⟨shapedCalls_step s action hshaped, (right_step_iff hshaped hright).1 hfits⟩
    · exact fun s action _ h => right_step_iff h.1 h.2
    · exact ⟨orderly_fresh.shaped, right_fresh⟩
  · intro hmay
    exact forall_prefix_iff (P := fun s => Resting s → Right s) (I := Orderly)
      (fun _ _ hmay htimely h => orderly_step hmay htimely h) (fun _ _ hmay h => timely_iff hmay h)
      hmay orderly_fresh fun _ => right_fresh

/-! ## A reconnect that fails -/

/-- Whether an action is a request's next statement. -/
def takes (i : ℕ) : Action → Bool
  | .advance j _ => j == i
  | .start _ => false

theorem takes_iff {i : ℕ} : takes i action = true ↔ ∃ input, action = .advance i input := by
  cases action with
  | start request => exact ⟨fun h => absurd h Bool.false_ne_true, fun h => by simp at h⟩
  | advance j input =>
    refine ⟨fun h => ⟨input, by rw [beq_iff_eq.1 h]⟩, fun ⟨input', h⟩ => ?_⟩
    exact beq_iff_eq.2 (Calls.Action.advance.inj h).1

/-- Whether nothing is interrupted can be computed, a request at a time. -/
instance decidableUninterrupted (s : State) (action : Action) :
    Decidable (Uninterrupted s action) :=
  decidable_of_iff (∀ i < s.calls.length,
      (s.calls[i]?.any fun call => call.2.midway) = true → takes i action = true) (by
    refine ⟨fun h i request phase hcall hmidway => ?_, fun h i _ hany => ?_⟩
    · obtain ⟨hi, -⟩ := List.getElem?_eq_some_iff.1 hcall
      exact takes_iff.1 (h i hi (by rw [hcall]; exact hmidway))
    · obtain ⟨call, hcall, hmidway⟩ := (Option.any_eq_true _ _).1 hany
      exact takes_iff.2 (h i call.1 call.2 hcall hmidway))

/-- Whether no request is between two of its statements can be computed. -/
instance decidableResting (s : State) : Decidable (Resting s) :=
  decidable_of_iff (∀ call ∈ s.calls, call.2.midway = false) (by
    refine ⟨fun h i request phase hcall => h _ (List.mem_of_getElem? hcall), fun h call hcall => ?_⟩
    obtain ⟨i, hi⟩ := List.mem_iff_getElem?.1 hcall
    exact h i call.1 call.2 hi)

instance decidableTimely (options : Options) (phase : Phase) :
    Decidable (phase.Timely options) := by
  unfold Phase.Timely
  split
  · infer_instance
  · infer_instance
  · infer_instance

/-- What a statement meets where the cloud answers. -/
def answered (response : Response) : Input := ⟨0, response, false, false⟩

/-- A handshake is begun, and the cloud says where to send the merchant. -/
def begins (call : ℕ) (state : String) : List Action :=
  .start (.begin state "verifier") ::
    List.replicate 4 (.advance call (answered (.success false { authorizeUrl := some "/connect" })))

/-- Its callback arrives, and the exchange is answered. -/
def returns (call : ℕ) (state : String) (response : Response) : List Action :=
  .start (.handle ⟨some "code", some state⟩ true) ::
    List.replicate 6 (.advance call (answered response))

/-- A shop that is connected is connected again, and the exchange fails. -/
def failedReconnect : List Action :=
  begins 0 "first" ++ returns 1 "first" (.success false { token := some "credential" }) ++
    begins 2 "second" ++ returns 3 "second" (.failure false)

/-- **A reconnect that fails leaves the store disconnected with its old
credential**, though nothing was interrupted. -/
theorem failed_reconnect_keeps_token :
    ¬ (∀ actions, RightThroughout actions) ∧
      ¬ ∀ actions, Throughout plugin.step Uninterrupted fresh actions → RightAtRest actions := by
  have hresting : Resting (run plugin.step fresh failedReconnect) := by decide +kernel
  have hdisconnected : (run plugin.step fresh failedReconnect).data.current = .disconnected := by
    decide +kernel
  have hstored : (run plugin.step fresh failedReconnect).data.storeToken = some "credential" := by
    decide +kernel
  have hwrong : ¬ Right (run plugin.step fresh failedReconnect) := fun hright =>
    absurd (hstored.symm.trans (hright.1.disconnected hdisconnected)) (Option.some_ne_none _)
  have hmay : Throughout plugin.step Uninterrupted fresh failedReconnect := by decide +kernel
  exact ⟨fun h => hwrong (h failedReconnect _ (List.prefix_refl _)),
    fun h => hwrong (h failedReconnect hmay _ (List.prefix_refl _) hresting)⟩

/-- A first connection that fails, one that succeeds, and a disconnect. -/
def connectAndLeave : List Action :=
  begins 0 "first" ++ returns 1 "first" (.failure false) ++ begins 2 "second" ++
    returns 3 "second" (.success false { token := some "credential" }) ++
      .start .disconnect :: List.replicate 7 (.advance 4 (answered (.failure false)))

/-- **A shop that connects when it holds no credential is right at every
rest.** -/
theorem right_of_connectAndLeave : RightAtRest connectAndLeave ∧
    (run plugin.step fresh connectAndLeave).data.connectionState = some .disconnected ∧
    (run plugin.step fresh connectAndLeave).data.storeToken = none :=
  ⟨((agrees_iff connectAndLeave).2 (by decide +kernel)).2 (by decide +kernel),
    by decide +kernel, by decide +kernel⟩

end Optionia.Connection
