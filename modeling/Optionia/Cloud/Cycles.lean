import Optionia.Cloud.PublishCheck
import Optionia.Lib.Acyclic
/-!
# The publish check for cycles is exact

`cycleIn` searches with an explicit stack, on which a node may stand several
times. Nodes on the path are the ones the stack has still to leave, each an
edge away from the one before, so a node met again on the path closes a cycle;
a node is settled once all it leads to is settled, so settled nodes are in
none. With what `idsIn` says of targets it follows that the check reports a
loop exactly where the rules have one (`rulesHaveNoCycles_exact`).
-/

namespace Optionia.Cloud

open Acyclic

variable {edges : Edges} {s s' : Search} {node : String} {enter : Bool}
  {stack : List (String × Bool)}

/-- An edge leads from one node to another. -/
def Leads (edges : Edges) (a b : String) : Prop := b ∈ next edges a

/-! ## The stack -/

/-- The nodes a stack has still to leave, the innermost first. -/
def leaving (stack : List (String × Bool)) : List String :=
  stack.filterMap fun p => if p.2 then none else some p.1

@[simp] theorem leaving_enter (n : String) : leaving ((n, true) :: stack) = leaving stack := rfl

@[simp] theorem leaving_leave (n : String) : leaving ((n, false) :: stack) = n :: leaving stack :=
  rfl

theorem leaving_entered (ns : List String) :
    leaving (ns.map (fun n => (n, true)) ++ stack) = leaving stack := by
  induction ns with
  | nil => rfl
  | cons n ns ih => exact ih

/-- Whatever stands on the stack, the innermost node below leads to it. -/
def Hangs (edges : Edges) : List (String × Bool) → Prop
  | [] => True
  | (n, _) :: below => (∀ m ∈ (leaving below).head?, Leads edges m n) ∧ Hangs edges below

/-- A node to leave leads only to what is settled or stands above it. -/
def Covered (edges : Edges) (settled : List String) : List String → List (String × Bool) → Prop
  | _, [] => True
  | above, (n, true) :: below => Covered edges settled (n :: above) below
  | above, (n, false) :: below =>
    (∀ b, Leads edges n b → b ∈ settled ∨ b ∈ above) ∧ Covered edges settled (n :: above) below

theorem Hangs.isChain (h : Hangs edges stack) :
    List.IsChain (fun x y => Leads edges y x) (leaving stack) := by
  induction stack with
  | nil => exact List.IsChain.nil
  | cons p below ih =>
    obtain ⟨n, enter⟩ := p
    cases enter with
    | true => exact ih h.2
    | false => exact List.isChain_cons.2 ⟨h.1, ih h.2⟩

theorem Hangs.entered {ns : List String} (h : Hangs edges stack)
    (hns : ∀ n ∈ ns, ∀ m ∈ (leaving stack).head?, Leads edges m n) :
    Hangs edges (ns.map (fun n => (n, true)) ++ stack) := by
  induction ns with
  | nil => exact h
  | cons n ns ih =>
    obtain ⟨hn, hns⟩ := List.forall_mem_cons.1 hns
    refine ⟨fun m hm => hn m ?_, ih hns⟩
    change m ∈ (leaving (ns.map (fun n => (n, true)) ++ stack)).head? at hm
    rwa [leaving_entered] at hm

variable {settled : List String} {b : String} {tree : OptionSetTree}

theorem Covered.mono {settled' above above' : List String} (h : Covered edges settled above stack)
    (hsub : ∀ b, b ∈ settled ∨ b ∈ above → b ∈ settled' ∨ b ∈ above') :
    Covered edges settled' above' stack := by
  have hcons : ∀ {above above' : List String} (n : String),
      (∀ b, b ∈ settled ∨ b ∈ above → b ∈ settled' ∨ b ∈ above') →
      ∀ b, b ∈ settled ∨ b ∈ n :: above → b ∈ settled' ∨ b ∈ n :: above' := by
    intro above above' n hsub b hb
    rw [List.mem_cons] at hb ⊢
    obtain hb | rfl | hb := hb
    · exact (hsub b (.inl hb)).imp_right .inr
    · exact .inr (.inl rfl)
    · exact (hsub b (.inr hb)).imp_right .inr
  induction stack generalizing above above' with
  | nil => trivial
  | cons p below ih =>
    obtain ⟨n, enter⟩ := p
    cases enter with
    | true => exact ih h (hcons n hsub)
    | false => exact ⟨fun b hb => hsub b (h.1 b hb), ih h.2 (hcons n hsub)⟩

theorem Covered.entered {above ns : List String}
    (h : Covered edges settled (ns.reverse ++ above) stack) :
    Covered edges settled above (ns.map (fun n => (n, true)) ++ stack) := by
  induction ns generalizing above with
  | nil => exact h
  | cons n ns ih =>
    rw [List.reverse_cons, List.append_assoc] at h
    exact ih h

/-! ## One turn -/

/-- **What holds of a search at every turn.** -/
structure Search.Sound (edges : Edges) (s : Search) : Prop where
  /-- On the path are the nodes still to be left. -/
  path : s.onPath = leaving s.stack
  /-- No node is on it twice, or settled twice, or both. -/
  nodup : (s.onPath ++ s.settled).Nodup
  /-- A settled node leads to nodes settled before it. -/
  ordered : Ordered (Leads edges) s.settled
  /-- Each node on the stack is led to by the innermost one below. -/
  hangs : Hangs edges s.stack
  /-- What a node on the path leads to is settled, or above it. -/
  covered : Covered edges s.settled [] s.stack

theorem Search.Sound.cycle (h : s.Sound edges) (hs : s.stack = (node, enter) :: stack)
    (hstep : s.step edges node enter stack = none) : HasCycle (Leads edges) := by
  unfold Search.step at hstep
  split_ifs at hstep with hleave hpath
  have henter : enter = true := by simpa using hleave
  subst henter
  have hhangs := h.hangs
  rw [h.path, hs, leaving_enter] at hpath
  rw [hs] at hhangs
  exact cycle_of_chain hhangs.2.isChain hpath hhangs.1

/-- **A turn keeps what holds of a search.** -/
theorem Search.Sound.step (h : s.Sound edges) (hs : s.stack = (node, enter) :: stack)
    (hstep : s.step edges node enter stack = some s') : s'.Sound edges := by
  obtain ⟨hpath, hnodup, hordered, hhangs, hcovered⟩ := h
  rw [hs] at hpath hhangs hcovered
  unfold Search.step at hstep
  split_ifs at hstep with hleave honPath hsettled
  · -- A node is left: all it leads to is settled.
    have hfalse : enter = false := by simpa using hleave
    subst hfalse
    obtain rfl := Option.some.inj hstep
    rw [leaving_leave] at hpath
    have herase : s.onPath.erase node = leaving stack := by rw [hpath, List.erase_cons_head]
    refine ⟨herase, ?_, ⟨fun b hb => ?_, hordered⟩, hhangs.2, ?_⟩
    · change (s.onPath.erase node ++ node :: s.settled).Nodup
      rw [herase]
      rw [hpath] at hnodup
      exact (List.perm_middle.nodup_iff).2 hnodup
    · exact (hcovered.1 b hb).resolve_right List.not_mem_nil
    · refine hcovered.2.mono fun b hb => ?_
      rw [List.mem_singleton] at hb
      exact .inl (List.mem_cons.2 hb.symm)
  · -- It has been settled since it was put there.
    have htrue : enter = true := by simpa using hleave
    subst htrue
    obtain rfl := Option.some.inj hstep
    have hbelow : Covered edges s.settled [node] stack := hcovered
    refine ⟨hpath, hnodup, hordered, hhangs.2, hbelow.mono fun b hb => ?_⟩
    rw [List.mem_singleton] at hb
    obtain hb | rfl := hb
    · exact .inl hb
    · exact .inl hsettled
  · -- It is entered, and what it leads to is put above it.
    have htrue : enter = true := by simpa using hleave
    subst htrue
    obtain rfl := Option.some.inj hstep
    have hbelow : Covered edges s.settled [node] stack := hcovered
    rw [leaving_enter] at hpath
    rw [← List.map_reverse]
    refine ⟨?_, ?_, hordered, Hangs.entered ⟨hhangs.1, hhangs.2⟩ fun n hn m hm => ?_,
      Covered.entered ⟨fun b hb => ?_, ?_⟩⟩
    · change node :: s.onPath = _
      rw [leaving_entered, leaving_leave, hpath]
    · change (node :: (s.onPath ++ s.settled)).Nodup
      refine List.nodup_cons.2 ⟨fun hmem => ?_, hnodup⟩
      exact (List.mem_append.1 hmem).elim honPath hsettled
    · obtain rfl : node = m := Option.some.inj hm
      exact (List.mem_filter.1 (List.mem_reverse.1 hn)).1
    · by_cases hb' : b ∈ s.settled
      · exact .inl hb'
      · refine .inr (List.mem_append_left _ (List.mem_reverse.2 (List.mem_reverse.2 ?_)))
        exact List.mem_filter.2 ⟨hb, decide_eq_true hb'⟩
    · refine hbelow.mono fun b hb => ?_
      rw [List.mem_singleton] at hb
      exact hb.imp_right fun hb => List.mem_cons.2 (.inl hb)

theorem Search.step_keeps (hs : s.stack = (node, enter) :: stack)
    (hstep : s.step edges node enter stack = some s')
    (hb : b ∈ s.settled ∨ b ∈ s.stack.map Prod.fst) :
    b ∈ s'.settled ∨ b ∈ s'.stack.map Prod.fst := by
  rw [hs, List.map_cons, List.mem_cons] at hb
  unfold Search.step at hstep
  split_ifs at hstep with hleave honPath hsettled
  · obtain rfl := Option.some.inj hstep
    obtain hb | rfl | hb := hb
    · exact .inl (List.mem_cons_of_mem _ hb)
    · exact .inl List.mem_cons_self
    · exact .inr hb
  · obtain rfl := Option.some.inj hstep
    obtain hb | rfl | hb := hb
    · exact .inl hb
    · exact .inl hsettled
    · exact .inr hb
  · obtain rfl := Option.some.inj hstep
    refine hb.imp_right fun hb => ?_
    rw [List.map_append]
    exact List.mem_append_right _ (List.mem_cons.2 hb)

/-! ## Whole searches -/

/-- **What a search finds**: a cycle, or that all it met is in none. -/
theorem search_spec {fuel : ℕ} {found : Bool} (h : s.Sound edges)
    (hsearch : search edges fuel s = some (found, s')) :
    (found = true → HasCycle (Leads edges)) ∧
      (found = false → s'.Sound edges ∧ s'.stack = [] ∧
        ∀ b, b ∈ s.settled ∨ b ∈ s.stack.map Prod.fst → b ∈ s'.settled) := by
  induction fuel generalizing s with
  | zero => exact absurd hsearch.symm (Option.some_ne_none _)
  | succ fuel ih =>
    unfold search at hsearch
    cases hs : s.stack with
    | nil =>
      rw [hs] at hsearch
      obtain ⟨rfl, rfl⟩ := Prod.mk.inj (Option.some.inj hsearch)
      refine ⟨fun hfound => Bool.noConfusion hfound, fun _ => ⟨h, hs, fun b hb => ?_⟩⟩
      exact hb.resolve_right List.not_mem_nil
    | cons p stack =>
      obtain ⟨node, enter⟩ := p
      rw [hs] at hsearch
      dsimp only at hsearch
      cases hstep : s.step edges node enter stack with
      | none =>
        rw [hstep] at hsearch
        obtain ⟨rfl, rfl⟩ := Prod.mk.inj (Option.some.inj hsearch)
        exact ⟨fun _ => h.cycle hs hstep, fun hfound => Bool.noConfusion hfound⟩
      | some s₁ =>
        rw [hstep] at hsearch
        obtain ⟨hcycle, hnone⟩ := ih (h.step hs hstep) hsearch
        refine ⟨hcycle, fun hfound => ?_⟩
        obtain ⟨hsound, hempty, hsettled⟩ := hnone hfound
        refine ⟨hsound, hempty, fun b hb => hsettled b (Search.step_keeps hs hstep ?_)⟩
        rwa [hs]

theorem Search.Sound.start (h : s.Sound edges) (hempty : s.stack = []) (start : String) :
    Search.Sound edges { s with stack := [(start, true)] } := by
  have hpath : s.onPath = [] := by
    rw [h.path, hempty]
    rfl
  refine ⟨hpath, h.nodup, h.ordered, ⟨fun m hm => ?_, trivial⟩, trivial⟩
  exact absurd hm.symm (Option.some_ne_none m)

/-- The searches from some starts find a cycle, or that none is met. -/
theorem searchAll_spec {starts : List String} (hstarts : ∀ start ∈ starts, start ∈ edges.keys)
    (h : s.Sound edges) (hempty : s.stack = []) :
    (searchAll edges starts s = true → HasCycle (Leads edges)) ∧
      (searchAll edges starts s = false → ∀ b, b ∈ s.settled ∨ b ∈ starts →
        ¬ Relation.TransGen (Leads edges) b b) := by
  induction starts generalizing s with
  | nil =>
    refine ⟨fun hfound => absurd hfound Bool.false_ne_true, fun _ b hb => ?_⟩
    have hmem : b ∈ s.settled := hb.resolve_right List.not_mem_nil
    exact not_cycle_of_ordered h.ordered (List.nodup_append.1 h.nodup).2.1 hmem
  | cons start starts ih =>
    obtain ⟨hstart, hstarts⟩ := List.forall_mem_cons.1 hstarts
    unfold searchAll
    split
    · next hdone =>
      obtain ⟨hcycle, hnone⟩ := ih hstarts h hempty
      refine ⟨hcycle, fun hfound b hb => hnone hfound b ?_⟩
      rw [List.mem_cons] at hb
      obtain hb | rfl | hb := hb
      · exact .inl hb
      · exact .inl hdone
      · exact .inr hb
    · obtain ⟨⟨found, s₁⟩, hsearch⟩ := Option.isSome_iff_exists.1 (search_start_isSome hstart s)
      obtain ⟨hcycle, hnone⟩ := search_spec (h.start hempty start) hsearch
      rw [hsearch]
      cases found with
      | true => exact ⟨fun _ => hcycle rfl, fun hfound => Bool.noConfusion hfound⟩
      | false =>
        obtain ⟨hsound, hempty₁, hsettled⟩ := hnone rfl
        obtain ⟨hcycle₁, hnone₁⟩ := ih hstarts hsound hempty₁
        refine ⟨hcycle₁, fun hfound b hb => hnone₁ hfound b ?_⟩
        rw [List.mem_cons, ← or_assoc] at hb
        refine hb.imp_left fun hb => hsettled b (hb.imp_right fun hb => ?_)
        exact List.mem_singleton.2 hb

/-- **`cycleIn` finds a cycle exactly where there is one.** -/
theorem cycleIn_iff (edges : Edges) : cycleIn edges = true ↔ HasCycle (Leads edges) := by
  have hsound : Search.Sound edges ⟨[], [], []⟩ := ⟨rfl, List.nodup_nil, trivial, trivial, trivial⟩
  obtain ⟨hcycle, hnone⟩ := searchAll_spec (fun _ h => h) hsound rfl
  refine ⟨hcycle, fun ⟨a, hback⟩ => ?_⟩
  by_contra hfound
  -- What is on a cycle leads somewhere, so the search starts there too.
  obtain ⟨b, hleads, -⟩ := Relation.TransGen.head'_iff.1 hback
  have hkey : a ∈ edges.keys := by
    by_contra hnot
    unfold Leads next at hleads
    rw [OrderedMap.getD, OrderedMap.get?_eq_none.2 hnot] at hleads
    exact List.not_mem_nil hleads
  exact hnone (Bool.not_eq_true _ ▸ hfound) a (.inr hkey) hback

/-! ## What a target contains -/

def OptionSetTree.ids (tree : OptionSetTree) : List String :=
  tree.groups.flatMap fun group =>
    group.id :: group.options.flatMap fun option => option.id :: option.values.map (·.id)

/-- **What a target contains**, which is known by its id: a group its options,
an option itself, a value the option it is of. -/
inductive Contains (tree : OptionSetTree) : String → String → Prop where
  | group {group : GroupNode} {option : OptionNode} (hgroup : group ∈ tree.groups)
    (hoption : option ∈ group.options) : Contains tree group.id option.id
  | option {group : GroupNode} {option : OptionNode} (hgroup : group ∈ tree.groups)
    (hoption : option ∈ group.options) : Contains tree option.id option.id
  | value {group : GroupNode} {option : OptionNode} {value : OptionValue}
    (hgroup : group ∈ tree.groups) (hoption : option ∈ group.options)
    (hvalue : value ∈ option.values) : Contains tree value.id option.id

/-- What is written of each id, in the order it is. -/
def reached (tree : OptionSetTree) : List (String × List String) :=
  tree.groups.flatMap fun group =>
    (group.id, group.options.map (·.id)) :: group.options.flatMap fun option =>
      (option.id, [option.id]) :: option.values.map fun value => (value.id, [option.id])

theorem map_fst_reached (tree : OptionSetTree) : (reached tree).map Prod.fst = tree.ids := by
  simp only [reached, OptionSetTree.ids, List.map_flatMap, List.map_cons, List.map_map,
    Function.comp_def]

theorem optionsUnder_eq (tree : OptionSetTree) :
    optionsUnder tree = OrderedMap.setAll ∅ (reached tree) := by
  unfold optionsUnder reached OrderedMap.setAll
  simp only [List.foldl_flatMap, List.foldl_cons, List.foldl_map]

theorem contains_iff {target : String} :
    Contains tree target b ↔ ∃ bs, (target, bs) ∈ reached tree ∧ b ∈ bs := by
  constructor
  · rintro (⟨hgroup, hoption⟩ | ⟨hgroup, hoption⟩ | ⟨hgroup, hoption, hvalue⟩)
    · refine ⟨_, List.mem_flatMap.2 ⟨_, hgroup, List.mem_cons_self⟩, ?_⟩
      exact List.mem_map.2 ⟨_, hoption, rfl⟩
    · refine ⟨_, List.mem_flatMap.2 ⟨_, hgroup, List.mem_cons_of_mem _ ?_⟩, List.mem_singleton_self _⟩
      exact List.mem_flatMap.2 ⟨_, hoption, List.mem_cons_self⟩
    · refine ⟨_, List.mem_flatMap.2 ⟨_, hgroup, List.mem_cons_of_mem _ ?_⟩, List.mem_singleton_self _⟩
      refine List.mem_flatMap.2 ⟨_, hoption, List.mem_cons_of_mem _ ?_⟩
      exact List.mem_map.2 ⟨_, hvalue, rfl⟩
  · rintro ⟨bs, hmem, hb⟩
    obtain ⟨group, hgroup, hmem⟩ := List.mem_flatMap.1 hmem
    obtain heq | hmem := List.mem_cons.1 hmem
    · obtain ⟨rfl, rfl⟩ := Prod.mk.inj heq
      obtain ⟨option, hoption, rfl⟩ := List.mem_map.1 hb
      exact .group hgroup hoption
    · obtain ⟨option, hoption, hmem⟩ := List.mem_flatMap.1 hmem
      obtain heq | hmem := List.mem_cons.1 hmem
      · obtain ⟨rfl, rfl⟩ := Prod.mk.inj heq
        obtain rfl := List.mem_singleton.1 hb
        exact .option hgroup hoption
      · obtain ⟨value, hvalue, heq⟩ := List.mem_map.1 hmem
        obtain ⟨rfl, rfl⟩ := Prod.mk.inj heq
        obtain rfl := List.mem_singleton.1 hb
        exact .value hgroup hoption hvalue

/-- **A target reaches what it contains**, where no two rows share an id. -/
theorem mem_under_optionsUnder (hids : tree.ids.Nodup) {target : String} :
    b ∈ Rules.under (optionsUnder tree) target ↔ Contains tree target b := by
  rw [contains_iff]
  have hentries : (optionsUnder tree).entries = reached tree := by
    rw [optionsUnder_eq, OrderedMap.entries_setAll_of_nodup]
    · rfl
    · rw [map_fst_reached]
      exact hids
  unfold Rules.under OrderedMap.getD
  constructor
  · intro hb
    cases hget : OrderedMap.get? (optionsUnder tree) target with
    | none =>
      rw [hget] at hb
      simp at hb
    | some bs =>
      rw [hget] at hb
      refine ⟨bs, ?_, hb⟩
      rw [← hentries]
      exact OrderedMap.get?_eq_some.1 hget
  · rintro ⟨bs, hmem, hb⟩
    rw [← hentries] at hmem
    rw [OrderedMap.get?_eq_some.2 hmem]
    exact hb

/-! ## The graph of the rules -/

/-- **An edge**: an enabled hide rule reads the one option, and its target
contains the other. -/
def RuleEdge (tree : OptionSetTree) (rules : List OptionRule) (a b : String) : Prop :=
  a ≠ b ∧ ∃ rule ∈ rules, rule.isEnabled = true ∧ rule.action = "hide" ∧
    a ∈ conditionOptionIds rule.conditions ∧ Contains tree rule.targetId b

theorem leads_addEdge {x y a : String} :
    Leads (addEdge edges x y) a b ↔ Leads edges a b ∨ (a = x ∧ b = y) := by
  unfold Leads next addEdge
  rw [OrderedMap.getD_update]
  by_cases ha : a = x
  · subst ha
    rw [if_pos rfl]
    by_cases hy : y ∈ edges.getD a []
    · rw [if_pos hy]
      refine ⟨.inl, ?_⟩
      rintro (h | ⟨-, rfl⟩)
      · exact h
      · exact hy
    · rw [if_neg hy, List.mem_append, List.mem_singleton]
      exact or_congr_right (and_iff_right rfl).symm
  · rw [if_neg ha]
    exact ⟨.inl, fun h => h.resolve_right fun h => ha h.1⟩

theorem leads_foldl {β : Type} {draw : Edges → β → Edges} {P : β → Prop} {a : String} {l : List β}
    (hdraw : ∀ edges, ∀ x ∈ l, Leads (draw edges x) a b ↔ Leads edges a b ∨ P x) (edges : Edges) :
    Leads (l.foldl draw edges) a b ↔ Leads edges a b ∨ ∃ x ∈ l, P x := by
  induction l generalizing edges with
  | nil => simp
  | cons x l ih =>
    obtain ⟨hx, hl⟩ : (∀ edges, Leads (draw edges x) a b ↔ Leads edges a b ∨ P x) ∧
        ∀ edges, ∀ y ∈ l, Leads (draw edges y) a b ↔ Leads edges a b ∨ P y :=
      ⟨fun edges => hdraw edges x List.mem_cons_self,
        fun edges y hy => hdraw edges y (List.mem_cons_of_mem _ hy)⟩
    rw [List.foldl_cons, ih hl, hx, or_assoc, List.exists_mem_cons_iff]

/-- **The edges drawn are those of the rules.** -/
theorem leads_ruleEdges (hids : tree.ids.Nodup) {rules : List OptionRule} {a : String} :
    Leads (ruleEdges tree rules) a b ↔ RuleEdge tree rules a b := by
  have hnone : ¬ Leads (∅ : Edges) a b := List.not_mem_nil
  have haffected : ∀ (readOption : String) (edges : Edges) (affectedOption : String),
      Leads (if affectedOption = readOption then edges
        else addEdge edges readOption affectedOption) a b ↔
      Leads edges a b ∨ (a = readOption ∧ b = affectedOption ∧ a ≠ b) := by
    intro readOption edges affectedOption
    split
    · next hself =>
      refine ⟨.inl, fun h => h.resolve_right ?_⟩
      rintro ⟨rfl, rfl, hne⟩
      exact hne hself.symm
    · next hother =>
      rw [leads_addEdge]
      refine or_congr_right ⟨?_, fun h => ⟨h.1, h.2.1⟩⟩
      rintro ⟨rfl, rfl⟩
      exact ⟨rfl, rfl, fun heq => hother heq.symm⟩
  have hrule : ∀ (edges : Edges) (rule : OptionRule),
      Leads ((conditionOptionIds rule.conditions).foldl (fun edges readOption =>
        (Rules.under (optionsUnder tree) rule.targetId).foldl (fun edges affectedOption =>
          if affectedOption = readOption then edges
          else addEdge edges readOption affectedOption) edges) edges) a b ↔
      Leads edges a b ∨ (a ∈ conditionOptionIds rule.conditions ∧
        Contains tree rule.targetId b ∧ a ≠ b) := by
    intro edges rule
    rw [leads_foldl fun edges readOption _ =>
      leads_foldl (fun edges affectedOption _ => haffected readOption edges affectedOption) edges,
      ← mem_under_optionsUnder hids]
    refine or_congr_right ⟨?_, ?_⟩
    · rintro ⟨readOption, hread, affectedOption, haff, rfl, rfl, hne⟩
      exact ⟨hread, haff, hne⟩
    · rintro ⟨hread, haff, hne⟩
      exact ⟨a, hread, b, haff, rfl, rfl, hne⟩
  unfold ruleEdges RuleEdge
  rw [leads_foldl fun edges rule _ => hrule edges rule, or_iff_right hnone]
  constructor
  · rintro ⟨rule, hmem, hread, hcontains, hne⟩
    obtain ⟨hmem, hkept⟩ := List.mem_filter.1 hmem
    rw [Bool.and_eq_true, beq_iff_eq] at hkept
    exact ⟨hne, rule, hmem, hkept.1, hkept.2, hread, hcontains⟩
  · rintro ⟨hne, rule, hmem, henabled, hhide, hread, hcontains⟩
    refine ⟨rule, List.mem_filter.2 ⟨hmem, ?_⟩, hread, hcontains, hne⟩
    rw [Bool.and_eq_true, beq_iff_eq]
    exact ⟨henabled, hhide⟩

/-- **The check for cycles is exact**: it reports a loop exactly where the
edges of the rules close one, and no search of any graph, from any start and
whatever is settled already, runs out of turns. -/
theorem rulesHaveNoCycles_exact (tree : OptionSetTree) (rules : List OptionRule)
    (hids : tree.ids.Nodup) :
    ((∃ finding ∈ rulesHaveNoCycles tree rules, finding.code = "RULES_FORM_A_CYCLE") ↔
      HasCycle (RuleEdge tree rules)) ∧
    ∀ (edges : Edges), ∀ start ∈ edges.keys, ∀ s : Search,
      (search edges (searchLimit edges) { s with stack := [(start, true)] }).isSome = true := by
  refine ⟨?_, fun edges start hstart s => search_start_isSome hstart s⟩
  have hgraph : Leads (ruleEdges tree rules) = RuleEdge tree rules :=
    funext fun a => funext fun b => propext (leads_ruleEdges hids)
  rw [← hgraph, ← cycleIn_iff]
  unfold rulesHaveNoCycles
  cases cycleIn (ruleEdges tree rules) with
  | true => exact ⟨fun _ => rfl, fun _ => ⟨_, List.mem_singleton_self _, rfl⟩⟩
  | false =>
    refine ⟨fun ⟨finding, hmem, _⟩ => absurd hmem List.not_mem_nil, fun h => ?_⟩
    simp at h

/-- Two options, each hidden while the other is unanswered. -/
def loopTree : OptionSetTree where
  id := "s"
  groups := [⟨"g", true, [⟨"a", true, []⟩, ⟨"b", true, [⟨"v", true⟩]⟩]⟩]
  rules := []

/-- A rule that hides a target where `o` is unanswered. -/
def hideBy (id targetType target o : String) : OptionRule where
  id := id
  targetType := targetType
  targetId := target
  action := "hide"
  matchType := "all"
  conditions := .arr [.obj [("optionId", .str o), ("operator", .str "is_empty")]]
  actionValue := none
  sortOrder := 0
  isEnabled := true

/-- The group is hidden by one of its options, and a value of that by the other. -/
def loopRules : List OptionRule := [hideBy "r" "group" "g" "a", hideBy "q" "value" "v" "a",
  hideBy "p" "option" "a" "b"]

/-- **A loop through a group and an option is reported, and is one.** -/
theorem loop_reported :
    (∃ finding ∈ rulesHaveNoCycles loopTree loopRules, finding.code = "RULES_FORM_A_CYCLE") ∧
      HasCycle (RuleEdge loopTree loopRules) := by
  have hexact := (rulesHaveNoCycles_exact loopTree loopRules (by decide +kernel)).1
  have hreported : ∃ finding ∈ rulesHaveNoCycles loopTree loopRules,
      finding.code = "RULES_FORM_A_CYCLE" := by decide +kernel
  exact ⟨hreported, hexact.1 hreported⟩

end Optionia.Cloud
