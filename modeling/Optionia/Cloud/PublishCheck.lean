import Mathlib.Algebra.Order.BigOperators.Group.Finset
import Mathlib.Data.Finset.Basic
import Optionia.Wire.Rule
/-!
# Option sets in the cloud, and the publish check for cycles

An option set as it is stored, the rules of its draft, what of a rule is
published, and `rulesHaveNoCycles`: the publish check that draws an edge from
every option a hide rule reads to every other option its target reaches, and
refuses a set whose edges close a loop.

The search for a loop keeps an explicit stack, so nothing bounds it on the
face of it; `search_isSome` gives the number of steps it takes at most.
-/

namespace Optionia.Cloud

open Wire

/-! ## What is stored -/

/-- A value of an option. -/
structure OptionValue where
  id : String
  isEnabled : Bool

/-- An option, with its values. -/
structure OptionNode where
  id : String
  isEnabled : Bool
  values : List OptionValue

/-- A group, with its options. -/
structure GroupNode where
  id : String
  isEnabled : Bool
  options : List OptionNode

/-- A rule of the draft. Its conditions are whatever the column holds. -/
structure OptionRule where
  id : String
  targetType : String
  targetId : String
  action : String
  matchType : String
  conditions : Json
  actionValue : Option (List (String × Json))
  sortOrder : ℤ
  isEnabled : Bool

/-- An option set. -/
structure OptionSetTree where
  id : String
  groups : List GroupNode
  rules : List OptionRule

/-! ## What is published of a rule -/

def elements : Json → List Json
  | .arr vs => vs
  | _ => []

/-- `toPublishedConditions`, for one entry: an object keeps what it says of
the three fields, an array says nothing of them, anything else is dropped. -/
def toPublishedCondition : Json → Option Json
  | .obj es => some (.obj (member "option_id" (es.lookup "optionId") ++
      member "operator" (es.lookup "operator") ++ member "value" (es.lookup "value")))
  | .arr _ => some (.obj [])
  | _ => none

/-- `toPublishedActionValue`: only a price has one. -/
def toPublishedActionValue (action : String) :
    Option (List (String × Json)) → Option (List (String × Json))
  | some es =>
    if action = "set_price" then some (member "amount_minor" (es.lookup "amountMinor")) else none
  | none => none

def toPublishedRule (rule : OptionRule) : Json :=
  .obj ([("id", .str rule.id), ("target_type", .str rule.targetType),
    ("target_id", .str rule.targetId), ("action", .str rule.action),
    ("match_type", .str rule.matchType),
    ("conditions", .arr ((elements rule.conditions).filterMap toPublishedCondition)),
    ("sort_order", .int rule.sortOrder)]
    ++ member "action_value" ((toPublishedActionValue rule.action rule.actionValue).map .obj))

def publishedRules (rules : List OptionRule) : List Json :=
  (rules.filter (·.isEnabled)).map toPublishedRule

/-- A condition as the rule tester takes it from the draft. -/
def evaluableCondition (condition : Json) : EvaluableCondition where
  optionId := condition.parse.string "optionId"
  operator := condition.parse.string "operator"
  value := condition.parse.field "value"

/-- `evaluable`: a rule as the rule tester takes it from the draft. -/
def evaluable (rule : OptionRule) : EvaluableRule where
  targetId := rule.targetId
  action := rule.action
  matchType := rule.matchType
  conditions := (elements rule.conditions).map evaluableCondition
  actionValue := (rule.actionValue.map fun es => (Json.obj es).parse).getD .null

/-! ## What a target reaches -/

/-- `optionsUnder`, of `idsIn`: a group reaches its options, an option
itself, a value the option that owns it. -/
def optionsUnder (tree : OptionSetTree) : Rules.Containment :=
  tree.groups.foldl (fun under group =>
    group.options.foldl (fun under option =>
        option.values.foldl (fun under value => under.set value.id [option.id])
          (under.set option.id [option.id]))
      (under.set group.id (group.options.map (·.id)))) ∅

/-- `containment`, of the rule tester: whose answers a target clears. A value
clears none. -/
def containment (tree : OptionSetTree) : Rules.Containment :=
  tree.groups.foldl (fun under group =>
    group.options.foldl (fun under option =>
        option.values.foldl (fun under value => under.set value.id [])
          (under.set option.id [option.id]))
      (under.set group.id (group.options.map (·.id)))) ∅

/-- `conditionOptionIds`: the options a rule's conditions read. -/
def conditionOptionIds (conditions : Json) : List String :=
  (elements conditions).filterMap fun condition =>
    match condition.get? "optionId" with
    | some (.str optionId) => some optionId
    | _ => none

/-! ## The graph, and the search for a cycle -/

/-- The edges of a graph, by where they start. -/
abbrev Edges := OrderedMap String (List String)

/-- Where edges lead from a node. -/
def next (edges : Edges) (node : String) : List String := edges.getD node []

/-- The graph with an edge more. -/
def addEdge (edges : Edges) (a b : String) : Edges :=
  edges.update [] a fun bs => if b ∈ bs then bs else bs ++ [b]

/-- The edges of the enabled hide rules: from each option read to each other
option reached. -/
def ruleEdges (tree : OptionSetTree) (rules : List OptionRule) : Edges :=
  (rules.filter fun rule => rule.isEnabled && rule.action == "hide").foldl (fun edges rule =>
    (conditionOptionIds rule.conditions).foldl (fun edges readOption =>
      (Rules.under (optionsUnder tree) rule.targetId).foldl (fun edges affectedOption =>
        if affectedOption = readOption then edges
        else addEdge edges readOption affectedOption) edges) edges) ∅

/-- A search under way: the nodes done with, those on the path, and what is
still to be entered or left, next first. -/
structure Search where
  settled : List String
  onPath : List String
  /-- Nodes to enter (`true`) or leave. -/
  stack : List (String × Bool)

/-- One turn of the loop: the search after it, or that a cycle was found. -/
def Search.step (edges : Edges) (s : Search) (node : String) (enter : Bool)
    (stack : List (String × Bool)) : Option Search :=
  if !enter then some ⟨node :: s.settled, s.onPath.erase node, stack⟩
  else if node ∈ s.onPath then none
  else if node ∈ s.settled then some { s with stack := stack }
  else
    let entered := ((next edges node).filter (· ∉ s.settled)).map fun n => (n, true)
    some ⟨s.settled, node :: s.onPath, entered.reverse ++ (node, false) :: stack⟩

/-- The loop over one stack: whether it met a cycle, and the nodes settled.
`none` is a search cut short, which `search_isSome` excludes. -/
def search (edges : Edges) : ℕ → Search → Option (Bool × Search)
  | 0, _ => none
  | fuel + 1, s =>
    match s.stack with
    | [] => some (false, s)
    | (node, enter) :: stack =>
      match s.step edges node enter stack with
      | none => some (true, s)
      | some s' => search edges fuel s'

/-- How many turns a search takes at most. -/
def searchLimit (edges : Edges) : ℕ :=
  edges.keys.length + 2 * edges.values.flatten.length + 2

/-- The searches from each start not yet settled, until one meets a cycle. -/
def searchAll (edges : Edges) : List String → Search → Bool
  | [], _ => false
  | start :: starts, s =>
    if start ∈ s.settled then searchAll edges starts s
    else match search edges (searchLimit edges) { s with stack := [(start, true)] } with
      | some (false, s') => searchAll edges starts s'
      | some (true, _) => true
      | none => false

def cycleIn (edges : Edges) : Bool := searchAll edges edges.keys ⟨[], [], []⟩

/-- A finding of a publish check. -/
structure PublishFinding where
  severity : String
  code : String
  subject : String
  message : String
  deriving DecidableEq

def rulesHaveNoCycles (tree : OptionSetTree) (rules : List OptionRule) : List PublishFinding :=
  if cycleIn (ruleEdges tree rules) then
    [⟨"blocker", "RULES_FORM_A_CYCLE", "set:" ++ tree.id,
      "Two or more rules depend on each other in a loop, so the options they " ++
      "control can never settle. Remove one of the conditions that closes the loop."⟩]
  else []

/-! ## The search ends -/

def nodes (edges : Edges) : Finset String := edges.keys.toFinset ∪ edges.values.flatten.toFinset

/-- The nodes a search has not entered. -/
def Search.unentered (edges : Edges) (s : Search) : Finset String :=
  (nodes edges).filter fun n => n ∉ s.onPath ∧ n ∉ s.settled

/-- What a search has still to do: its stack, and of every node not entered
its own leaving and its edges. -/
def Search.todo (edges : Edges) (s : Search) : ℕ :=
  s.stack.length + ∑ n ∈ s.unentered edges, (1 + (next edges n).length)

variable {edges : Edges}

theorem mem_nodes_of_mem_next {a b : String} (h : b ∈ next edges a) : b ∈ nodes edges := by
  rw [next, OrderedMap.getD] at h
  cases hget : OrderedMap.get? edges a with
  | none =>
    rw [hget] at h
    simp at h
  | some bs =>
    rw [hget] at h
    refine Finset.mem_union_right _ (List.mem_toFinset.2 (List.mem_flatten.2 ⟨bs, ?_, h⟩))
    exact List.mem_map.2 ⟨(a, bs), OrderedMap.get?_eq_some.1 hget, rfl⟩

/-- Every turn that does not end the search leaves less to do, on a stack of
nodes. -/
theorem Search.todo_step {s s' : Search} {node : String} {enter : Bool}
    {stack : List (String × Bool)} (hs : s.stack = (node, enter) :: stack)
    (hnodes : ∀ p ∈ s.stack, p.1 ∈ nodes edges) (h : s.step edges node enter stack = some s') :
    s'.todo edges < s.todo edges ∧ ∀ p ∈ s'.stack, p.1 ∈ nodes edges := by
  rw [hs] at hnodes
  obtain ⟨hnode, hstack⟩ := List.forall_mem_cons.1 hnodes
  have hlength : s.todo edges =
      stack.length + 1 + ∑ n ∈ s.unentered edges, (1 + (next edges n).length) := by
    rw [todo, hs, List.length_cons]
  rw [step] at h
  split_ifs at h with hleave hpath hsettled
  · -- Leaving a node enters none.
    obtain rfl := Option.some.inj h
    have hsub : Search.unentered edges ⟨node :: s.settled, s.onPath.erase node, stack⟩ ⊆
        s.unentered edges := by
      intro n hn
      simp only [unentered, Finset.mem_filter, List.mem_cons, not_or] at hn ⊢
      refine ⟨hn.1, fun hp => hn.2.1 ?_, hn.2.2.2⟩
      exact (List.mem_erase_of_ne hn.2.2.1).2 hp
    refine ⟨?_, hstack⟩
    have hle := Finset.sum_le_sum_of_subset (f := fun n => 1 + (next edges n).length) hsub
    rw [hlength]
    change stack.length + _ < _
    omega
  · obtain rfl := Option.some.inj h
    refine ⟨?_, hstack⟩
    rw [hlength]
    change stack.length + ∑ n ∈ s.unentered edges, (1 + (next edges n).length) < _
    omega
  · -- Entering a node pays for its leaving and its edges.
    obtain rfl := Option.some.inj h
    have hmem : node ∈ s.unentered edges := Finset.mem_filter.2 ⟨hnode, hpath, hsettled⟩
    have herase : Search.unentered edges ⟨s.settled, node :: s.onPath,
        ((((next edges node).filter (· ∉ s.settled)).map fun n => (n, true)).reverse ++
          (node, false) :: stack)⟩ = (s.unentered edges).erase node := by
      ext n
      simp only [unentered, Finset.mem_filter, Finset.mem_erase, List.mem_cons, not_or]
      tauto
    constructor
    · rw [hlength, todo, herase, ← Finset.add_sum_erase _ _ hmem, List.length_append,
        List.length_reverse, List.length_map, List.length_cons]
      have := List.length_filter_le (fun n => decide (n ∉ s.settled)) (next edges node)
      omega
    · intro p hp
      rw [List.mem_append, List.mem_reverse, List.mem_map] at hp
      rcases hp with ⟨n, hn, rfl⟩ | hp
      · exact mem_nodes_of_mem_next (List.mem_of_mem_filter hn)
      · rcases List.mem_cons.1 hp with rfl | hp
        · exact hnode
        · exact hstack p hp

/-- **A search given more turns than it has to do ends**, and the nodes it
settles stay settled. -/
theorem search_isSome {fuel : ℕ} {s : Search} (hnodes : ∀ p ∈ s.stack, p.1 ∈ nodes edges)
    (h : s.todo edges < fuel) : (search edges fuel s).isSome := by
  induction fuel generalizing s with
  | zero => exact absurd h (Nat.not_lt_zero _)
  | succ fuel ih =>
    rw [search]
    cases hs : s.stack with
    | nil => rfl
    | cons p stack =>
      obtain ⟨node, enter⟩ := p
      simp only
      cases hstep : s.step edges node enter stack with
      | none => rfl
      | some s' =>
        obtain ⟨hlt, hnodes'⟩ := Search.todo_step hs hnodes hstep
        exact ih hnodes' (by omega)

theorem sum_next_length (edges : Edges) :
    ∑ n ∈ nodes edges, (next edges n).length = edges.values.flatten.length := by
  have hkeys : ∑ n ∈ edges.keys.toFinset, (next edges n).length =
      ∑ n ∈ nodes edges, (next edges n).length := by
    refine Finset.sum_subset Finset.subset_union_left fun n _ hn => ?_
    rw [next, OrderedMap.getD, OrderedMap.get?_eq_none.2 fun h => hn (List.mem_toFinset.2 h)]
    rfl
  have hvalues : edges.keys.map (fun n => (next edges n).length) =
      edges.values.map List.length := by
    rw [OrderedMap.keys, OrderedMap.values, List.map_map, List.map_map]
    refine List.map_congr_left fun p hp => ?_
    simp only [Function.comp_apply, next, OrderedMap.getD]
    rw [OrderedMap.get?_eq_some.2 hp]
    rfl
  rw [← hkeys, List.sum_toFinset _ edges.keys_nodup, hvalues, List.length_flatten]

/-- **The limit is enough for a search from one start.** -/
theorem todo_lt_searchLimit (edges : Edges) (s : Search) (start : String) :
    Search.todo edges { s with stack := [(start, true)] } < searchLimit edges := by
  have hsub : Search.unentered edges { s with stack := [(start, true)] } ⊆ nodes edges :=
    Finset.filter_subset _ _
  have hle := Finset.sum_le_sum_of_subset (f := fun n => 1 + (next edges n).length) hsub
  have hsum : ∑ n ∈ nodes edges, (1 + (next edges n).length) =
      (nodes edges).card + edges.values.flatten.length := by
    rw [Finset.sum_add_distrib, sum_next_length, Finset.card_eq_sum_ones]
  have hcard : (nodes edges).card ≤ edges.keys.length + edges.values.flatten.length :=
    (Finset.card_union_le _ _).trans
      (Nat.add_le_add (List.toFinset_card_le _) (List.toFinset_card_le _))
  rw [Search.todo, searchLimit, List.length_singleton]
  omega

/-- **No search from a start of the graph is cut short.** -/
theorem search_start_isSome {start : String} (h : start ∈ edges.keys) (s : Search) :
    (search edges (searchLimit edges) { s with stack := [(start, true)] }).isSome := by
  refine search_isSome ?_ (todo_lt_searchLimit edges s start)
  rw [List.forall_mem_singleton]
  exact Finset.mem_union_left _ (List.mem_toFinset.2 h)

end Optionia.Cloud
