import Optionia.Js.Value
import Optionia.Lib.Sorting
/-!
# Which upgrade a refusal names

`PlanLimitGuard.assertWithinPlan` refuses one more where a plan's limit is
reached, and says which plan would allow it. It asks for the public plans above
in their order, takes the first, and then looks whether that one raises the
limit. So the plan that is named is the nearest that helps exactly where the
nearest helps, or none does (`names_the_upgrade_iff`).
-/

namespace Optionia.Usage.Upgrade

open Js

/-! ## The guard -/

/-- A row of `plans`, with `limits` as `asLimits` reads it: a number, or `null`
for no limit, where the metric is there. -/
structure Plan where
  code : String
  name : String
  limits : List (String × Option Binary64.Finite)
  sortOrder : ℤ
  isPublic : Bool

def metricLabel : String → String
  | "option_sets" => "option sets"
  | "stores" => "stores"
  | "team_seats" => "team seats"
  | "products_assigned" => "product assignments"
  | "file_storage_mb" => "MB of storage"
  | _ => "undefined"

def text (n : Binary64.Finite) : String := numberString (.finite n)

/-- What is said of the plan itself. -/
def here (plan : Plan) (metric : String) (current limit : Binary64.Finite) : String :=
  "The " ++ plan.name ++ " plan allows " ++ text limit ++ " " ++ metricLabel metric ++
    ". You have " ++ text current ++ "."

/-- What is said of a plan that allows more. -/
def upgrade (better : Plan) (metric : String) : Option Binary64.Finite → String
  | none => " Upgrade to " ++ better.name ++ " for unlimited " ++ metricLabel metric ++ "."
  | some raised =>
    " Upgrade to " ++ better.name ++ " for " ++ text raised ++ " " ++ metricLabel metric ++ "."

/-- `WHERE sortOrder > ? AND isPublic = TRUE ORDER BY sortOrder ASC`: plans of one
order come as the table has them. -/
def plansAbove (plans : List Plan) (plan : Plan) : List Plan :=
  (plans.filter fun p => plan.sortOrder < p.sortOrder && p.isPublic).mergeSort
    fun p q => p.sortOrder ≤ q.sortOrder

def explain (plans : List Plan) (plan : Plan) (metric : String) (current limit : Binary64.Finite) :
    String :=
  match (plansAbove plans plan).head? with
  | none => here plan metric current limit
  | some better =>
    match better.limits.lookup metric with
    | some none => here plan metric current limit ++ upgrade better metric none
    | none => here plan metric current limit
    | some (some raised) =>
      if raised.val ≤ limit.val then here plan metric current limit
      else here plan metric current limit ++ upgrade better metric (some raised)

structure PlanLimit where
  message : String
  field : String
  limit : Binary64.Finite
  current : Binary64.Finite
  plan : String

/-- `assertWithinPlan`, of what is counted for a tenant. -/
def assertWithinPlan (plans : List Plan) (tenantPlan : Option Plan) (metric : String)
    (current : Binary64.Finite) : Except PlanLimit Unit :=
  match tenantPlan with
  | none => .ok ()
  | some plan =>
    match (plan.limits.lookup metric).join with
    | none => .ok ()
    | some limit =>
      if current.val < limit.val then .ok ()
      else .error ⟨explain plans plan metric current limit, metric, limit, current, plan.code⟩

/-! ## What is asked -/

/-- A plan allows more of a metric than a limit, as much as it says. -/
def Plan.Raises (p : Plan) (metric : String) (limit : Binary64.Finite) : Prop :=
  ∃ raised, p.limits.lookup metric = some raised ∧ ∀ n ∈ raised, limit.val < n.val

/-- **An upgrade helps**: a public plan above, that raises the limit. -/
def Helps (plans : List Plan) (plan : Plan) (metric : String) (limit : Binary64.Finite) (p : Plan) :
    Prop :=
  p ∈ plans ∧ plan.sortOrder < p.sortOrder ∧ p.isPublic = true ∧ p.Raises metric limit

/-- **A message names the upgrade**: none where none helps, and otherwise the
nearest that does, with its own limit. -/
def NamesTheUpgrade (plans : List Plan) (plan : Plan) (metric : String)
    (current limit : Binary64.Finite) (message : String) : Prop :=
  ((∃ p, Helps plans plan metric limit p) → ∃ p raised, Helps plans plan metric limit p ∧
      (∀ q, Helps plans plan metric limit q → p.sortOrder ≤ q.sortOrder) ∧
        p.limits.lookup metric = some raised ∧
          message = here plan metric current limit ++ upgrade p metric raised) ∧
    ((¬ ∃ p, Helps plans plan metric limit p) → message = here plan metric current limit)

/-! ## What is named -/

section

variable {plans : List Plan} {plan p : Plan} {metric : String} {current limit : Binary64.Finite}

theorem mem_plansAbove :
    p ∈ plansAbove plans plan ↔ p ∈ plans ∧ plan.sortOrder < p.sortOrder ∧ p.isPublic = true := by
  unfold plansAbove
  rw [List.mem_mergeSort, List.mem_filter, Bool.and_eq_true, decide_eq_true_eq]

theorem le_of_head (h : (plansAbove plans plan).head? = some p) :
    ∀ q ∈ plansAbove plans plan, p.sortOrder ≤ q.sortOrder := by
  have hsorted : (plansAbove plans plan).Pairwise
      fun p q => decide (p.sortOrder ≤ q.sortOrder) = true := by
    refine List.pairwise_mergeSort (fun a b c hab hbc => ?_) (fun a b => ?_) _
    · simp only [decide_eq_true_eq] at hab hbc ⊢
      omega
    · simp only [Bool.or_eq_true, decide_eq_true_eq]
      omega
  obtain ⟨rest, hrest⟩ := List.head?_eq_some_iff.1 h
  rw [hrest] at hsorted ⊢
  intro q hq
  obtain rfl | hq := List.mem_cons.1 hq
  · exact le_rfl
  · exact of_decide_eq_true (List.rel_of_pairwise_cons hsorted hq)

theorem head_plansAbove (hmem : p ∈ plansAbove plans plan)
    (hnearest : ∀ q ∈ plansAbove plans plan, q.sortOrder ≤ p.sortOrder → q = p) :
    (plansAbove plans plan).head? = some p := by
  cases hhead : (plansAbove plans plan).head? with
  | none =>
    rw [List.head?_eq_none_iff.1 hhead] at hmem
    cases hmem
  | some q =>
    have hle : q.sortOrder ≤ p.sortOrder := le_of_head hhead p hmem
    rw [hnearest q (List.mem_of_mem_head? hhead) hle]

theorem explain_of_raises (current : Binary64.Finite) (h : (plansAbove plans plan).head? = some p)
    (hraises : p.Raises metric limit) : ∃ raised, p.limits.lookup metric = some raised ∧
      explain plans plan metric current limit =
        here plan metric current limit ++ upgrade p metric raised := by
  obtain ⟨raised, hlookup, hmore⟩ := hraises
  refine ⟨raised, hlookup, ?_⟩
  unfold explain
  rw [h]
  dsimp only
  rw [hlookup]
  cases raised with
  | none => rfl
  | some n => exact if_neg (not_le.2 (hmore n rfl))

theorem explain_of_not_raises (current : Binary64.Finite)
    (h : ∀ p ∈ (plansAbove plans plan).head?, ¬ p.Raises metric limit) :
    explain plans plan metric current limit = here plan metric current limit := by
  unfold explain
  cases hhead : (plansAbove plans plan).head? with
  | none => rfl
  | some better =>
    have hnot := h better hhead
    dsimp only
    cases hlookup : better.limits.lookup metric with
    | none => rfl
    | some raised =>
      cases raised with
      | none => exact absurd ⟨none, hlookup, fun n hn => by cases hn⟩ hnot
      | some n =>
        refine if_pos (not_lt.1 fun hlt => hnot ⟨some n, hlookup, fun m hm => ?_⟩)
        cases hm
        exact hlt

theorem refused (hlimit : plan.limits.lookup metric = some (some limit))
    (hreached : limit.val ≤ current.val) : assertWithinPlan plans (some plan) metric current =
      .error ⟨explain plans plan metric current limit, metric, limit, current, plan.code⟩ := by
  unfold assertWithinPlan
  dsimp only
  rw [hlimit]
  exact if_neg (not_lt.2 hreached)

theorem append_upgrade_ne (message : String) (p : Plan) (metric : String)
    (raised : Option Binary64.Finite) : message ++ upgrade p metric raised ≠ message := by
  intro h
  have hlength := congrArg String.length h
  have hpos : 0 < (upgrade p metric raised).length := by
    have hdot : ".".length = 1 := rfl
    cases raised with
    | none =>
      simp only [upgrade, String.length_append]
      omega
    | some n =>
      simp only [upgrade, String.length_append]
      omega
  rw [String.length_append] at hlength
  omega

/-- **What is said names the upgrade where the first plan above does.** -/
theorem names_iff :
    NamesTheUpgrade plans plan metric current limit (explain plans plan metric current limit) ↔
      ((∃ p, Helps plans plan metric limit p) →
        ∃ p, (plansAbove plans plan).head? = some p ∧ p.Raises metric limit) := by
  constructor
  · rintro ⟨hnames, -⟩ hhelps
    obtain ⟨p, raised, -, -, -, hmessage⟩ := hnames hhelps
    by_contra hnone
    have hhere := explain_of_not_raises current
      fun p hp hraises => hnone ⟨p, hp, hraises⟩
    exact append_upgrade_ne _ p metric raised (hmessage.symm.trans hhere)
  · refine fun hfirst => ⟨fun hhelps => ?_, fun hnone => ?_⟩
    · obtain ⟨p, hhead, hraises⟩ := hfirst hhelps
      obtain ⟨raised, hlookup, hmessage⟩ := explain_of_raises current hhead hraises
      obtain ⟨hmem, habove, hpublic⟩ := mem_plansAbove.1 (List.mem_of_mem_head? hhead)
      refine ⟨p, raised, ⟨hmem, habove, hpublic, hraises⟩, fun q hq => ?_, hlookup, hmessage⟩
      exact le_of_head hhead q (mem_plansAbove.2 ⟨hq.1, hq.2.1, hq.2.2.1⟩)
    · refine explain_of_not_raises current fun p hp hraises => hnone ⟨p, ?_⟩
      obtain ⟨hmem, habove, hpublic⟩ := mem_plansAbove.1 (List.mem_of_mem_head? hp)
      exact ⟨hmem, habove, hpublic, hraises⟩

end

/-- **A refusal names an upgrade exactly when one helps, exactly where the first
public plan above raises the limit, or none does.** -/
theorem names_the_upgrade_iff (plans : List Plan) (plan : Plan) (metric : String)
    (current limit : Binary64.Finite) (hlimit : plan.limits.lookup metric = some (some limit))
    (hreached : limit.val ≤ current.val) :
    ∃ message, assertWithinPlan plans (some plan) metric current =
        .error ⟨message, metric, limit, current, plan.code⟩ ∧
      (NamesTheUpgrade plans plan metric current limit message ↔
        ((∃ p, Helps plans plan metric limit p) →
          ∃ p, (plansAbove plans plan).head? = some p ∧ p.Raises metric limit)) :=
  ⟨_, refused hlimit hreached, names_iff⟩

/-! ## An upgrade that is not named -/

/-- A plan with a limit of its stores. -/
def withStores (name : String) (sortOrder : ℤ) (stores : Option Binary64.Finite) : Plan :=
  ⟨name, name, [("stores", stores)], sortOrder, true⟩

theorem raises_withStores {name : String} {sortOrder : ℤ} {stores : Option Binary64.Finite}
    {limit : Binary64.Finite} :
    (withStores name sortOrder stores).Raises "stores" limit ↔ ∀ n ∈ stores, limit.val < n.val := by
  constructor
  · rintro ⟨raised, hlookup, h⟩
    obtain rfl : stores = raised := Option.some.inj hlookup
    exact h
  · exact fun h => ⟨stores, rfl, h⟩

/-- A store more on the plan above: it is named. -/
theorem names_the_upgrade_pro : ∃ one three : Binary64.Finite, one.val = 1 ∧ three.val = 3 ∧
    ∃ message,
      assertWithinPlan [withStores "Free" 0 (some one), withStores "Pro" 1 (some three)]
          (some (withStores "Free" 0 (some one))) "stores" one =
        .error ⟨message, "stores", one, one, "Free"⟩ ∧
      NamesTheUpgrade [withStores "Free" 0 (some one), withStores "Pro" 1 (some three)]
        (withStores "Free" 0 (some one)) "stores" one one message := by
  obtain ⟨one, -, hone⟩ := Binary64.exists_ofInt_eq (n := 1) (by norm_num)
  obtain ⟨three, -, hthree⟩ := Binary64.exists_ofInt_eq (n := 3) (by norm_num)
  obtain ⟨message, hrefused, hiff⟩ := names_the_upgrade_iff
    [withStores "Free" 0 (some one), withStores "Pro" 1 (some three)]
    (withStores "Free" 0 (some one)) "stores" one one rfl le_rfl
  refine ⟨one, three, by simpa using hone, by simpa using hthree, message, hrefused, hiff.2 ?_⟩
  refine fun _ => ⟨withStores "Pro" 1 (some three), ?_, raises_withStores.2 ?_⟩
  · refine head_plansAbove (mem_plansAbove.2 ⟨by simp, Int.zero_lt_one, rfl⟩) fun q hq _ => ?_
    obtain ⟨hmem, habove, -⟩ := mem_plansAbove.1 hq
    obtain rfl | hmem := List.mem_cons.1 hmem
    · exact absurd habove (lt_irrefl _)
    · exact List.mem_singleton.1 hmem
  · rintro n hn
    cases hn
    rw [hone, hthree]
    norm_num

/-- **A plan above that helps no further hides one that does.** -/
theorem hides_the_upgrade : ¬ ∀ (plans : List Plan) (plan : Plan) (metric : String)
    (current limit : Binary64.Finite), plan.limits.lookup metric = some (some limit) →
      limit.val ≤ current.val → ∀ message, assertWithinPlan plans (some plan) metric current =
          .error ⟨message, metric, limit, current, plan.code⟩ →
        NamesTheUpgrade plans plan metric current limit message := by
  intro hall
  obtain ⟨one, -, hone⟩ := Binary64.exists_ofInt_eq (n := 1) (by norm_num)
  let free := withStores "Free" 0 (some one)
  let pro := withStores "Pro" 1 (some one)
  let business := withStores "Business" 2 none
  have hnames := hall [free, pro, business] free "stores" one one rfl le_rfl _
    (refused rfl le_rfl)
  obtain ⟨p, hhead, hraises⟩ := names_iff.1 hnames ⟨business, by simp, (by decide : (0 : ℤ) < 2), rfl,
    raises_withStores.2 fun n hn => by cases hn⟩
  have hpro : pro ∈ plansAbove [free, pro, business] free :=
    mem_plansAbove.2 ⟨by simp, Int.zero_lt_one, rfl⟩
  have hnearest : p = pro := by
    have hle : p.sortOrder ≤ 1 := le_of_head hhead pro hpro
    obtain ⟨hmem, habove, -⟩ := mem_plansAbove.1 (List.mem_of_mem_head? hhead)
    simp only [List.mem_cons, List.not_mem_nil, or_false] at hmem
    obtain rfl | rfl | rfl := hmem
    · exact absurd habove (lt_irrefl _)
    · rfl
    · exact absurd hle (by decide)
  -- Of the stores, the plan above allows as many.
  rw [hnearest] at hraises
  exact lt_irrefl _ (raises_withStores.1 hraises one rfl)

end Optionia.Usage.Upgrade
