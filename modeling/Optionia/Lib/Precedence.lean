import Optionia.Lib.OrderedMap
import Optionia.Lib.Sorting
/-!
# Claims, tiers and two sorts

Entries that claim a key one after another: the first to claim it has it
(`get?_foldl_claim`). A map written over another has precedence over it
(`get?_setAll_entries`). Sorting by one comparison a list that another has
sorted leaves it in the order of the first, and of the second among what the
first ties (`pairwise_lex_insertionSort`): insertion sort is stable.
-/

namespace OrderedMap

variable {κ α β : Type*} [DecidableEq κ]

/-- The map with a value under a key, unless there is one. -/
def claimed (m : OrderedMap κ α) (k : κ) (a : α) : OrderedMap κ α :=
  if (m.get? k).isSome then m else m.set k a

theorem get?_claimed (m : OrderedMap κ α) (k : κ) (a : α) (k' : κ) :
    (m.claimed k a).get? k' = (m.get? k').or (if k' = k then some a else none) := by
  unfold claimed
  by_cases hk : (m.get? k).isSome = true
  · rw [if_pos hk]
    split
    · next h =>
      subst h
      obtain ⟨b, hb⟩ := Option.isSome_iff_exists.1 hk
      rw [hb, Option.or_some]
      rfl
    · rw [Option.or_none]
  · rw [if_neg hk, get?_set]
    split
    · next h =>
      subst h
      rw [Option.not_isSome_iff_eq_none.1 hk, Option.none_or]
    · rw [Option.or_none]

/-- **The first to claim a key has it.** -/
theorem get?_foldl_claimed (claims : β → Bool) (key : β → κ) (value : β → α) (l : List β)
    (m : OrderedMap κ α) (k : κ) :
    (l.foldl (fun m b => if claims b then m.claimed (key b) (value b) else m) m).get? k =
      (m.get? k).or ((l.find? fun b => claims b && decide (key b = k)).map value) := by
  induction l generalizing m with
  | nil => rw [List.foldl_nil, List.find?_nil, Option.map_none, Option.or_none]
  | cons b l ih =>
    rw [List.foldl_cons, ih]
    by_cases hclaims : claims b = true
    · rw [if_pos hclaims, get?_claimed]
      by_cases hkey : key b = k
      · rw [if_pos hkey.symm, List.find?_cons_of_pos (by rw [hclaims, decide_eq_true hkey]; rfl),
          Option.map_some, Option.or_assoc, Option.some_or]
      · rw [if_neg (Ne.symm hkey), Option.or_none,
          List.find?_cons_of_neg (by rw [decide_eq_false hkey, Bool.and_false]; exact Bool.false_ne_true)]
    · rw [if_neg hclaims, List.find?_cons_of_neg (by
        rw [Bool.not_eq_true] at hclaims
        rw [hclaims, Bool.false_and]
        exact Bool.false_ne_true)]

/-- **What stands in a map filled step by step** stood there before, or a step
put it there. -/
theorem of_get?_foldl {f : OrderedMap κ α → β → OrderedMap κ α} {k : κ} {a : α} {put : β → Prop}
    (hstep : ∀ m b, (f m b).get? k = some a → m.get? k = some a ∨ put b) {l : List β}
    {m : OrderedMap κ α} (h : (l.foldl f m).get? k = some a) :
    m.get? k = some a ∨ ∃ b ∈ l, put b := by
  induction l generalizing m with
  | nil => exact Or.inl h
  | cons b l ih =>
    rw [List.foldl_cons] at h
    rcases ih h with hfirst | ⟨c, hc, hput⟩
    · rcases hstep m b hfirst with hbefore | hput
      · exact Or.inl hbefore
      · exact Or.inr ⟨b, List.mem_cons_self, hput⟩
    · exact Or.inr ⟨c, List.mem_cons_of_mem b hc, hput⟩

theorem get?_setAll_of_not_mem {m : OrderedMap κ α} {k : κ} {l : List (κ × α)}
    (h : ∀ p ∈ l, p.1 ≠ k) : (m.setAll l).get? k = m.get? k := by
  induction l generalizing m with
  | nil => rfl
  | cons p l ih =>
    have hrest := @ih (m.set p.1 p.2) fun q hq => h q (List.mem_cons_of_mem p hq)
    have hp := h p List.mem_cons_self
    exact hrest.trans (get?_set_ne m p.2 (Ne.symm hp))

/-- **A map written over another has precedence.** -/
theorem get?_setAll_entries (m m' : OrderedMap κ α) (k : κ) :
    (m.setAll m'.entries).get? k = (m'.get? k).or (m.get? k) := by
  have hmain : ∀ (l : List (κ × α)), (l.map Prod.fst).Nodup → ∀ m : OrderedMap κ α,
      (m.setAll l).get? k = (l.lookup k).or (m.get? k) := by
    intro l
    induction l with
    | nil => exact fun _ m => rfl
    | cons p l ih =>
      intro hnodup m
      rw [List.map_cons, List.nodup_cons] at hnodup
      have hstep : (m.setAll (p :: l)).get? k = ((m.set p.1 p.2).setAll l).get? k := rfl
      rw [hstep]
      by_cases hk : k = p.1
      · subst hk
        have habsent : ∀ q ∈ l, q.1 ≠ p.1 := fun q hq heq =>
          hnodup.1 (heq ▸ List.mem_map_of_mem hq)
        rw [get?_setAll_of_not_mem habsent, get?_set_self, List.lookup_cons_self, Option.some_or]
      · have hlookup : (p :: l).lookup k = l.lookup k := by
          rw [List.lookup_cons, beq_eq_false_iff_ne.2 hk]
        rw [ih hnodup.2, hlookup, get?_set_ne m p.2 hk]
  exact hmain m'.entries m'.nodup m

end OrderedMap

theorem find?_congr_of_mem {α : Type*} {test test' : α → Bool} {l : List α}
    (h : ∀ a ∈ l, test a = test' a) : l.find? test = l.find? test' := by
  induction l with
  | nil => rfl
  | cons a l ih =>
    rw [List.find?_cons, List.find?_cons, h a List.mem_cons_self,
      ih fun b hb => h b (List.mem_cons_of_mem a hb)]

namespace Sorting

variable {α : Type*} {r s : α → α → Prop} [DecidableRel r]

/-- One order, and another among what it ties. -/
def Lex (r s : α → α → Prop) (a b : α) : Prop := r a b ∧ (r b a → s a b)

/-- An element put before all it ties keeps the two orders. -/
theorem pairwise_lex_orderedInsert (htotal : ∀ a b, r a b ∨ r b a)
    (htrans : ∀ a b c, r a b → r b c → r a c) {a : α} {l : List α} (ha : ∀ b ∈ l, s a b)
    (hl : l.Pairwise (Lex r s)) : (l.orderedInsert r a).Pairwise (Lex r s) := by
  induction l with
  | nil => exact List.pairwise_singleton _ a
  | cons b l ih =>
    obtain ⟨hbelow, htail⟩ := List.pairwise_cons.1 hl
    rw [List.orderedInsert_cons]
    by_cases hab : r a b
    · rw [if_pos hab]
      refine List.pairwise_cons.2 ⟨fun c hc => ⟨?_, fun _ => ha c hc⟩, hl⟩
      rcases List.mem_cons.1 hc with rfl | hc
      · exact hab
      · exact htrans a b c hab (hbelow c hc).1
    · rw [if_neg hab]
      refine List.pairwise_cons.2
        ⟨fun c hc => ?_, ih (fun c hc => ha c (List.mem_cons_of_mem b hc)) htail⟩
      rcases (List.mem_orderedInsert r).1 hc with rfl | hc
      · exact ⟨(htotal c b).resolve_left hab, fun hcb => absurd hcb hab⟩
      · exact hbelow c hc

/-- **Sorting again by another comparison is stable.** -/
theorem pairwise_lex_insertionSort (htotal : ∀ a b, r a b ∨ r b a)
    (htrans : ∀ a b c, r a b → r b c → r a c) {l : List α} (hl : l.Pairwise s) :
    (l.insertionSort r).Pairwise (Lex r s) := by
  induction l with
  | nil => exact List.Pairwise.nil
  | cons a l ih =>
    obtain ⟨hbelow, htail⟩ := List.pairwise_cons.1 hl
    rw [List.insertionSort_cons]
    exact pairwise_lex_orderedInsert htotal htrans
      (fun b hb => hbelow b ((List.mem_insertionSort r).1 hb)) (ih htail)

end Sorting
