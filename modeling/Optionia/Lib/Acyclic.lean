import Mathlib.Data.List.Chain
import Mathlib.Logic.Relation
/-!
# Cycles of a relation

A list in which everything comes before what it leads to holds no cycle
(`not_cycle_of_ordered`), and what leads back into a chain closes one
(`cycle_of_chain`). A depth-first search keeps the one list of what it is done
with and the other of what it is in.
-/

namespace Acyclic

open Relation

variable {α : Type*} {r : α → α → Prop} {l : List α} {a b : α}

/-- The relation leads somewhere and back again. -/
def HasCycle (r : α → α → Prop) : Prop := ∃ a, TransGen r a a

/-! ## In order -/

/-- Whatever a member leads to comes after it. -/
def Ordered (r : α → α → Prop) : List α → Prop
  | [] => True
  | a :: l => (∀ b, r a b → b ∈ l) ∧ Ordered r l

theorem Ordered.closed (h : Ordered r l) (ha : a ∈ l) (hab : r a b) : b ∈ l := by
  induction l with
  | nil => simp at ha
  | cons c l ih =>
    obtain ⟨hhead, hrest⟩ := h
    obtain rfl | ha := List.mem_cons.1 ha
    · exact List.mem_cons_of_mem _ (hhead b hab)
    · exact List.mem_cons_of_mem _ (ih hrest ha)

theorem Ordered.reaches (h : Ordered r l) (ha : a ∈ l) (hab : ReflTransGen r a b) : b ∈ l := by
  induction hab with
  | refl => exact ha
  | tail _ hstep ih => exact h.closed ih hstep

/-- **Nothing in such a list leads back to itself.** -/
theorem not_cycle_of_ordered (h : Ordered r l) (hnodup : l.Nodup) (ha : a ∈ l) :
    ¬ TransGen r a a := by
  induction l with
  | nil => simp at ha
  | cons c l ih =>
    obtain ⟨hhead, hrest⟩ := h
    obtain ⟨hnot, hnodup⟩ := List.nodup_cons.1 hnodup
    obtain rfl | ha := List.mem_cons.1 ha
    · intro hcycle
      -- Its first step leaves for the rest of the list, and stays there.
      obtain ⟨b, hstep, hback⟩ := TransGen.head'_iff.1 hcycle
      exact hnot (hrest.reaches (hhead b hstep) hback)
    · exact ih hrest hnodup ha

/-! ## In a chain -/

theorem reaches_head {c : α} (h : List.IsChain (fun x y => r y x) (c :: l)) (ha : a ∈ c :: l) :
    ReflTransGen r a c := by
  induction l generalizing c with
  | nil =>
    obtain rfl := List.mem_singleton.1 ha
    exact ReflTransGen.refl
  | cons d l ih =>
    obtain ⟨hstep, hrest⟩ := List.isChain_cons_cons.1 h
    obtain rfl | ha := List.mem_cons.1 ha
    · exact ReflTransGen.refl
    · exact (ih hrest ha).tail hstep

/-- **A chain whose head leads back into it closes a cycle.** -/
theorem cycle_of_chain (h : List.IsChain (fun x y => r y x) l) (ha : a ∈ l)
    (hback : ∀ c ∈ l.head?, r c a) : HasCycle r := by
  cases l with
  | nil => simp at ha
  | cons c l => exact ⟨a, TransGen.tail' (reaches_head h ha) (hback c rfl)⟩

end Acyclic
