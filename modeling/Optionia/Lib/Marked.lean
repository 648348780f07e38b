import Mathlib.Data.List.DropRight
/-!
# What follows the marks of a list

Some entries of a list are marks. `followed` asks that an entry of some kind
stands right after each, `reached` that one of some kind stands anywhere after
it. Trimming blanks on the right keeps `followed` exactly where each mark also
reaches something solid.
-/

namespace Marked

variable {α : Type*} {mark next solid : α → Bool} {c : α} {cs ds : List α}

/-- Right after each mark stands a `next`. -/
def followed (mark next : α → Bool) : List α → Bool
  | [] => true
  | c :: cs => (!mark c || cs.head?.any next) && followed mark next cs

/-- Somewhere after each mark stands a `solid`. -/
def reached (mark solid : α → Bool) : List α → Bool
  | [] => true
  | c :: cs => (!mark c || cs.any solid) && reached mark solid cs

theorem followed_cons_of_not_mark (h : mark c = false) :
    followed mark next (c :: cs) = followed mark next cs := by
  rw [followed, h, Bool.not_false, Bool.true_or, Bool.true_and]

theorem followed_cons_of_mark (h : mark c = true) :
    followed mark next (c :: cs) = (cs.head?.any next && followed mark next cs) := by
  rw [followed, h, Bool.not_true, Bool.false_or]

theorem reached_cons_of_not_mark (h : mark c = false) :
    reached mark solid (c :: cs) = reached mark solid cs := by
  rw [reached, h, Bool.not_false, Bool.true_or, Bool.true_and]

theorem reached_cons_of_mark (h : mark c = true) :
    reached mark solid (c :: cs) = (cs.any solid && reached mark solid cs) := by
  rw [reached, h, Bool.not_true, Bool.false_or]

theorem followed_of_no_mark (h : ∀ c ∈ cs, mark c = false) : followed mark next cs = true := by
  induction cs with
  | nil => rfl
  | cons c cs ih =>
    rw [followed_cons_of_not_mark (h c List.mem_cons_self)]
    exact ih fun d hd => h d (List.mem_cons_of_mem c hd)

theorem reached_of_no_mark (h : ∀ c ∈ cs, mark c = false) : reached mark solid cs = true := by
  induction cs with
  | nil => rfl
  | cons c cs ih =>
    rw [reached_cons_of_not_mark (h c List.mem_cons_self)]
    exact ih fun d hd => h d (List.mem_cons_of_mem c hd)

theorem followed_dropWhile {p : α → Bool} (hp : ∀ c, p c = true → mark c = false) :
    followed mark next (cs.dropWhile p) = followed mark next cs := by
  induction cs with
  | nil => rfl
  | cons c cs ih =>
    by_cases hc : p c = true
    · rw [List.dropWhile_cons_of_pos hc, ih, followed_cons_of_not_mark (hp c hc)]
    · rw [List.dropWhile_cons_of_neg hc]

theorem reached_dropWhile {p : α → Bool} (hp : ∀ c, p c = true → mark c = false) :
    reached mark solid (cs.dropWhile p) = reached mark solid cs := by
  induction cs with
  | nil => rfl
  | cons c cs ih =>
    by_cases hc : p c = true
    · rw [List.dropWhile_cons_of_pos hc, ih, reached_cons_of_not_mark (hp c hc)]
    · rw [List.dropWhile_cons_of_neg hc]

/-- **Blanks on the right of a list that ends with something solid.** A mark
is solid, so one at the end reaches nothing, and any other reaches the end. -/
theorem followed_append_blanks (hmark : ∀ c, mark c = true → solid c = true)
    (hds : ∀ c ∈ ds, solid c = false)
    (hlast : ∀ c ∈ cs.getLast?, solid c = true) :
    followed mark next cs = true ↔
      followed mark next (cs ++ ds) = true ∧ reached mark solid (cs ++ ds) = true := by
  have hblank : ∀ c ∈ ds, mark c = false := fun c hc => by
    by_contra hmarked
    exact absurd (hmark c (Bool.not_eq_false _ ▸ hmarked)) (by rw [hds c hc]; exact Bool.false_ne_true)
  induction cs with
  | nil =>
    rw [List.nil_append]
    exact iff_of_true rfl ⟨followed_of_no_mark hblank, reached_of_no_mark hblank⟩
  | cons c cs ih =>
    rw [List.cons_append]
    have htail : ∀ d ∈ cs.getLast?, solid d = true := by
      intro d hd
      refine hlast d ?_
      rw [List.getLast?_cons, Option.mem_def.1 hd]
      rfl
    by_cases hc : mark c = true
    · rw [followed_cons_of_mark hc, followed_cons_of_mark hc, reached_cons_of_mark hc]
      cases cs with
      | nil =>
        -- The mark ends the list: nothing follows, and nothing is reached.
        have hnone : ds.any solid = false := by
          rw [List.any_eq_false]
          intro d hd
          rw [hds d hd]
          exact Bool.false_ne_true
        rw [List.nil_append, hnone, Bool.false_and]
        exact iff_of_false Bool.false_ne_true fun h => Bool.false_ne_true h.2
      | cons d cs =>
        have hsolid : ((d :: cs) ++ ds).any solid = true := by
          rw [List.any_append, Bool.or_eq_true]
          refine Or.inl (List.any_eq_true.2 ⟨(d :: cs).getLast (List.cons_ne_nil d cs),
            List.getLast_mem _, htail _ ?_⟩)
          exact List.getLast?_eq_some_getLast _
        have hrest := ih htail
        rw [hsolid, Bool.true_and, Bool.and_eq_true, Bool.and_eq_true]
        constructor
        · rintro ⟨hhead, h⟩
          exact ⟨⟨hhead, (hrest.1 h).1⟩, (hrest.1 h).2⟩
        · rintro ⟨⟨hhead, h⟩, hreached⟩
          exact ⟨hhead, hrest.2 ⟨h, hreached⟩⟩
    · have hc' : mark c = false := Bool.not_eq_true _ ▸ hc
      rw [followed_cons_of_not_mark hc', followed_cons_of_not_mark hc',
        reached_cons_of_not_mark hc']
      exact ih htail

/-- **Trimming on the right keeps what follows each mark exactly where each
mark reaches something solid.** -/
theorem followed_rdropWhile (hmark : ∀ c, mark c = true → solid c = true) :
    followed mark next (cs.rdropWhile (!solid ·)) = true ↔
      followed mark next cs = true ∧ reached mark solid cs = true := by
  have hsplit : cs.rdropWhile (!solid ·) ++ cs.rtakeWhile (!solid ·) = cs :=
    List.rdropWhile_append_rtakeWhile
  have hlast : ∀ c ∈ (cs.rdropWhile (!solid ·)).getLast?, solid c = true := by
    intro c hc
    have hne : cs.rdropWhile (!solid ·) ≠ [] := by
      intro hnil
      rw [hnil] at hc
      simp at hc
    have hkept := List.rdropWhile_last_not (!solid ·) cs hne
    rw [List.getLast?_eq_some_getLast hne] at hc
    obtain rfl := Option.some.inj hc
    rwa [Bool.not_eq_true', Bool.not_eq_false] at hkept
  have hblanks : ∀ c ∈ cs.rtakeWhile (!solid ·), solid c = false := fun c hc => by
    have htaken := List.mem_rtakeWhile_imp hc
    rwa [Bool.not_eq_true'] at htaken
  have h := @followed_append_blanks α mark next solid _ _ hmark hblanks hlast
  rwa [hsplit] at h

end Marked
