import Mathlib.Data.List.Sort
/-!
# Lists read page by page

A list in some order is read a page at a time, each page after the last row of
the one before. The row is known by its sort key alone, which a cursor carries;
a cursor may not be read back. The pages are the whole list in its order, each
row once, exactly where every cursor a page ends with is read back
(`lists_iff`). The order need only be total: rows that tie on one key are told
apart by another (`Collation.lex`).
-/

/-- A total preorder that can be computed. -/
structure Collation (κ : Type*) where
  le : κ → κ → Bool
  total : ∀ a b, le a b = true ∨ le b a = true
  trans : ∀ a b c, le a b = true → le b c = true → le a c = true

namespace Collation

variable {κ ι : Type*}

def gt (c : Collation κ) (a b : κ) : Bool := !c.le a b

def eq (c : Collation κ) (a b : κ) : Bool := c.le a b && c.le b a

theorem gt_asymm (c : Collation κ) {a b : κ} (h : c.gt a b = true) : ¬ c.gt b a = true := by
  intro h'
  rw [gt, Bool.not_eq_true'] at h h'
  have htotal := c.total a b
  rw [h, h'] at htotal
  exact htotal.elim Bool.noConfusion Bool.noConfusion

/-- One order, and another among what it ties. -/
def lex (p : Collation κ) (q : Collation ι) : Collation (κ × ι) where
  le a b := p.le a.1 b.1 && (!p.le b.1 a.1 || q.le a.2 b.2)
  total a b := by
    have hp := p.total a.1 b.1
    have hq := q.total a.2 b.2
    cases hab : p.le a.1 b.1 <;> cases hba : p.le b.1 a.1 <;> simp_all
  trans a b c := by
    simp only [Bool.and_eq_true, Bool.or_eq_true, Bool.not_eq_true']
    rintro ⟨hab, hab'⟩ ⟨hbc, hbc'⟩
    refine ⟨p.trans _ _ _ hab hbc, ?_⟩
    -- Where the first order ties the ends, it ties what is between.
    rcases Bool.eq_false_or_eq_true (p.le c.1 a.1) with hca | hca
    · have hba := p.trans _ _ _ hbc hca
      have hcb := p.trans _ _ _ hca hab
      rw [hba] at hab'
      rw [hcb] at hbc'
      exact Or.inr (q.trans _ _ _ (hab'.resolve_left Bool.noConfusion)
        (hbc'.resolve_left Bool.noConfusion))
    · exact Or.inl hca

/-- Later by two orders: later by the first, or tied there and later by the
second. -/
theorem gt_lex (p : Collation κ) (q : Collation ι) (a b : κ × ι) :
    (p.lex q).gt a b = (p.gt a.1 b.1 || p.eq a.1 b.1 && q.gt a.2 b.2) := by
  unfold gt eq lex
  dsimp only
  cases p.le a.1 b.1 <;> cases p.le b.1 a.1 <;> cases q.le a.2 b.2 <;> rfl

theorem eq_lex (p : Collation κ) (q : Collation ι) (a b : κ × ι) :
    (p.lex q).eq a b = (p.eq a.1 b.1 && q.eq a.2 b.2) := by
  unfold eq lex
  dsimp only
  cases p.le a.1 b.1 <;> cases p.le b.1 a.1 <;> cases q.le a.2 b.2 <;> rfl

/-- Words in the order of their letters, as in a dictionary. -/
def wordLe (c : Collation κ) : List κ → List κ → Bool
  | [], _ => true
  | _ :: _, [] => false
  | a :: l, b :: m => c.le a b && (!c.le b a || wordLe c l m)

theorem wordLe_total (c : Collation κ) (l m : List κ) :
    c.wordLe l m = true ∨ c.wordLe m l = true := by
  induction l generalizing m with
  | nil => exact Or.inl rfl
  | cons a l ih =>
    cases m with
    | nil => exact Or.inr rfl
    | cons b m =>
      have hab := c.total a b
      have hlm := ih m
      rw [wordLe, wordLe]
      cases hle : c.le a b <;> cases hle' : c.le b a <;> simp_all

theorem wordLe_trans (c : Collation κ) {l m n : List κ} (hlm : c.wordLe l m = true)
    (hmn : c.wordLe m n = true) : c.wordLe l n = true := by
  induction l generalizing m n with
  | nil => rfl
  | cons a l ih =>
    cases m with
    | nil => exact absurd hlm Bool.false_ne_true
    | cons b m =>
      cases n with
      | nil => exact absurd hmn Bool.false_ne_true
      | cons d n =>
        rw [wordLe, Bool.and_eq_true, Bool.or_eq_true, Bool.not_eq_true'] at hlm hmn ⊢
        refine ⟨c.trans a b d hlm.1 hmn.1, ?_⟩
        rcases Bool.eq_false_or_eq_true (c.le d a) with hda | hda
        · have hba := c.trans b d a hmn.1 hda
          have hdb := c.trans d a b hda hlm.1
          rw [hba] at hlm
          rw [hdb] at hmn
          exact Or.inr (ih (hlm.2.resolve_left Bool.noConfusion)
            (hmn.2.resolve_left Bool.noConfusion))
        · exact Or.inl hda

/-- Where no two letters tie, no two words do. -/
theorem wordLe_antisymm (c : Collation κ)
    (hc : ∀ a b, c.le a b = true → c.le b a = true → a = b) {l m : List κ}
    (hlm : c.wordLe l m = true) (hml : c.wordLe m l = true) : l = m := by
  induction l generalizing m with
  | nil =>
    cases m with
    | nil => rfl
    | cons b m => exact absurd hml Bool.false_ne_true
  | cons a l ih =>
    cases m with
    | nil => exact absurd hlm Bool.false_ne_true
    | cons b m =>
      rw [wordLe, Bool.and_eq_true, Bool.or_eq_true, Bool.not_eq_true'] at hlm hml
      have hab := hc a b hlm.1 hml.1
      rw [hml.1] at hlm
      rw [hlm.1] at hml
      rw [hab, ih (hlm.2.resolve_left Bool.noConfusion) (hml.2.resolve_left Bool.noConfusion)]

def words (c : Collation κ) : Collation (List κ) where
  le := c.wordLe
  total := c.wordLe_total
  trans _ _ _ := c.wordLe_trans

/-- Values in the order of their numbers. -/
def number (f : κ → ℤ) : Collation κ where
  le a b := decide (f a ≤ f b)
  total a b := by
    rw [decide_eq_true_eq, decide_eq_true_eq]
    omega
  trans a b c := by
    rw [decide_eq_true_eq, decide_eq_true_eq, decide_eq_true_eq]
    omega

end Collation

namespace Keyset

variable {α β κ τ : Type*}

/-- What following the cursors from one visits, to the page that has none. -/
inductive Follows (fetch : Option τ → Option (List β × Option τ)) : Option τ → List β → Prop
  | last {c : Option τ} {items : List β} (h : fetch c = some (items, none)) : Follows fetch c items
  | more {c : Option τ} {t : τ} {items rest : List β} (h : fetch c = some (items, some t))
      (hrest : Follows fetch (some t) rest) : Follows fetch c (items ++ rest)

/-- Following the cursors from the first page is never refused, ends, and
visits the rows in order, each once. -/
def Lists (fetch : Option τ → Option (List β × Option τ)) (view : α → β) (rows : List α)
    (before : α → α → Prop) : Prop :=
  ∃ visited : List α, Follows fetch none (visited.map view) ∧ visited.Perm rows ∧
    visited.Pairwise before

/-- A row with which a page ends that another follows. -/
def EndsPage (limit : ℕ) (l : List α) (a : α) : Prop :=
  ∃ i, l[i]? = some a ∧ i + 1 < l.length ∧ limit ∣ i + 1

/-- The page that begins a list, and the cursor after it. -/
def pageOf (limit : ℕ) (view : α → β) (mark : α → τ) (l : List α) : List β × Option τ :=
  ((l.take limit).map view, if limit < l.length then (l.take limit).getLast?.map mark else none)

/-- A page cut from one row more than it has. -/
def trimmed (limit : ℕ) (rows : List α) : List α :=
  if limit < rows.length then rows.take limit else rows

theorem trimmed_take (limit : ℕ) (l : List α) :
    trimmed limit (l.take (limit + 1)) = l.take limit := by
  unfold trimmed
  rw [List.length_take]
  by_cases hmore : limit < l.length
  · rw [if_pos (by omega), List.take_take, Nat.min_eq_left (Nat.le_succ limit)]
  · rw [if_neg (by omega), List.take_of_length_le (by omega), List.take_of_length_le (by omega)]

theorem page_take (limit : ℕ) (view : α → β) (mark : α → τ) (l : List α) :
    ((if limit < (l.take (limit + 1)).length then (l.take (limit + 1)).take limit
        else l.take (limit + 1)).map view,
      if limit < (l.take (limit + 1)).length then
        (if limit < (l.take (limit + 1)).length then (l.take (limit + 1)).take limit
          else l.take (limit + 1)).getLast?.map mark else none) = pageOf limit view mark l := by
  have hmore : limit < (l.take (limit + 1)).length ↔ limit < l.length := by
    rw [List.length_take]
    omega
  have hitems := trimmed_take limit l
  unfold trimmed at hitems
  rw [hitems, pageOf]
  simp only [hmore]

section Follows

variable {fetch : Option τ → Option (List β × Option τ)} {c : Option τ} {items v : List β}

theorem follows_last_iff (h : fetch c = some (items, none)) : Follows fetch c v ↔ v = items := by
  constructor
  · intro hv
    cases hv with
    | last h' => exact (Prod.mk.inj (Option.some.inj (h'.symm.trans h))).1
    | more h' _ =>
      have hmark := (Prod.mk.inj (Option.some.inj (h'.symm.trans h))).2
      simp at hmark
  · rintro rfl
    exact Follows.last h

theorem follows_more_iff {t : τ} (h : fetch c = some (items, some t)) :
    Follows fetch c v ↔ ∃ rest, v = items ++ rest ∧ Follows fetch (some t) rest := by
  constructor
  · intro hv
    cases hv with
    | last h' =>
      have hmark := (Prod.mk.inj (Option.some.inj (h.symm.trans h'))).2
      simp at hmark
    | more h' hrest =>
      obtain ⟨hitems, hmark⟩ := Prod.mk.inj (Option.some.inj (h'.symm.trans h))
      rw [Option.some.inj hmark] at hrest
      exact ⟨_, by rw [hitems], hrest⟩
  · rintro ⟨rest, rfl, hrest⟩
    exact Follows.more h hrest

theorem not_follows (h : fetch c = none) : ¬ Follows fetch c v := by
  intro hv
  cases hv with
  | last h' => exact Option.some_ne_none _ (h'.symm.trans h)
  | more h' _ => exact Option.some_ne_none _ (h'.symm.trans h)

end Follows

/-! ## What comes after a row -/

variable {c : Collation κ} {key : α → κ}

theorem filter_after {before rest : List α} {a : α}
    (h : (before ++ a :: rest).Pairwise fun a b => c.gt (key b) (key a) = true) :
    (before ++ a :: rest).filter (fun b => c.gt (key b) (key a)) = rest := by
  obtain ⟨-, htail, hcross⟩ := List.pairwise_append.1 h
  have hbefore : ∀ b ∈ before, ¬ c.gt (key b) (key a) = true :=
    fun b hb => c.gt_asymm (hcross b hb a List.mem_cons_self)
  have hself : ¬ c.gt (key a) (key a) = true := fun h => c.gt_asymm h h
  have hrest := (List.pairwise_cons.1 htail).1
  rw [List.filter_append, List.filter_eq_nil_iff.2 hbefore, List.nil_append, List.filter_cons,
    if_neg hself, List.filter_eq_self.2 hrest]

theorem filter_after_page {before rest : List α} {a : α} {limit : ℕ} (hlimit : 0 < limit)
    (ha : rest[limit - 1]? = some a)
    (h : (before ++ rest).Pairwise fun a b => c.gt (key b) (key a) = true) :
    (before ++ rest).filter (fun b => c.gt (key b) (key a)) = rest.drop limit := by
  obtain ⟨hlt, hrow⟩ := List.getElem?_eq_some_iff.1 ha
  have hform : rest = rest.take (limit - 1) ++ a :: rest.drop limit := by
    have hsplit := (List.take_append_drop (limit - 1) rest).symm
    rwa [List.drop_eq_getElem_cons hlt, hrow, Nat.sub_add_cancel hlimit] at hsplit
  have hwhole : before ++ rest = (before ++ rest.take (limit - 1)) ++ a :: rest.drop limit := by
    rw [List.append_assoc, ← hform]
  rw [hwhole] at h ⊢
  exact filter_after h

/-! ## The walk -/

section Walk

variable {fetch : Option τ → Option (List β × Option τ)} {view : α → β} {mark : α → τ}
  {ok : α → Prop} {limit : ℕ} {l : List α}

theorem pageOf_short (h : l.length ≤ limit) : pageOf limit view mark l = (l.map view, none) := by
  rw [pageOf, if_neg (by omega), List.take_of_length_le h]

theorem pageOf_long {a : α} (hlimit : 0 < limit) (h : limit < l.length)
    (ha : l[limit - 1]? = some a) :
    pageOf limit view mark l = ((l.take limit).map view, some (mark a)) := by
  have hlast : (l.take limit).getLast? = some a := by
    rw [List.getLast?_eq_getElem?, List.length_take, Nat.min_eq_left h.le,
      List.getElem?_take_of_lt (by omega), ha]
  rw [pageOf, if_pos h, hlast, Option.map_some]

/-- The pages a list has are its first and those of the rest. -/
theorem forall_endsPage_iff {a : α} (hlimit : 0 < limit) (h : limit < l.length)
    (ha : l[limit - 1]? = some a) :
    (∀ b, EndsPage limit l b → ok b) ↔ ok a ∧ ∀ b, EndsPage limit (l.drop limit) b → ok b := by
  constructor
  · intro hall
    have hfirst : limit ∣ limit - 1 + 1 := ⟨1, by omega⟩
    refine ⟨hall a ⟨limit - 1, ha, by omega, hfirst⟩, ?_⟩
    rintro b ⟨i, hb, hi, hdvd⟩
    rw [List.getElem?_drop] at hb
    rw [List.length_drop] at hi
    refine hall b ⟨limit + i, hb, by omega, ?_⟩
    rw [Nat.add_assoc]
    exact Nat.dvd_add (Nat.dvd_refl limit) hdvd
  · rintro ⟨hfirst, hrest⟩ b ⟨i, hb, hi, hdvd⟩
    by_cases hin : i < limit
    · -- The first page ends at its limit.
      have hle := Nat.le_of_dvd (Nat.succ_pos i) hdvd
      have hlast : i = limit - 1 := by omega
      rw [hlast, ha] at hb
      rwa [← Option.some.inj hb]
    · refine hrest b ⟨i - limit, ?_, ?_, ?_⟩
      · rw [List.getElem?_drop, Nat.add_sub_cancel' (by omega), hb]
      · rw [List.length_drop]
        omega
      · have hsub := Nat.dvd_sub hdvd (Nat.dvd_refl limit)
        rwa [show i - limit + 1 = i + 1 - limit by omega]

theorem endsPage_short {a : α} (h : l.length ≤ limit) : ¬ EndsPage limit l a := by
  rintro ⟨i, -, hi, hdvd⟩
  have hle := Nat.le_of_dvd (Nat.succ_pos i) hdvd
  omega

theorem follows_short (h : l.length ≤ limit) {t : Option τ}
    (ht : fetch t = some (pageOf limit view mark l)) {v : List β} :
    Follows fetch t v ↔ v = l.map view ∧ ∀ a, EndsPage limit l a → ok a := by
  rw [pageOf_short h] at ht
  rw [follows_last_iff ht]
  exact ⟨fun hv => ⟨hv, fun a ha => absurd ha (endsPage_short h)⟩, fun hv => hv.1⟩

/-- **The walk from a page visits the rest of the list where its cursors are
read back, and is refused otherwise.** -/
theorem follows_iff_of (hlimit : 0 < limit)
    (hsorted : l.Pairwise fun a b => c.gt (key b) (key a) = true)
    (hok : ∀ a ∈ l, ok a → fetch (some (mark a)) =
      some (pageOf limit view mark (l.filter fun b => c.gt (key b) (key a))))
    (hrefused : ∀ a ∈ l, ¬ ok a → fetch (some (mark a)) = none)
    (n : ℕ) {before rest : List α} (hn : rest.length ≤ n) (hl : l = before ++ rest)
    {t : Option τ} (ht : fetch t = some (pageOf limit view mark rest)) {v : List β} :
    Follows fetch t v ↔ v = rest.map view ∧ ∀ a, EndsPage limit rest a → ok a := by
  induction n generalizing before rest t v with
  | zero => exact follows_short (by omega) ht
  | succ n ih =>
    by_cases hmore : limit < rest.length
    · obtain ⟨a, ha⟩ : ∃ a, rest[limit - 1]? = some a := ⟨_, List.getElem?_eq_getElem (by omega)⟩
      have hmem : a ∈ l := by
        rw [hl]
        exact List.mem_append_right _ (List.mem_of_getElem? ha)
      have hpost : l.filter (fun b => c.gt (key b) (key a)) = rest.drop limit := by
        rw [hl] at hsorted ⊢
        exact filter_after_page hlimit ha hsorted
      have hwhole : l = (before ++ rest.take limit) ++ rest.drop limit := by
        rw [List.append_assoc, List.take_append_drop, hl]
      have hlength : (rest.drop limit).length ≤ n := by
        rw [List.length_drop]
        omega
      rw [pageOf_long hlimit hmore ha] at ht
      rw [follows_more_iff ht, forall_endsPage_iff hlimit hmore ha]
      by_cases hread : ok a
      · have hnext := hok a hmem hread
        rw [hpost] at hnext
        constructor
        · rintro ⟨w, rfl, hw⟩
          have hrest := (ih hlength hwhole hnext).1 hw
          refine ⟨?_, hread, hrest.2⟩
          rw [hrest.1, ← List.map_append, List.take_append_drop]
        · rintro ⟨rfl, -, hends⟩
          refine ⟨(rest.drop limit).map view, ?_, (ih hlength hwhole hnext).2 ⟨rfl, hends⟩⟩
          rw [← List.map_append, List.take_append_drop]
      · refine iff_of_false ?_ fun h => hread h.2.1
        rintro ⟨w, -, hw⟩
        exact not_follows (hrefused a hmem hread) hw
    · exact follows_short (by omega) ht

/-- **The walk over a list in order visits it where its cursors are read
back, and is refused otherwise.** -/
theorem follows_iff (hlimit : 0 < limit)
    (hsorted : l.Pairwise fun a b => c.gt (key b) (key a) = true)
    (hfirst : fetch none = some (pageOf limit view mark l))
    (hok : ∀ a ∈ l, ok a → fetch (some (mark a)) =
      some (pageOf limit view mark (l.filter fun b => c.gt (key b) (key a))))
    (hrefused : ∀ a ∈ l, ¬ ok a → fetch (some (mark a)) = none) {v : List β} :
    Follows fetch none v ↔ v = l.map view ∧ ∀ a, EndsPage limit l a → ok a :=
  follows_iff_of hlimit hsorted hok hrefused l.length (Nat.le_refl _) (List.nil_append l).symm
    hfirst

end Walk

/-! ## Rows in order -/

/-- Rows, in the order of their keys. -/
def orderBy (c : Collation κ) (key : α → κ) (rows : List α) : List α :=
  rows.insertionSort fun a b => c.le (key a) (key b) = true

theorem perm_orderBy (c : Collation κ) (key : α → κ) (rows : List α) : (orderBy c key rows).Perm rows :=
  List.perm_insertionSort _ rows

/-- Rows of which no two tie stand one after the other. -/
theorem pairwise_orderBy {rows : List α}
    (h : rows.Pairwise fun a b => ¬ c.eq (key a) (key b) = true) :
    (orderBy c key rows).Pairwise fun a b => c.gt (key b) (key a) = true := by
  have hsymm : ∀ {a b}, ¬ c.eq (key a) (key b) = true → ¬ c.eq (key b) (key a) = true := by
    intro a b hab hba
    rw [Collation.eq, Bool.and_comm] at hba
    exact hab hba
  have hapart := (perm_orderBy c key rows).symm.pairwise h hsymm
  have : Std.Total fun a b : α => c.le (key a) (key b) = true := ⟨fun a b => c.total _ _⟩
  have : IsTrans α fun a b => c.le (key a) (key b) = true := ⟨fun a b d => c.trans _ _ _⟩
  have hle : (orderBy c key rows).Pairwise fun a b => c.le (key a) (key b) = true :=
    List.pairwise_insertionSort _ rows
  refine (hle.and hapart).imp ?_
  rintro a b ⟨hab, hne⟩
  rw [Collation.eq, hab, Bool.true_and, Bool.not_eq_true] at hne
  rw [Collation.gt, hne]
  rfl

theorem filter_orderBy (p : α → Bool) {rows : List α}
    (h : rows.Pairwise fun a b => ¬ c.eq (key a) (key b) = true) :
    orderBy c key (rows.filter p) = (orderBy c key rows).filter p := by
  have hperm : (orderBy c key (rows.filter p)).Perm ((orderBy c key rows).filter p) :=
    (perm_orderBy c key _).trans ((perm_orderBy c key rows).filter p).symm
  have hleft := pairwise_orderBy (h.filter p)
  have hright := (pairwise_orderBy h).filter p
  exact hperm.eq_of_pairwise (fun a b _ _ hab hba => absurd hba (c.gt_asymm hab)) hleft hright

/-- **Every row is listed once, in order, exactly where the cursors its pages
end with are read back.** -/
theorem lists_iff {fetch : Option τ → Option (List β × Option τ)} {view : α → β}
    (mark : α → τ) (ok : α → Prop) {limit : ℕ} {rows : List α} (hlimit : 0 < limit)
    (hapart : rows.Pairwise fun a b => ¬ c.eq (key a) (key b) = true)
    (hfirst : fetch none = some (pageOf limit view mark (orderBy c key rows)))
    (hok : ∀ a ∈ rows, ok a → fetch (some (mark a)) = some (pageOf limit view mark
      (orderBy c key (rows.filter fun b => c.gt (key b) (key a)))))
    (hrefused : ∀ a ∈ rows, ¬ ok a → fetch (some (mark a)) = none) :
    Lists fetch view rows (fun a b => c.gt (key b) (key a) = true) ↔
      ∀ a, EndsPage limit (orderBy c key rows) a → ok a := by
  have hsorted := pairwise_orderBy hapart
  have hperm := perm_orderBy c key rows
  have hwalk : ∀ v : List β, Follows fetch none v ↔
      v = (orderBy c key rows).map view ∧ ∀ a, EndsPage limit (orderBy c key rows) a → ok a := by
    intro v
    refine follows_iff hlimit hsorted hfirst (fun a ha hread => ?_) fun a ha => ?_
    · rw [hok a (hperm.mem_iff.1 ha) hread, filter_orderBy _ hapart]
    · exact hrefused a (hperm.mem_iff.1 ha)
  constructor
  · rintro ⟨visited, hvisited, -, -⟩
    exact ((hwalk _).1 hvisited).2
  · intro hends
    exact ⟨orderBy c key rows, (hwalk _).2 ⟨rfl, hends⟩, hperm, hsorted⟩

end Keyset
