import Mathlib.Data.List.Basic
/-!
# Codes that need no separator

A code writes each letter as a word, and no word is the beginning of another:
what follows a word decides nothing of what the word says. A text written in
such a code is read back in one way (`write_injective`), also where it runs
up to a mark that opens no word (`write_cancel`). UTF-8 is such a code, and
codes compose. Groups of items that each bear their group's label need no
separator either (`flatMap_injective`).
-/

/-- A code: no word is empty, and whatever follows two words, they agree only
where their letters do. -/
structure Code (α β : Type*) where
  word : α → List β
  ne_nil : ∀ a, word a ≠ []
  cancel : ∀ {a b : α} {r s : List β}, word a ++ r = word b ++ s → a = b ∧ r = s

namespace Code

variable {α β γ : Type*} (c : Code α β)

def write (l : List α) : List β := l.flatMap c.word

@[simp] theorem write_cons (a : α) (l : List α) : c.write (a :: l) = c.word a ++ c.write l :=
  List.flatMap_cons

theorem write_append (l m : List α) : c.write (l ++ m) = c.write l ++ c.write m :=
  List.flatMap_append

theorem write_eq_nil {l : List α} : c.write l = [] ↔ l = [] := by
  cases l with
  | nil => exact ⟨fun _ => rfl, fun _ => rfl⟩
  | cons a l =>
    refine ⟨fun h => ?_, fun h => absurd h (List.cons_ne_nil a l)⟩
    rw [write_cons, List.append_eq_nil_iff] at h
    exact absurd h.1 (c.ne_nil a)

/-- **Two texts up to what opens no word are told apart**, and so is what
follows. -/
theorem write_cancel {l m : List α} {r s : List β} (hr : ∀ a t, r ≠ c.word a ++ t)
    (hs : ∀ a t, s ≠ c.word a ++ t) (h : c.write l ++ r = c.write m ++ s) : l = m ∧ r = s := by
  induction l generalizing m with
  | nil =>
    cases m with
    | nil => exact ⟨rfl, h⟩
    | cons b m =>
      rw [write_cons, List.append_assoc] at h
      exact absurd h (hr b _)
  | cons a l ih =>
    cases m with
    | nil =>
      rw [write_cons, List.append_assoc] at h
      exact absurd h.symm (hs a _)
    | cons b m =>
      rw [write_cons, write_cons, List.append_assoc, List.append_assoc] at h
      obtain ⟨rfl, hrest⟩ := c.cancel h
      obtain ⟨rfl, hfollow⟩ := ih hrest
      exact ⟨rfl, hfollow⟩

/-- **A text is read back in one way.** -/
theorem write_injective : Function.Injective c.write := by
  intro l m h
  have hnone : ∀ a t, ([] : List β) ≠ c.word a ++ t := fun a t hnil =>
    c.ne_nil a (List.append_eq_nil_iff.1 hnil.symm).1
  refine (c.write_cancel hnone hnone (r := []) (s := []) ?_).1
  rw [List.append_nil, List.append_nil, h]

/-- The letters of one code, written in another. -/
def comp (d : Code β γ) : Code α γ where
  word a := d.write (c.word a)
  ne_nil a h := c.ne_nil a (d.write_eq_nil.1 h)
  cancel := by
    intro a b r s h
    -- The words are read back letter by letter until one of them ends.
    have hprefix : ∀ (l m : List β) (r s : List γ), d.write l ++ r = d.write m ++ s →
        (∃ t, m = l ++ t ∧ r = d.write t ++ s) ∨ ∃ t, l = m ++ t ∧ s = d.write t ++ r := by
      intro l
      induction l with
      | nil => exact fun m r s h => Or.inl ⟨m, rfl, h⟩
      | cons x l ih =>
        intro m r s h
        cases m with
        | nil => exact Or.inr ⟨x :: l, rfl, h.symm⟩
        | cons y m =>
          rw [write_cons, write_cons, List.append_assoc, List.append_assoc] at h
          obtain ⟨rfl, hrest⟩ := d.cancel h
          rcases ih m r s hrest with ⟨t, rfl, ht⟩ | ⟨t, rfl, ht⟩
          · exact Or.inl ⟨t, rfl, ht⟩
          · exact Or.inr ⟨t, rfl, ht⟩
    rcases hprefix _ _ _ _ h with ⟨t, ht, hr⟩ | ⟨t, ht, hs⟩
    · have hword : c.word a ++ t = c.word b ++ [] := by rw [List.append_nil, ht]
      obtain ⟨hletter, rfl⟩ := c.cancel hword
      exact ⟨hletter, hr⟩
    · have hword : c.word b ++ t = c.word a ++ [] := by rw [List.append_nil, ht]
      obtain ⟨hletter, rfl⟩ := c.cancel hword
      exact ⟨hletter.symm, hs.symm⟩

@[simp] theorem word_comp (d : Code β γ) (a : α) : (c.comp d).word a = d.write (c.word a) := rfl

theorem write_comp (d : Code β γ) (l : List α) : (c.comp d).write l = d.write (c.write l) := by
  induction l with
  | nil => rfl
  | cons a l ih => rw [write_cons, write_cons, write_append, word_comp, ih]

def utf8 : Code Char UInt8 where
  word := String.utf8EncodeChar
  ne_nil _ := String.utf8EncodeChar_ne_nil
  cancel := by
    intro a b r s h
    have hbytes : (String.utf8EncodeChar a).toByteArray ++ r.toByteArray =
        (String.utf8EncodeChar b).toByteArray ++ s.toByteArray := by
      rw [← List.toByteArray_append, ← List.toByteArray_append, h]
    have hread := congrArg (ByteArray.utf8DecodeChar? · 0) hbytes
    rw [ByteArray.utf8DecodeChar?_utf8EncodeChar_append,
      ByteArray.utf8DecodeChar?_utf8EncodeChar_append] at hread
    obtain rfl := Option.some.inj hread
    exact ⟨rfl, List.append_cancel_left h⟩

end Code

/-! ## Groups under labels -/

/-- A way to write a group: no group is empty, each item bears its label, and
groups that are written alike are the same. -/
structure Labelled {α β γ : Type*} (group : α → List β) (label : α → γ) (tag : β → γ)
    (s : Set α) : Prop where
  ne_nil : ∀ a ∈ s, group a ≠ []
  tagged : ∀ a ∈ s, ∀ b ∈ group a, tag b = label a
  inj : ∀ a ∈ s, ∀ b ∈ s, label a = label b → group a = group b → a = b

/-- **Groups under distinct labels are read back.** -/
theorem Labelled.flatMap_injective {α β γ : Type*} [DecidableEq γ] {group : α → List β}
    {label : α → γ} {tag : β → γ} {s : Set α} (h : Labelled group label tag s) {l m : List α}
    (hl : ∀ a ∈ l, a ∈ s) (hm : ∀ a ∈ m, a ∈ s) (hlabels : (l.map label).Nodup)
    (hlabels' : (m.map label).Nodup) (heq : l.flatMap group = m.flatMap group) : l = m := by
  induction l generalizing m with
  | nil =>
    cases m with
    | nil => rfl
    | cons b m =>
      rw [List.flatMap_nil, List.flatMap_cons] at heq
      exact absurd (List.append_eq_nil_iff.1 heq.symm).1 (h.ne_nil b (hm b List.mem_cons_self))
  | cons a l ih =>
    cases m with
    | nil =>
      rw [List.flatMap_nil, List.flatMap_cons] at heq
      exact absurd (List.append_eq_nil_iff.1 heq).1 (h.ne_nil a (hl a List.mem_cons_self))
    | cons b m =>
      have ha := hl a List.mem_cons_self
      have hb := hm b List.mem_cons_self
      rw [List.flatMap_cons, List.flatMap_cons] at heq
      -- The first item names the first group; the group ends where the label does.
      have hlabel : label a = label b := by
        obtain ⟨c, cs, hgroup⟩ := List.exists_cons_of_ne_nil (h.ne_nil a ha)
        obtain ⟨d, ds, hgroup'⟩ := List.exists_cons_of_ne_nil (h.ne_nil b hb)
        rw [hgroup, hgroup'] at heq
        have hcd : c = d := (List.cons.inj heq).1
        rw [← h.tagged a ha c (by rw [hgroup]; exact List.mem_cons_self),
          ← h.tagged b hb d (by rw [hgroup']; exact List.mem_cons_self), hcd]
      have htaken : ∀ (c : α) (n : List α), c ∈ s → (∀ d ∈ n, d ∈ s) → label c ∉ n.map label →
          (group c ++ n.flatMap group).takeWhile (fun x => decide (tag x = label c)) =
            group c := by
        intro c n hc hn hnot
        rw [List.takeWhile_append_of_pos fun x hx => decide_eq_true (h.tagged c hc x hx)]
        cases hrest : n.flatMap group with
        | nil => exact List.append_nil _
        | cons x xs =>
          have hx : x ∈ n.flatMap group := by
            rw [hrest]
            exact List.mem_cons_self
          obtain ⟨d, hd, hxd⟩ := List.mem_flatMap.1 hx
          have hne : tag x ≠ label c := by
            rw [h.tagged d (hn d hd) x hxd]
            exact fun heq => hnot (heq ▸ List.mem_map_of_mem hd)
          rw [List.takeWhile_cons_of_neg (by rw [decide_eq_true_eq]; exact hne), List.append_nil]
      have hl' : ∀ d ∈ l, d ∈ s := fun d hd => hl d (List.mem_cons_of_mem a hd)
      have hm' : ∀ d ∈ m, d ∈ s := fun d hd => hm d (List.mem_cons_of_mem b hd)
      rw [List.map_cons, List.nodup_cons] at hlabels hlabels'
      have hgroup : group a = group b := by
        rw [← htaken a l ha hl' hlabels.1, heq, hlabel, htaken b m hb hm' hlabels'.1]
      rw [hgroup] at heq
      rw [h.inj a ha b hb hlabel hgroup,
        ih hl' hm' hlabels.2 hlabels'.2 (List.append_cancel_left heq)]
