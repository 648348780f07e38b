import Optionia.Engine.Markup
/-!
# Cleaning a text twice

`clean_text` takes the markup out first, and drops control characters, folds
breaks and trims after it. A `<` that stood before white space is text to
`strip_tags`; a vertical tab or a form feed counts as white space there and is
a control character to the next pass, and the last pass trims the space of a
`<` with nothing after it. What is left then opens a tag, and a second
cleaning takes it out.

Every pass after the markup keeps the brackets and turns what stands after
each into white space or not, by its kind alone; so the cleaned text is
bracketed exactly where the text without markup and control characters is
(`bracketed_cleaned_iff`). A bracketed cleaned text is left alone by every
pass, and one that is not is shortened by the first.
-/

namespace Optionia.Engine

open Marked (followed reached)

variable {multiline : Bool} {cs : List Char} {c : Char}

/-- The characters that are white space of ASCII once breaks are folded. -/
def gap (c : Char) : Bool := c == ' ' || folded false c

def solid (c : Char) : Bool := !Text.blank c

def unmarked (tags : Tags) (raw : String) : List Char :=
  let text := withoutScripts raw.length raw.toList
  tags.strip text.length text

/-- Breaks folded, of the kinds a text of one or several lines folds. -/
def settled (multiline : Bool) (cs : List Char) : List Char :=
  let plain := foldRuns (folded multiline) false cs
  if multiline then limitLineFeeds 0 (lineFeeds plain) else plain

def trimmedText (cs : List Char) : List Char := (cs.dropWhile Text.blank).rdropWhile Text.blank

/-- **The text a customer typed, cleaned**: markup, control characters,
breaks, ends. -/
theorem cleanText_platform (tags : Tags) (P : Platform) (raw : String) (multiline : Bool) :
    cleanText (tags.platform P) raw multiline =
      String.ofList (trimmedText (settled multiline ((unmarked tags raw).filter (!control ·)))) := by
  unfold cleanText Text.normalise trimmedText settled unmarked Tags.platform
  dsimp only
  rw [String.toList_ofList, String.toList_ofList, String.length_ofList]
  cases multiline <;> rw [String.toList_ofList]

/-! ## Folding -/

theorem folded_blank (h : folded multiline c = true) : Text.blank c = true := by
  unfold folded at h
  unfold Text.blank
  rw [Bool.or_eq_true, decide_eq_true_eq]
  left
  cases multiline with
  | false =>
    rw [if_neg Bool.false_ne_true, decide_eq_true_eq] at h
    simp only [List.mem_cons, List.not_mem_nil, or_false] at h ⊢
    omega
  | true =>
    rw [if_pos rfl, decide_eq_true_eq] at h
    simp only [List.mem_cons, List.not_mem_nil, or_false] at h ⊢
    omega

theorem opensTag_solid (h : opensTag c = true) : solid c = true := by
  rw [opensTag, beq_iff_eq] at h
  rw [h]
  decide

theorem opensTag_of_blank (h : Text.blank c = true) : opensTag c = false := by
  by_contra hopen
  have hsolid := opensTag_solid (Bool.not_eq_false _ ▸ hopen)
  rw [solid, h] at hsolid
  exact Bool.false_ne_true hsolid

variable {fold : Char → Bool} {kept : ℕ}

theorem followed_foldRuns {next : Char → Bool} (hfold : ∀ c, fold c = true → opensTag c = false)
    (inside : Bool) (cs : List Char) : followed opensTag next (foldRuns fold inside cs) =
      followed opensTag (fun c => next (if fold c then ' ' else c)) cs := by
  induction cs generalizing inside with
  | nil => rfl
  | cons c cs ih =>
    by_cases hc : fold c = true
    · rw [foldRuns, if_pos hc, Marked.followed_cons_of_not_mark (hfold c hc)]
      cases inside with
      | true => rw [if_pos rfl, ih]
      | false =>
        rw [if_neg Bool.false_ne_true, Marked.followed_cons_of_not_mark (by decide), ih]
    · rw [foldRuns, if_neg hc]
      have hhead : (foldRuns fold false cs).head?.any next =
          cs.head?.any (fun c => next (if fold c then ' ' else c)) := by
        cases cs with
        | nil => rfl
        | cons d ds =>
          rw [foldRuns]
          by_cases hd : fold d = true
          · rw [if_pos hd, if_neg Bool.false_ne_true]
            exact (congrArg next (if_pos hd)).symm
          · rw [if_neg hd]
            exact (congrArg next (if_neg hd)).symm
      unfold followed
      rw [hhead, ih]

theorem any_solid_foldRuns (hfold : ∀ c, fold c = true → solid c = false) (inside : Bool)
    (cs : List Char) : (foldRuns fold inside cs).any solid = cs.any solid := by
  induction cs generalizing inside with
  | nil => rfl
  | cons c cs ih =>
    rw [foldRuns]
    by_cases hc : fold c = true
    · rw [if_pos hc, List.any_cons, hfold c hc, Bool.false_or]
      cases inside with
      | true => rw [if_pos rfl, ih]
      | false =>
        rw [if_neg Bool.false_ne_true, List.any_cons, ih]
        rfl
    · rw [if_neg hc, List.any_cons, List.any_cons, ih]

theorem reached_foldRuns (hfold : ∀ c, fold c = true → solid c = false) (inside : Bool)
    (cs : List Char) :
    reached opensTag solid (foldRuns fold inside cs) = reached opensTag solid cs := by
  have hopen : ∀ c, fold c = true → opensTag c = false := fun c hc =>
    opensTag_of_blank (by
      have h := hfold c hc
      rwa [solid, Bool.not_eq_false'] at h)
  induction cs generalizing inside with
  | nil => rfl
  | cons c cs ih =>
    by_cases hc : fold c = true
    · rw [foldRuns, if_pos hc, Marked.reached_cons_of_not_mark (hopen c hc)]
      cases inside with
      | true => rw [if_pos rfl, ih]
      | false =>
        rw [if_neg Bool.false_ne_true, Marked.reached_cons_of_not_mark (by decide), ih]
    · rw [foldRuns, if_neg hc]
      unfold reached
      rw [any_solid_foldRuns hfold, ih]

/-! ## Line feeds -/

/-- The line breaks written as a line feed. -/
def lineBreak (c : Char) : Bool := c.toNat ∈ [0x0D, 0x85, 0x2028, 0x2029]

/-- A character, its break as a line feed. -/
def asLineFeed (c : Char) : Char := if lineBreak c then '\n' else c

theorem lineFeeds_cons (h : ∀ rest, c = '\r' → cs = '\n' :: rest → False) :
    lineFeeds (c :: cs) = asLineFeed c :: lineFeeds cs := by
  rw [lineFeeds]
  · unfold asLineFeed lineBreak
    simp only [decide_eq_true_eq]
  · exact h

theorem lineBreak_blank (h : lineBreak c = true) : Text.blank c = true := by
  unfold lineBreak at h
  unfold Text.blank
  rw [decide_eq_true_eq] at h
  rw [Bool.or_eq_true, decide_eq_true_eq]
  left
  simp only [List.mem_cons, List.not_mem_nil, or_false] at h ⊢
  omega

theorem opensTag_asLineFeed (c : Char) : opensTag (asLineFeed c) = opensTag c := by
  unfold asLineFeed
  split
  · next h => rw [opensTag_of_blank (lineBreak_blank h)]; rfl
  · rfl

theorem solid_asLineFeed (c : Char) : solid (asLineFeed c) = solid c := by
  unfold asLineFeed
  split
  · next h =>
    unfold solid
    rw [lineBreak_blank h]
    decide
  · rfl

theorem head?_lineFeeds (cs : List Char) : (lineFeeds cs).head? = cs.head?.map asLineFeed := by
  induction cs using lineFeeds.induct with
  | case1 => rfl
  | case2 cs ih => rfl
  | case3 c cs h ih =>
    rw [lineFeeds_cons h]
    rfl

theorem followed_lineFeeds (next : Char → Bool) (cs : List Char) :
    followed opensTag next (lineFeeds cs) = followed opensTag (fun c => next (asLineFeed c)) cs := by
  induction cs using lineFeeds.induct with
  | case1 => rfl
  | case2 cs ih =>
    rw [lineFeeds, Marked.followed_cons_of_not_mark (by decide),
      Marked.followed_cons_of_not_mark (by decide), Marked.followed_cons_of_not_mark (by decide), ih]
  | case3 c cs h ih =>
    have hhead : (lineFeeds cs).head?.any next = cs.head?.any fun c => next (asLineFeed c) := by
      rw [head?_lineFeeds, Option.any_map]
    rw [lineFeeds_cons h]
    unfold followed
    rw [opensTag_asLineFeed, hhead, ih]

theorem any_solid_lineFeeds (cs : List Char) : (lineFeeds cs).any solid = cs.any solid := by
  induction cs using lineFeeds.induct with
  | case1 => rfl
  | case2 cs ih =>
    have hreturn : solid '\r' = false := by decide
    rw [lineFeeds, List.any_cons, List.any_cons, List.any_cons, ih, hreturn, Bool.false_or]
  | case3 c cs h ih => rw [lineFeeds_cons h, List.any_cons, List.any_cons, solid_asLineFeed, ih]

theorem reached_lineFeeds (cs : List Char) :
    reached opensTag solid (lineFeeds cs) = reached opensTag solid cs := by
  induction cs using lineFeeds.induct with
  | case1 => rfl
  | case2 cs ih =>
    rw [lineFeeds, Marked.reached_cons_of_not_mark (by decide),
      Marked.reached_cons_of_not_mark (by decide), Marked.reached_cons_of_not_mark (by decide), ih]
  | case3 c cs h ih =>
    rw [lineFeeds_cons h]
    unfold reached
    rw [opensTag_asLineFeed, any_solid_lineFeeds, ih]

theorem head?_limitLineFeeds (cs : List Char) : (limitLineFeeds 0 cs).head? = cs.head? := by
  cases cs with
  | nil => rfl
  | cons c cs =>
    rw [limitLineFeeds]
    by_cases hc : c = '\n'
    · rw [if_pos hc, if_pos (by decide), hc]
      rfl
    · rw [if_neg hc]
      rfl

theorem followed_limitLineFeeds (next : Char → Bool) (kept : ℕ) (cs : List Char) :
    followed opensTag next (limitLineFeeds kept cs) = followed opensTag next cs := by
  induction cs generalizing kept with
  | nil => rfl
  | cons c cs ih =>
    rw [limitLineFeeds]
    by_cases hc : c = '\n'
    · have hbreak : opensTag c = false := by
        rw [hc]
        decide
      rw [if_pos hc, Marked.followed_cons_of_not_mark hbreak]
      split
      · rw [Marked.followed_cons_of_not_mark (by decide), ih]
      · rw [ih]
    · rw [if_neg hc]
      unfold followed
      rw [head?_limitLineFeeds, ih]

theorem any_solid_limitLineFeeds (kept : ℕ) (cs : List Char) :
    (limitLineFeeds kept cs).any solid = cs.any solid := by
  induction cs generalizing kept with
  | nil => rfl
  | cons c cs ih =>
    rw [limitLineFeeds]
    by_cases hc : c = '\n'
    · have hbreak : solid '\n' = false := by decide
      rw [if_pos hc, List.any_cons, hc, hbreak, Bool.false_or]
      split
      · rw [List.any_cons, ih, hbreak, Bool.false_or]
      · rw [ih]
    · rw [if_neg hc, List.any_cons, List.any_cons, ih]

theorem reached_limitLineFeeds (kept : ℕ) (cs : List Char) :
    reached opensTag solid (limitLineFeeds kept cs) = reached opensTag solid cs := by
  induction cs generalizing kept with
  | nil => rfl
  | cons c cs ih =>
    rw [limitLineFeeds]
    by_cases hc : c = '\n'
    · have hbreak : opensTag c = false := by
        rw [hc]
        decide
      rw [if_pos hc, Marked.reached_cons_of_not_mark hbreak]
      split
      · rw [Marked.reached_cons_of_not_mark (by decide), ih]
      · rw [ih]
    · rw [if_neg hc]
      unfold reached
      rw [any_solid_limitLineFeeds, ih]

/-! ## The brackets of a cleaned text -/

theorem folded_solid (h : folded multiline c = true) : solid c = false := by
  rw [solid, folded_blank h]
  rfl

theorem folded_opensTag (h : folded multiline c = true) : opensTag c = false :=
  opensTag_of_blank (folded_blank h)

theorem asciiSpace_folded (c : Char) :
    asciiSpace (if folded false c then ' ' else c) = gap c := by
  unfold gap
  split
  · next h =>
    rw [h, Bool.or_true]
    decide
  · next h =>
    rw [Bool.not_eq_true] at h
    rw [h, Bool.or_false, Bool.eq_iff_iff, beq_iff_eq]
    unfold folded at h
    rw [if_neg Bool.false_ne_true, decide_eq_false_iff_not] at h
    unfold asciiSpace
    rw [decide_eq_true_eq]
    constructor
    · intro hspace
      simp only [List.mem_cons, List.not_mem_nil, or_false] at h hspace
      exact Char.toNat_inj.1 (show c.toNat = 32 by omega)
    · rintro rfl
      decide

theorem asciiSpace_asLineFeed (c : Char) :
    asciiSpace (asLineFeed (if folded true c then ' ' else c)) = gap c := by
  unfold gap
  by_cases hfold : folded true c = true
  · have hall : folded false c = true := by
      unfold folded at hfold ⊢
      rw [if_pos rfl, decide_eq_true_eq] at hfold
      rw [if_neg Bool.false_ne_true, decide_eq_true_eq]
      simp only [List.mem_cons, List.not_mem_nil, or_false] at hfold ⊢
      omega
    rw [if_pos hfold, hall, Bool.or_true]
    decide
  · rw [if_neg hfold]
    unfold asLineFeed
    by_cases hbreak : lineBreak c = true
    · have hall : folded false c = true := by
        unfold lineBreak at hbreak
        unfold folded
        rw [decide_eq_true_eq] at hbreak
        rw [if_neg Bool.false_ne_true, decide_eq_true_eq]
        simp only [List.mem_cons, List.not_mem_nil, or_false] at hbreak ⊢
        omega
      rw [if_pos hbreak, hall, Bool.or_true]
      decide
    · rw [if_neg hbreak, Bool.eq_iff_iff, Bool.or_eq_true, beq_iff_eq]
      unfold folded at hfold ⊢
      unfold lineBreak at hbreak
      unfold asciiSpace
      rw [if_pos rfl, decide_eq_true_eq] at hfold
      rw [decide_eq_true_eq] at hbreak
      rw [if_neg Bool.false_ne_true, decide_eq_true_eq, decide_eq_true_eq]
      simp only [List.mem_cons, List.not_mem_nil, or_false] at hfold hbreak ⊢
      have hspace : c = ' ' ↔ c.toNat = 32 := Char.toNat_inj.symm
      rw [hspace]
      omega

/-- **What a bracket stands before is white space once settled exactly where
it is a gap.** -/
theorem followed_settled (multiline : Bool) (cs : List Char) :
    followed opensTag asciiSpace (settled multiline cs) = followed opensTag gap cs := by
  unfold settled
  cases multiline with
  | false =>
    rw [if_neg Bool.false_ne_true, followed_foldRuns (fun c => folded_opensTag)]
    simp only [asciiSpace_folded]
  | true =>
    rw [if_pos rfl, followed_limitLineFeeds, followed_lineFeeds,
      followed_foldRuns (fun c => folded_opensTag)]
    simp only [asciiSpace_asLineFeed]

theorem reached_settled (multiline : Bool) (cs : List Char) :
    reached opensTag solid (settled multiline cs) = reached opensTag solid cs := by
  unfold settled
  cases multiline with
  | false => exact reached_foldRuns (fun c => folded_solid) false cs
  | true =>
    rw [if_pos rfl, reached_limitLineFeeds, reached_lineFeeds,
      reached_foldRuns (fun c => folded_solid) false cs]

/-- **A cleaned text is bracketed exactly where each bracket of the text
stands before a gap and reaches something solid.** -/
theorem bracketed_cleaned_iff (multiline : Bool) (cs : List Char) :
    followed opensTag asciiSpace (trimmedText (settled multiline cs)) = true ↔
      followed opensTag gap cs = true ∧ reached opensTag solid cs = true := by
  have hblank : ∀ ds : List Char, ds.rdropWhile Text.blank = ds.rdropWhile (!solid ·) := by
    intro ds
    unfold solid
    simp only [Bool.not_not]
  unfold trimmedText
  rw [hblank, Marked.followed_rdropWhile (fun c => opensTag_solid),
    Marked.followed_dropWhile (fun c => opensTag_of_blank),
    Marked.reached_dropWhile (fun c => opensTag_of_blank), followed_settled, reached_settled]

/-! ## A cleaned text is settled -/

/-- **A settled text**: no control characters, nothing to fold, no break but a
line feed, and at most two of these in a row. -/
structure Settled (multiline : Bool) (cs : List Char) : Prop where
  plain : ∀ c ∈ cs, control c = false
  unfolded : ∀ c ∈ cs, folded multiline c = false
  /-- In a text of several lines, breaks are line feeds. -/
  feeds : multiline = true → ∀ c ∈ cs, lineBreak c = false
  limited : multiline = true → limitLineFeeds 0 cs = cs

theorem foldRuns_eq_self (inside : Bool) (h : ∀ c ∈ cs, fold c = false) :
    foldRuns fold inside cs = cs := by
  induction cs generalizing inside with
  | nil => rfl
  | cons c cs ih =>
    rw [foldRuns, if_neg (by rw [h c List.mem_cons_self]; exact Bool.false_ne_true),
      ih false fun d hd => h d (List.mem_cons_of_mem c hd)]

theorem lineFeeds_eq_self (h : ∀ c ∈ cs, lineBreak c = false) : lineFeeds cs = cs := by
  induction cs with
  | nil => rfl
  | cons c cs ih =>
    have hc := h c List.mem_cons_self
    rw [lineFeeds_cons, ih fun d hd => h d (List.mem_cons_of_mem c hd), asLineFeed, hc,
      if_neg Bool.false_ne_true]
    rintro rest rfl -
    exact absurd hc (by decide)

/-- **A settled text settles as itself.** -/
theorem Settled.settled_eq (h : Settled multiline cs) : settled multiline cs = cs := by
  unfold settled
  rw [foldRuns_eq_self false h.unfolded]
  dsimp only
  split
  · next hlines => rw [lineFeeds_eq_self (h.feeds hlines), h.limited hlines]
  · rfl

/-! ### Settling -/

theorem mem_foldRuns {inside : Bool} (h : c ∈ foldRuns fold inside cs) :
    c = ' ' ∨ c ∈ cs ∧ fold c = false := by
  induction cs generalizing inside with
  | nil => exact absurd h List.not_mem_nil
  | cons d ds ih =>
    have hlift : (c = ' ' ∨ c ∈ ds ∧ fold c = false) → c = ' ' ∨ c ∈ d :: ds ∧ fold c = false :=
      Or.imp_right (And.imp_left (List.mem_cons_of_mem d))
    rw [foldRuns] at h
    split at h
    · split at h
      · exact hlift (ih h)
      · rcases List.mem_cons.1 h with hc | h
        · exact Or.inl hc
        · exact hlift (ih h)
    · next hd =>
      rcases List.mem_cons.1 h with rfl | h
      · exact Or.inr ⟨List.mem_cons_self, Bool.not_eq_true _ ▸ hd⟩
      · exact hlift (ih h)

theorem mem_lineFeeds (h : c ∈ lineFeeds cs) : c = '\n' ∨ c ∈ cs ∧ lineBreak c = false := by
  induction cs using lineFeeds.induct with
  | case1 => exact absurd h List.not_mem_nil
  | case2 cs ih =>
    rw [lineFeeds] at h
    rcases List.mem_cons.1 h with hc | h
    · exact Or.inl hc
    · exact (ih h).imp_right (And.imp_left fun hc =>
        List.mem_cons_of_mem _ (List.mem_cons_of_mem _ hc))
  | case3 d cs hd ih =>
    rw [lineFeeds_cons hd] at h
    rcases List.mem_cons.1 h with rfl | h
    · unfold asLineFeed
      split
      · exact Or.inl rfl
      · next hbreak => exact Or.inr ⟨List.mem_cons_self, Bool.not_eq_true _ ▸ hbreak⟩
    · exact (ih h).imp_right (And.imp_left (List.mem_cons_of_mem d))

theorem limitLineFeeds_sublist (kept : ℕ) (cs : List Char) :
    (limitLineFeeds kept cs).Sublist cs := by
  induction cs generalizing kept with
  | nil => exact List.Sublist.refl _
  | cons c cs ih =>
    rw [limitLineFeeds]
    split
    · next hc =>
      split
      · rw [hc]
        exact (ih _).cons_cons _
      · exact (ih _).cons c
    · exact (ih _).cons_cons c

theorem limitLineFeeds_limitLineFeeds {kept' : ℕ} (h : kept' ≤ kept) (cs : List Char) :
    limitLineFeeds kept' (limitLineFeeds kept cs) = limitLineFeeds kept cs := by
  induction cs generalizing kept kept' with
  | nil => rfl
  | cons c cs ih =>
    by_cases hc : c = '\n'
    · by_cases hkept : kept < 2
      · have hinner : limitLineFeeds kept (c :: cs) = '\n' :: limitLineFeeds (kept + 1) cs := by
          rw [limitLineFeeds, if_pos hc, if_pos hkept]
        rw [hinner, limitLineFeeds, if_pos rfl, if_pos (by omega), ih (by omega)]
      · have hinner : limitLineFeeds kept (c :: cs) = limitLineFeeds kept cs := by
          rw [limitLineFeeds, if_pos hc, if_neg hkept]
        rw [hinner, ih h]
    · have hinner : limitLineFeeds kept (c :: cs) = c :: limitLineFeeds 0 cs := by
        rw [limitLineFeeds, if_neg hc]
      rw [hinner, limitLineFeeds, if_neg hc, ih le_rfl]

theorem limited_mono {kept' : ℕ} (h : kept' ≤ kept) (hcs : limitLineFeeds kept cs = cs) :
    limitLineFeeds kept' cs = cs := by
  have hagain := limitLineFeeds_limitLineFeeds h cs
  rwa [hcs] at hagain

theorem limited_cons (h : limitLineFeeds kept (c :: cs) = c :: cs) :
    (c = '\n' ∧ kept < 2 ∧ limitLineFeeds (kept + 1) cs = cs) ∨
      (c ≠ '\n' ∧ limitLineFeeds 0 cs = cs) := by
  rw [limitLineFeeds] at h
  split at h
  · next hc =>
    split at h
    · next hkept => exact Or.inl ⟨hc, hkept, (List.cons.inj h).2⟩
    · have hlength := (limitLineFeeds_sublist kept cs).length_le
      rw [h, List.length_cons] at hlength
      omega
  · next hc => exact Or.inr ⟨hc, (List.cons.inj h).2⟩

theorem limited_of_suffix {ds : List Char} (hsuffix : ds <:+ cs) (h : limitLineFeeds 0 cs = cs) :
    limitLineFeeds 0 ds = ds := by
  induction cs with
  | nil => rw [List.suffix_nil.1 hsuffix, limitLineFeeds]
  | cons c cs ih =>
    rcases List.suffix_cons_iff.1 hsuffix with rfl | hsuffix
    · exact h
    · rcases limited_cons h with ⟨-, -, h⟩ | ⟨-, h⟩
      · exact ih hsuffix (limited_mono (Nat.zero_le _) h)
      · exact ih hsuffix h

theorem limited_of_append {ds : List Char} (h : limitLineFeeds kept (cs ++ ds) = cs ++ ds) :
    limitLineFeeds kept cs = cs := by
  induction cs generalizing kept with
  | nil => rfl
  | cons c cs ih =>
    rcases limited_cons h with ⟨rfl, hkept, h⟩ | ⟨hc, h⟩
    · rw [limitLineFeeds, if_pos rfl, if_pos hkept, ih h]
    · rw [limitLineFeeds, if_neg hc, ih h]

theorem trimmedText_parts (cs : List Char) :
    ∃ ds, trimmedText cs ++ ds <:+ cs := by
  refine ⟨(cs.dropWhile Text.blank).rtakeWhile Text.blank, ?_⟩
  have hsplit : trimmedText cs ++ (cs.dropWhile Text.blank).rtakeWhile Text.blank =
      cs.dropWhile Text.blank := List.rdropWhile_append_rtakeWhile
  rw [hsplit]
  exact List.dropWhile_suffix _

theorem trimmedText_sublist (cs : List Char) : (trimmedText cs).Sublist cs := by
  obtain ⟨ds, h⟩ := trimmedText_parts cs
  exact (List.sublist_append_left _ ds).trans h.sublist

/-- **A trimmed settled text is settled.** -/
theorem Settled.trimmedText (h : Settled multiline cs) :
    Settled multiline (trimmedText cs) := by
  have hmem := (trimmedText_sublist cs).subset
  obtain ⟨ds, hparts⟩ := trimmedText_parts cs
  exact {
    plain := fun c hc => h.plain c (hmem hc)
    unfolded := fun c hc => h.unfolded c (hmem hc)
    feeds := fun hlines c hc => h.feeds hlines c (hmem hc)
    limited := fun hlines => limited_of_append (limited_of_suffix hparts (h.limited hlines)) }

/-- **Settling settles.** -/
theorem settled_settled (h : ∀ c ∈ cs, control c = false) :
    Settled multiline (settled multiline cs) := by
  have hplain : ∀ c ∈ foldRuns (folded multiline) false cs,
      control c = false ∧ folded multiline c = false := by
    intro c hc
    rcases mem_foldRuns hc with rfl | ⟨hmem, hfold⟩
    · exact ⟨by decide, by cases multiline <;> decide⟩
    · exact ⟨h c hmem, hfold⟩
  unfold settled
  dsimp only
  cases multiline with
  | false =>
    exact {
      plain := fun c hc => (hplain c hc).1
      unfolded := fun c hc => (hplain c hc).2
      feeds := fun hlines => absurd hlines Bool.false_ne_true
      limited := fun hlines => absurd hlines Bool.false_ne_true }
  | true =>
    have hfeeds : ∀ c ∈ lineFeeds (foldRuns (folded true) false cs),
        control c = false ∧ folded true c = false ∧ lineBreak c = false := by
      intro c hc
      rcases mem_lineFeeds hc with rfl | ⟨hmem, hbreak⟩
      · exact ⟨by decide, by decide, by decide⟩
      · exact ⟨(hplain c hmem).1, (hplain c hmem).2, hbreak⟩
    rw [if_pos rfl]
    have hmem := (limitLineFeeds_sublist 0 (lineFeeds (foldRuns (folded true) false cs))).subset
    exact {
      plain := fun c hc => (hfeeds c (hmem hc)).1
      unfolded := fun c hc => (hfeeds c (hmem hc)).2.1
      feeds := fun _ c hc => (hfeeds c (hmem hc)).2.2
      limited := fun _ => limitLineFeeds_limitLineFeeds le_rfl _ }

theorem trimmedText_trimmedText (cs : List Char) :
    trimmedText (trimmedText cs) = trimmedText cs := by
  have hopen : (trimmedText cs).dropWhile Text.blank = trimmedText cs := by
    cases htext : trimmedText cs with
    | nil => rfl
    | cons c rest =>
      obtain ⟨more, hmore⟩ := List.rdropWhile_prefix Text.blank (cs.dropWhile Text.blank)
      have hdropped : cs.dropWhile Text.blank = c :: (rest ++ more) := by
        have hprefix : trimmedText cs ++ more = cs.dropWhile Text.blank := hmore
        rw [← hprefix, htext, List.cons_append]
      have hhead := List.head?_dropWhile_not Text.blank cs
      rw [hdropped] at hhead
      have hsolid : Text.blank c = false := hhead
      exact List.dropWhile_cons_of_neg (by rw [hsolid]; exact Bool.false_ne_true)
  have hagain : trimmedText (trimmedText cs) =
      ((trimmedText cs).dropWhile Text.blank).rdropWhile Text.blank := rfl
  rw [hagain, hopen]
  exact List.rdropWhile_idempotent Text.blank (cs.dropWhile Text.blank)

/-! ## The passes after the markup -/

def passes (multiline : Bool) (cs : List Char) : List Char :=
  trimmedText (settled multiline (cs.filter (!control ·)))

theorem settled_passes (multiline : Bool) (cs : List Char) :
    Settled multiline (passes multiline cs) := by
  refine (settled_settled fun c hc => ?_).trimmedText
  have hkept := (List.mem_filter.1 hc).2
  rwa [Bool.not_eq_true'] at hkept

theorem passes_passes (multiline : Bool) (cs : List Char) :
    passes multiline (passes multiline cs) = passes multiline cs := by
  have hsettled := settled_passes multiline cs
  have hfilter : (passes multiline cs).filter (!control ·) = passes multiline cs := by
    refine List.filter_eq_self.2 fun c hc => ?_
    rw [hsettled.plain c hc, Bool.not_false]
  have hagain : passes multiline (passes multiline cs) =
      trimmedText (settled multiline ((passes multiline cs).filter (!control ·))) := rfl
  rw [hagain, hfilter, hsettled.settled_eq]
  exact trimmedText_trimmedText _

theorem length_foldRuns_le (fold : Char → Bool) (inside : Bool) (cs : List Char) :
    (foldRuns fold inside cs).length ≤ cs.length := by
  induction cs generalizing inside with
  | nil => exact le_rfl
  | cons c cs ih =>
    have htrue := ih true
    have hfalse := ih false
    rw [foldRuns]
    split
    · split
      · rw [List.length_cons]
        omega
      · rw [List.length_cons, List.length_cons]
        omega
    · rw [List.length_cons, List.length_cons]
      omega

theorem length_lineFeeds_le (cs : List Char) : (lineFeeds cs).length ≤ cs.length := by
  induction cs using lineFeeds.induct with
  | case1 => exact le_rfl
  | case2 cs ih =>
    rw [lineFeeds, List.length_cons, List.length_cons, List.length_cons]
    omega
  | case3 c cs h ih =>
    rw [lineFeeds_cons h, List.length_cons, List.length_cons]
    omega

theorem length_passes_le (multiline : Bool) (cs : List Char) :
    (passes multiline cs).length ≤ cs.length := by
  have hfilter := List.length_filter_le (!control ·) cs
  have hfold := length_foldRuns_le (folded multiline) false (cs.filter (!control ·))
  have hfeeds := length_lineFeeds_le (foldRuns (folded multiline) false (cs.filter (!control ·)))
  have hlimit := (limitLineFeeds_sublist 0 (lineFeeds (foldRuns (folded multiline) false
    (cs.filter (!control ·))))).length_le
  have htrim := (trimmedText_sublist (settled multiline (cs.filter (!control ·)))).length_le
  have hsettled : (settled multiline (cs.filter (!control ·))).length ≤
      (cs.filter (!control ·)).length := by
    unfold settled
    dsimp only
    split <;> omega
  unfold passes
  omega

/-! ## Cleaning twice -/

variable (tags : Tags) (P : Platform)

/-- **A canonical text**: cleaning leaves it alone, and there is no markup in
it to take out. -/
def Canonical (multiline : Bool) (text : String) : Prop :=
  cleanText (tags.platform P) text multiline = text ∧ unmarked tags text = text.toList

theorem unmarked_ofList (cs : List Char) :
    unmarked tags (String.ofList cs) =
      tags.strip (withoutScripts cs.length cs).length (withoutScripts cs.length cs) := by
  unfold unmarked
  rw [String.length_ofList, String.toList_ofList]

theorem unmarked_of_bracketed (hnull : '\x00' ∉ cs)
    (h : followed opensTag asciiSpace cs = true) : unmarked tags (String.ofList cs) = cs := by
  rw [unmarked_ofList, withoutScripts_eq_self h, tags.strip_eq_self le_rfl hnull h]

theorem unmarked_ofList_parts (cs : List Char) :
    (unmarked tags (String.ofList cs)).Sublist cs ∧
      followed opensTag asciiSpace (unmarked tags (String.ofList cs)) = true := by
  rw [unmarked_ofList]
  exact ⟨(tags.strip_sublist _ _).trans (withoutScripts_sublist _ _), tags.bracketed_strip le_rfl⟩

/-- **A settled text is canonical exactly where it is bracketed.** -/
theorem canonical_passes_iff (multiline : Bool) (cs : List Char) :
    Canonical tags P multiline (String.ofList (passes multiline cs)) ↔
      followed opensTag asciiSpace (passes multiline cs) = true := by
  obtain ⟨hpart, hbracketed⟩ := unmarked_ofList_parts tags (passes multiline cs)
  unfold Canonical
  rw [cleanText_platform, String.toList_ofList]
  constructor
  · rintro ⟨-, hunmarked⟩
    rwa [hunmarked] at hbracketed
  · intro h
    have hnull : '\x00' ∉ passes multiline cs := fun hmem =>
      absurd ((settled_passes multiline cs).plain _ hmem) (by decide)
    have hsame := unmarked_of_bracketed tags hnull h
    rw [hsame]
    exact ⟨congrArg String.ofList (passes_passes multiline cs), rfl⟩

theorem bracketed_of_cleanText_eq {multiline : Bool} {cs : List Char}
    (h : cleanText (tags.platform P) (String.ofList cs) multiline = String.ofList cs) :
    followed opensTag asciiSpace cs = true := by
  obtain ⟨hpart, hbracketed⟩ := unmarked_ofList_parts tags cs
  rw [cleanText_platform] at h
  have hpasses : passes multiline (unmarked tags (String.ofList cs)) = cs :=
    String.ofList_injective h
  have hlength := length_passes_le multiline (unmarked tags (String.ofList cs))
  rw [hpasses] at hlength
  have hsame := hpart.eq_of_length_le hlength
  rwa [hsame] at hbracketed

/-- **Each bracket that is text stays one**: in the text without markup and
control characters it stands before a space, a tab or a line break, and
something solid comes after. -/
def BracketsStay (raw : String) : Prop :=
  followed opensTag gap ((unmarked tags raw).filter (!control ·)) = true ∧
    reached opensTag solid ((unmarked tags raw).filter (!control ·)) = true

/-- **Cleaning once is enough exactly where each bracket that is text stays
one.** Where it does, a second cleaning changes nothing and finds no markup;
where it does not, the second cleaning takes out what the first has left as a
tag. -/
theorem cleanText_twice_iff (raw : String) (multiline : Bool) :
    (cleanText (tags.platform P) (cleanText (tags.platform P) raw multiline) multiline =
        cleanText (tags.platform P) raw multiline ↔ BracketsStay tags raw) ∧
      (Canonical tags P multiline (cleanText (tags.platform P) raw multiline) ↔
        BracketsStay tags raw) := by
  have hcleaned : cleanText (tags.platform P) raw multiline =
      String.ofList (passes multiline (unmarked tags raw)) := cleanText_platform tags P raw multiline
  have hbracketed : followed opensTag asciiSpace (passes multiline (unmarked tags raw)) = true ↔
      BracketsStay tags raw := bracketed_cleaned_iff multiline _
  rw [hcleaned, ← hbracketed]
  refine ⟨⟨bracketed_of_cleanText_eq tags P, fun h => ?_⟩, canonical_passes_iff tags P multiline _⟩
  exact ((canonical_passes_iff tags P multiline _).2 h).1

/-- A platform whose other answers no cleaning asks for. -/
def plainPlatform : Platform := ⟨fun _ => 0, id, id, fun _ _ => none, fun _ _ => none, fun _ _ => ""⟩

/-- **A vertical tab after a bracket lets a tag through**: the cleaned text is
the tag, and a second cleaning takes it out. -/
theorem not_forall_canonical_cleanText :
    ¬ ∀ (tags : Tags) (P : Platform) (raw : String) (multiline : Bool),
      Canonical tags P multiline (cleanText (tags.platform P) raw multiline) := by
  intro h
  have htag := (h Tags.elements plainPlatform "<\x0Bb>" false).1
  exact absurd htag (by decide +kernel)

/-- A bracket at the end loses its space, and is a tag the next time. -/
example : cleanText (Tags.elements.platform plainPlatform) "a < " false = "a <" ∧
    cleanText (Tags.elements.platform plainPlatform) "a <" false = "a" := by decide +kernel

end Optionia.Engine
