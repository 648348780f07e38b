import Optionia.Engine.Text
import Optionia.Lib.Marked
/-!
# Markup in a text

`strip_tags` reads a text from the left: a `<` before white space is text, any
other opens a tag, and what follows the tag is read on. Where a tag ends is
PHP's own matter of quotes, nesting and comments; here it is a field of
`Tags`, with the one fact that matters: what follows a tag is a tail of what
stood behind its `<`. An unclosed tag has nothing after it.

A text is `bracketed` where each `<` stands before white space. Such a text
has no tags and no `script` or `style` elements, and what `strip_tags` leaves
is such a text.
-/

namespace Optionia.Engine

open Marked (followed)

def asciiSpace (c : Char) : Bool := c.toNat ∈ [0x09, 0x0A, 0x0B, 0x0C, 0x0D, 0x20]

/-- The bracket that may open a tag. -/
def opensTag (c : Char) : Bool := c == '<'

/-- Where tags end. -/
structure Tags where
  /-- What follows a tag, of what follows its `<`. -/
  after : List Char → List Char
  suffix : ∀ cs, after cs <:+ cs

namespace Tags

variable (tags : Tags)

/-- `strip_tags`; the null bytes go too. -/
def strip : ℕ → List Char → List Char
  | 0, _ => []
  | _ + 1, [] => []
  | fuel + 1, c :: cs =>
    if opensTag c && !cs.head?.any asciiSpace then strip fuel (tags.after cs)
    else if c = '\x00' then strip fuel cs
    else c :: strip fuel cs

/-- The platform whose `strip_tags` ends tags there. -/
def platform (P : Platform) : Platform :=
  { P with stripTags := fun s => String.ofList (tags.strip s.length s.toList) }

/-- The open quote after one more quotation mark: another mark inside a quote
is text. -/
def quoteAfter (quote : Option Char) (c : Char) : Option Char :=
  if quote = none then some c else if quote = some c then none else quote

/-- What follows the closing bracket of an element's tag, quotes and nested
brackets apart. -/
def afterBracket (quote : Option Char) (depth : ℕ) : List Char → List Char
  | [] => []
  | c :: cs =>
    if c = '"' ∨ c = '\'' then afterBracket (quoteAfter quote c) depth cs
    else if c = '<' ∧ quote = none ∧ !cs.head?.any asciiSpace then afterBracket quote (depth + 1) cs
    else if c = '>' ∧ depth ≠ 0 then afterBracket quote (depth - 1) cs
    else if c = '>' ∧ quote = none then cs
    else afterBracket quote depth cs

theorem afterBracket_suffix (quote : Option Char) (depth : ℕ) (cs : List Char) :
    afterBracket quote depth cs <:+ cs := by
  induction cs generalizing quote depth with
  | nil => exact List.suffix_refl _
  | cons c cs ih =>
    rw [afterBracket]
    have hcons : cs <:+ c :: cs := List.suffix_cons c cs
    split
    · exact (ih _ _).trans hcons
    · split
      · exact (ih _ _).trans hcons
      · split
        · exact (ih _ _).trans hcons
        · split
          · exact hcons
          · exact (ih _ _).trans hcons

def elements : Tags := ⟨afterBracket none 0, afterBracket_suffix none 0⟩

example : String.ofList (elements.strip 30 "a <b title='>'>c</b> < d <".toList) = "a c < d " := by
  decide +kernel

/-! ## What is left -/

/-- **Every `<` that is left stands before white space.** -/
theorem bracketed_strip {fuel : ℕ} {cs : List Char} (h : cs.length ≤ fuel) :
    followed opensTag asciiSpace (tags.strip fuel cs) = true := by
  induction fuel generalizing cs with
  | zero => rfl
  | succ fuel ih =>
    cases cs with
    | nil => rfl
    | cons c cs =>
      rw [List.length_cons] at h
      rw [strip]
      split
      · exact ih ((tags.suffix cs).length_le.trans (by omega))
      · next hkept =>
        split
        · exact ih (by omega)
        · by_cases hc : opensTag c = true
          · rw [hc, Bool.true_and, Bool.not_eq_true', Bool.not_eq_false] at hkept
            rw [Marked.followed_cons_of_mark hc, ih (by omega), Bool.and_true]
            -- The white space is text itself, so it is what comes next.
            cases cs with
            | nil => simp at hkept
            | cons d ds =>
              have hspace : asciiSpace d = true := hkept
              have hd : opensTag d = false := by
                by_contra hopen
                rw [Bool.not_eq_false, opensTag, beq_iff_eq] at hopen
                rw [hopen] at hspace
                exact absurd hspace (by decide)
              have hnull : d ≠ '\x00' := by
                rintro rfl
                exact absurd hspace (by decide)
              cases fuel with
              | zero =>
                rw [List.length_cons] at h
                omega
              | succ fuel =>
                rw [strip, hd, Bool.false_and, if_neg Bool.false_ne_true, if_neg hnull]
                exact hspace
          · rw [Marked.followed_cons_of_not_mark (Bool.not_eq_true _ ▸ hc)]
            exact ih (by omega)

theorem strip_sublist (fuel : ℕ) (cs : List Char) : (tags.strip fuel cs).Sublist cs := by
  induction fuel generalizing cs with
  | zero => exact List.nil_sublist cs
  | succ fuel ih =>
    cases cs with
    | nil => exact List.Sublist.refl _
    | cons c cs =>
      rw [strip]
      split
      · exact ((ih _).trans (tags.suffix cs).sublist).cons c
      · split
        · exact (ih cs).cons c
        · exact (ih cs).cons_cons c

/-- **A bracketed text without null bytes is left alone.** -/
theorem strip_eq_self {fuel : ℕ} {cs : List Char} (h : cs.length ≤ fuel)
    (hnull : '\x00' ∉ cs) (hcs : followed opensTag asciiSpace cs = true) :
    tags.strip fuel cs = cs := by
  induction fuel generalizing cs with
  | zero => rw [List.length_eq_zero_iff.1 (Nat.le_zero.1 h), strip]
  | succ fuel ih =>
    cases cs with
    | nil => rfl
    | cons c cs =>
      rw [List.length_cons] at h
      rw [List.mem_cons, not_or] at hnull
      rw [followed, Bool.and_eq_true, Bool.or_eq_true] at hcs
      have htext : (opensTag c && !cs.head?.any asciiSpace) = false := by
        rcases hcs.1 with hc | hspace
        · rw [Bool.not_eq_true'] at hc
          rw [hc, Bool.false_and]
        · rw [hspace, Bool.not_true, Bool.and_false]
      rw [strip, htext, if_neg Bool.false_ne_true, if_neg (Ne.symm hnull.1),
        ih (by omega) hnull.2 hcs.2]

end Tags

/-! ## Elements -/

theorem toLower_eq_self {c : Char} (h : c.toLower.toNat < 65) : c.toLower = c := by
  unfold Char.toLower at h ⊢
  split at h
  · next hu =>
    have hlow : (65 : ℕ) ≤ c.val.toNat := hu.1
    have hhigh : c.val.toNat ≤ 90 := hu.2
    have hshift : (c.val + ('a'.val - 'A'.val)).toNat = c.val.toNat + 32 := by
      have hdistance : 'a'.val - 'A'.val = 32 := by decide
      have hword : (32 : UInt32).toNat = 32 := rfl
      rw [hdistance, UInt32.toNat_add, hword]
      omega
    have hlt : (c.val + ('a'.val - 'A'.val)).toNat < 65 := h
    omega
  · next hu => exact dif_neg hu

theorem asciiSpace_toLower_ne {c : Char} (h : asciiSpace c = true) : c.toLower ≠ 's' := by
  have hsmall : c.toNat < 65 := by
    unfold asciiSpace at h
    rw [decide_eq_true_eq] at h
    simp only [List.mem_cons, List.not_mem_nil, or_false] at h
    omega
  have hsame : c.toLower = c := by
    unfold Char.toLower
    refine dif_neg fun hu => ?_
    have hlow : (65 : ℕ) ≤ c.toNat := hu.1
    omega
  rw [hsame]
  rintro rfl
  exact absurd hsmall (by decide)

variable {element : String} {cs : List Char}

theorem afterElement_eq_none (helement : element.toList.head? = some 's')
    (h : followed opensTag asciiSpace cs = true) : afterElement element cs = none := by
  obtain ⟨es, hes⟩ : ∃ es, element.toList = 's' :: es := by
    cases hlist : element.toList with
    | nil =>
      rw [hlist] at helement
      simp at helement
    | cons e es =>
      rw [hlist] at helement
      exact ⟨es, by rw [Option.some.inj helement]⟩
  have hopening : ("<" ++ element).toList = '<' :: 's' :: es := by
    rw [String.toList_append, hes]
    rfl
  unfold afterElement
  rw [hopening]
  dsimp only
  refine if_neg fun hopens => ?_
  unfold opensWith at hopens
  rw [decide_eq_true_eq] at hopens
  cases cs with
  | nil => exact absurd hopens.symm (List.cons_ne_nil _ _)
  | cons c cs =>
    rw [List.length_cons, List.take_succ_cons, List.map_cons] at hopens
    obtain ⟨hc, hrest⟩ := List.cons.inj hopens
    have hbracket : c = '<' := (toLower_eq_self (by rw [hc]; decide)).symm.trans hc
    rw [Marked.followed_cons_of_mark (by rw [hbracket]; rfl), Bool.and_eq_true] at h
    cases cs with
    | nil => exact absurd h.1 Bool.false_ne_true
    | cons d ds =>
      have hspace : asciiSpace d = true := h.1
      rw [List.length_cons, List.take_succ_cons, List.map_cons] at hrest
      exact asciiSpace_toLower_ne hspace (List.cons.inj hrest).1

/-- **A bracketed text has no elements to take out.** -/
theorem withoutScripts_eq_self {fuel : ℕ} (h : followed opensTag asciiSpace cs = true) :
    withoutScripts fuel cs = cs := by
  induction fuel generalizing cs with
  | zero => rfl
  | succ fuel ih =>
    cases cs with
    | nil => rfl
    | cons c cs =>
      rw [withoutScripts, afterElement_eq_none (by decide) h, afterElement_eq_none (by decide) h]
      dsimp only [Option.or]
      rw [followed, Bool.and_eq_true] at h
      rw [ih h.2]

theorem afterClosing_suffix {rest : List Char} (h : afterClosing element cs = some rest) :
    rest <:+ cs := by
  induction cs with
  | nil => cases h
  | cons c cs ih =>
    rw [afterClosing] at h
    split at h
    · obtain rfl := Option.some.inj h
      exact List.drop_suffix _ _
    · exact (ih h).trans (List.suffix_cons c cs)

theorem afterElement_suffix {rest : List Char} (h : afterElement element cs = some rest) :
    rest <:+ cs := by
  unfold afterElement at h
  dsimp only at h
  split at h
  · split at h
    · cases h
    · next content hcontent =>
      have htail : content <:+ cs.drop ("<" ++ element).toList.length :=
        (List.suffix_cons _ content).trans (hcontent ▸ List.dropWhile_suffix _)
      exact (afterClosing_suffix h).trans (htail.trans (List.drop_suffix _ _))
  · cases h

theorem withoutScripts_sublist (fuel : ℕ) (cs : List Char) :
    (withoutScripts fuel cs).Sublist cs := by
  induction fuel generalizing cs with
  | zero => exact List.Sublist.refl cs
  | succ fuel ih =>
    cases cs with
    | nil => exact List.Sublist.refl _
    | cons c cs =>
      rw [withoutScripts]
      split
      · next rest hrest =>
        have hsuffix : rest <:+ c :: cs := by
          cases hscript : afterElement "script" (c :: cs) with
          | some other =>
            rw [hscript] at hrest
            obtain rfl := Option.some.inj hrest
            exact afterElement_suffix hscript
          | none =>
            rw [hscript] at hrest
            exact afterElement_suffix hrest
        exact (ih rest).trans hsuffix.sublist
      · exact (ih cs).cons_cons c

end Optionia.Engine
