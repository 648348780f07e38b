import Mathlib.Algebra.Order.Field.Rat
import Mathlib.Tactic.FieldSimp
import Mathlib.Tactic.Linarith
import Mathlib.Tactic.GCongr
import Mathlib.Tactic.Ring
import Optionia.Lib.GreedyLines
/-!
# Text that shrinks to fit its box

`text-geometry.ts`: how long a run of text is estimated to be, how it is
wrapped into lines, and the largest font size whose lines fit a box, searched
for by bisection. Sizes are exact, and the characters are code points. A text
is never cut and never overflows but at the floor, and the whole is free of
scale (`shrinkToFit`).
-/

namespace Optionia.Design.TextGeometry

/-! ## Measuring and wrapping -/

def lineHeight : ℚ := 5 / 4

def charAdvance : ℚ := 31 / 50

def minFontRatio : ℚ := 1 / 25

def fitIterations : ℕ := 24

/-- The advance of a glyph: the measured ratio where there is one. -/
def advance : Option ℚ → ℚ
  | some ratio => if 0 < ratio then ratio else charAdvance
  | none => charAdvance

/-- `estimateTextLength`. An empty text is measured as a blank. -/
def estimateTextLength (text : List Char) (fontSize letterSpacing : ℚ)
    (advanceRatio : Option ℚ) : ℚ :=
  let n : ℕ := max 1 (if text = [] then [' '] else text).length
  n * fontSize * advance advanceRatio + max 0 ((n : ℚ) - 1) * letterSpacing

/-- A character of a segment: it goes on the line, or the line is put out and
the character opens the next. -/
def wrapStep (fontSize letterSpacing limit : ℚ) (advanceRatio : Option ℚ)
    (state : List (List Char) × List Char) (ch : Char) : List (List Char) × List Char :=
  let (out, line) := state
  if line ≠ [] ∧ limit < estimateTextLength (line ++ [ch]) fontSize letterSpacing advanceRatio then
    (out ++ [line], [ch])
  else (out, line ++ [ch])

def wrapSegment (fontSize letterSpacing limit : ℚ) (advanceRatio : Option ℚ)
    (segment : List Char) : List (List Char) :=
  if segment = [] then [[]]
  else
    let (out, line) := segment.foldl (wrapStep fontSize letterSpacing limit advanceRatio) ([], [])
    out ++ [line]

def wrapTextLines (text : List Char) (fontSize letterSpacing maxWidth : ℚ)
    (advanceRatio : Option ℚ) : List (List Char) :=
  let limit := max 1 maxWidth
  let out := (text.splitOn '\n').flatMap (wrapSegment fontSize letterSpacing limit advanceRatio)
  if out = [] then [[]] else out

/-! ## Fitting -/

/-- What a text is drawn with. -/
structure Fit where
  fontSize : ℚ
  letterSpacing : ℚ
  deriving DecidableEq

/-- `lsAt`: the spacing shrinks as the font does. -/
def lsAt (letterSpacing maxFontSize fs : ℚ) : ℚ := letterSpacing * (fs / maxFontSize)

def fits (text : List Char) (maxFontSize letterSpacing boxW boxH : ℚ) (advanceRatio : Option ℚ)
    (fs : ℚ) : Bool :=
  decide ((wrapTextLines text fs (lsAt letterSpacing maxFontSize fs) boxW advanceRatio).length
    * fs * lineHeight ≤ boxH)

/-- The search between a size that fits and one that does not. -/
def search (fits : ℚ → Bool) : ℕ → ℚ → ℚ → ℚ
  | 0, lo, _ => lo
  | iterations + 1, lo, hi =>
    let mid := (lo + hi) / 2
    if fits mid then search fits iterations mid hi else search fits iterations lo mid

def fitTextToBox (text : List Char) (maxFontSize letterSpacing boxW boxH : ℚ)
    (advanceRatio : Option ℚ) (minFontRatio : ℚ) : Fit :=
  if ¬ 0 < boxH ∨ ¬ 0 < boxW ∨ maxFontSize ≤ 0 then ⟨maxFontSize, letterSpacing⟩
  else
    let fits := fits text maxFontSize letterSpacing boxW boxH advanceRatio
    if fits maxFontSize then ⟨maxFontSize, letterSpacing⟩
    else
      let lo0 := min (maxFontSize * minFontRatio) maxFontSize
      if !fits lo0 then ⟨lo0, lsAt letterSpacing maxFontSize lo0⟩
      else
        let lo := search fits fitIterations lo0 maxFontSize
        ⟨lo, lsAt letterSpacing maxFontSize lo⟩

/-! ## Lines -/

variable {fontSize letterSpacing : ℚ} {advanceRatio : Option ℚ} {text : List Char}

/-- The room that characters take on a line, and the spacing between them. -/
def runLength (n : ℕ) (fontSize letterSpacing : ℚ) (advanceRatio : Option ℚ) : ℚ :=
  n * fontSize * advance advanceRatio + max 0 ((n : ℚ) - 1) * letterSpacing

theorem estimateTextLength_eq (h : text ≠ []) :
    estimateTextLength text fontSize letterSpacing advanceRatio =
      runLength text.length fontSize letterSpacing advanceRatio := by
  have hone : 1 ≤ text.length := List.length_pos_iff.2 h
  unfold estimateTextLength runLength
  rw [if_neg h, max_eq_right hone]

/-- Whether so many characters are too long for a line. -/
def tooLong (fontSize letterSpacing limit : ℚ) (advanceRatio : Option ℚ) (n : ℕ) : Bool :=
  decide (limit < runLength n fontSize letterSpacing advanceRatio)

theorem foldl_wrapStep (limit : ℚ) (segment : List Char) (out : List (List Char))
    (line : List Char) :
    (segment.foldl (wrapStep fontSize letterSpacing limit advanceRatio) (out, line)).1 ++
        [(segment.foldl (wrapStep fontSize letterSpacing limit advanceRatio) (out, line)).2] =
      out ++ GreedyLines.fill (tooLong fontSize letterSpacing limit advanceRatio) line segment := by
  induction segment generalizing out line with
  | nil => rfl
  | cons ch segment ih =>
    have hlong : limit < estimateTextLength (line ++ [ch]) fontSize letterSpacing advanceRatio ↔
        tooLong fontSize letterSpacing limit advanceRatio (line.length + 1) = true := by
      rw [estimateTextLength_eq (List.append_ne_nil_of_right_ne_nil _ (List.cons_ne_nil ch [])),
        List.length_append, List.length_singleton, tooLong, decide_eq_true_eq]
    rw [List.foldl_cons, GreedyLines.fill, wrapStep]
    by_cases hbreak : line ≠ [] ∧
        tooLong fontSize letterSpacing limit advanceRatio (line.length + 1) = true
    · rw [if_pos ⟨hbreak.1, hlong.2 hbreak.2⟩, if_pos hbreak, ih, List.append_assoc,
        List.singleton_append]
    · rw [if_neg fun h => hbreak ⟨h.1, hlong.1 h.2⟩, if_neg hbreak, ih]

/-- **A segment is wrapped greedily.** -/
theorem wrapSegment_eq (limit : ℚ) (segment : List Char) :
    wrapSegment fontSize letterSpacing limit advanceRatio segment =
      GreedyLines.fill (tooLong fontSize letterSpacing limit advanceRatio) [] segment := by
  unfold wrapSegment
  split
  · next h =>
    rw [h]
    rfl
  · have hfold := @foldl_wrapStep fontSize letterSpacing advanceRatio limit segment [] []
    rwa [List.nil_append] at hfold

/-- **A text is wrapped segment by segment.** -/
theorem wrapTextLines_eq (text : List Char) (maxWidth : ℚ) :
    wrapTextLines text fontSize letterSpacing maxWidth advanceRatio =
      (text.splitOn '\n').flatMap
        (GreedyLines.fill (tooLong fontSize letterSpacing (max 1 maxWidth) advanceRatio) []) := by
  have hsegments : (wrapSegment fontSize letterSpacing (max 1 maxWidth) advanceRatio) =
      GreedyLines.fill (tooLong fontSize letterSpacing (max 1 maxWidth) advanceRatio) [] :=
    funext (wrapSegment_eq _)
  unfold wrapTextLines
  dsimp only
  rw [hsegments, if_neg]
  intro hnone
  cases hsplit : text.splitOn '\n' with
  | nil => exact List.splitOn_ne_nil _ _ hsplit
  | cons segment segments =>
    rw [hsplit, List.flatMap_cons, List.append_eq_nil_iff] at hnone
    exact GreedyLines.fill_ne_nil _ _ hnone.1

/-! ## Sizes -/

theorem runLength_lsAt (n : ℕ) (maxFontSize fs : ℚ) :
    runLength n fs (lsAt letterSpacing maxFontSize fs) advanceRatio =
      fs * (n * advance advanceRatio + max 0 ((n : ℚ) - 1) * (letterSpacing / maxFontSize)) := by
  unfold runLength lsAt
  ring

/-- **The lines of a larger font are no fewer.** -/
theorem length_wrapTextLines_mono {fs fs' : ℚ} (h0 : 0 ≤ fs) (hle : fs ≤ fs')
    (text : List Char) (maxFontSize maxWidth : ℚ) :
    (wrapTextLines text fs (lsAt letterSpacing maxFontSize fs) maxWidth advanceRatio).length ≤
      (wrapTextLines text fs' (lsAt letterSpacing maxFontSize fs') maxWidth
        advanceRatio).length := by
  have hlong : ∀ n, tooLong fs (lsAt letterSpacing maxFontSize fs) (max 1 maxWidth)
      advanceRatio n = true → tooLong fs' (lsAt letterSpacing maxFontSize fs') (max 1 maxWidth)
      advanceRatio n = true := by
    intro n hn
    rw [tooLong, decide_eq_true_eq, runLength_lsAt] at hn ⊢
    have hpos : (0 : ℚ) < max 1 maxWidth := lt_max_of_lt_left one_pos
    have hunit := pos_of_mul_pos_right (hpos.trans hn) h0
    exact hn.trans_le (mul_le_mul_of_nonneg_right hle hunit.le)
  rw [wrapTextLines_eq, wrapTextLines_eq]
  induction text.splitOn '\n' with
  | nil => exact le_rfl
  | cons segment segments ih =>
    rw [List.flatMap_cons, List.flatMap_cons, List.length_append, List.length_append]
    exact Nat.add_le_add (GreedyLines.length_fill_le hlong segment) ih

/-! ## The search -/

section Search

variable {fits fits' : ℚ → Bool} {lo hi : ℚ}

theorem search_spec (iterations : ℕ) (hle : lo ≤ hi) (hlo : fits lo = true) :
    lo ≤ search fits iterations lo hi ∧ search fits iterations lo hi ≤ hi ∧
      fits (search fits iterations lo hi) = true := by
  induction iterations generalizing lo hi with
  | zero => exact ⟨le_rfl, hle, hlo⟩
  | succ iterations ih =>
    have hlow : lo ≤ (lo + hi) / 2 := by linarith
    have hhigh : (lo + hi) / 2 ≤ hi := by linarith
    rw [search]
    split
    · next hmid =>
      obtain ⟨hge, hmost, hfits⟩ := ih hhigh hmid
      exact ⟨hlow.trans hge, hmost, hfits⟩
    · obtain ⟨hge, hmost, hfits⟩ := ih hlow hlo
      exact ⟨hge, hmost.trans hhigh, hfits⟩

/-- **The search is free of scale.** -/
theorem search_scale {s : ℚ} (h : ∀ x, fits' (s * x) = fits x) (iterations : ℕ) (lo hi : ℚ) :
    search fits' iterations (s * lo) (s * hi) = s * search fits iterations lo hi := by
  induction iterations generalizing lo hi with
  | zero => rfl
  | succ iterations ih =>
    have hmid : (s * lo + s * hi) / 2 = s * ((lo + hi) / 2) := by ring
    rw [search, search, hmid, h]
    split
    · exact ih _ _
    · exact ih _ _

end Search

/-! ## What is fitted -/

section Fitting

variable {maxFontSize boxW boxH : ℚ}

/-- **A text is wrapped whole**: the lines of each paragraph are the paragraph,
and none is wider than the box but a single character. -/
structure Wrapped (text : List Char) (fontSize letterSpacing boxW : ℚ) (advanceRatio : Option ℚ)
    (lines : List (List Char)) : Prop where
  whole : ∃ paragraph : List Char → List (List Char),
    lines = (text.splitOn '\n').flatMap paragraph ∧
      ∀ segment ∈ text.splitOn '\n', (paragraph segment).flatten = segment
  /-- A line of more than one character is no wider than the box. -/
  width : ∀ line ∈ lines,
    line.length = 1 ∨ runLength line.length fontSize letterSpacing advanceRatio ≤ boxW

/-- The size is between the floor and the largest, and the lines fit the height
of the box but at the floor. -/
structure FitsBox (text : List Char) (maxFontSize boxW boxH : ℚ) (advanceRatio : Option ℚ)
    (fit : Fit) : Prop where
  floor : maxFontSize / 25 ≤ fit.fontSize
  most : fit.fontSize ≤ maxFontSize
  /-- The lines fit the height of the box, but at the floor. -/
  height : (wrapTextLines text fit.fontSize fit.letterSpacing boxW advanceRatio).length *
    fit.fontSize * lineHeight ≤ boxH ∨ fit.fontSize = maxFontSize / 25

theorem wrapped_wrapTextLines (text : List Char) (fontSize letterSpacing : ℚ)
    (advanceRatio : Option ℚ) (hW : 1 ≤ boxW) :
    Wrapped text fontSize letterSpacing boxW advanceRatio
      (wrapTextLines text fontSize letterSpacing boxW advanceRatio) := by
  rw [wrapTextLines_eq, max_eq_right hW]
  refine ⟨⟨_, rfl, fun segment _ => ?_⟩, fun line hline => ?_⟩
  · rw [GreedyLines.flatten_fill, List.nil_append]
  · obtain ⟨segment, -, hmem⟩ := List.mem_flatMap.1 hline
    have hempty : ([] : List Char).length ≤ 1 ∨
        tooLong fontSize letterSpacing boxW advanceRatio ([] : List Char).length = false :=
      Or.inl (Nat.zero_le 1)
    rcases GreedyLines.short_of_mem_fill hempty line hmem with hshort | hlong
    · rcases Nat.le_one_iff_eq_zero_or_eq_one.1 hshort with hzero | hone
      · refine Or.inr ?_
        rw [hzero, runLength]
        norm_num
        linarith
      · exact Or.inl hone
    · exact Or.inr (not_lt.1 (of_decide_eq_false hlong))

theorem lsAt_self (h : 0 < maxFontSize) : lsAt letterSpacing maxFontSize maxFontSize =
    letterSpacing := by
  rw [lsAt, div_self h.ne', mul_one]

/-- The size that is found: the largest, the floor, or one between them. -/
def fitSize (fits : ℚ → Bool) (maxFontSize : ℚ) : ℚ :=
  if fits maxFontSize then maxFontSize
  else if fits (maxFontSize / 25) then search fits fitIterations (maxFontSize / 25) maxFontSize
  else maxFontSize / 25

/-- **A fit is its size, and the spacing in proportion.** -/
theorem fitTextToBox_eq (hW : 0 < boxW) (hH : 0 < boxH) (hmax : 0 < maxFontSize)
    (text : List Char) (letterSpacing : ℚ) (advanceRatio : Option ℚ) :
    fitTextToBox text maxFontSize letterSpacing boxW boxH advanceRatio minFontRatio =
      ⟨fitSize (fits text maxFontSize letterSpacing boxW boxH advanceRatio) maxFontSize,
        lsAt letterSpacing maxFontSize
          (fitSize (fits text maxFontSize letterSpacing boxW boxH advanceRatio) maxFontSize)⟩ := by
  have hfloor : min (maxFontSize * minFontRatio) maxFontSize = maxFontSize / 25 := by
    rw [min_eq_left] <;> rw [minFontRatio] <;> linarith
  have hguard : ¬ (¬ 0 < boxH ∨ ¬ 0 < boxW ∨ maxFontSize ≤ 0) := by
    rintro (h | h | h)
    · exact h hH
    · exact h hW
    · exact absurd hmax (not_lt.2 h)
  unfold fitTextToBox fitSize
  rw [if_neg hguard, hfloor]
  dsimp only
  cases fits text maxFontSize letterSpacing boxW boxH advanceRatio maxFontSize with
  | true => rw [if_pos rfl, if_pos rfl, lsAt_self hmax]
  | false =>
    rw [if_neg Bool.false_ne_true, if_neg Bool.false_ne_true]
    cases fits text maxFontSize letterSpacing boxW boxH advanceRatio (maxFontSize / 25) <;> rfl

theorem floor_le (hmax : 0 < maxFontSize) : maxFontSize / 25 ≤ maxFontSize := by
  linarith

theorem fitSize_spec (fits : ℚ → Bool) (hmax : 0 < maxFontSize) :
    maxFontSize / 25 ≤ fitSize fits maxFontSize ∧ fitSize fits maxFontSize ≤ maxFontSize ∧
      (fits (fitSize fits maxFontSize) = true ∨ fitSize fits maxFontSize = maxFontSize / 25) := by
  unfold fitSize
  split
  · next hlargest => exact ⟨floor_le hmax, le_rfl, Or.inl hlargest⟩
  · split
    · next hsmall =>
      obtain ⟨hlow, hhigh, hfits⟩ := search_spec fitIterations (floor_le hmax) hsmall
      exact ⟨hlow, hhigh, Or.inl hfits⟩
    · exact ⟨le_rfl, floor_le hmax, Or.inr rfl⟩

theorem fitsBox_fitTextToBox (hW : 0 < boxW) (hH : 0 < boxH) (hmax : 0 < maxFontSize)
    (text : List Char) (letterSpacing : ℚ) (advanceRatio : Option ℚ) :
    FitsBox text maxFontSize boxW boxH advanceRatio
      (fitTextToBox text maxFontSize letterSpacing boxW boxH advanceRatio minFontRatio) := by
  obtain ⟨hlow, hhigh, hfits⟩ := fitSize_spec
    (fits text maxFontSize letterSpacing boxW boxH advanceRatio) hmax
  rw [fitTextToBox_eq hW hH hmax]
  exact ⟨hlow, hhigh, hfits.imp_left of_decide_eq_true⟩

/-! ## Scale -/

theorem runLength_scale (s : ℚ) (n : ℕ) (fontSize letterSpacing : ℚ) (advanceRatio : Option ℚ) :
    runLength n (s * fontSize) (s * letterSpacing) advanceRatio =
      s * runLength n fontSize letterSpacing advanceRatio := by
  unfold runLength
  ring

/-- **Lines are free of scale**, in boxes of at least a pixel. -/
theorem wrapTextLines_scale {s : ℚ} (hs : 0 < s) (hW : 1 ≤ boxW) (hsW : 1 ≤ s * boxW)
    (text : List Char) (fontSize letterSpacing : ℚ) (advanceRatio : Option ℚ) :
    wrapTextLines text (s * fontSize) (s * letterSpacing) (s * boxW) advanceRatio =
      wrapTextLines text fontSize letterSpacing boxW advanceRatio := by
  have hlong : tooLong (s * fontSize) (s * letterSpacing) (s * boxW) advanceRatio =
      tooLong fontSize letterSpacing boxW advanceRatio := by
    funext n
    refine decide_eq_decide.2 ?_
    rw [runLength_scale]
    exact mul_lt_mul_iff_right₀ hs
  rw [wrapTextLines_eq, wrapTextLines_eq, max_eq_right hW, max_eq_right hsW, hlong]

theorem lsAt_scale {s : ℚ} (hs : 0 < s) (letterSpacing maxFontSize fs : ℚ) :
    lsAt (s * letterSpacing) (s * maxFontSize) (s * fs) =
      s * lsAt letterSpacing maxFontSize fs := by
  rw [lsAt, lsAt, mul_div_mul_left _ _ hs.ne', mul_assoc]

theorem fits_scale {s : ℚ} (hs : 0 < s) (hW : 1 ≤ boxW) (hsW : 1 ≤ s * boxW) (text : List Char)
    (maxFontSize letterSpacing boxH : ℚ) (advanceRatio : Option ℚ) (fs : ℚ) :
    fits text (s * maxFontSize) (s * letterSpacing) (s * boxW) (s * boxH) advanceRatio (s * fs) =
      fits text maxFontSize letterSpacing boxW boxH advanceRatio fs := by
  unfold fits
  rw [lsAt_scale hs, wrapTextLines_scale hs hW hsW]
  refine decide_eq_decide.2 ?_
  have hleft : ∀ n : ℕ, (n : ℚ) * (s * fs) * lineHeight = s * (n * fs * lineHeight) := by
    intro n
    ring
  rw [hleft]
  exact mul_le_mul_iff_right₀ hs

theorem fitSize_scale {s : ℚ} {fits fits' : ℚ → Bool} (h : ∀ x, fits' (s * x) = fits x)
    (maxFontSize : ℚ) : fitSize fits' (s * maxFontSize) = s * fitSize fits maxFontSize := by
  unfold fitSize
  rw [h, mul_div_assoc, h]
  split
  · rfl
  · split
    · exact search_scale h _ _ _
    · rfl

/-- **Shrink-to-fit is sound and free of scale.** The size is between the floor
and the largest, and its lines fit the box but at the floor; a larger font has
no fewer lines; a text is wrapped whole and within the width; and the sizes of
a box scale with it, around the same lines. -/
theorem shrinkToFit (text : List Char) (advanceRatio : Option ℚ) (letterSpacing : ℚ)
    (hW : 1 ≤ boxW) (hH : 0 < boxH) (hmax : 0 < maxFontSize) :
    FitsBox text maxFontSize boxW boxH advanceRatio
      (fitTextToBox text maxFontSize letterSpacing boxW boxH advanceRatio minFontRatio) ∧
    (∀ fs fs', 0 ≤ fs → fs ≤ fs' →
      (wrapTextLines text fs (lsAt letterSpacing maxFontSize fs) boxW advanceRatio).length ≤
        (wrapTextLines text fs' (lsAt letterSpacing maxFontSize fs') boxW advanceRatio).length) ∧
    (∀ fontSize spacing, Wrapped text fontSize spacing boxW advanceRatio
      (wrapTextLines text fontSize spacing boxW advanceRatio)) ∧
    ∀ s, 0 < s → 1 ≤ s * boxW →
      let fit := fitTextToBox text maxFontSize letterSpacing boxW boxH advanceRatio minFontRatio
      let scaled := fitTextToBox text (s * maxFontSize) (s * letterSpacing) (s * boxW) (s * boxH)
        advanceRatio minFontRatio
      scaled = ⟨s * fit.fontSize, s * fit.letterSpacing⟩ ∧
        wrapTextLines text scaled.fontSize scaled.letterSpacing (s * boxW) advanceRatio =
          wrapTextLines text fit.fontSize fit.letterSpacing boxW advanceRatio := by
  have hpos : 0 < boxW := one_pos.trans_le hW
  refine ⟨fitsBox_fitTextToBox hpos hH hmax _ _ _, fun fs fs' h0 hle => ?_,
    fun fontSize spacing => wrapped_wrapTextLines _ _ _ _ hW, fun s hs hsW => ?_⟩
  · exact length_wrapTextLines_mono h0 hle text maxFontSize boxW
  · have hsize := fitSize_scale (fits_scale hs hW hsW text maxFontSize letterSpacing boxH
      advanceRatio) maxFontSize
    have hscaled : fitTextToBox text (s * maxFontSize) (s * letterSpacing) (s * boxW) (s * boxH)
        advanceRatio minFontRatio =
        ⟨s * (fitTextToBox text maxFontSize letterSpacing boxW boxH advanceRatio
            minFontRatio).fontSize,
          s * (fitTextToBox text maxFontSize letterSpacing boxW boxH advanceRatio
            minFontRatio).letterSpacing⟩ := by
      rw [fitTextToBox_eq (one_pos.trans_le hsW) (mul_pos hs hH) (mul_pos hs hmax),
        fitTextToBox_eq hpos hH hmax, hsize, lsAt_scale hs]
    dsimp only
    rw [hscaled]
    exact ⟨rfl, wrapTextLines_scale hs hW hsW _ _ _ _⟩

/-- A name in a box of two lines. -/
theorem shrinkToFit_name :
    FitsBox "Ada Lovelace".toList 40 120 60 none
      (fitTextToBox "Ada Lovelace".toList 40 (-1) 120 60 none minFontRatio) :=
  (shrinkToFit _ none (-1) (by norm_num) (by norm_num) (by norm_num)).1

end Fitting

end Optionia.Design.TextGeometry
