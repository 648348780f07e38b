import Mathlib.Tactic.FieldSimp
import Mathlib.Tactic.Ring
import Optionia.Design.Geometry
/-!
# Resizing a layer by a handle

`drag-geometry.ts`: a handle pulls one edge of a layer or two, along the
layer's own axes, and what is opposite the handle stays where it is. A layer
keeps its aspect, but for one in a square frame. The minimum size is asked of
the side that is pulled; the side that follows may fall below it, and exactly
when it does is `resized_iff`.
-/

namespace Optionia.Design.Resizing

def minLayerSize : ℚ := 24

structure DragRect where
  cx : ℚ
  cy : ℚ
  w : ℚ
  h : ℚ
  deriving DecidableEq

/-- How far the pointer went, on the screen. -/
structure Delta where
  dx : ℚ
  dy : ℚ

/-- Which edges a handle pulls, per axis. -/
structure Direction where
  hx : ℤ
  hy : ℤ
  deriving DecidableEq

/-- `handleDirection`. The handles are `nw`, `n`, `ne`, `e`, `se`, `s`, `sw` and
`w`. -/
def handleDirection (dir : String) : Direction where
  hx := if dir.toList.contains 'w' then -1 else if dir.toList.contains 'e' then 1 else 0
  hy := if dir.toList.contains 'n' then -1 else if dir.toList.contains 's' then 1 else 0

/-- A rotation, by its cosine and its sine. -/
structure Rotation where
  cos : ℚ
  sin : ℚ

/-- How far the pointer went along the layer's width. -/
def Rotation.along (r : Rotation) (delta : Delta) : ℚ := delta.dx * r.cos + delta.dy * r.sin

/-- How far it went along the layer's height. -/
def Rotation.across (r : Rotation) (delta : Delta) : ℚ := -delta.dx * r.sin + delta.dy * r.cos

/-- `resizeFrom`, of an angle by its cosine and its sine. -/
def resizeFrom (start : DragRect) (delta : Delta) (dir : String) (r : Rotation)
    (shape : LayerShape) : DragRect :=
  let ldx := r.along delta
  let ldy := r.across delta
  let ⟨hx, hy⟩ := handleDirection dir
  let nw := max minLayerSize (start.w + hx * ldx)
  let nh := max minLayerSize (start.h + hy * ldy)
  let ⟨nw, nh⟩ : ℚ × ℚ :=
    if shape = .square then
      -- Free on each axis: an edge stretches one dimension, a corner both.
      (if hx = 0 then start.w else nw, if hy = 0 then start.h else nh)
    else
      let aspect := start.w / start.h
      if hx = 0 then
        let nh := max minLayerSize nh
        (nh * aspect, nh)
      else
        let nw := max minLayerSize nw
        (nw, nw / aspect)
  -- The centre moves by half the growth, rotated back.
  let slx := hx * (nw - start.w) / 2
  let sly := hy * (nh - start.h) / 2
  ⟨start.cx + (slx * r.cos - sly * r.sin), start.cy + (slx * r.sin + sly * r.cos), nw, nh⟩

/-! ## What resizing holds -/

/-- Where the point opposite a handle is on the canvas. -/
def opposite (rect : DragRect) (dir : String) (r : Rotation) : ℚ × ℚ :=
  let ⟨hx, hy⟩ := handleDirection dir
  let x := -(hx * rect.w / 2)
  let y := -(hy * rect.h / 2)
  (rect.cx + (x * r.cos - y * r.sin), rect.cy + (x * r.sin + y * r.cos))

/-- **What resizing is to hold**: the point opposite the handle, the aspect or
the axis that is not pulled, and the minimum. -/
structure Holds (start : DragRect) (dir : String) (r : Rotation) (shape : LayerShape)
    (next : DragRect) : Prop where
  /-- The point opposite the handle is where it was. -/
  opposite : opposite next dir r = opposite start dir r
  /-- The aspect is what it was, but in a square frame. -/
  aspect : shape ≠ .square → next.w / next.h = start.w / start.h
  /-- In a square frame an axis that is not pulled keeps its size. -/
  untouched : shape = .square →
    ((handleDirection dir).hx = 0 → next.w = start.w) ∧
      ((handleDirection dir).hy = 0 → next.h = start.h)
  /-- The width is no smaller than the minimum, or than it was. -/
  width : min minLayerSize start.w ≤ next.w
  height : min minLayerSize start.h ≤ next.h

/-- The side that follows the one that is pulled is not taken below the
minimum: it is no shorter, or both are small, or it is not pulled that far. -/
def Leaves (pulled follows reach : ℚ) : Prop :=
  pulled ≤ max follows minLayerSize ∨ min minLayerSize follows * pulled ≤ reach * follows

/-- Which side follows: the height where the width is pulled, and else the
width. In a square frame none does. -/
def LeavesMinimum (start : DragRect) (delta : Delta) (dir : String) (r : Rotation)
    (shape : LayerShape) : Prop :=
  shape ≠ .square →
    ((handleDirection dir).hx ≠ 0 →
      Leaves start.w start.h (start.w + (handleDirection dir).hx * r.along delta)) ∧
    ((handleDirection dir).hx = 0 →
      Leaves start.h start.w (start.h + (handleDirection dir).hy * r.across delta))

variable {start : DragRect} {delta : Delta} {dir : String} {r : Rotation} {shape : LayerShape}

/-- **The side that follows keeps the minimum exactly where it is left it.** -/
theorem le_follows_iff {pulled follows : ℚ} (reach : ℚ) (hpulled : 0 < pulled)
    (hfollows : 0 < follows) : min minLayerSize follows ≤ max minLayerSize reach / (pulled / follows) ↔
      Leaves pulled follows reach := by
  have hsmall : min minLayerSize follows * pulled ≤ minLayerSize * follows ↔
      pulled ≤ max follows minLayerSize := by
    have hmin : 0 < minLayerSize := by norm_num [minLayerSize]
    rcases le_total follows minLayerSize with hle | hle
    · rw [min_eq_right hle, max_eq_right hle, mul_comm minLayerSize, mul_le_mul_iff_right₀ hfollows]
    · rw [min_eq_left hle, max_eq_left hle, mul_le_mul_iff_right₀ hmin]
  have hratio : 0 < pulled / follows := div_pos hpulled hfollows
  have hcross : ∀ size : ℚ, min minLayerSize follows ≤ size / (pulled / follows) ↔
      min minLayerSize follows * pulled ≤ size * follows := by
    intro size
    rw [le_div_iff₀ hratio, ← mul_div_assoc, div_le_iff₀ hfollows]
  unfold Leaves
  rw [hcross, max_mul_of_nonneg _ _ hfollows.le, le_max_iff, hsmall]

theorem opposite_shifted (start : DragRect) (dir : String) (r : Rotation) (nw nh : ℚ) :
    opposite
      ⟨start.cx + ((handleDirection dir).hx * (nw - start.w) / 2 * r.cos -
          (handleDirection dir).hy * (nh - start.h) / 2 * r.sin),
        start.cy + ((handleDirection dir).hx * (nw - start.w) / 2 * r.sin +
          (handleDirection dir).hy * (nh - start.h) / 2 * r.cos), nw, nh⟩ dir r =
      opposite start dir r := by
  unfold opposite
  refine Prod.ext ?_ ?_
  · dsimp only
    ring
  · dsimp only
    ring

/-- **The point opposite the handle stays** at every angle, whatever the frame
and however far the pull. -/
theorem opposite_resizeFrom : opposite (resizeFrom start delta dir r shape) dir r =
    opposite start dir r := by
  unfold resizeFrom
  exact opposite_shifted start dir r _ _

/-! ## The sides it leaves -/

theorem resizeFrom_w_square : (resizeFrom start delta dir r .square).w =
    if (handleDirection dir).hx = 0 then start.w
    else max minLayerSize (start.w + (handleDirection dir).hx * r.along delta) := rfl

theorem resizeFrom_h_square : (resizeFrom start delta dir r .square).h =
    if (handleDirection dir).hy = 0 then start.h
    else max minLayerSize (start.h + (handleDirection dir).hy * r.across delta) := rfl

theorem max_pulled (reach : ℚ) :
    max minLayerSize (max minLayerSize reach) = max minLayerSize reach :=
  max_eq_right (le_max_left _ _)

theorem resizeFrom_wide (start : DragRect) (delta : Delta) (r : Rotation)
    (hshape : shape ≠ .square) (hx : (handleDirection dir).hx ≠ 0) :
    (resizeFrom start delta dir r shape).w =
        max minLayerSize (start.w + (handleDirection dir).hx * r.along delta) ∧
      (resizeFrom start delta dir r shape).h =
        max minLayerSize (start.w + (handleDirection dir).hx * r.along delta) /
          (start.w / start.h) := by
  unfold resizeFrom
  simp only [if_neg hshape, if_neg hx, max_pulled, and_self]

theorem resizeFrom_tall (start : DragRect) (delta : Delta) (r : Rotation)
    (hshape : shape ≠ .square) (hx : (handleDirection dir).hx = 0) :
    (resizeFrom start delta dir r shape).h =
        max minLayerSize (start.h + (handleDirection dir).hy * r.across delta) ∧
      (resizeFrom start delta dir r shape).w =
        max minLayerSize (start.h + (handleDirection dir).hy * r.across delta) *
          (start.w / start.h) := by
  unfold resizeFrom
  simp only [if_neg hshape, if_pos hx, max_pulled, and_self]

theorem min_le_pulled (size reach : ℚ) : min minLayerSize size ≤ max minLayerSize reach :=
  (min_le_left _ _).trans (le_max_left _ _)

theorem pulled_pos (reach : ℚ) : 0 < max minLayerSize reach :=
  lt_max_of_lt_left (by norm_num [minLayerSize])

/-- **The aspect is kept** by every frame but a square one. -/
theorem aspect_resizeFrom (hw : 0 < start.w) (hh : 0 < start.h) (hshape : shape ≠ .square) :
    (resizeFrom start delta dir r shape).w / (resizeFrom start delta dir r shape).h =
      start.w / start.h := by
  have haspect : start.w / start.h ≠ 0 := (div_pos hw hh).ne'
  by_cases hx : (handleDirection dir).hx = 0
  · obtain ⟨hh', hw'⟩ := resizeFrom_tall start delta r hshape hx
    rw [hh', hw', mul_div_cancel_left₀ _ (pulled_pos _).ne']
  · obtain ⟨hw', hh'⟩ := resizeFrom_wide start delta r hshape hx
    rw [hh', hw', div_div_cancel₀ (pulled_pos _).ne']

/-- In a square frame both sides keep the minimum, and an axis that is not
pulled its size. -/
theorem holds_square : Holds start dir r .square (resizeFrom start delta dir r .square) where
  opposite := opposite_resizeFrom
  aspect := fun h => absurd rfl h
  untouched := fun _ => by
    rw [resizeFrom_w_square, resizeFrom_h_square]
    exact ⟨fun hx => if_pos hx, fun hy => if_pos hy⟩
  width := by
    rw [resizeFrom_w_square]
    split
    · exact min_le_right _ _
    · exact min_le_pulled _ _
  height := by
    rw [resizeFrom_h_square]
    split
    · exact min_le_right _ _
    · exact min_le_pulled _ _

/-- In any other frame what is to hold is the two minimums: the rest always
does. -/
theorem holds_iff_minimums (hw : 0 < start.w) (hh : 0 < start.h) (hshape : shape ≠ .square) :
    Holds start dir r shape (resizeFrom start delta dir r shape) ↔
      min minLayerSize start.w ≤ (resizeFrom start delta dir r shape).w ∧
        min minLayerSize start.h ≤ (resizeFrom start delta dir r shape).h :=
  ⟨fun h => ⟨h.width, h.height⟩, fun ⟨hwidth, hheight⟩ =>
    ⟨opposite_resizeFrom, fun _ => aspect_resizeFrom hw hh hshape, fun h => absurd h hshape,
      hwidth, hheight⟩⟩

/-- **Resizing holds the opposite point, the aspect, the untouched axis and the
minimum exactly where the side that follows is left the minimum.** Only the
last can fail. -/
theorem resized_iff (start : DragRect) (delta : Delta) (dir : String) (r : Rotation)
    (shape : LayerShape) (hw : 0 < start.w) (hh : 0 < start.h) :
    Holds start dir r shape (resizeFrom start delta dir r shape) ↔
      LeavesMinimum start delta dir r shape := by
  by_cases hshape : shape = .square
  · subst hshape
    exact iff_of_true holds_square (fun h => absurd rfl h)
  rw [holds_iff_minimums hw hh hshape]
  unfold LeavesMinimum
  by_cases hx : (handleDirection dir).hx = 0
  · -- The height is pulled, and the width follows.
    obtain ⟨hheight, hwidth⟩ := resizeFrom_tall start delta r hshape hx
    have hfollows := le_follows_iff (start.h + (handleDirection dir).hy * r.across delta) hh hw
    rw [div_div_eq_mul_div, mul_div_assoc] at hfollows
    rw [hheight, hwidth, hfollows, and_iff_left (min_le_pulled _ _)]
    exact ⟨fun h _ => ⟨fun hne => absurd hx hne, fun _ => h⟩, fun h => (h hshape).2 hx⟩
  · -- The width is pulled, and the height follows.
    obtain ⟨hwidth, hheight⟩ := resizeFrom_wide start delta r hshape hx
    rw [hwidth, hheight, and_iff_right (min_le_pulled _ _), le_follows_iff _ hw hh]
    exact ⟨fun h _ => ⟨fun _ => h, fun hzero => absurd hzero hx⟩, fun h => (h hshape).1 hx⟩

/-- A square layer turned by 90°, whose east handle is pulled down the screen. -/
theorem resized_turned : Holds ⟨100, 100, 60, 60⟩ "e" ⟨0, 1⟩ .none
    (resizeFrom ⟨100, 100, 60, 60⟩ ⟨0, -1000⟩ "e" ⟨0, 1⟩ .none) :=
  (resized_iff ⟨100, 100, 60, 60⟩ ⟨0, -1000⟩ "e" ⟨0, 1⟩ .none (by norm_num) (by norm_num)).2
    fun _ => ⟨fun _ => .inl (le_max_left _ _), fun _ => .inl (le_max_left _ _)⟩

def allHandles : List String := ["nw", "n", "ne", "e", "se", "s", "sw", "w"]

/-- **A wide layer pulled in by its east handle** is left 2.4 pixels high. -/
theorem followingSide_vanishes :
    ¬ ∀ (start : DragRect) (delta : Delta) (dir : String) (r : Rotation) (shape : LayerShape),
      0 < start.w → 0 < start.h → dir ∈ allHandles → r.cos ^ 2 + r.sin ^ 2 = 1 →
        Holds start dir r shape (resizeFrom start delta dir r shape) := by
  intro h
  have hheight := (h ⟨400, 300, 480, 48⟩ ⟨-1000, 0⟩ "e" ⟨1, 0⟩ .none (by norm_num) (by norm_num)
    (by decide) (by norm_num)).height
  have hleft : (resizeFrom ⟨400, 300, 480, 48⟩ ⟨-1000, 0⟩ "e" ⟨1, 0⟩ .none).h = 12 / 5 := by
    decide +kernel
  rw [hleft] at hheight
  norm_num [minLayerSize] at hheight

end Optionia.Design.Resizing
