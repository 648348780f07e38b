import Mathlib.Data.Rat.Defs
import Mathlib.Algebra.Order.Ring.Rat
import Mathlib.Tactic.Linarith
/-!
# Where a layer is drawn

A stored layer places an image by fractions of its canvas. Its shape says how
its box is sized: a square or an image is a rectangle of its own, every other
frame has one side for both, and a plain layer keeps the aspect of its image.
Its style says what of the box the canvas decides. Numbers are exact
rationals.
-/

namespace Optionia.Design

inductive LayerStyle where
  | free
  | cover
  | fit
  | fullw
  | fullh
  deriving DecidableEq

inductive LayerShape where
  | none
  | square
  | rounded
  | circle
  | heart
  | star
  | image
  deriving DecidableEq

/-- `LayerCrop`: where the image is in its frame. -/
structure LayerCrop where
  style : LayerStyle
  xPct : ℚ
  yPct : ℚ
  wPct : ℚ
  rot : ℚ
  opacity : ℚ
  deriving DecidableEq

/-- `DesignLayer.pos` -/
structure Position where
  xPct : ℚ
  yPct : ℚ
  wPct : ℚ
  hPct : ℚ
  deriving DecidableEq

/-- `DesignLayer`: a layer as it is stored. What an older design lacks is
`none`. -/
structure DesignLayer where
  name : String
  src : String
  natW : ℚ
  natH : ℚ
  pos : Position
  rot : Option ℚ
  style : Option LayerStyle
  opacity : Option ℚ
  shape : Option LayerShape
  shapeSrc : Option String
  crop : Option LayerCrop
  visible : Option Bool
  deriving DecidableEq

/-- `DesignImage`: the picture that a design is composed on. -/
structure DesignImage where
  src : String
  name : String
  natW : ℚ
  natH : ℚ
  deriving DecidableEq

/-- `x || d`, of numbers. -/
def orElse (x d : ℚ) : ℚ := if x = 0 then d else x

theorem orElse_of_ne {x d : ℚ} (h : x ≠ 0) : orElse x d = x := if_neg h

def clampInside (v half span : ℚ) : ℚ :=
  if 2 * half ≤ span then max half (min (span - half) v) else max (span - half) (min half v)

def effectiveShape (shape : Option LayerShape) (crop : Option LayerCrop)
    (shapeSrc : Option String) : LayerShape :=
  let shape := shape.getD .none
  if shape = .square ∧ crop = none then .none
  else if shape = .image ∧ (shapeSrc = none ∨ shapeSrc = some "") then .none
  else shape

/-- `LayerRect`: a box on the canvas. -/
structure LayerRect where
  x : ℚ
  y : ℚ
  w : ℚ
  h : ℚ
  cx : ℚ
  cy : ℚ
  rot : ℚ
  deriving DecidableEq

def rectOf (cx cy w h rot : ℚ) : LayerRect := ⟨cx - w / 2, cy - h / 2, w, h, cx, cy, rot⟩

def rotationOf (layer : DesignLayer) : ℚ :=
  if layer.style = some .free then layer.rot.getD 0 else 0

def layerRect (layer : DesignLayer) (vbW vbH : ℚ) : LayerRect :=
  let natW := orElse layer.natW 1
  let natH := orElse layer.natH 1
  let aspect := natW / natH
  let rot := rotationOf layer
  let shape := effectiveShape layer.shape layer.crop layer.shapeSrc
  if shape = .square ∨ shape = .image then
    let fw0 := layer.pos.wPct * vbW
    let fh0 := if layer.pos.hPct > 0 then layer.pos.hPct * vbH else fw0
    let frameAspect := fw0 / orElse fh0 1
    match layer.style with
    | some .cover =>
      let s := max (vbW / fw0) (vbH / fh0)
      rectOf (vbW / 2) (vbH / 2) (fw0 * s) (fh0 * s) rot
    | some .fit =>
      let s := min (vbW / fw0) (vbH / fh0)
      let w := fw0 * s
      let h := fh0 * s
      rectOf (clampInside (layer.pos.xPct * vbW) (w / 2) vbW)
        (clampInside (layer.pos.yPct * vbH) (h / 2) vbH) w h rot
    | some .fullw => rectOf (vbW / 2) (layer.pos.yPct * vbH) vbW (vbW / frameAspect) rot
    | some .fullh => rectOf (layer.pos.xPct * vbW) (vbH / 2) (vbH * frameAspect) vbH rot
    | some .free | none => rectOf (layer.pos.xPct * vbW) (layer.pos.yPct * vbH) fw0 fh0 rot
  else if shape ≠ .none then
    match layer.style with
    | some .cover =>
      let side := max vbW vbH
      rectOf (vbW / 2) (vbH / 2) side side rot
    | some .fit =>
      let side := min vbW vbH
      rectOf (clampInside (layer.pos.xPct * vbW) (side / 2) vbW)
        (clampInside (layer.pos.yPct * vbH) (side / 2) vbH) side side rot
    | some .fullw => rectOf (vbW / 2) (layer.pos.yPct * vbH) vbW vbW rot
    | some .fullh => rectOf (layer.pos.xPct * vbW) (vbH / 2) vbH vbH rot
    | some .free | none =>
      let side := layer.pos.wPct * vbW
      rectOf (layer.pos.xPct * vbW) (layer.pos.yPct * vbH) side side rot
  else
    match layer.style with
    | some .cover =>
      let scale := max (vbW / natW) (vbH / natH)
      rectOf (vbW / 2) (vbH / 2) (natW * scale) (natH * scale) rot
    | some .fit =>
      let scale := min (vbW / natW) (vbH / natH)
      let w := natW * scale
      let h := natH * scale
      rectOf (clampInside (layer.pos.xPct * vbW) (w / 2) vbW)
        (clampInside (layer.pos.yPct * vbH) (h / 2) vbH) w h rot
    | some .fullw => rectOf (vbW / 2) (layer.pos.yPct * vbH) vbW (vbW / aspect) rot
    | some .fullh => rectOf (layer.pos.xPct * vbW) (vbH / 2) (vbH * aspect) vbH rot
    | some .free | none =>
      let w := layer.pos.wPct * vbW
      rectOf (layer.pos.xPct * vbW) (layer.pos.yPct * vbH) w (w / aspect) rot

end Optionia.Design
