import Optionia.Design.Layer
/-!
# The scene

A stored design resolved into boxes on a target canvas. A layer's frame is
where `layerRect` puts it, its image is fitted to the frame as its crop says,
and a text has the box of its own fractions. The box of the design's own aspect
inside the target is computed beside them.
-/

namespace Optionia.Design

/-! ## The letterbox -/

/-- `AuthoringCanvas`: what a design was composed on. -/
structure AuthoringCanvas where
  width : ℚ
  height : ℚ
  deriving DecidableEq

/-- `Letterbox`: where a design sits within a target canvas. -/
structure Letterbox where
  x : ℚ
  y : ℚ
  width : ℚ
  height : ℚ
  deriving DecidableEq

def Letterbox.full (targetWidth targetHeight : ℚ) : Letterbox := ⟨0, 0, targetWidth, targetHeight⟩

/-- How far two aspects may differ and count as one. -/
def aspectTolerance : ℚ := 1 / 10 ^ 9

def letterboxFor (authoring : Option AuthoringCanvas) (targetWidth targetHeight : ℚ) : Letterbox :=
  if ¬ (0 < targetWidth ∧ 0 < targetHeight) then .full targetWidth targetHeight
  else
    match authoring with
    | none => .full targetWidth targetHeight
    | some authoring =>
      if ¬ (0 < authoring.width ∧ 0 < authoring.height) then .full targetWidth targetHeight
      else
        let authoredAspect := authoring.width / authoring.height
        let targetAspect := targetWidth / targetHeight
        if |authoredAspect - targetAspect| < aspectTolerance then .full targetWidth targetHeight
        else if authoredAspect > targetAspect then
          let height := targetWidth / authoredAspect
          ⟨0, (targetHeight - height) / 2, targetWidth, height⟩
        else
          let width := targetHeight * authoredAspect
          ⟨(targetWidth - width) / 2, 0, width, targetHeight⟩

/-! ## Images -/

/-- A box in pixels of the target. -/
structure Box where
  x : ℚ
  y : ℚ
  w : ℚ
  h : ℚ
  deriving DecidableEq

def Box.moved (box : Box) (dx dy : ℚ) : Box := ⟨box.x + dx, box.y + dy, box.w, box.h⟩

def LayerRect.box (rect : LayerRect) : Box := ⟨rect.x, rect.y, rect.w, rect.h⟩

/-- A centred cover of a frame, of its size: width, height and centre. -/
def coverOf (natW natH fw fh : ℚ) : ℚ × ℚ × ℚ × ℚ :=
  let scale := max (fw / natW) (fh / natH)
  (natW * scale, natH * scale, fw / 2, fh / 2)

/-- Width, height and centre of the image inside a frame of a size. -/
def imageInFrame (layer : DesignLayer) (fw fh : ℚ) : ℚ × ℚ × ℚ × ℚ :=
  let natW := orElse layer.natW 1
  let natH := orElse layer.natH 1
  let aspect := natW / natH
  match layer.crop with
  | none => coverOf natW natH fw fh
  | some crop =>
    match crop.style with
    | .cover => coverOf natW natH fw fh
    | .fit =>
      let scale := min (fw / natW) (fh / natH)
      let w := natW * scale
      let h := natH * scale
      (w, h, clampInside (crop.xPct * fw) (w / 2) fw, clampInside (crop.yPct * fh) (h / 2) fh)
    | .fullw => (fw, fw / aspect, fw / 2, crop.yPct * fh)
    | .fullh => (fh * aspect, fh, crop.xPct * fw, fh / 2)
    | .free =>
      let w := crop.wPct * fw
      (w, w / aspect, crop.xPct * fw, crop.yPct * fh)

def frameImageRect (layer : DesignLayer) (fx fy fw fh : ℚ) : Box :=
  let (w, h, cx, cy) := imageInFrame layer fw fh
  ⟨fx + cx - w / 2, fy + cy - h / 2, w, h⟩

structure SceneImage where
  href : String
  /-- `x`, `y`, `w` and `h` -/
  box : Box
  cx : ℚ
  cy : ℚ
  rot : ℚ
  opacity : ℚ
  shape : LayerShape
  shapeHref : Option String := none
  innerRot : ℚ
  frame : Option Box := none
  deriving DecidableEq

/-- The style that fits the image to its frame. -/
def innerStyle (crop : Option LayerCrop) : LayerStyle :=
  match crop with
  | none => .cover
  | some crop => crop.style

/-- A layer's node, on a canvas of a size. -/
def sceneImage (layer : DesignLayer) (width height : ℚ) : SceneImage :=
  let r := layerRect layer width height
  let shape := effectiveShape layer.shape layer.crop layer.shapeSrc
  if shape = .none then
    { href := layer.src, box := r.box, cx := r.cx, cy := r.cy, rot := r.rot
      opacity := layer.opacity.getD 100 / 100, shape, innerRot := 0 }
  else
    { href := layer.src
      box := frameImageRect layer r.x r.y r.w r.h
      cx := r.cx, cy := r.cy, rot := r.rot
      opacity := layer.opacity.getD 100 / 100 * ((layer.crop.map (·.opacity)).getD 100 / 100)
      shape
      shapeHref := if shape = .image then layer.shapeSrc else none
      innerRot := if innerStyle layer.crop = .free then (layer.crop.map (·.rot)).getD 0 else 0
      frame := some r.box }

/-! ## Texts -/

structure SceneText where
  text : String
  font : TextFont
  fontSize : ℚ
  bold : Bool
  italic : Bool
  align : TextAlign
  valign : TextVAlign
  color : String
  cx : ℚ
  cy : ℚ
  w : ℚ
  h : ℚ
  rot : ℚ
  curve : ℚ
  letterSpacing : ℚ
  advanceRatio : ℚ
  deriving DecidableEq

def SceneText.box (text : SceneText) : Box :=
  ⟨text.cx - text.w / 2, text.cy - text.h / 2, text.w, text.h⟩

def resolveSceneText (design : TextDesign) (vbW vbH : ℚ) (value : Option String) : SceneText where
  text := value.getD design.text
  font := design.font
  fontSize := design.sizePct * vbH
  bold := design.bold
  italic := design.italic
  align := design.align
  valign := design.valign.getD .middle
  color := if design.color = "" then "#000000" else design.color
  cx := design.xPct * vbW
  cy := design.yPct * vbH
  w := orElse design.wPct (1 / 2) * vbW
  h := design.hPct.getD 0 * vbH
  rot := design.rot.getD 0
  curve := max (-100) (min 100 (design.curve.getD 0))
  letterSpacing := design.letterSpacing.getD 0 * vbH
  advanceRatio := if 0 < design.advanceRatio.getD 0 then design.advanceRatio.getD 0 else 0

/-! ## The scene -/

structure SceneGroup where
  key : String
  visible : Bool
  images : List SceneImage
  texts : List SceneText
  deriving DecidableEq

structure DesignScene where
  width : ℚ
  height : ℚ
  backgroundHref : Option String
  groups : List SceneGroup
  letterbox : Letterbox
  deriving DecidableEq

structure DesignGroupInput where
  key : String
  layers : List DesignLayer
  visible : Bool
  deriving DecidableEq

structure DesignTextInput where
  key : String
  design : TextDesign
  value : Option String
  deriving DecidableEq

/-- What a scene is built from. -/
structure SceneInput where
  width : ℚ
  height : ℚ
  backgroundHref : Option String := none
  groups : List DesignGroupInput
  textOptions : List DesignTextInput := []
  authoring : Option AuthoringCanvas := none
  deriving DecidableEq

/-- The layers of a group that are drawn. -/
def DesignGroupInput.drawn (group : DesignGroupInput) : List DesignLayer :=
  group.layers.filter fun layer => layer.visible = some true

def buildScene (input : SceneInput) : DesignScene :=
  let width := orElse input.width 1
  let height := orElse input.height 1
  { width
    height
    backgroundHref := input.backgroundHref
    letterbox := letterboxFor input.authoring width height
    groups :=
      (input.groups.map fun g =>
        { key := g.key
          visible := g.visible
          images := g.drawn.map fun layer => sceneImage layer width height
          texts := [] }) ++
      input.textOptions.map fun t =>
        { key := t.key
          visible := true
          images := []
          texts := [resolveSceneText t.design width height t.value] } }

end Optionia.Design
