import Mathlib.Data.Rat.Floor
import Optionia.Design.Geometry
/-!
# A layer in the editor

The editor holds a layer in pixels of its canvas. `editorLayerToDesign` and
`designLayerToEditor` are where pixels and stored fractions meet;
`applyStyleGeometry` sizes a layer for its style, and `shapeChangeFor` says
what a change of its frame does.
-/

namespace Optionia.Design

/-- `EditorLayer.kind` -/
inductive LayerKind where
  | layer
  | background
  deriving DecidableEq

structure EditorLayer where
  id : String
  name : String
  src : String
  natW : ℚ
  natH : ℚ
  kind : LayerKind
  cx : ℚ
  cy : ℚ
  w : ℚ
  h : ℚ
  rot : ℚ
  style : LayerStyle
  opacity : ℚ
  shape : LayerShape
  shapeSrc : Option String
  crop : Option LayerCrop
  visible : Bool
  locked : Bool
  deriving DecidableEq

def canvasBaseH : ℚ := 460

/-- A width and a height. -/
structure Size where
  w : ℚ
  h : ℚ
  deriving DecidableEq

def freeDefaultSize (natW natH cw ch : ℚ) : Size :=
  let layerRatio := if natW > 0 ∧ natH > 0 then natW / natH else 1
  let bgRatio := if cw > 0 ∧ ch > 0 then cw / ch else 1
  if bgRatio > layerRatio then
    let h := ch / 2
    ⟨h * layerRatio, h⟩
  else
    let w := cw / 2
    ⟨w, w / layerRatio⟩

def applyStyleGeometry (layer : EditorLayer) (cw ch : ℚ) : EditorLayer :=
  let aspect := layer.natW / layer.natH
  if layer.shape = .square ∨ layer.shape = .image then
    let frameAspect := orElse (if layer.h = 0 then 1 else layer.w / layer.h) 1
    match layer.style with
    | .cover =>
      let s := max (cw / orElse layer.w 1) (ch / orElse layer.h 1)
      { layer with w := layer.w * s, h := layer.h * s, cx := cw / 2, cy := ch / 2, rot := 0 }
    | .fit =>
      let s := min (cw / orElse layer.w 1) (ch / orElse layer.h 1)
      let w := layer.w * s
      let h := layer.h * s
      { layer with
        w := w, h := h, cx := clampInside layer.cx (w / 2) cw, cy := clampInside layer.cy (h / 2) ch
        rot := 0 }
    | .fullw => { layer with w := cw, h := cw / frameAspect, cx := cw / 2, rot := 0 }
    | .fullh => { layer with h := ch, w := ch * frameAspect, cy := ch / 2, rot := 0 }
    | .free => layer
  else if layer.shape ≠ .none then
    match layer.style with
    | .cover =>
      let side := max cw ch
      { layer with w := side, h := side, cx := cw / 2, cy := ch / 2, rot := 0 }
    | .fit =>
      let side := min cw ch
      { layer with
        w := side, h := side, cx := clampInside layer.cx (side / 2) cw
        cy := clampInside layer.cy (side / 2) ch, rot := 0 }
    | .fullw => { layer with w := cw, h := cw, cx := cw / 2, rot := 0 }
    | .fullh => { layer with w := ch, h := ch, cy := ch / 2, rot := 0 }
    | .free =>
      let side := orElse (min layer.w layer.h) layer.w
      { layer with w := side, h := side }
  else
    match layer.style with
    | .cover =>
      let scale := max (cw / layer.natW) (ch / layer.natH)
      { layer with
        w := layer.natW * scale, h := layer.natH * scale, cx := cw / 2, cy := ch / 2, rot := 0 }
    | .fit =>
      let scale := min (cw / layer.natW) (ch / layer.natH)
      let w := layer.natW * scale
      let h := layer.natH * scale
      { layer with
        w := w, h := h, cx := clampInside layer.cx (w / 2) cw, cy := clampInside layer.cy (h / 2) ch
        rot := 0 }
    | .fullw => { layer with w := cw, h := cw / aspect, cx := cw / 2, rot := 0 }
    | .fullh => { layer with h := ch, w := ch * aspect, cy := ch / 2, rot := 0 }
    | .free =>
      let size := freeDefaultSize layer.natW layer.natH cw ch
      { layer with w := size.w, h := size.h }

/-! ## The two conversions -/

def editorLayerToDesign (layer : EditorLayer) (cw ch : ℚ) : DesignLayer where
  name := layer.name
  src := layer.src
  natW := layer.natW
  natH := layer.natH
  pos := ⟨layer.cx / cw, layer.cy / ch, layer.w / cw, layer.h / ch⟩
  rot := some layer.rot
  style := some layer.style
  opacity := some layer.opacity
  shape := some layer.shape
  shapeSrc := if layer.shape = .image then layer.shapeSrc else none
  crop := if layer.shape = .none then none else layer.crop
  visible := some layer.visible

def designLayerToEditor (stored : DesignLayer) (cw ch : ℚ) (id : String) : EditorLayer :=
  let natW := orElse stored.natW 1
  let natH := orElse stored.natH 1
  let w := stored.pos.wPct * cw
  let shape := effectiveShape stored.shape stored.crop stored.shapeSrc
  { id, natW, natH, w, shape
    kind := .layer
    name := if stored.name = "" then "Layer" else stored.name
    src := stored.src
    cx := stored.pos.xPct * cw
    cy := stored.pos.yPct * ch
    h :=
      if shape = .none then w * (natH / natW)
      else if shape = .square ∨ shape = .image then
        if stored.pos.hPct > 0 then stored.pos.hPct * ch else w
      else w
    rot := stored.rot.getD 0
    style := stored.style.getD .free
    opacity := stored.opacity.getD 100
    shapeSrc := if shape = .image then stored.shapeSrc else none
    crop := if shape = .none then none else stored.crop
    visible := stored.visible.getD true
    locked := false }

/-! ## Frames -/

def minLayerSize : ℚ := 24

def cropOffFrameMargin : ℚ := 20

def maxCropScale : ℚ := 8

def clamp (v lo hi : ℚ) : ℚ := max lo (min hi v)

/-- `cropAxes(layer).clamp` -/
def cropClamps (layer : EditorLayer) : Bool :=
  match layer.crop with
  | none => false
  | some crop =>
    match crop.style with
    | .cover | .free => false
    | .fullw | .fullh | .fit => true

structure CropBox where
  icx : ℚ
  icy : ℚ
  w : ℚ
  deriving DecidableEq

def clampCropBox (layer : EditorLayer) (box : CropBox) : CropBox :=
  let fw := orElse layer.w 1
  let fh := orElse layer.h 1
  let aspect := orElse layer.natW 1 / orElse layer.natH 1
  let w := clamp box.w minLayerSize (fw * maxCropScale)
  let h := w / aspect
  if cropClamps layer then ⟨clampInside box.icx (w / 2) fw, clampInside box.icy (h / 2) fh, w⟩
  else
    ⟨clamp box.icx (-w / 2 + cropOffFrameMargin) (fw + w / 2 - cropOffFrameMargin),
      clamp box.icy (-h / 2 + cropOffFrameMargin) (fh + h / 2 - cropOffFrameMargin), w⟩

/-- `cropDefault`, of a free image in a frame of some size. -/
def cropDefault (natW natH : ℚ) (size : Size) : LayerCrop :=
  let fw := orElse size.w 1
  let fh := orElse size.h 1
  let scale := max (fw / orElse natW 1) (fh / orElse natH 1)
  { style := .free, xPct := 1 / 2, yPct := 1 / 2, wPct := orElse natW 1 * scale / fw, rot := 0
    opacity := 100 }

/-- `cropDefault(layer)` -/
def EditorLayer.cropDefault (layer : EditorLayer) : LayerCrop :=
  Design.cropDefault layer.natW layer.natH ⟨layer.w, layer.h⟩

def cropBoxToCrop (layer : EditorLayer) (box : CropBox) (previous : Option LayerCrop) : LayerCrop :=
  let fw := orElse layer.w 1
  let fh := orElse layer.h 1
  { previous.getD layer.cropDefault with
    xPct := box.icx / fw, yPct := box.icy / fh, wPct := box.w / fw }

structure ShapeChange where
  shape : LayerShape
  size : Size
  crop : Option LayerCrop
  resetStyle : Bool
  deriving DecidableEq

def shapeChangeFor (layer : EditorLayer) (next : LayerShape) : ShapeChange :=
  if next = .none ∨ layer.shape = next then ⟨.none, ⟨layer.w, layer.h⟩, none, true⟩
  else
    let mustSquare := next ≠ .square ∧ layer.w ≠ layer.h
    let edge := orElse (min layer.w layer.h) layer.w
    let size : Size := if mustSquare then ⟨edge, edge⟩ else ⟨layer.w, layer.h⟩
    let fresh := Design.cropDefault layer.natW layer.natH size
    if layer.shape = .none then ⟨next, size, some fresh, false⟩
    else ⟨next, size, some (layer.crop.getD fresh), false⟩

/-! ## The text of a design

A design has at most one text. `clampText` keeps its numbers where every
surface draws them alike.
-/

inductive TextFont where
  | roboto
  | openSans
  | montserrat
  | lato
  | oswald
  | playfairDisplay
  | dancingScript
  | pacifico
  deriving DecidableEq

inductive TextAlign where
  | left
  | center
  | right
  deriving DecidableEq

inductive TextVAlign where
  | top
  | middle
  | bottom
  deriving DecidableEq

/-- `TextDesign`: the text as it is stored. -/
structure TextDesign where
  text : String
  font : TextFont
  sizePct : ℚ
  bold : Bool
  italic : Bool
  align : TextAlign
  valign : Option TextVAlign
  color : String
  xPct : ℚ
  yPct : ℚ
  wPct : ℚ
  hPct : Option ℚ
  rot : Option ℚ
  curve : Option ℚ
  letterSpacing : Option ℚ
  advanceRatio : Option ℚ
  deriving DecidableEq

/-- `EditorText`: the text in pixels of the canvas. -/
structure EditorText where
  text : String
  font : TextFont
  size : ℚ
  bold : Bool
  italic : Bool
  align : TextAlign
  valign : TextVAlign
  color : String
  cx : ℚ
  cy : ℚ
  w : ℚ
  h : ℚ
  rot : ℚ
  curve : ℚ
  letterSpacing : ℚ
  advanceRatio : Option ℚ
  deriving DecidableEq

def maxTextCurve : ℚ := 100

def minTextSize : ℚ := 4

def clampText (text : EditorText) : EditorText :=
  { text with
    size := max minTextSize text.size
    w := max minTextSize text.w
    h := if text.h = 0 then 0 else max minTextSize text.h
    curve := max (-maxTextCurve) (min maxTextCurve text.curve)
    advanceRatio := text.advanceRatio.filter fun ratio => 0 < ratio }

def mathRound (x : ℚ) : ℚ := ⌊x + 1 / 2⌋

def defaultText (cw ch : ℚ) : EditorText :=
  clampText
    { text := "Your text here"
      font := .roboto
      size := mathRound (ch * (7 / 100))
      bold := false
      italic := false
      align := .center
      valign := .middle
      color := "#000000"
      cx := cw / 2
      cy := ch / 2
      w := mathRound (cw * (8 / 10))
      h := 0
      rot := 0
      curve := 0
      letterSpacing := 0
      advanceRatio := none }

def designTextToEditor (stored : TextDesign) (cw ch : ℚ) : EditorText :=
  let width := orElse cw 1
  let height := orElse ch 1
  { text := stored.text
    font := stored.font
    size := stored.sizePct * height
    bold := stored.bold
    italic := stored.italic
    align := stored.align
    valign := stored.valign.getD .middle
    color := stored.color
    cx := stored.xPct * width
    cy := stored.yPct * height
    w := stored.wPct * width
    h := stored.hPct.getD 0 * height
    rot := stored.rot.getD 0
    curve := stored.curve.getD 0
    letterSpacing := stored.letterSpacing.getD 0 * height
    advanceRatio := stored.advanceRatio }

end Optionia.Design
