import Optionia.Design.Layer
/-!
# The store of the editor

What a merchant composes: the layers from bottom to top, one text, what is
selected, and the layer in crop mode. An act that ends a gesture commits a
snapshot; undo and redo go through the snapshots. A snapshot keeps all that is
drawn and what is selected, and not the crop mode.
-/

namespace Optionia.Design

def historyLimit : ℕ := 80

def duplicateOffset : ℚ := 16

structure Snapshot where
  layers : List EditorLayer
  text : Option EditorText
  textSelected : Bool
  selectedId : Option String
  bg : String
  checker : Bool
  cw : ℚ
  ch : ℚ
  deriving DecidableEq

structure DesignStore where
  layers : List EditorLayer
  text : Option EditorText
  textSelected : Bool
  selectedId : Option String
  cropping : Option String
  bg : String
  checker : Bool
  cw : ℚ
  ch : ℚ
  history : List Snapshot
  hidx : ℤ
  /-- `counter`, which all stores share. -/
  counter : ℕ
  deriving DecidableEq

/-- `new DesignStore()` -/
def DesignStore.fresh (counter : ℕ) : DesignStore where
  layers := []
  text := none
  textSelected := false
  selectedId := none
  cropping := none
  bg := "#ffffff"
  checker := false
  cw := 392
  ch := 464
  history := []
  hidx := -1
  counter := counter

/-- A layer that a caller holds: one of the store's, by its place, or one that
is not of it (any more). -/
inductive LayerRef where
  | inStore (place : ℕ)
  | detached (layer : EditorLayer)

/-- `Partial<EditorLayer>`, of a layer that is added. -/
structure LayerOpts where
  cx : Option ℚ
  cy : Option ℚ
  w : Option ℚ
  h : Option ℚ
  rot : Option ℚ
  style : Option LayerStyle
  opacity : Option ℚ
  shape : Option LayerShape
  shapeSrc : Option String
  crop : Option LayerCrop
  visible : Option Bool
  locked : Option Bool

def LayerOpts.empty : LayerOpts :=
  ⟨none, none, none, none, none, none, none, none, none, none, none, none⟩

/-- `Partial<EditorText>` -/
structure TextPatch where
  text : Option String
  font : Option TextFont
  size : Option ℚ
  bold : Option Bool
  italic : Option Bool
  align : Option TextAlign
  valign : Option TextVAlign
  color : Option String
  cx : Option ℚ
  cy : Option ℚ
  w : Option ℚ
  h : Option ℚ
  rot : Option ℚ
  curve : Option ℚ
  letterSpacing : Option ℚ
  /-- `advanceRatio`, which may be set to undefined. -/
  advanceRatio : Option (Option ℚ)

/-- `Object.assign(text, patch)` -/
def TextPatch.assign (patch : TextPatch) (text : EditorText) : EditorText where
  text := patch.text.getD text.text
  font := patch.font.getD text.font
  size := patch.size.getD text.size
  bold := patch.bold.getD text.bold
  italic := patch.italic.getD text.italic
  align := patch.align.getD text.align
  valign := patch.valign.getD text.valign
  color := patch.color.getD text.color
  cx := patch.cx.getD text.cx
  cy := patch.cy.getD text.cy
  w := patch.w.getD text.w
  h := patch.h.getD text.h
  rot := patch.rot.getD text.rot
  curve := patch.curve.getD text.curve
  letterSpacing := patch.letterSpacing.getD text.letterSpacing
  advanceRatio := patch.advanceRatio.getD text.advanceRatio

/-- Where `alignH` and `alignV` put a layer along an axis. -/
inductive Alignment where
  | start
  | center
  | finish

/-- The centre of a box along an axis. -/
def Alignment.place (side : Alignment) (size span : ℚ) : ℚ :=
  match side with
  | .start => size / 2
  | .center => span / 2
  | .finish => span - size / 2

/-- `x % m` -/
def jsMod (x m : ℚ) : ℚ := x - m * (if 0 ≤ x / m then ⌊x / m⌋ else ⌈x / m⌉)

/-- `L${counter}` -/
def layerId (counter : ℕ) : String := "L" ++ counter.repr

/-- A layer on a canvas of another size. -/
def EditorLayer.resizeCanvas (layer : EditorLayer) (sx sy newW newH : ℚ) : EditorLayer :=
  if layer.kind = .background then
    { layer with cx := newW / 2, cy := newH / 2, w := newW, h := newH }
  else
    let layer := { layer with cx := layer.cx * sx, cy := layer.cy * sy }
    if layer.style = .free then
      let w := layer.w * sx
      { layer with
        w := w
        h :=
          if layer.shape = .none then w * (layer.natH / layer.natW)
          else if layer.shape = .square then layer.h * sy
          else if layer.shape = .image then layer.h * sx
          else w }
    else applyStyleGeometry layer newW newH

namespace DesignStore

variable (s : DesignStore)

/-! ## Canvas and history -/

def setCanvasSize (natW natH : ℚ) : DesignStore :=
  if natW = 0 ∨ natH = 0 then s
  else
    let newH := canvasBaseH
    let newW := mathRound (newH * (natW / natH))
    let sx := newW / s.cw
    let sy := newH / s.ch
    if sx = 1 ∧ sy = 1 then s
    else
      { s with
        cw := newW, ch := newH
        layers := s.layers.map fun layer => layer.resizeCanvas sx sy newW newH }

def serialize : Snapshot :=
  ⟨s.layers, s.text, s.textSelected, s.selectedId, s.bg, s.checker, s.cw, s.ch⟩

def commit : DesignStore :=
  let history := s.history.take (s.hidx + 1).toNat ++ [s.serialize]
  let history := if history.length > historyLimit then history.tail else history
  { s with history := history, hidx := history.length - 1 }

def restore (snapshot : Snapshot) : DesignStore :=
  { s with
    layers := snapshot.layers
    text := snapshot.text
    textSelected := snapshot.textSelected
    selectedId := snapshot.selectedId
    bg := snapshot.bg
    checker := snapshot.checker
    cw := if snapshot.cw ≠ 0 ∧ snapshot.ch ≠ 0 then snapshot.cw else s.cw
    ch := if snapshot.cw ≠ 0 ∧ snapshot.ch ≠ 0 then snapshot.ch else s.ch }

/-- `this.restore(this.history[hidx])` -/
def goTo (hidx : ℤ) : DesignStore :=
  match s.history[hidx.toNat]? with
  | some snapshot => { s with hidx := hidx }.restore snapshot
  | none => { s with hidx := hidx }

def undo : DesignStore := if s.hidx > 0 then s.goTo (s.hidx - 1) else s

def redo : DesignStore := if s.hidx < s.history.length - 1 then s.goTo (s.hidx + 1) else s

/-- A load is the floor of the history. -/
def restart : DesignStore := { s with history := [], hidx := -1 }.commit

/-! ## Layers -/

/-- The layer that a caller holds. -/
def resolve : LayerRef → Option EditorLayer
  | .inStore place => s.layers[place]?
  | .detached layer => some layer

/-- It is written. Where it is not of the store, the store does not see it. -/
def put (ref : LayerRef) (layer : EditorLayer) : DesignStore :=
  match ref with
  | .inStore place => { s with layers := s.layers.set place layer }
  | .detached _ => s

/-- What is done to a layer in place. -/
def update (ref : LayerRef) (f : EditorLayer → EditorLayer) : DesignStore :=
  match s.resolve ref with
  | none => s
  | some layer => s.put ref (f layer)

def commitUpdate (ref : LayerRef) (f : EditorLayer → EditorLayer) : DesignStore :=
  match s.resolve ref with
  | none => s
  | some layer => (s.put ref (f layer)).commit

/-- The place of the first layer with an id. -/
def placeOf (id : Option String) : Option ℕ := s.layers.findIdx? fun layer => some layer.id = id

def selectLayer (id : Option String) : DesignStore :=
  { s with selectedId := id, textSelected := false }

/-- `overlays[overlays.length - 1]`, or null. -/
def topOverlay : Option String :=
  ((s.layers.filter fun layer => layer.kind ≠ .background).getLast?).map (·.id)

def importText (stored : Option TextDesign) : DesignStore :=
  let text := stored.map fun stored => clampText (designTextToEditor stored s.cw s.ch)
  { s with text := text, textSelected := text.isSome && s.selectedId.isNone }.restart

def backgroundLayer (background : DesignImage) (cw ch : ℚ) (id : String) : EditorLayer where
  id := id
  kind := .background
  name := if background.name = "" then "Background" else background.name
  src := background.src
  natW := orElse background.natW 1
  natH := orElse background.natH 1
  cx := cw / 2
  cy := ch / 2
  w := cw
  h := ch
  rot := 0
  style := .cover
  opacity := 100
  shape := .none
  shapeSrc := none
  crop := none
  visible := true
  locked := true

/-- The background of a design that is opened. -/
def openBackground (background : DesignImage) : DesignStore :=
  if background.src = "" then s
  else
    let s := s.setCanvasSize (orElse background.natW 1) (orElse background.natH 1)
    { s with
      counter := s.counter + 1
      layers := s.layers ++ [backgroundLayer background s.cw s.ch (layerId (s.counter + 1))] }

def openLayer (stored : DesignLayer) : DesignStore :=
  let layer := designLayerToEditor stored s.cw s.ch (layerId (s.counter + 1))
  let layer := if layer.style ≠ .free then applyStyleGeometry layer s.cw s.ch else layer
  { s with counter := s.counter + 1, layers := s.layers ++ [layer] }

/-- What `importDesign` places. -/
def openDesign (stored : List DesignLayer) (background : Option DesignImage) : DesignStore :=
  let s := { s with layers := [], text := none, textSelected := false, selectedId := none }
  let s := match background with
    | some background => s.openBackground background
    | none => s
  stored.foldl openLayer s

def importDesign (stored : List DesignLayer) (background : Option DesignImage) : DesignStore :=
  let s := s.openDesign stored background
  { s with selectedId := s.topOverlay }.restart

def exportDesign : List DesignLayer :=
  (s.layers.filter fun layer => layer.kind ≠ .background).map fun layer =>
    editorLayerToDesign layer s.cw s.ch

/-- The layer that `addLayer` makes. -/
def newLayer (src name : String) (natW natH : ℚ) (opts : LayerOpts) : EditorLayer where
  id := layerId (s.counter + 1)
  src := src
  natW := natW
  natH := natH
  name := if name = "" then "Layer " ++ (s.counter + 1).repr else name
  kind := .layer
  cx := opts.cx.getD (s.cw / 2)
  cy := opts.cy.getD (s.ch / 2)
  w := opts.w.getD (freeDefaultSize natW natH s.cw s.ch).w
  h := opts.h.getD (freeDefaultSize natW natH s.cw s.ch).h
  rot := opts.rot.getD 0
  style := opts.style.getD .free
  opacity := opts.opacity.getD 100
  shape := opts.shape.getD .none
  shapeSrc := opts.shapeSrc
  crop := opts.crop
  visible := opts.visible.getD true
  locked := opts.locked.getD false

def addLayer (src name : String) (natW natH : ℚ) (opts : LayerOpts) : DesignStore :=
  let layer := s.newLayer src name natW natH opts
  let s := { s with counter := s.counter + 1, layers := s.layers ++ [layer] }
  (s.selectLayer (some layer.id)).commit

/-- `this.layers.indexOf(layer) + 1` -/
def above : LayerRef → ℕ
  | .inStore place => place + 1
  | .detached _ => 0

def duplicateLayer (ref : LayerRef) : DesignStore :=
  match s.resolve ref with
  | none => s
  | some layer =>
    if layer.kind = .background then s
    else
      let id := layerId (s.counter + 1)
      let copy :=
        { layer with id := id, cx := layer.cx + duplicateOffset, cy := layer.cy + duplicateOffset }
      let s := { s with counter := s.counter + 1, layers := s.layers.insertIdx (above ref) copy }
      (s.selectLayer (some id)).commit

def duplicateSelected : DesignStore :=
  match s.placeOf s.selectedId with
  | some place => s.duplicateLayer (.inStore place)
  | none => s

def removeLayerById (id : String) : DesignStore :=
  let s := { s with layers := s.layers.filter fun layer => layer.id ≠ id }
  let s := if s.cropping = some id then { s with cropping := none } else s
  let s := if s.selectedId = some id then s.selectLayer s.topOverlay else s
  s.commit

def deleteLayer (id : String) : DesignStore :=
  match s.layers.find? fun layer => layer.id = id with
  | none => s
  | some layer => if layer.kind = .background then s else s.removeLayerById id

def toggleLock (ref : LayerRef) : DesignStore :=
  s.commitUpdate ref fun layer => { layer with locked := !layer.locked }

def toggleVisible (ref : LayerRef) : DesignStore :=
  s.commitUpdate ref fun layer => { layer with visible := !layer.visible }

def select (id : Option String) : DesignStore :=
  let s := if s.cropping ≠ none ∧ s.cropping ≠ id then { s with cropping := none }.commit else s
  s.selectLayer id

/-- `order.indexOf(layer.id)` -/
def orderOf (order : List String) (layer : EditorLayer) : ℤ :=
  match order.idxOf? layer.id with
  | some place => place
  | none => -1

/-- The background is moved to the bottom. -/
def backgroundFirst (layers : List EditorLayer) : List EditorLayer :=
  match layers.findIdx? fun layer => layer.kind = .background with
  | some place =>
    if place > 0 then layers[place]?.toList ++ layers.eraseIdx place else layers
  | none => layers

def reorderByIds (topToBottomIds : List String) : DesignStore :=
  let order := topToBottomIds.reverse
  let sorted := s.layers.mergeSort fun a b => orderOf order a ≤ orderOf order b
  { s with layers := backgroundFirst sorted }.commit

/-! ## The text -/

def selectText : DesignStore :=
  if s.text = none then s
  else
    -- An empty id is falsy as well.
    let s :=
      if s.cropping ≠ none ∧ s.cropping ≠ some "" then { s with cropping := none }.commit else s
    { s with selectedId := none, textSelected := true }

def addText : DesignStore :=
  if s.text ≠ none then s.selectText
  else
    { s with text := some (defaultText s.cw s.ch), selectedId := none, textSelected := true }.commit

def removeText : DesignStore :=
  if s.text = none then s else { s with text := none, textSelected := false }.commit

def updateText (patch : TextPatch) : DesignStore :=
  match s.text with
  | none => s
  | some text => { s with text := some (clampText (patch.assign text)) }.commit

def nudgeText (patch : TextPatch) : DesignStore :=
  match s.text with
  | none => s
  | some text => { s with text := some (clampText (patch.assign text)) }

/-! ## What is done to a layer -/

def inCropMode (layer : EditorLayer) : Bool := layer.shape ≠ .none ∧ s.cropping = some layer.id

/-- What is done to the selected layer, if there is one. -/
def onSelected (f : EditorLayer → EditorLayer) : DesignStore :=
  match s.placeOf s.selectedId with
  | some place => s.update (.inStore place) f
  | none => s

def setStyle (style : LayerStyle) : DesignStore :=
  match s.placeOf s.selectedId with
  | none => s
  | some place => s.commitUpdate (.inStore place) fun layer =>
    if s.inCropMode layer then layer
    else applyStyleGeometry { layer with style := style } s.cw s.ch

/-- What is done to the selected layer and committed, unless it is cropped. -/
def alignSelected (f : EditorLayer → EditorLayer) : DesignStore :=
  match s.placeOf s.selectedId with
  | none => s
  | some place =>
    match s.resolve (.inStore place) with
    | none => s
    | some layer => if s.inCropMode layer then s else s.commitUpdate (.inStore place) f

def alignH (side : Alignment) : DesignStore :=
  s.alignSelected fun layer => { layer with cx := side.place layer.w s.cw }

def alignV (side : Alignment) : DesignStore :=
  s.alignSelected fun layer => { layer with cy := side.place layer.h s.ch }

def setRotation (deg : ℚ) : DesignStore := s.onSelected fun layer => { layer with rot := deg }

def setOpacity (pct : ℚ) : DesignStore :=
  s.onSelected fun layer => { layer with opacity := max 0 (min 100 (mathRound pct)) }

def nudge (dx dy : ℚ) : DesignStore :=
  s.onSelected fun layer =>
    if layer.locked then layer else { layer with cx := layer.cx + dx, cy := layer.cy + dy }

/-- What `setShapeOn` makes of a layer. -/
def reshape (layer : EditorLayer) (shape : LayerShape) : EditorLayer :=
  let change := shapeChangeFor layer shape
  let layer :=
    { layer with
      shape := change.shape, w := change.size.w, h := change.size.h, crop := change.crop }
  if change.resetStyle then
    let size := freeDefaultSize layer.natW layer.natH s.cw s.ch
    { layer with style := .free, w := size.w, h := size.h }
  else if layer.style ≠ .free then applyStyleGeometry layer s.cw s.ch
  else layer

def setShapeOn (ref : LayerRef) (shape : LayerShape) : DesignStore :=
  match s.resolve ref with
  | none => s
  | some layer =>
    let after := s.put ref (s.reshape layer shape)
    if (shapeChangeFor layer shape).resetStyle ∧ s.cropping = some layer.id then
      { after with cropping := none }.commit
    else after.commit

def setCropBox (ref : LayerRef) (box : CropBox) : DesignStore :=
  s.update ref fun layer =>
    if layer.shape = .none then layer
    else { layer with crop := cropBoxToCrop layer (clampCropBox layer box) layer.crop }

def setInnerRotation (ref : LayerRef) (deg : ℚ) : DesignStore :=
  s.update ref fun layer =>
    if layer.shape = .none then layer
    else
      let crop := layer.crop.getD layer.cropDefault
      { layer with crop := some { crop with rot := jsMod (jsMod deg 360 + 360) 360 } }

def enterCrop (id : String) : DesignStore :=
  match s.placeOf (some id) with
  | none => s
  | some place =>
    match s.layers[place]? with
    | none => s
    | some layer =>
      if layer.kind = .background ∨ layer.shape = .none ∨ layer.locked then s
      else
        let s := s.put (.inStore place)
          { layer with crop := some (layer.crop.getD layer.cropDefault) }
        { s.selectLayer (some id) with cropping := some id }

def exitCrop : DesignStore :=
  if s.cropping = none then s else { s with cropping := none }.commit

def setBg (colour : String) : DesignStore := { s with bg := colour }.commit

def setChecker (on : Bool) : DesignStore := { s with checker := on }.commit

end DesignStore

/-- An operation of the store. -/
inductive Operation where
  | importDesign (stored : List DesignLayer) (background : Option DesignImage)
  | importText (stored : Option TextDesign)
  | addLayer (src name : String) (natW natH : ℚ) (opts : LayerOpts)
  | duplicateLayer (ref : LayerRef)
  | duplicateSelected
  | removeLayerById (id : String)
  | deleteLayer (id : String)
  | select (id : Option String)
  | selectText
  | addText
  | removeText
  | updateText (patch : TextPatch)
  | nudgeText (patch : TextPatch)
  | toggleLock (ref : LayerRef)
  | toggleVisible (ref : LayerRef)
  | reorderByIds (topToBottomIds : List String)
  | setShapeOn (ref : LayerRef) (shape : LayerShape)
  | setStyle (style : LayerStyle)
  | alignH (side : Alignment)
  | alignV (side : Alignment)
  | enterCrop (id : String)
  | exitCrop
  | setCropBox (ref : LayerRef) (box : CropBox)
  | setInnerRotation (ref : LayerRef) (deg : ℚ)
  | setRotation (deg : ℚ)
  | setOpacity (pct : ℚ)
  | nudge (dx dy : ℚ)
  | setBg (colour : String)
  | setChecker (on : Bool)
  | commit
  | undo
  | redo

namespace DesignStore

def perform (s : DesignStore) : Operation → DesignStore
  | .importDesign stored background => s.importDesign stored background
  | .importText stored => s.importText stored
  | .addLayer src name natW natH opts => s.addLayer src name natW natH opts
  | .duplicateLayer ref => s.duplicateLayer ref
  | .duplicateSelected => s.duplicateSelected
  | .removeLayerById id => s.removeLayerById id
  | .deleteLayer id => s.deleteLayer id
  | .select id => s.select id
  | .selectText => s.selectText
  | .addText => s.addText
  | .removeText => s.removeText
  | .updateText patch => s.updateText patch
  | .nudgeText patch => s.nudgeText patch
  | .toggleLock ref => s.toggleLock ref
  | .toggleVisible ref => s.toggleVisible ref
  | .reorderByIds ids => s.reorderByIds ids
  | .setShapeOn ref shape => s.setShapeOn ref shape
  | .setStyle style => s.setStyle style
  | .alignH side => s.alignH side
  | .alignV side => s.alignV side
  | .enterCrop id => s.enterCrop id
  | .exitCrop => s.exitCrop
  | .setCropBox ref box => s.setCropBox ref box
  | .setInnerRotation ref deg => s.setInnerRotation ref deg
  | .setRotation deg => s.setRotation deg
  | .setOpacity pct => s.setOpacity pct
  | .nudge dx dy => s.nudge dx dy
  | .setBg colour => s.setBg colour
  | .setChecker on => s.setChecker on
  | .commit => s.commit
  | .undo => s.undo
  | .redo => s.redo

end DesignStore

end Optionia.Design
