import Optionia.Design.Fitted
import Optionia.Design.Selection
/-!
# A session of the editor

A merchant opens a design on a background, works on it through the store's
operations and the two gestures of the canvas that size a layer or the canvas,
and saves it. What is composed is what is drawn (`Drawn`), and what is saved
opens as it was (`Saved`).
-/

namespace Optionia.Design

/-! ## The gestures -/

structure DragRect where
  cx : ℚ
  cy : ℚ
  w : ℚ
  h : ℚ
  deriving DecidableEq

def handleDirection (dir : String) : ℚ × ℚ :=
  (if 'w' ∈ dir.toList then -1 else if 'e' ∈ dir.toList then 1 else 0,
    if 'n' ∈ dir.toList then -1 else if 's' ∈ dir.toList then 1 else 0)

/-- `resizeFrom`, with the cosine and the sine of an angle in degrees. -/
def resizeFrom (cosine sine : ℚ → ℚ) (start : DragRect) (dx dy : ℚ) (dir : String)
    (rotationDeg : ℚ) (shape : LayerShape) : DragRect :=
  let cos := cosine rotationDeg
  let sin := sine rotationDeg
  let ldx := dx * cos + dy * sin
  let ldy := -dx * sin + dy * cos
  let (hx, hy) := handleDirection dir
  let nw := max minLayerSize (start.w + hx * ldx)
  let nh := max minLayerSize (start.h + hy * ldy)
  let size : Size :=
    if shape = .square then
      ⟨if hx = 0 then start.w else nw, if hy = 0 then start.h else nh⟩
    else
      let aspect := start.w / start.h
      if hx = 0 then
        let nh := max minLayerSize nh
        ⟨nh * aspect, nh⟩
      else
        let nw := max minLayerSize nw
        ⟨nw, nw / aspect⟩
  let slx := hx * (size.w - start.w) / 2
  let sly := hy * (size.h - start.h) / 2
  ⟨start.cx + (slx * cos - sly * sin), start.cy + (slx * sin + sly * cos), size.w, size.h⟩

/-- A drag of a handle of a layer. -/
def EditorLayer.resize (cosine sine : ℚ → ℚ) (layer : EditorLayer) (dx dy : ℚ) (dir : String) :
    EditorLayer :=
  let next := resizeFrom cosine sine ⟨layer.cx, layer.cy, layer.w, layer.h⟩ dx dy dir layer.rot
    layer.shape
  { layer with cx := next.cx, cy := next.cy, w := next.w, h := next.h }

/-- What happens in the editor. -/
inductive Act where
  | operation (operation : Operation)
  | resize (ref : LayerRef) (dx dy : ℚ) (dir : String)
  | setCanvasSize (natW natH : ℚ)

/-- The store, and the background of the design that is open. -/
structure Session where
  store : DesignStore
  /-- What `importDesign` was given last. -/
  background : Option DesignImage

namespace Session

/-- A store as it is made. -/
def fresh (counter : ℕ) : Session := ⟨.fresh counter, none⟩

variable (cosine sine : ℚ → ℚ)

def step (session : Session) : Act → Session
  | .operation operation =>
    { store := session.store.perform operation
      background := match operation with
        | .importDesign _ background => background
        | _ => session.background }
  | .resize ref dx dy dir =>
    { session with
      store := session.store.update ref fun layer => layer.resize cosine sine dx dy dir }
  | .setCanvasSize natW natH => { session with store := session.store.setCanvasSize natW natH }

end Session

/-! ## What is drawn, and what is saved -/

/-- **What is composed is what is drawn**: of every overlay, its box, its
rotation and its shape. -/
def DesignStore.Drawn (s : DesignStore) : Prop :=
  ∀ layer ∈ s.layers, layer.kind = .layer →
    let stored := editorLayerToDesign layer s.cw s.ch
    layerRect stored s.cw s.ch =
        ⟨layer.cx - layer.w / 2, layer.cy - layer.h / 2, layer.w, layer.h, layer.cx, layer.cy,
          layer.rot⟩ ∧
      effectiveShape stored.shape stored.crop stored.shapeSrc =
        effectiveShape (some layer.shape) layer.crop layer.shapeSrc

/-- A layer up to its id and its lock. -/
def EditorLayer.forget (layer : EditorLayer) : EditorLayer :=
  { layer with id := "", locked := false }

/-- A background that is a picture. -/
def SetsCanvas (background : Option DesignImage) : Prop := ∃ b ∈ background, b.src ≠ ""

/-- **What is saved opens as it was**, up to ids and locks, in every store: one
whose canvas is the same, where no background sets it. -/
def DesignStore.Saved (s : DesignStore) (background : Option DesignImage) : Prop :=
  ∀ t : DesignStore, (¬ SetsCanvas background → t.cw = s.cw ∧ t.ch = s.ch) →
    (t.importDesign s.exportDesign background).layers.map (·.forget) = s.layers.map (·.forget)

/-! ## What is asked of an act -/

def canvasWidth (natW natH : ℚ) : ℚ := mathRound (canvasBaseH * (natW / natH))

/-- A background has a size, and gives the canvas one. -/
structure DesignImage.HasSize (image : DesignImage) : Prop where
  natW : 0 < image.natW
  natH : 0 < image.natH
  canvas : 0 < canvasWidth image.natW image.natH

/-- And so has a layer. -/
structure DesignLayer.HasSize (layer : DesignLayer) : Prop where
  natW : 0 < layer.natW
  natH : 0 < layer.natH
  wPct : 0 < layer.pos.wPct

namespace DesignStore

variable (s : DesignStore)

/-- What is done to a layer of the store leaves the background as it is, and an
overlay as is asked of it. -/
def Spares (ref : LayerRef) (f : EditorLayer → EditorLayer) (asked : EditorLayer → Prop) : Prop :=
  match ref with
  | .inStore place => ∀ layer ∈ s.layers[place]?,
    (layer.kind = .background → (f layer).forget = layer.forget) ∧ (layer.kind = .layer → asked layer)
  | .detached _ => True

/-- The same of the selected layer. -/
def SparesSelected (f : EditorLayer → EditorLayer) (asked : EditorLayer → Prop) : Prop :=
  ∀ place ∈ s.placeOf s.selectedId, s.Spares (.inStore place) f asked

/-- A centre that the style of a layer leaves it. -/
def MayBeAt (layer : EditorLayer) (cx cy : ℚ) : Prop :=
  Places layer.style s.cw s.ch layer.w layer.h cx cy

/-- **An operation sees to what the code does not**: what is opened or added
has a size; a layer is moved only where its style leaves it, turned only where
it is free, and put in no frame, and out of none, of a mask; and the background
is left as it is. -/
def Faithful (background : Option DesignImage) : Operation → Prop
  | .importDesign stored background =>
    (∀ b ∈ background, b.src ≠ "" → b.HasSize) ∧ ∀ layer ∈ stored, layer.HasSize
  | .addLayer src name natW natH opts =>
    Fitted s.cw s.ch (s.newLayer src name natW natH opts) ∧
      Tidy (s.newLayer src name natW natH opts)
  | .duplicateLayer (.inStore place) => ∀ layer ∈ s.layers[place]?, layer.kind = .layer →
      s.MayBeAt layer (layer.cx + duplicateOffset) (layer.cy + duplicateOffset)
  | .duplicateLayer (.detached layer) => layer.kind = .layer →
      Fitted s.cw s.ch
          { layer with cx := layer.cx + duplicateOffset, cy := layer.cy + duplicateOffset } ∧
        Tidy layer ∧ ¬ SetsCanvas background
  | .duplicateSelected => ∀ place ∈ s.placeOf s.selectedId, ∀ layer ∈ s.layers[place]?,
      layer.kind = .layer →
        s.MayBeAt layer (layer.cx + duplicateOffset) (layer.cy + duplicateOffset)
  | .removeLayerById id => ∀ layer ∈ s.layers, layer.kind = .background → layer.id ≠ id
  | .toggleVisible ref => s.Spares ref (fun layer => { layer with visible := !layer.visible })
      fun _ => True
  | .setShapeOn ref shape => s.Spares ref (fun layer => s.reshape layer shape) fun layer =>
      layer.shape ≠ .image ∧ shape ≠ .image
  | .setStyle style => s.SparesSelected
      (fun layer => if s.inCropMode layer then layer
        else applyStyleGeometry { layer with style := style } s.cw s.ch) fun _ => True
  | .alignH side => s.SparesSelected
      (fun layer => if s.inCropMode layer then layer
        else { layer with cx := side.place layer.w s.cw })
      fun layer => s.inCropMode layer = true ∨ s.MayBeAt layer (side.place layer.w s.cw) layer.cy
  | .alignV side => s.SparesSelected
      (fun layer => if s.inCropMode layer then layer
        else { layer with cy := side.place layer.h s.ch })
      fun layer => s.inCropMode layer = true ∨ s.MayBeAt layer layer.cx (side.place layer.h s.ch)
  | .setRotation deg => s.SparesSelected (fun layer => { layer with rot := deg }) fun layer =>
      layer.style = .free ∨ deg = 0
  | .setOpacity pct => s.SparesSelected
      (fun layer => { layer with opacity := max 0 (min 100 (mathRound pct)) }) fun _ => True
  | .nudge dx dy => s.SparesSelected
      (fun layer => if layer.locked then layer
        else { layer with cx := layer.cx + dx, cy := layer.cy + dy })
      fun layer => layer.locked = true ∨ s.MayBeAt layer (layer.cx + dx) (layer.cy + dy)
  | .importText _ | .deleteLayer _ | .select _ | .selectText | .addText | .removeText
  | .updateText _ | .nudgeText _ | .toggleLock _ | .reorderByIds _ | .enterCrop _ | .exitCrop
  | .setCropBox .. | .setInnerRotation .. | .setBg _ | .setChecker _ | .commit | .undo | .redo =>
    True

end DesignStore

/-- **And so does an act**: the handles of a layer are dragged only where it is
free, and the canvas keeps the size that the background gives it. -/
def Session.Faithful (cosine sine : ℚ → ℚ) (session : Session) : Act → Prop
  | .operation operation => session.store.Faithful session.background operation
  | .resize ref dx dy dir =>
    session.store.Spares ref (fun layer => layer.resize cosine sine dx dy dir) fun layer =>
      layer.style = .free ∨ layer.resize cosine sine dx dy dir = layer
  | .setCanvasSize natW natH => natW ≠ 0 → natH ≠ 0 →
      0 < canvasWidth natW natH ∧ ∀ b ∈ session.background, b.src ≠ "" →
        canvasWidth natW natH = canvasWidth b.natW b.natH

end Optionia.Design
