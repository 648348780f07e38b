import Optionia.Design.Layer
import Mathlib.Tactic.FieldSimp
import Mathlib.Tactic.Positivity
/-!
# A layer that fits its style

The editor sizes a layer when its style is set, and the renderer sizes it
again whenever it is drawn. The two agree on a layer that its style, applied
once more, leaves as it is: `layerRect` then gives the editor's own box, and
what was stored reads back as it was.
-/

namespace Optionia.Design

/-! ## Boxes -/

/-- The box of a layer in the editor. -/
def EditorLayer.box (layer : EditorLayer) : LayerRect :=
  rectOf layer.cx layer.cy layer.w layer.h layer.rot

/-- A shape that is a rectangle of its own. -/
def LayerShape.Rectangle (shape : LayerShape) : Prop := shape = .square ∨ shape = .image

instance (shape : LayerShape) : Decidable shape.Rectangle :=
  inferInstanceAs (Decidable (shape = .square ∨ shape = .image))

/-- What a layer's height has to do with its width: a plain layer has the
aspect of its image, and a frame that is no rectangle of its own is a square. -/
def EditorLayer.KeepsAspect (layer : EditorLayer) : Prop :=
  if layer.shape = .none then layer.h = layer.w * (layer.natH / layer.natW)
  else layer.shape.Rectangle ∨ layer.h = layer.w

/-- **A layer fits its style on a canvas.** -/
structure Fitted (cw ch : ℚ) (layer : EditorLayer) : Prop where
  natW : 0 < layer.natW
  natH : 0 < layer.natH
  w : 0 < layer.w
  h : 0 < layer.h
  shape : effectiveShape (some layer.shape) layer.crop layer.shapeSrc = layer.shape
  aspect : layer.KeepsAspect
  fixed : layer.style ≠ .free → applyStyleGeometry layer cw ch = layer

theorem clampInside_clampInside (v half span : ℚ) :
    clampInside (clampInside v half span) half span = clampInside v half span := by
  unfold clampInside
  split_ifs with h
  · rw [max_eq_right (le_min (by linarith) (le_max_left half _))]
    refine min_eq_right (max_le (by linarith) (min_le_left _ v))
  · have hspan : span - half ≤ half := by linarith
    rw [min_eq_right (max_le hspan (min_le_left half v)), max_eq_right (le_max_left _ _)]

section Style

variable {layer : EditorLayer} {cw ch : ℚ}

/-- The size whose proportions a style keeps: a rectangle's own, those of a
square for any other frame, and the image's for a plain layer. -/
def EditorLayer.proportions (layer : EditorLayer) : Size :=
  if layer.shape.Rectangle then ⟨layer.w, layer.h⟩
  else if layer.shape = .none then ⟨layer.natW, layer.natH⟩ else ⟨1, 1⟩

/-- **What a style makes of a layer**, of the proportions of a size. -/
def EditorLayer.styled (layer : EditorLayer) (size : Size) (cw ch : ℚ) : EditorLayer :=
  match layer.style with
  | .cover =>
    let s := max (cw / size.w) (ch / size.h)
    { layer with w := size.w * s, h := size.h * s, cx := cw / 2, cy := ch / 2, rot := 0 }
  | .fit =>
    let s := min (cw / size.w) (ch / size.h)
    { layer with
      w := size.w * s, h := size.h * s, cx := clampInside layer.cx (size.w * s / 2) cw
      cy := clampInside layer.cy (size.h * s / 2) ch, rot := 0 }
  | .fullw => { layer with w := cw, h := cw / (size.w / size.h), cx := cw / 2, rot := 0 }
  | .fullh => { layer with h := ch, w := ch * (size.w / size.h), cy := ch / 2, rot := 0 }
  | .free => layer

theorem applyStyleGeometry_eq (hw : 0 < layer.w) (hh : 0 < layer.h) (hstyle : layer.style ≠ .free) :
    applyStyleGeometry layer cw ch = layer.styled layer.proportions cw ch := by
  have haspect : layer.w / layer.h ≠ 0 := (div_pos hw hh).ne'
  unfold applyStyleGeometry EditorLayer.styled EditorLayer.proportions
  by_cases hrectangle : layer.shape.Rectangle
  · have hshape : layer.shape = .square ∨ layer.shape = .image := hrectangle
    cases hs : layer.style with
    | free => exact absurd hs hstyle
    | cover | fit | fullw | fullh =>
      simp only [if_pos hshape, if_pos hrectangle, orElse_of_ne hw.ne', orElse_of_ne hh.ne',
        if_neg hh.ne', orElse_of_ne haspect]
  · rw [if_neg (show ¬ (layer.shape = .square ∨ layer.shape = .image) from hrectangle),
      if_neg hrectangle]
    by_cases hplain : layer.shape = .none
    · rw [if_neg (not_not.2 hplain), if_pos hplain]
      cases hs : layer.style with
      | free => exact absurd hs hstyle
      | cover | fit | fullw | fullh => rfl
    · rw [if_pos hplain, if_neg hplain]
      cases hs : layer.style with
      | free => exact absurd hs hstyle
      | cover | fit | fullw | fullh => simp only [one_mul, div_one, mul_one]

/-! ## Once is enough -/

theorem applyStyleGeometry_keeps (layer : EditorLayer) (cw ch : ℚ) :
    (applyStyleGeometry layer cw ch).shape = layer.shape ∧
      (applyStyleGeometry layer cw ch).style = layer.style ∧
      (applyStyleGeometry layer cw ch).natW = layer.natW ∧
      (applyStyleGeometry layer cw ch).natH = layer.natH ∧
      (applyStyleGeometry layer cw ch).crop = layer.crop ∧
      (applyStyleGeometry layer cw ch).shapeSrc = layer.shapeSrc ∧
      (applyStyleGeometry layer cw ch).name = layer.name ∧
      (applyStyleGeometry layer cw ch).kind = layer.kind := by
  unfold applyStyleGeometry
  dsimp only
  split_ifs <;> split <;> exact ⟨rfl, rfl, rfl, rfl, rfl, rfl, rfl, rfl⟩

theorem styled_scale (size : Size) {k : ℚ} (hk : 0 < k) :
    layer.styled ⟨size.w * k, size.h * k⟩ cw ch = layer.styled size cw ch := by
  have hmul : ∀ a s : ℚ, a * k * (s / k) = a * s := fun a s => by field_simp
  unfold EditorLayer.styled
  simp only [← div_div, max_div_div_right hk.le, min_div_div_right hk.le, hmul,
    mul_div_mul_right _ _ hk.ne']

theorem size_styled {size : Size} (hcw : 0 < cw) (hch : 0 < ch) (hw : 0 < size.w) (hh : 0 < size.h)
    (hstyle : layer.style ≠ .free) : ∃ k, 0 < k ∧
      (layer.styled size cw ch).w = size.w * k ∧ (layer.styled size cw ch).h = size.h * k := by
  unfold EditorLayer.styled
  cases hs : layer.style with
  | free => exact absurd hs hstyle
  | cover => exact ⟨_, lt_max_of_lt_left (div_pos hcw hw), rfl, rfl⟩
  | fit => exact ⟨_, lt_min (div_pos hcw hw) (div_pos hch hh), rfl, rfl⟩
  | fullw => exact ⟨cw / size.w, div_pos hcw hw, by field_simp, by field_simp⟩
  | fullh => exact ⟨ch / size.h, div_pos hch hh, by field_simp, by field_simp⟩

theorem styled_styled (layer : EditorLayer) (size : Size) (cw ch : ℚ) :
    (layer.styled size cw ch).styled size cw ch = layer.styled size cw ch := by
  unfold EditorLayer.styled
  cases hs : layer.style <;> simp [hs, clampInside_clampInside]

/-- **A style that has been applied changes nothing more.** -/
theorem applyStyleGeometry_idem (hcw : 0 < cw) (hch : 0 < ch) (hnatW : 0 < layer.natW)
    (hnatH : 0 < layer.natH) (hw : 0 < layer.w) (hh : 0 < layer.h) (hstyle : layer.style ≠ .free) :
    0 < (applyStyleGeometry layer cw ch).w ∧ 0 < (applyStyleGeometry layer cw ch).h ∧
      (applyStyleGeometry layer cw ch).KeepsAspect ∧
      applyStyleGeometry (applyStyleGeometry layer cw ch) cw ch = applyStyleGeometry layer cw ch := by
  obtain ⟨hshape, hstyle', hnatW', hnatH', -⟩ := applyStyleGeometry_keeps layer cw ch
  have hsize : 0 < layer.proportions.w ∧ 0 < layer.proportions.h := by
    unfold EditorLayer.proportions
    split_ifs
    · exact ⟨hw, hh⟩
    · exact ⟨hnatW, hnatH⟩
    · exact ⟨one_pos, one_pos⟩
  obtain ⟨k, hk, hkw, hkh⟩ := size_styled hcw hch hsize.1 hsize.2 hstyle
  have hscaled : ∀ other : EditorLayer, other.styled (applyStyleGeometry layer cw ch).proportions cw ch =
      other.styled layer.proportions cw ch := by
    intro other
    by_cases hrectangle : layer.shape.Rectangle
    · rw [← styled_scale layer.proportions hk, ← hkw, ← hkh, ← applyStyleGeometry_eq hw hh hstyle]
      exact congrArg (fun size => other.styled size cw ch) (if_pos (hshape ▸ hrectangle))
    · unfold EditorLayer.proportions
      rw [hshape, hnatW', hnatH', if_neg hrectangle, if_neg hrectangle]
  rw [← applyStyleGeometry_eq hw hh hstyle] at hkw hkh
  have hw' : 0 < (applyStyleGeometry layer cw ch).w := hkw ▸ mul_pos hsize.1 hk
  have hh' : 0 < (applyStyleGeometry layer cw ch).h := hkh ▸ mul_pos hsize.2 hk
  refine ⟨hw', hh', ?_, ?_⟩
  · unfold EditorLayer.KeepsAspect
    rw [hshape, hnatW', hnatH', hkw, hkh]
    by_cases hrectangle : layer.shape.Rectangle
    · rw [if_neg fun hplain => by simp [LayerShape.Rectangle, hplain] at hrectangle]
      exact .inl hrectangle
    · unfold EditorLayer.proportions
      rw [if_neg hrectangle]
      split_ifs
      · field_simp
      · exact .inr rfl
  · rw [applyStyleGeometry_eq hw' hh' (hstyle' ▸ hstyle), hscaled, applyStyleGeometry_eq hw hh hstyle,
      styled_styled]

/-! ## What is drawn -/

theorem effectiveShape_export (layer : EditorLayer) (cw ch : ℚ) :
    effectiveShape (editorLayerToDesign layer cw ch).shape (editorLayerToDesign layer cw ch).crop
        (editorLayerToDesign layer cw ch).shapeSrc =
      effectiveShape (some layer.shape) layer.crop layer.shapeSrc := by
  unfold effectiveShape editorLayerToDesign
  cases layer.shape <;> simp

/-- **The renderer applies the style** that the editor applied. -/
theorem layerRect_export (hcw : 0 < cw) (hch : 0 < ch) (hnatW : 0 < layer.natW)
    (hnatH : 0 < layer.natH) (hw : 0 < layer.w) (hh : 0 < layer.h)
    (hshape : effectiveShape (some layer.shape) layer.crop layer.shapeSrc = layer.shape)
    (hstyle : layer.style ≠ .free) :
    layerRect (editorLayerToDesign layer cw ch) cw ch = (applyStyleGeometry layer cw ch).box := by
  have heffective := (effectiveShape_export layer cw ch).trans hshape
  have hpos : layer.h / ch > 0 := div_pos hh hch
  have haspect : layer.w / layer.h ≠ 0 := (div_pos hw hh).ne'
  unfold layerRect
  dsimp only
  rw [heffective]
  simp only [editorLayerToDesign, rotationOf, div_mul_cancel₀ _ hcw.ne', div_mul_cancel₀ _ hch.ne',
    if_pos hpos, orElse_of_ne hh.ne', orElse_of_ne hnatW.ne', orElse_of_ne hnatH.ne',
    Option.some.injEq, if_neg hstyle]
  rw [applyStyleGeometry_eq hw hh hstyle]
  unfold EditorLayer.styled EditorLayer.proportions
  by_cases hrectangle : layer.shape.Rectangle
  · rw [if_pos (show layer.shape = .square ∨ layer.shape = .image from hrectangle),
      if_pos hrectangle]
    cases hs : layer.style with
    | free => exact absurd hs hstyle
    | cover | fit | fullw | fullh => rfl
  · rw [if_neg (show ¬ (layer.shape = .square ∨ layer.shape = .image) from hrectangle),
      if_neg hrectangle]
    by_cases hplain : layer.shape = .none
    · rw [if_neg (not_not.2 hplain), if_pos hplain]
      cases hs : layer.style with
      | free => exact absurd hs hstyle
      | cover | fit | fullw | fullh => rfl
    · rw [if_pos hplain, if_neg hplain]
      cases hs : layer.style with
      | free => exact absurd hs hstyle
      | cover | fit | fullw | fullh => simp only [EditorLayer.box, one_mul, div_one, mul_one]

/-- **A layer that fits its style is drawn where the editor shows it.** -/
theorem Fitted.layerRect_eq (h : Fitted cw ch layer) (hcw : 0 < cw) (hch : 0 < ch) :
    layerRect (editorLayerToDesign layer cw ch) cw ch = layer.box := by
  by_cases hstyle : layer.style = .free
  · have heffective := (effectiveShape_export layer cw ch).trans h.shape
    have hpos : layer.h / ch > 0 := div_pos h.h hch
    have haspect := h.aspect
    unfold layerRect
    dsimp only
    rw [heffective]
    simp only [editorLayerToDesign, rotationOf, div_mul_cancel₀ _ hcw.ne',
      div_mul_cancel₀ _ hch.ne', if_pos hpos, orElse_of_ne h.natW.ne', orElse_of_ne h.natH.ne',
      hstyle, if_true, Option.getD_some]
    unfold EditorLayer.KeepsAspect at haspect
    split_ifs with hrectangle hplain
    · rfl
    · -- A frame that is no rectangle of its own has one side for both.
      rw [if_neg hplain] at haspect
      have hsquare : layer.h = layer.w := haspect.resolve_left hrectangle
      rw [EditorLayer.box, hsquare]
    · rw [if_pos (not_not.1 hplain)] at haspect
      have hheight : layer.w / (layer.natW / layer.natH) = layer.h := by
        rw [haspect, div_div_eq_mul_div, mul_div_assoc]
      rw [EditorLayer.box, hheight]
  · rw [layerRect_export hcw hch h.natW h.natH h.w h.h h.shape hstyle, h.fixed hstyle]

/-! ## What is saved -/

/-- A layer that a stored one reads back to: what it does not use, it does not
keep. -/
structure Tidy (layer : EditorLayer) : Prop where
  name : layer.name ≠ ""
  shapeSrc : layer.shape ≠ .image → layer.shapeSrc = none
  crop : layer.shape = .none → layer.crop = none

/-- **A layer reads back as it was stored**, but for its id and its lock. -/
theorem designLayerToEditor_export (h : Fitted cw ch layer) (htidy : Tidy layer)
    (hkind : layer.kind = .layer) (hcw : 0 < cw) (hch : 0 < ch) (id : String) :
    designLayerToEditor (editorLayerToDesign layer cw ch) cw ch id =
      { layer with id := id, locked := false } := by
  have heffective := (effectiveShape_export layer cw ch).trans h.shape
  have hpos : layer.h / ch > 0 := div_pos h.h hch
  have haspect := h.aspect
  have hheight : (if layer.shape = .none then layer.w * (layer.natH / layer.natW)
      else if layer.shape = .square ∨ layer.shape = .image then layer.h else layer.w) =
        layer.h := by
    unfold EditorLayer.KeepsAspect at haspect
    split_ifs at haspect ⊢ with hplain hrectangle
    · exact haspect.symm
    · rfl
    · exact (haspect.resolve_left hrectangle).symm
  have hshapeSrc : (if layer.shape = .image then layer.shapeSrc else none) = layer.shapeSrc := by
    split_ifs with himage
    · rfl
    · exact (htidy.shapeSrc himage).symm
  have hcrop : (if layer.shape = .none then none else layer.crop) = layer.crop := by
    split_ifs with hplain
    · exact (htidy.crop hplain).symm
    · rfl
  unfold designLayerToEditor
  dsimp only
  rw [heffective]
  simp only [editorLayerToDesign, orElse_of_ne h.natW.ne', orElse_of_ne h.natH.ne',
    div_mul_cancel₀ _ hcw.ne', div_mul_cancel₀ _ hch.ne', if_pos hpos, hheight,
    if_neg htidy.name, hshapeSrc, hcrop, Option.getD_some, ← hkind]

/-! ## What a layer stays fitted under -/

/-- **A style looks at the geometry of a layer**, and writes its box. -/
theorem applyStyleGeometry_congr {other : EditorLayer} (hnatW : other.natW = layer.natW)
    (hnatH : other.natH = layer.natH) (hcx : other.cx = layer.cx) (hcy : other.cy = layer.cy)
    (hw : other.w = layer.w) (hh : other.h = layer.h) (hrot : other.rot = layer.rot)
    (hstyle : other.style = layer.style) (hshape : other.shape = layer.shape) :
    applyStyleGeometry other cw ch =
      { other with
        cx := (applyStyleGeometry layer cw ch).cx, cy := (applyStyleGeometry layer cw ch).cy
        w := (applyStyleGeometry layer cw ch).w, h := (applyStyleGeometry layer cw ch).h
        rot := (applyStyleGeometry layer cw ch).rot } := by
  cases layer
  cases other
  dsimp only at hnatW hnatH hcx hcy hw hh hrot hstyle hshape
  subst hnatW hnatH hcx hcy hw hh hrot hstyle hshape
  unfold applyStyleGeometry
  dsimp only
  split_ifs <;> split <;> rfl

theorem Fitted.congr {other : EditorLayer} (h : Fitted cw ch layer) (hnatW : other.natW = layer.natW)
    (hnatH : other.natH = layer.natH) (hcx : other.cx = layer.cx) (hcy : other.cy = layer.cy)
    (hw : other.w = layer.w) (hh : other.h = layer.h) (hrot : other.rot = layer.rot)
    (hstyle : other.style = layer.style) (hshape : other.shape = layer.shape)
    (heffective : effectiveShape (some other.shape) other.crop other.shapeSrc = other.shape) :
    Fitted cw ch other where
  natW := hnatW ▸ h.natW
  natH := hnatH ▸ h.natH
  w := hw ▸ h.w
  h := hh ▸ h.h
  shape := heffective
  aspect := by
    have haspect := h.aspect
    unfold EditorLayer.KeepsAspect at haspect ⊢
    rwa [hshape, hh, hw, hnatW, hnatH]
  fixed := fun hfree => by
    have hfixed := h.fixed (hstyle ▸ hfree)
    rw [applyStyleGeometry_congr hnatW hnatH hcx hcy hw hh hrot hstyle hshape, hfixed, ← hcx, ← hcy,
      ← hw, ← hh, ← hrot]

/-- **A style makes a layer fit it.** -/
theorem fitted_applyStyleGeometry (hcw : 0 < cw) (hch : 0 < ch) (hnatW : 0 < layer.natW)
    (hnatH : 0 < layer.natH) (hw : 0 < layer.w) (hh : 0 < layer.h)
    (hshape : effectiveShape (some layer.shape) layer.crop layer.shapeSrc = layer.shape)
    (hstyle : layer.style ≠ .free) : Fitted cw ch (applyStyleGeometry layer cw ch) := by
  obtain ⟨hw', hh', haspect, hfixed⟩ := applyStyleGeometry_idem hcw hch hnatW hnatH hw hh hstyle
  obtain ⟨hs, -, hnw, hnh, hcrop, hsrc, -, -⟩ := applyStyleGeometry_keeps layer cw ch
  exact
    { natW := hnw ▸ hnatW
      natH := hnh ▸ hnatH
      w := hw'
      h := hh'
      shape := by rw [hs, hcrop, hsrc, hshape]
      aspect := haspect
      fixed := fun _ => hfixed }

/-- Where a style leaves the centre of a layer. -/
def Places (style : LayerStyle) (cw ch w h cx cy : ℚ) : Prop :=
  match style with
  | .free => True
  | .cover => cx = cw / 2 ∧ cy = ch / 2
  | .fit => clampInside cx (w / 2) cw = cx ∧ clampInside cy (h / 2) ch = cy
  | .fullw => cx = cw / 2
  | .fullh => cy = ch / 2

theorem applyStyleGeometry_move (layer : EditorLayer) (cw ch cx cy : ℚ) :
    applyStyleGeometry { layer with cx := cx, cy := cy } cw ch =
      { applyStyleGeometry layer cw ch with
        cx := match layer.style with
          | .cover | .fullw => cw / 2
          | .fit => clampInside cx ((applyStyleGeometry layer cw ch).w / 2) cw
          | .fullh | .free => cx
        cy := match layer.style with
          | .cover | .fullh => ch / 2
          | .fit => clampInside cy ((applyStyleGeometry layer cw ch).h / 2) ch
          | .fullw | .free => cy } := by
  unfold applyStyleGeometry
  dsimp only
  split_ifs <;> cases hs : layer.style <;> simp only [hs]

/-- **A layer may be moved where its style leaves it.** -/
theorem Fitted.move (h : Fitted cw ch layer) {cx cy : ℚ}
    (hplaces : Places layer.style cw ch layer.w layer.h cx cy) :
    Fitted cw ch { layer with cx := cx, cy := cy } := by
  refine { h with fixed := fun hstyle => ?_ }
  rw [applyStyleGeometry_move, h.fixed hstyle]
  cases hs : layer.style with
  | free => exact absurd hs hstyle
  | cover =>
    rw [hs] at hplaces
    simp only [hs, hplaces.1, hplaces.2]
  | fit =>
    rw [hs] at hplaces
    simp only [hs, hplaces.1, hplaces.2]
  | fullw =>
    rw [hs] at hplaces
    simp only [hs, show cx = cw / 2 from hplaces]
  | fullh =>
    rw [hs] at hplaces
    simp only [hs, show cy = ch / 2 from hplaces]

theorem Fitted.rot_eq_zero (h : Fitted cw ch layer) (hstyle : layer.style ≠ .free) :
    layer.rot = 0 := by
  have hrot : (applyStyleGeometry layer cw ch).rot = 0 := by
    unfold applyStyleGeometry
    dsimp only
    split_ifs <;> cases hs : layer.style <;> first | rfl | exact absurd hs hstyle
  rwa [h.fixed hstyle] at hrot

/-- **A free layer may be turned.** -/
theorem Fitted.rotate (h : Fitted cw ch layer) {deg : ℚ} (hdeg : layer.style = .free ∨ deg = 0) :
    Fitted cw ch { layer with rot := deg } := by
  by_cases hstyle : layer.style = .free
  · exact { h with fixed := fun hnot => absurd hstyle hnot }
  · obtain rfl : deg = layer.rot := (hdeg.resolve_left hstyle).trans (h.rot_eq_zero hstyle).symm
    exact h

theorem freeDefaultSize_spec {natW natH : ℚ} (hcw : 0 < cw) (hch : 0 < ch) (hnatW : 0 < natW)
    (hnatH : 0 < natH) : 0 < (freeDefaultSize natW natH cw ch).w ∧
      0 < (freeDefaultSize natW natH cw ch).h ∧
        (freeDefaultSize natW natH cw ch).h =
          (freeDefaultSize natW natH cw ch).w * (natH / natW) := by
  unfold freeDefaultSize
  simp only [gt_iff_lt, hnatW, hnatH, hcw, hch, and_self, if_true]
  by_cases hwide : natW / natH < cw / ch
  · simp only [if_pos hwide]
    refine ⟨by positivity, by positivity, ?_⟩
    field_simp
  · simp only [if_neg hwide]
    refine ⟨by positivity, by positivity, ?_⟩
    field_simp

/-- **A layer fits the style that is set.** -/
theorem Fitted.setStyle (h : Fitted cw ch layer) (hcw : 0 < cw) (hch : 0 < ch) (style : LayerStyle) :
    Fitted cw ch (applyStyleGeometry { layer with style := style } cw ch) := by
  by_cases hstyle : style = .free
  · subst hstyle
    by_cases hrectangle : layer.shape.Rectangle
    · rw [show applyStyleGeometry { layer with style := .free } cw ch =
        { layer with style := .free } from if_pos hrectangle]
      exact { h with fixed := fun hnot => absurd rfl hnot }
    · by_cases hplain : layer.shape = .none
      · rw [show applyStyleGeometry { layer with style := .free } cw ch = _ from
          (if_neg hrectangle).trans (if_neg (not_not.2 hplain))]
        obtain ⟨hw, hh, haspect⟩ := freeDefaultSize_spec hcw hch h.natW h.natH
        refine { h with w := hw, h := hh, aspect := ?_, fixed := fun hnot => absurd rfl hnot }
        simp only [EditorLayer.KeepsAspect, hplain, if_true]
        exact haspect
      · have haspect := h.aspect
        unfold EditorLayer.KeepsAspect at haspect
        rw [if_neg hplain] at haspect
        have hsquare : layer.h = layer.w := haspect.resolve_left hrectangle
        have hside : orElse (min layer.w layer.h) layer.w = layer.w := by
          rw [hsquare, min_self, orElse_of_ne h.w.ne']
        rw [show applyStyleGeometry { layer with style := .free } cw ch = _ from
          (if_neg hrectangle).trans (if_pos hplain)]
        dsimp only
        rw [hside]
        refine { h with h := h.w, aspect := ?_, fixed := fun hnot => absurd rfl hnot }
        simp [EditorLayer.KeepsAspect, hplain]
  · exact fitted_applyStyleGeometry hcw hch h.natW h.natH h.w h.h h.shape hstyle

end Style

end Optionia.Design
