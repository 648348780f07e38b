import Optionia.Design.Session
/-!
# What is done to a layer that fits its style

One lemma for each thing that is done to a layer in the editor: a layer that
is opened fits its style, and one that fits it goes on doing so when its frame
changes, when a handle of it is dragged, when it is cropped, and when the
canvas takes another size.
-/

namespace Optionia.Design

section Layer

variable {cw ch : ℚ} {layer : EditorLayer}

/-- A layer that fits its style, and that reads back as it is stored. -/
structure Composed (cw ch : ℚ) (layer : EditorLayer) : Prop where
  kind : layer.kind = .layer
  fitted : Fitted cw ch layer
  tidy : Tidy layer

theorem effectiveShape_of_crop {shape : LayerShape} {crop : LayerCrop} {shapeSrc : Option String}
    (h : shape ≠ .image) : effectiveShape (some shape) (some crop) shapeSrc = shape := by
  unfold effectiveShape
  simp [h]

theorem effectiveShape_none (crop : Option LayerCrop) (shapeSrc : Option String) :
    effectiveShape (some .none) crop shapeSrc = .none := by
  unfold effectiveShape
  simp

theorem effectiveShape_effectiveShape (shape : Option LayerShape) (crop : Option LayerCrop)
    (shapeSrc : Option String) :
    effectiveShape (some (effectiveShape shape crop shapeSrc))
        (if effectiveShape shape crop shapeSrc = .none then none else crop)
        (if effectiveShape shape crop shapeSrc = .image then shapeSrc else none) =
      effectiveShape shape crop shapeSrc := by
  unfold effectiveShape
  generalize shape.getD .none = given
  dsimp only
  by_cases hsquare : given = .square ∧ crop = none
  · simp [hsquare]
  · rw [if_neg hsquare]
    by_cases himage : given = .image ∧ (shapeSrc = none ∨ shapeSrc = some "")
    · simp [himage]
    · rw [if_neg himage]
      cases given <;> simp_all

/-! ## A layer is opened -/

/-- **A stored layer of some size is opened as one that fits its style.** -/
theorem composed_open {stored : DesignLayer} (h : stored.HasSize) (hcw : 0 < cw) (hch : 0 < ch)
    (id : String) :
    let layer := designLayerToEditor stored cw ch id
    Composed cw ch (if layer.style ≠ .free then applyStyleGeometry layer cw ch else layer) := by
  intro layer
  have hnatW : layer.natW = stored.natW := orElse_of_ne h.natW.ne'
  have hnatH : layer.natH = stored.natH := orElse_of_ne h.natH.ne'
  have hnatW0 : 0 < layer.natW := hnatW ▸ h.natW
  have hnatH0 : 0 < layer.natH := hnatH ▸ h.natH
  have hw : 0 < layer.w := mul_pos h.wPct hcw
  have hheight : layer.h =
      if layer.shape = .none then layer.w * (layer.natH / layer.natW)
      else if layer.shape = .square ∨ layer.shape = .image then
        if stored.pos.hPct > 0 then stored.pos.hPct * ch else layer.w
      else layer.w := rfl
  have hh : 0 < layer.h := by
    rw [hheight]
    split_ifs with hplain hrectangle hgiven
    · exact mul_pos hw (div_pos hnatH0 hnatW0)
    · exact mul_pos hgiven hch
    · exact hw
    · exact hw
  have haspect : layer.KeepsAspect := by
    unfold EditorLayer.KeepsAspect
    rw [hheight]
    split_ifs with hplain hrectangle hgiven
    · rfl
    · exact .inl hrectangle
    · exact .inr rfl
    · exact .inr rfl
  have hshape : effectiveShape (some layer.shape) layer.crop layer.shapeSrc = layer.shape :=
    effectiveShape_effectiveShape stored.shape stored.crop stored.shapeSrc
  have htidy : Tidy layer :=
    { name := by
        show (if stored.name = "" then "Layer" else stored.name) ≠ ""
        split_ifs with hname
        · decide
        · exact hname
      shapeSrc := fun himage => if_neg himage
      crop := fun hplain => if_pos hplain }
  split_ifs with hstyle
  · obtain ⟨hs, -, -, -, hcrop, hsrc, hname, hkind⟩ := applyStyleGeometry_keeps layer cw ch
    exact
      { kind := hkind
        fitted := fitted_applyStyleGeometry hcw hch hnatW0 hnatH0 hw hh hshape hstyle
        tidy :=
          { name := hname ▸ htidy.name
            shapeSrc := by rw [hs, hsrc]; exact htidy.shapeSrc
            crop := by rw [hs, hcrop]; exact htidy.crop } }
  · exact
      { kind := rfl
        fitted :=
          { natW := hnatW0
            natH := hnatH0
            w := hw
            h := hh
            shape := hshape
            aspect := haspect
            fixed := fun hnot => absurd hnot hstyle }
        tidy := htidy }

/-- **And it is the one that was saved**, up to its id and its lock. -/
theorem Composed.open_export (h : Composed cw ch layer) (hcw : 0 < cw) (hch : 0 < ch)
    (id : String) :
    let opened := designLayerToEditor (editorLayerToDesign layer cw ch) cw ch id
    (if opened.style ≠ .free then applyStyleGeometry opened cw ch else opened).forget =
      layer.forget := by
  intro opened
  have hopened : opened = { layer with id := id, locked := false } :=
    designLayerToEditor_export h.fitted h.tidy h.kind hcw hch id
  have hfitted : Fitted cw ch opened := by
    rw [hopened]
    exact h.fitted.congr rfl rfl rfl rfl rfl rfl rfl rfl rfl h.fitted.shape
  have hforget : opened.forget = layer.forget := by rw [hopened]; rfl
  split_ifs with hstyle
  · rw [hfitted.fixed hstyle, hforget]
  · exact hforget

/-! ## What keeps a layer as it fits -/

theorem Composed.congr {other : EditorLayer} (h : Composed cw ch layer)
    (hgeometry : Fitted cw ch other) (hkind : other.kind = layer.kind)
    (hname : other.name = layer.name) (hshape : other.shape = layer.shape)
    (hshapeSrc : other.shapeSrc = layer.shapeSrc)
    (hcrop : layer.shape = .none → other.crop = layer.crop) : Composed cw ch other where
  kind := hkind.trans h.kind
  fitted := hgeometry
  tidy :=
    { name := hname ▸ h.tidy.name
      shapeSrc := by rw [hshape, hshapeSrc]; exact h.tidy.shapeSrc
      crop := fun hplain => by
        rw [hshape] at hplain
        rw [hcrop hplain]
        exact h.tidy.crop hplain }

theorem Composed.setId (h : Composed cw ch layer) (id : String) :
    Composed cw ch { layer with id := id } :=
  h.congr (h.fitted.congr rfl rfl rfl rfl rfl rfl rfl rfl rfl h.fitted.shape) rfl rfl rfl rfl
    fun _ => rfl

theorem Composed.setLocked (h : Composed cw ch layer) (locked : Bool) :
    Composed cw ch { layer with locked := locked } :=
  h.congr (h.fitted.congr rfl rfl rfl rfl rfl rfl rfl rfl rfl h.fitted.shape) rfl rfl rfl rfl
    fun _ => rfl

theorem Composed.setVisible (h : Composed cw ch layer) (visible : Bool) :
    Composed cw ch { layer with visible := visible } :=
  h.congr (h.fitted.congr rfl rfl rfl rfl rfl rfl rfl rfl rfl h.fitted.shape) rfl rfl rfl rfl
    fun _ => rfl

theorem Composed.setOpacity (h : Composed cw ch layer) (opacity : ℚ) :
    Composed cw ch { layer with opacity := opacity } :=
  h.congr (h.fitted.congr rfl rfl rfl rfl rfl rfl rfl rfl rfl h.fitted.shape) rfl rfl rfl rfl
    fun _ => rfl

theorem Composed.setCrop (h : Composed cw ch layer) (hframed : layer.shape ≠ .none)
    (crop : LayerCrop) : Composed cw ch { layer with crop := some crop } := by
  have hshape : effectiveShape (some layer.shape) (some crop) layer.shapeSrc = layer.shape := by
    by_cases himage : layer.shape = .image
    · have hgiven := h.fitted.shape
      rw [himage] at hgiven ⊢
      exact hgiven
    · exact effectiveShape_of_crop himage
  exact h.congr (h.fitted.congr rfl rfl rfl rfl rfl rfl rfl rfl rfl hshape) rfl rfl rfl rfl
    fun hplain => absurd hplain hframed

theorem Composed.move (h : Composed cw ch layer) {cx cy : ℚ}
    (hplaces : Places layer.style cw ch layer.w layer.h cx cy) :
    Composed cw ch { layer with cx := cx, cy := cy } :=
  h.congr (h.fitted.move hplaces) rfl rfl rfl rfl fun _ => rfl

theorem Composed.rotate (h : Composed cw ch layer) {deg : ℚ}
    (hdeg : layer.style = .free ∨ deg = 0) : Composed cw ch { layer with rot := deg } :=
  h.congr (h.fitted.rotate hdeg) rfl rfl rfl rfl fun _ => rfl

theorem Composed.setStyle (h : Composed cw ch layer) (hcw : 0 < cw) (hch : 0 < ch)
    (style : LayerStyle) :
    Composed cw ch (applyStyleGeometry { layer with style := style } cw ch) := by
  obtain ⟨hs, -, -, -, hcrop, hsrc, hname, hkind⟩ :=
    applyStyleGeometry_keeps { layer with style := style } cw ch
  exact h.congr (h.fitted.setStyle hcw hch style) hkind hname hs hsrc fun _ => hcrop

/-! ## Frames -/

/-- **A change of its frame** leaves a layer as its style has it, where neither
frame is a mask. -/
theorem Composed.reshape {s : DesignStore} (h : Composed s.cw s.ch layer) (hcw : 0 < s.cw)
    (hch : 0 < s.ch) {shape : LayerShape} (hfrom : layer.shape ≠ .image) (hnext : shape ≠ .image) :
    Composed s.cw s.ch (s.reshape layer shape) := by
  unfold DesignStore.reshape
  by_cases hleaves : shape = .none ∨ layer.shape = shape
  · have hchange : shapeChangeFor layer shape = ⟨.none, ⟨layer.w, layer.h⟩, none, true⟩ :=
      if_pos hleaves
    rw [hchange]
    dsimp only
    rw [if_pos rfl]
    obtain ⟨hw, hh, haspect⟩ :=
      freeDefaultSize_spec hcw hch h.fitted.natW h.fitted.natH
    exact
      { kind := h.kind
        fitted :=
          { natW := h.fitted.natW
            natH := h.fitted.natH
            w := hw
            h := hh
            shape := effectiveShape_none none layer.shapeSrc
            aspect := by
              simp only [EditorLayer.KeepsAspect, if_true]
              exact haspect
            fixed := fun hnot => absurd rfl hnot }
        tidy :=
          { name := h.tidy.name
            shapeSrc := fun _ => h.tidy.shapeSrc hfrom
            crop := fun _ => rfl } }
  · obtain ⟨size, crop, hchange, hw, hh, haspect⟩ : ∃ size crop,
        shapeChangeFor layer shape = ⟨shape, size, some crop, false⟩ ∧ 0 < size.w ∧ 0 < size.h ∧
          (shape = .square ∨ size.h = size.w) := by
      have hedge : 0 < orElse (min layer.w layer.h) layer.w := by
        have hmin : 0 < min layer.w layer.h := lt_min h.fitted.w h.fitted.h
        rwa [orElse_of_ne hmin.ne']
      unfold shapeChangeFor
      rw [if_neg hleaves]
      dsimp only
      by_cases hsquare : shape ≠ .square ∧ layer.w ≠ layer.h
      · simp only [if_pos hsquare]
        split_ifs
        · exact ⟨_, _, rfl, hedge, hedge, .inr rfl⟩
        · exact ⟨_, _, rfl, hedge, hedge, .inr rfl⟩
      · simp only [if_neg hsquare]
        have hkept : shape = .square ∨ layer.h = layer.w := by
          by_contra hnot
          exact hsquare ⟨fun h => hnot (.inl h), fun h => hnot (.inr h.symm)⟩
        split_ifs
        · exact ⟨_, _, rfl, h.fitted.w, h.fitted.h, hkept⟩
        · exact ⟨_, _, rfl, h.fitted.w, h.fitted.h, hkept⟩
    have hframed : shape ≠ .none := fun hnone => hleaves (.inl hnone)
    have heffective : effectiveShape (some shape) (some crop) layer.shapeSrc = shape :=
      effectiveShape_of_crop hnext
    rw [hchange]
    dsimp only
    rw [if_neg Bool.false_ne_true]
    by_cases hstyle : layer.style = .free
    · rw [if_neg (not_not.2 hstyle)]
      exact
        { kind := h.kind
          fitted :=
            { natW := h.fitted.natW
              natH := h.fitted.natH
              w := hw
              h := hh
              shape := heffective
              aspect := by
                simp only [EditorLayer.KeepsAspect, if_neg hframed]
                exact haspect.imp_left .inl
              fixed := fun hnot => absurd hstyle hnot }
          tidy :=
            { name := h.tidy.name
              shapeSrc := fun _ => h.tidy.shapeSrc hfrom
              crop := fun hplain => absurd hplain hframed } }
    · rw [if_pos hstyle]
      let framed : EditorLayer :=
        { layer with shape := shape, w := size.w, h := size.h, crop := some crop }
      obtain ⟨hs, -, -, -, -, hsrc, hname, hkind⟩ := applyStyleGeometry_keeps framed s.cw s.ch
      exact
        { kind := hkind.trans h.kind
          fitted := fitted_applyStyleGeometry hcw hch h.fitted.natW h.fitted.natH hw hh heffective
            hstyle
          tidy :=
            { name := fun hempty => h.tidy.name (hname.symm.trans hempty)
              shapeSrc := fun _ => hsrc.trans (h.tidy.shapeSrc hfrom)
              crop := fun hplain => absurd (hs.symm.trans hplain) hframed } }

/-! ## Handles -/

theorem minLayerSize_pos : 0 < minLayerSize := by
  unfold minLayerSize
  norm_num

/-- A drag of a handle gives a box of some size, which keeps its aspect but
for a square. -/
theorem resizeFrom_size (cosine sine : ℚ → ℚ) (start : DragRect) (hw : 0 < start.w)
    (hh : 0 < start.h) (dx dy : ℚ) (dir : String) (deg : ℚ) (shape : LayerShape) :
    let next := resizeFrom cosine sine start dx dy dir deg shape
    0 < next.w ∧ 0 < next.h ∧ (shape ≠ .square → next.h * start.w = next.w * start.h) := by
  have hleast : ∀ x, 0 < max minLayerSize x := fun x => lt_max_of_lt_left minLayerSize_pos
  have haspect : 0 < start.w / start.h := div_pos hw hh
  have hwidth : ∀ nh : ℚ, nh * start.w = nh * (start.w / start.h) * start.h := fun nh => by
    rw [mul_assoc, div_mul_cancel₀ _ hh.ne']
  have hheight : ∀ nw : ℚ, nw / (start.w / start.h) * start.w = nw * start.h := fun nw => by
    rw [div_div_eq_mul_div, div_mul_cancel₀ _ hw.ne']
  intro next
  by_cases hsquare : shape = .square
  · have hside : ∃ x y, next.w = (if (handleDirection dir).1 = 0 then start.w
        else max minLayerSize x) ∧
        next.h = (if (handleDirection dir).2 = 0 then start.h else max minLayerSize y) := by
      simp only [next, resizeFrom, if_pos hsquare]
      exact ⟨_, _, rfl, rfl⟩
    obtain ⟨x, y, hside⟩ := hside
    refine ⟨?_, ?_, fun hnot => absurd hsquare hnot⟩
    · rw [hside.1]
      split_ifs
      · exact hw
      · exact hleast _
    · rw [hside.2]
      split_ifs
      · exact hh
      · exact hleast _
  · by_cases hx : (handleDirection dir).1 = 0
    · have hnext : ∃ x, next.w = max minLayerSize x * (start.w / start.h) ∧
          next.h = max minLayerSize x := by
        simp only [next, resizeFrom, if_neg hsquare, if_pos hx]
        exact ⟨_, rfl, rfl⟩
      obtain ⟨x, hnextW, hnextH⟩ := hnext
      rw [hnextW, hnextH]
      exact ⟨mul_pos (hleast x) haspect, hleast x, fun _ => hwidth _⟩
    · have hnext : ∃ x, next.w = max minLayerSize x ∧
          next.h = max minLayerSize x / (start.w / start.h) := by
        simp only [next, resizeFrom, if_neg hsquare, if_neg hx]
        exact ⟨_, rfl, rfl⟩
      obtain ⟨x, hnextW, hnextH⟩ := hnext
      rw [hnextW, hnextH]
      exact ⟨hleast x, div_pos (hleast x) haspect, fun _ => hheight _⟩

theorem EditorLayer.KeepsAspect.scale (h : layer.KeepsAspect) (hw : layer.w ≠ 0) {other : EditorLayer}
    (hshape : other.shape = layer.shape) (hnatW : other.natW = layer.natW)
    (hnatH : other.natH = layer.natH)
    (hkeeps : layer.shape ≠ .square → other.h * layer.w = other.w * layer.h) :
    other.KeepsAspect := by
  unfold EditorLayer.KeepsAspect at h ⊢
  rw [hshape, hnatW, hnatH]
  by_cases hplain : layer.shape = .none
  · rw [if_pos hplain] at h ⊢
    have hscaled := hkeeps (by rw [hplain]; decide)
    rw [h, mul_left_comm, mul_comm layer.w] at hscaled
    exact mul_right_cancel₀ hw hscaled
  · rw [if_neg hplain] at h ⊢
    refine or_iff_not_imp_left.2 fun hrectangle => ?_
    have hscaled := hkeeps fun hsquare => hrectangle (.inl hsquare)
    rw [h.resolve_left hrectangle] at hscaled
    exact mul_right_cancel₀ hw hscaled

/-- **A handle of a free layer may be dragged.** -/
theorem Composed.resize (h : Composed cw ch layer) {cosine sine : ℚ → ℚ} {dx dy : ℚ} {dir : String}
    (hfree : layer.style = .free ∨ layer.resize cosine sine dx dy dir = layer) :
    Composed cw ch (layer.resize cosine sine dx dy dir) := by
  obtain hfree | hsame := hfree
  · obtain ⟨hw, hh, hkeeps⟩ := resizeFrom_size cosine sine
      ⟨layer.cx, layer.cy, layer.w, layer.h⟩ h.fitted.w h.fitted.h dx dy dir layer.rot
      layer.shape
    refine h.congr ?_ rfl rfl rfl rfl fun _ => rfl
    exact
      { natW := h.fitted.natW
        natH := h.fitted.natH
        w := hw
        h := hh
        shape := h.fitted.shape
        aspect := h.fitted.aspect.scale h.fitted.w.ne' rfl rfl rfl hkeeps
        fixed := fun hnot => absurd hfree hnot }
  · rw [hsame]
    exact h

/-! ## The canvas -/

/-- **A layer fits a canvas of another size** when it is moved there. -/
theorem Composed.resizeCanvas (h : Composed cw ch layer) {sx sy newW newH : ℚ} (hsx : 0 < sx)
    (hsy : 0 < sy) (hnewW : 0 < newW) (hnewH : 0 < newH) :
    Composed newW newH (layer.resizeCanvas sx sy newW newH) := by
  unfold EditorLayer.resizeCanvas
  rw [if_neg (show layer.kind ≠ .background by rw [h.kind]; decide)]
  dsimp only
  by_cases hstyle : layer.style = .free
  · rw [if_pos hstyle]
    have hw : 0 < layer.w * sx := mul_pos h.fitted.w hsx
    refine
      { kind := h.kind
        fitted :=
          { natW := h.fitted.natW
            natH := h.fitted.natH
            w := hw
            h := ?_
            shape := h.fitted.shape
            aspect := ?_
            fixed := fun hnot => absurd hstyle hnot }
        tidy := ⟨h.tidy.name, h.tidy.shapeSrc, h.tidy.crop⟩ }
    · dsimp only
      split_ifs
      · exact mul_pos hw (div_pos h.fitted.natH h.fitted.natW)
      · exact mul_pos h.fitted.h hsy
      · exact mul_pos h.fitted.h hsx
      · exact hw
    · unfold EditorLayer.KeepsAspect LayerShape.Rectangle
      dsimp only
      split_ifs with hplain hsquare himage
      · rfl
      · exact .inl (.inl hsquare)
      · exact .inl (.inr himage)
      · exact .inr rfl
  · rw [if_neg hstyle]
    let moved : EditorLayer := { layer with cx := layer.cx * sx, cy := layer.cy * sy }
    obtain ⟨hs, -, -, -, hcrop, hsrc, hname, hkind⟩ := applyStyleGeometry_keeps moved newW newH
    exact
      { kind := hkind.trans h.kind
        fitted := fitted_applyStyleGeometry hnewW hnewH h.fitted.natW h.fitted.natH h.fitted.w
          h.fitted.h h.fitted.shape hstyle
        tidy :=
          { name := fun hempty => h.tidy.name (hname.symm.trans hempty)
            shapeSrc := fun himage => hsrc.trans
              (h.tidy.shapeSrc fun hwas => himage (hs.trans hwas))
            crop := fun hplain => hcrop.trans (h.tidy.crop (hs.symm.trans hplain)) } }

end Layer

end Optionia.Design
