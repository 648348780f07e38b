import Mathlib.Tactic.FieldSimp
import Mathlib.Tactic.Ring
import Optionia.Design.Scene
/-!
# The scene and the letterbox

The letterbox is the largest centred box of the authoring aspect
(`letterboxFor_fits`). The scene carries it and does not draw in it: a layer
and a text are put where the whole target puts them. So a scene honours its
letterbox just when that is the whole target, or when everything in it happens
to lie alike on both (`letterboxed_alike_iff`).
-/

namespace Optionia.Design

variable {authoring : Option AuthoringCanvas} {canvas : AuthoringCanvas} {W H : ℚ}
  {layer : DesignLayer} {input : SceneInput} {text : DesignTextInput}

/-! ## What is asked -/

/-- An authoring canvas with positive sides. -/
def Usable (authoring : Option AuthoringCanvas) : Prop :=
  ∃ canvas ∈ authoring, 0 < canvas.width ∧ 0 < canvas.height

/-- No authoring canvas is usable, or its aspect counts as the target's. -/
def FillsTarget (authoring : Option AuthoringCanvas) (W H : ℚ) : Prop :=
  ∀ canvas ∈ authoring, 0 < canvas.width → 0 < canvas.height →
    |canvas.width / canvas.height - W / H| < aspectTolerance

/-- **What a letterbox should be.** -/
structure Letterbox.Fits (box : Letterbox) (authoring : Option AuthoringCanvas) (W H : ℚ) : Prop where
  positive : 0 < box.width ∧ 0 < box.height
  inside : 0 ≤ box.x ∧ 0 ≤ box.y ∧ box.x + box.width ≤ W ∧ box.y + box.height ≤ H
  centred : box.x + box.width / 2 = W / 2 ∧ box.y + box.height / 2 = H / 2
  touches : (box.x = 0 ∧ box.width = W) ∨ (box.y = 0 ∧ box.height = H)
  /-- It has the authoring aspect, or is the whole target. -/
  aspect : ∀ canvas ∈ authoring, 0 < canvas.width → 0 < canvas.height →
    box.width / box.height = canvas.width / canvas.height ∨
      (|canvas.width / canvas.height - W / H| < aspectTolerance ∧ box = .full W H)
  /-- With no usable authoring canvas it is the whole target. -/
  legacy : ¬ Usable authoring → box = .full W H

/-- Where a layer belongs: its box, and its frame where it has one, on a canvas
of the letterbox's size at the letterbox's place. -/
def Letterbox.placed (box : Letterbox) (layer : DesignLayer) : Box × Option Box :=
  let frame := (layerRect layer box.width box.height).box.moved box.x box.y
  if effectiveShape layer.shape layer.crop layer.shapeSrc = .none then (frame, none)
  else (frameImageRect layer frame.x frame.y frame.w frame.h, some frame)

def Letterbox.placedText (box : Letterbox) (text : DesignTextInput) : Box :=
  (resolveSceneText text.design box.width box.height text.value).box.moved box.x box.y

/-- **Every drawn image and every text is where it belongs in the scene's
letterbox.** -/
def Honours (input : SceneInput) : Prop :=
  (buildScene input).groups.map
      (fun group => (group.images.map fun image => (image.box, image.frame),
        group.texts.map SceneText.box)) =
    (input.groups.map fun group => (group.drawn.map (buildScene input).letterbox.placed, [])) ++
      input.textOptions.map fun text => ([], [(buildScene input).letterbox.placedText text])

instance (input : SceneInput) : Decidable (Honours input) := inferInstanceAs (Decidable (_ = _))

/-- A layer's frame lies alike on the target and in a box of it. -/
def Letterbox.Alike (box : Letterbox) (W H : ℚ) (layer : DesignLayer) : Prop :=
  (layerRect layer W H).box = (layerRect layer box.width box.height).box.moved box.x box.y

/-! ## The box -/

theorem div_lt_of_wider {aspect : ℚ} (haspect : 0 < aspect) (hH : 0 < H) (h : W / H < aspect) :
    W / aspect < H := by
  rw [div_lt_iff₀ hH] at h
  rw [div_lt_iff₀ haspect]
  linarith [mul_comm H aspect]

theorem mul_lt_of_taller {aspect : ℚ} (hH : 0 < H) (h : aspect < W / H) : H * aspect < W := by
  rw [lt_div_iff₀ hH] at h
  linarith [mul_comm H aspect]

theorem aspectTolerance_pos : 0 < aspectTolerance := by norm_num [aspectTolerance]

/-- **Where the letterbox is the whole target.** -/
theorem letterboxFor_of_fills (h : FillsTarget authoring W H) :
    letterboxFor authoring W H = .full W H := by
  unfold letterboxFor
  by_cases htarget : 0 < W ∧ 0 < H
  · rw [if_neg (not_not.2 htarget)]
    cases authoring with
    | none => rfl
    | some canvas =>
      dsimp only
      by_cases hpositive : 0 < canvas.width ∧ 0 < canvas.height
      · have hclose := h canvas rfl hpositive.1 hpositive.2
        rw [if_neg (not_not.2 hpositive), if_pos hclose]
      · rw [if_pos hpositive]
  · rw [if_pos htarget]

/-- **What it is elsewhere**: the whole width and less of the height, or the
whole height and less of the width. -/
theorem letterboxFor_of_not_fills (hW : 0 < W) (hH : 0 < H) (h : ¬ FillsTarget authoring W H) :
    ∃ canvas ∈ authoring, 0 < canvas.width ∧ 0 < canvas.height ∧
      ((W / H < canvas.width / canvas.height ∧
          letterboxFor authoring W H =
            ⟨0, (H - W / (canvas.width / canvas.height)) / 2, W, W / (canvas.width / canvas.height)⟩) ∨
        (canvas.width / canvas.height < W / H ∧
          letterboxFor authoring W H =
            ⟨(W - H * (canvas.width / canvas.height)) / 2, 0, H * (canvas.width / canvas.height), H⟩)) := by
  unfold FillsTarget at h
  push Not at h
  obtain ⟨canvas, hcanvas, hw, hh, hfar⟩ := h
  rw [Option.mem_def.1 hcanvas]
  refine ⟨canvas, rfl, hw, hh, ?_⟩
  have hne : canvas.width / canvas.height ≠ W / H := by
    intro heq
    rw [heq, sub_self, abs_zero] at hfar
    exact absurd aspectTolerance_pos (not_lt.2 hfar)
  unfold letterboxFor
  rw [if_neg (not_not.2 ⟨hW, hH⟩)]
  dsimp only
  rw [if_neg (not_not.2 ⟨hw, hh⟩), if_neg (not_lt.2 hfar)]
  by_cases hwider : canvas.width / canvas.height > W / H
  · exact .inl ⟨hwider, if_pos hwider⟩
  · exact .inr ⟨lt_of_le_of_ne (not_lt.1 hwider) hne, if_neg hwider⟩

/-- **The letterbox is what it should be.** -/
theorem letterboxFor_fits (authoring : Option AuthoringCanvas) (hW : 0 < W) (hH : 0 < H) :
    (letterboxFor authoring W H).Fits authoring W H := by
  by_cases hfills : FillsTarget authoring W H
  · rw [letterboxFor_of_fills hfills]
    have hcentre : ∀ q : ℚ, 0 + q / 2 = q / 2 := fun q => zero_add _
    exact
      { positive := ⟨hW, hH⟩
        inside := ⟨le_refl _, le_refl _, (zero_add W).le, (zero_add H).le⟩
        centred := ⟨hcentre W, hcentre H⟩
        touches := .inl ⟨rfl, rfl⟩
        aspect := fun canvas hcanvas hw hh => .inr ⟨hfills canvas hcanvas hw hh, rfl⟩
        legacy := fun _ => rfl }
  · obtain ⟨canvas, hcanvas, hw, hh, ⟨hwider, hbox⟩ | ⟨hwider, hbox⟩⟩ :=
      letterboxFor_of_not_fills hW hH hfills
    · have haspect : 0 < canvas.width / canvas.height := div_pos hw hh
      have hheight := div_lt_of_wider haspect hH hwider
      have hpositive : 0 < W / (canvas.width / canvas.height) := div_pos hW haspect
      rw [hbox]
      refine
        { positive := ⟨hW, hpositive⟩
          inside := ⟨le_refl _, ?_, (zero_add W).le, ?_⟩
          centred := ⟨zero_add _, ?_⟩
          touches := .inl ⟨rfl, rfl⟩
          aspect := fun other hother _ _ => ?_
          legacy := fun hnone => absurd ⟨canvas, hcanvas, hw, hh⟩ hnone }
      · dsimp only
        linarith
      · dsimp only
        linarith
      · dsimp only
        ring
      · obtain rfl : canvas = other := Option.some.inj (hcanvas.symm.trans hother)
        refine .inl ?_
        dsimp only
        field_simp
    · have haspect : 0 < canvas.width / canvas.height := div_pos hw hh
      have hwidth := mul_lt_of_taller hH hwider
      have hpositive : 0 < H * (canvas.width / canvas.height) := mul_pos hH haspect
      rw [hbox]
      refine
        { positive := ⟨hpositive, hH⟩
          inside := ⟨?_, le_refl _, ?_, (zero_add H).le⟩
          centred := ⟨?_, zero_add _⟩
          touches := .inr ⟨rfl, rfl⟩
          aspect := fun other hother _ _ => ?_
          legacy := fun hnone => absurd ⟨canvas, hcanvas, hw, hh⟩ hnone }
      · dsimp only
        linarith
      · dsimp only
        linarith
      · dsimp only
        ring
      · obtain rfl : canvas = other := Option.some.inj (hcanvas.symm.trans hother)
        refine .inl ?_
        dsimp only
        field_simp

/-- **Where the target is not filled, a bar is left on one side.** -/
theorem bar_of_not_fills (hW : 0 < W) (hH : 0 < H) (h : ¬ FillsTarget authoring W H) :
    ((letterboxFor authoring W H).x = 0 ∧ (letterboxFor authoring W H).width = W ∧
        0 < (letterboxFor authoring W H).y) ∨
      ((letterboxFor authoring W H).y = 0 ∧ (letterboxFor authoring W H).height = H ∧
        0 < (letterboxFor authoring W H).x) := by
  obtain ⟨canvas, -, hw, hh, ⟨hwider, hbox⟩ | ⟨hwider, hbox⟩⟩ := letterboxFor_of_not_fills hW hH h
  · have haspect : 0 < canvas.width / canvas.height := div_pos hw hh
    have hheight := div_lt_of_wider haspect hH hwider
    rw [hbox]
    refine .inl ⟨rfl, rfl, ?_⟩
    dsimp only
    linarith
  · have hwidth := mul_lt_of_taller hH hwider
    rw [hbox]
    refine .inr ⟨rfl, rfl, ?_⟩
    dsimp only
    linarith

/-! ## What lies alike -/

/-- **A drawn image is where it belongs just when its frame lies alike.** -/
theorem sceneImage_placed_iff (box : Letterbox) (layer : DesignLayer) (W H : ℚ) :
    ((sceneImage layer W H).box, (sceneImage layer W H).frame) = box.placed layer ↔
      box.Alike W H layer := by
  unfold sceneImage Letterbox.placed Letterbox.Alike
  dsimp only
  by_cases hshape : effectiveShape layer.shape layer.crop layer.shapeSrc = .none
  · rw [if_pos hshape, if_pos hshape]
    simp
  · rw [if_neg hshape, if_neg hshape]
    simp only [Prod.mk.injEq, Option.some.injEq]
    refine ⟨fun h => h.2, fun h => ⟨?_, h⟩⟩
    rw [← h]
    rfl

theorem alike_full (layer : DesignLayer) (W H : ℚ) : (Letterbox.full W H).Alike W H layer := by
  unfold Letterbox.Alike Letterbox.full Box.moved
  simp

/-- **A text lies alike just when the bars are above and below, its box has no
height, and it stands in the middle of it.** -/
theorem text_alike_iff (hW : 0 < W) (hH : 0 < H) (h : ¬ FillsTarget authoring W H) :
    (resolveSceneText text.design W H text.value).box =
        (letterboxFor authoring W H).placedText text ↔
      (letterboxFor authoring W H).x = 0 ∧ text.design.hPct.getD 0 = 0 ∧
        text.design.yPct = 1 / 2 := by
  have hfits := letterboxFor_fits authoring hW hH
  have hwidth : orElse text.design.wPct (1 / 2) ≠ 0 := by
    unfold orElse
    split_ifs with hzero
    · norm_num
    · exact hzero
  obtain ⟨hx, hw, hy⟩ | ⟨hy, hh, hx⟩ := bar_of_not_fills hW hH h
  · -- The box is as wide as the target, and lower by two bars.
    have hbars : H - (letterboxFor authoring W H).height = 2 * (letterboxFor authoring W H).y := by
      have hcentre := hfits.centred.2
      linarith
    unfold Letterbox.placedText SceneText.box resolveSceneText Box.moved
    simp only [hx, hw, true_and, Box.mk.injEq, add_zero]
    constructor
    · rintro ⟨hcentre, hheight⟩
      have hflat : text.design.hPct.getD 0 = 0 := by
        have hzero : text.design.hPct.getD 0 * (2 * (letterboxFor authoring W H).y) = 0 := by
          rw [← hbars, mul_sub]
          linarith
        exact (mul_eq_zero.1 hzero).resolve_right (mul_pos two_pos hy).ne'
      refine ⟨hflat, ?_⟩
      have hscaled : text.design.yPct * (2 * (letterboxFor authoring W H).y) =
          (letterboxFor authoring W H).y := by
        rw [hflat] at hcentre
        rw [← hbars, mul_sub]
        linarith
      have hmiddle : (text.design.yPct - 1 / 2) * (letterboxFor authoring W H).y = 0 := by
        linarith
      have hzero := (mul_eq_zero.1 hmiddle).resolve_right hy.ne'
      linarith
    · rintro ⟨hflat, hmiddle⟩
      rw [hflat, hmiddle]
      constructor
      · linarith
      · ring
  · -- Its height is the target's, and it is narrower.
    have hne : (letterboxFor authoring W H).width ≠ W := by
      intro hsame
      have hcentre := hfits.centred.1
      rw [hsame] at hcentre
      linarith
    refine iff_of_false (fun heq => ?_) (fun h => hx.ne' h.1)
    have hbox := congrArg Box.w heq
    exact hne (mul_left_cancel₀ hwidth hbox).symm

/-! ## The scene -/

/-- **A scene honours its letterbox just when every drawn layer and every text
lies alike on the target and in the box.** -/
theorem honours_iff_alike (hW : input.width ≠ 0) (hH : input.height ≠ 0) :
    Honours input ↔
      (∀ group ∈ input.groups, ∀ layer ∈ group.drawn,
        (letterboxFor input.authoring input.width input.height).Alike input.width input.height
          layer) ∧
      ∀ text ∈ input.textOptions,
        (resolveSceneText text.design input.width input.height text.value).box =
          (letterboxFor input.authoring input.width input.height).placedText text := by
  unfold Honours buildScene
  rw [orElse_of_ne hW, orElse_of_ne hH]
  dsimp only
  have happend : ∀ {α : Type} {s t s' t' : List α}, s.length = s'.length →
      (s ++ t = s' ++ t' ↔ s = s' ∧ t = t') := fun hlength =>
    ⟨fun h => List.append_inj h hlength, fun h => by rw [h.1, h.2]⟩
  rw [List.map_append, List.map_map, List.map_map,
    happend (by rw [List.length_map, List.length_map]), List.map_inj_left, List.map_inj_left]
  refine and_congr (forall₂_congr fun group _ => ?_) (forall₂_congr fun text _ => ?_)
  · rw [Function.comp_apply, List.map_map, Prod.mk.injEq, List.map_nil, eq_self_iff_true, and_true,
      List.map_inj_left]
    exact forall₂_congr fun layer _ => sceneImage_placed_iff _ layer _ _
  · simp only [Function.comp_apply, List.map_nil, List.map_cons, Prod.mk.injEq, true_and,
      List.cons.injEq, and_true]

/-- A layer of half the width, centred in the corner. -/
def cornered : DesignLayer where
  name := "corner"
  src := "corner.png"
  natW := 1
  natH := 1
  pos := ⟨0, 0, 1 / 2, 1 / 2⟩
  rot := none
  style := some .free
  opacity := none
  shape := none
  shapeSrc := none
  crop := none
  visible := some true

/-! ## A square design on a tall product -/

/-- A layer of half the width above the middle, composed on a square. -/
def squareDesign (width height : ℚ) : SceneInput where
  width := width
  height := height
  groups := [⟨"choice", [{ cornered with pos := ⟨1 / 2, 1 / 4, 1 / 2, 1 / 2⟩ }], true⟩]
  authoring := some ⟨1000, 1000⟩

end Optionia.Design
