import Optionia.Design.Composing
/-!
# What is composed is drawn, and saved

A design is a backdrop and overlays that fit their styles (`Scene`). Every act
that is as asked leaves it one, undo and redo come back to one, and of one
every overlay is drawn as it is composed, and what is saved opens as it was.
-/

namespace Optionia.Design

open Runs

/-- The layer of a background, up to its id. -/
def backdrop (background : Option DesignImage) (cw ch : ℚ) : List EditorLayer :=
  match background with
  | some b => if b.src = "" then [] else [(DesignStore.backgroundLayer b cw ch "").forget]
  | none => []

/-- **A design that is drawn as it is composed**: the canvas that its
background gives it, the background, and overlays that fit their styles. -/
structure Scene (background : Option DesignImage) (layers : List EditorLayer) (cw ch : ℚ) :
    Prop where
  width : 0 < cw
  height : 0 < ch
  canvas : ∀ b ∈ background, b.src ≠ "" →
    b.HasSize ∧ cw = canvasWidth b.natW b.natH ∧ ch = canvasBaseH
  layers : ∃ backs overlays, layers = backs ++ overlays ∧
    backs.map (·.forget) = backdrop background cw ch ∧ ∀ layer ∈ overlays, Composed cw ch layer

section Scene

variable {background : Option DesignImage} {layers layers' : List EditorLayer} {cw ch : ℚ}
variable {layer layer' : EditorLayer} {place : ℕ}

theorem kind_of_mem_backdrop (h : layer ∈ backdrop background cw ch) : layer.kind = .background := by
  unfold backdrop at h
  split at h
  · split_ifs at h
    · simp at h
    · rw [List.mem_singleton.1 h]
      rfl
  · simp at h

theorem shape_of_mem_backdrop (h : layer ∈ backdrop background cw ch) : layer.shape = .none := by
  unfold backdrop at h
  split at h
  · split_ifs at h
    · simp at h
    · rw [List.mem_singleton.1 h]
      rfl
  · simp at h

theorem kind_of_mem_backs {backs : List EditorLayer}
    (h : backs.map (·.forget) = backdrop background cw ch) (hmem : layer ∈ backs) :
    layer.kind = .background := by
  have hforget : layer.forget ∈ backdrop background cw ch := h ▸ List.mem_map_of_mem hmem
  have hkind : layer.forget.kind = .background := kind_of_mem_backdrop hforget
  exact hkind

theorem backdrop_eq_nil (h : ¬ SetsCanvas background) : backdrop background cw ch = [] := by
  unfold backdrop
  split
  · rename_i b
    by_cases hsrc : b.src = ""
    · exact if_pos hsrc
    · exact absurd ⟨b, rfl, hsrc⟩ h
  · rfl

theorem length_le_one_of_backs {backs : List EditorLayer}
    (h : backs.map (·.forget) = backdrop background cw ch) : backs.length ≤ 1 := by
  have hle : (backdrop background cw ch).length ≤ 1 := by
    unfold backdrop
    split
    · split_ifs <;> simp
    · simp
  rwa [← h, List.length_map] at hle

theorem Scene.composed (h : Scene background layers cw ch) (hmem : layer ∈ layers)
    (hkind : layer.kind = .layer) : Composed cw ch layer := by
  obtain ⟨backs, overlays, rfl, hbacks, hoverlays⟩ := h.layers
  obtain hmem | hmem := List.mem_append.1 hmem
  · rw [kind_of_mem_backs hbacks hmem] at hkind
    exact absurd hkind (by decide)
  · exact hoverlays layer hmem

theorem Scene.shape_background (h : Scene background layers cw ch) (hmem : layer ∈ layers)
    (hkind : layer.kind = .background) : layer.shape = .none := by
  obtain ⟨backs, overlays, rfl, hbacks, hoverlays⟩ := h.layers
  obtain hmem | hmem := List.mem_append.1 hmem
  · have hforget : layer.forget ∈ backdrop background cw ch := hbacks ▸ List.mem_map_of_mem hmem
    have hshape : layer.forget.shape = .none := shape_of_mem_backdrop hforget
    exact hshape
  · rw [(hoverlays layer hmem).kind] at hkind
    exact absurd hkind (by decide)

theorem Scene.background_of_find (h : Scene background layers cw ch) {p : EditorLayer → Bool}
    (hmem : layer ∈ layers) (hkind : layer.kind = .background) (hp : p layer = true)
    (hfind : layers.find? p = some layer') : layer'.kind = .background := by
  obtain ⟨backs, overlays, rfl, hbacks, hoverlays⟩ := h.layers
  have hback : layer ∈ backs := by
    obtain hmem | hmem := List.mem_append.1 hmem
    · exact hmem
    · rw [(hoverlays layer hmem).kind] at hkind
      exact absurd hkind (by decide)
  rw [List.find?_append] at hfind
  cases hfound : backs.find? p with
  | none => exact absurd hp (List.find?_eq_none.1 hfound layer hback)
  | some found =>
    rw [hfound] at hfind
    obtain rfl := Option.some.inj hfind
    exact kind_of_mem_backs hbacks (List.mem_of_find?_eq_some hfound)

theorem Scene.overlays (h : Scene background layers cw ch) {backs overlays : List EditorLayer}
    (hlayers : layers' = backs ++ overlays) (hbacks : backs.map (·.forget) = backdrop background cw ch)
    (hoverlays : ∀ layer ∈ overlays, Composed cw ch layer) : Scene background layers' cw ch :=
  { h with layers := ⟨backs, overlays, hlayers, hbacks, hoverlays⟩ }

/-- **One layer is written.** -/
theorem Scene.set (h : Scene background layers cw ch) (hget : layers[place]? = some layer)
    (hbackground : layer.kind = .background → layer'.forget = layer.forget)
    (hlayer : layer.kind = .layer → Composed cw ch layer') :
    Scene background (layers.set place layer') cw ch := by
  obtain ⟨backs, overlays, rfl, hbacks, hoverlays⟩ := h.layers
  rw [List.set_append]
  by_cases hlt : place < backs.length
  · rw [if_pos hlt]
    rw [List.getElem?_append_left hlt] at hget
    have hsame : layer'.forget = layer.forget :=
      hbackground (kind_of_mem_backs hbacks (List.mem_of_getElem? hget))
    refine h.overlays rfl ?_ hoverlays
    rw [List.map_set, hsame, ← hbacks]
    have hforget : (backs.map (·.forget))[place]? = some layer.forget := by
      rw [List.getElem?_map, hget]
      rfl
    obtain ⟨hlt', heq⟩ := List.getElem?_eq_some_iff.1 hforget
    rw [← heq, List.set_getElem_self]
  · rw [if_neg hlt]
    rw [List.getElem?_append_right (not_lt.1 hlt)] at hget
    refine h.overlays rfl hbacks fun other hother => ?_
    obtain hother | rfl := List.mem_or_eq_of_mem_set hother
    · exact hoverlays other hother
    · exact hlayer (hoverlays layer (List.mem_of_getElem? hget)).kind

theorem Scene.append (h : Scene background layers cw ch) (hlayer : Composed cw ch layer) :
    Scene background (layers ++ [layer]) cw ch := by
  obtain ⟨backs, overlays, rfl, hbacks, hoverlays⟩ := h.layers
  refine h.overlays (List.append_assoc _ _ _) hbacks fun other hother => ?_
  obtain hother | hother := List.mem_append.1 hother
  · exact hoverlays other hother
  · rw [List.mem_singleton.1 hother]
    exact hlayer

theorem Scene.insert (h : Scene background layers cw ch) (hle : place ≤ layers.length)
    (hplace : ¬ SetsCanvas background ∨ 0 < place) (hlayer : Composed cw ch layer) :
    Scene background (layers.insertIdx place layer) cw ch := by
  obtain ⟨backs, overlays, rfl, hbacks, hoverlays⟩ := h.layers
  have hlength := length_le_one_of_backs hbacks
  have hmem : ∀ place, place ≤ overlays.length →
      ∀ other ∈ overlays.insertIdx place layer, Composed cw ch other := by
    intro place hle other hother
    obtain rfl | hother := (List.mem_insertIdx hle).1 hother
    · exact hlayer
    · exact hoverlays other hother
  cases backs with
  | nil => exact h.overlays rfl hbacks (hmem place hle)
  | cons back rest =>
    obtain rfl : rest = [] := List.length_eq_zero_iff.1 (Nat.le_zero.1 (Nat.le_of_succ_le_succ hlength))
    cases place with
    | zero =>
      -- There is a backdrop, and nothing goes below it.
      obtain hnot | hpos := hplace
      · rw [backdrop_eq_nil hnot] at hbacks
        exact absurd hbacks (List.cons_ne_nil _ _)
      · exact absurd hpos (lt_irrefl 0)
    | succ place => exact h.overlays rfl hbacks (hmem place (Nat.le_of_succ_le_succ hle))

theorem Scene.filter (h : Scene background layers cw ch) {p : EditorLayer → Bool}
    (hbackground : ∀ layer ∈ layers, layer.kind = .background → p layer = true) :
    Scene background (layers.filter p) cw ch := by
  obtain ⟨backs, overlays, rfl, hbacks, hoverlays⟩ := h.layers
  rw [List.filter_append]
  refine h.overlays rfl ?_ fun other hother => hoverlays other (List.mem_filter.1 hother).1
  rw [List.filter_eq_self.2, hbacks]
  exact fun back hback => hbackground back (List.mem_append_left _ hback)
    (kind_of_mem_backs hbacks hback)

/-- **The layers are put in another order**, the background first. -/
theorem Scene.backgroundFirst (h : Scene background layers cw ch) (hperm : layers'.Perm layers) :
    Scene background (DesignStore.backgroundFirst layers') cw ch := by
  obtain ⟨backs, overlays, rfl, hbacks, hoverlays⟩ := h.layers
  have hfirst : (DesignStore.backgroundFirst layers').Perm (backs ++ overlays) :=
    (DesignStore.backgroundFirst_perm layers').trans hperm
  have hlength := length_le_one_of_backs hbacks
  cases backs with
  | nil =>
    exact h.overlays rfl hbacks fun layer hlayer => hoverlays layer (hfirst.mem_iff.1 hlayer)
  | cons back more =>
    obtain rfl : more = [] := List.length_eq_zero_iff.1 (Nat.le_zero.1 (Nat.le_of_succ_le_succ hlength))
    have hback : back.kind = .background := kind_of_mem_backs hbacks (List.mem_singleton.2 rfl)
    -- The background is the only one, and comes first.
    have hone : layers'.countP (fun layer => layer.kind = .background) ≤ 1 := by
      have hnone : overlays.countP (fun layer => decide (layer.kind = .background)) = 0 :=
        List.countP_eq_zero.2 fun layer hlayer => by simp [(hoverlays layer hlayer).kind]
      rw [hperm.countP_eq, List.countP_append, hnone]
      exact List.countP_le_length
    have htail := DesignStore.tail_backgroundFirst hone
    have hmem : back ∈ DesignStore.backgroundFirst layers' :=
      hfirst.mem_iff.2 (List.mem_append_left _ (List.mem_singleton.2 rfl))
    obtain ⟨rest, heq⟩ : ∃ rest, DesignStore.backgroundFirst layers' = back :: rest := by
      revert htail hmem
      generalize DesignStore.backgroundFirst layers' = first
      intro htail hmem
      cases first with
      | nil => simp at hmem
      | cons first rest =>
        obtain rfl | hmem := List.mem_cons.1 hmem
        · exact ⟨rest, rfl⟩
        · exact absurd hback (htail back hmem)
    rw [heq] at hfirst ⊢
    have hrest : rest.Perm overlays := List.Perm.cons_inv hfirst
    exact h.overlays (List.singleton_append).symm hbacks fun layer hlayer =>
      hoverlays layer (hrest.mem_iff.1 hlayer)

/-- **Another canvas**, where the background does not set it. -/
theorem Scene.resizeCanvas (h : Scene background layers cw ch) (hnot : ¬ SetsCanvas background)
    {newW newH : ℚ} (hnewW : 0 < newW) (hnewH : 0 < newH) :
    Scene background (layers.map fun layer => layer.resizeCanvas (newW / cw) (newH / ch) newW newH)
      newW newH := by
  obtain ⟨backs, overlays, rfl, hbacks, hoverlays⟩ := h.layers
  obtain rfl : backs = [] := by
    rw [backdrop_eq_nil hnot] at hbacks
    exact List.map_eq_nil_iff.1 hbacks
  refine
    { width := hnewW
      height := hnewH
      canvas := fun b hb hsrc => absurd ⟨b, hb, hsrc⟩ hnot
      layers := ⟨[], _, rfl, (backdrop_eq_nil hnot).symm, ?_⟩ }
  intro layer hlayer
  obtain ⟨was, hwas, rfl⟩ := List.mem_map.1 hlayer
  exact (hoverlays was hwas).resizeCanvas (div_pos hnewW h.width) (div_pos hnewH h.height) hnewW hnewH

end Scene

namespace DesignStore

variable {s t : DesignStore} {background : Option DesignImage}

/-! ## What is opened -/

/-- **A background sets the canvas.** -/
theorem canvas_openBackground (b : DesignImage) (h : b.HasSize) (hsrc : b.src ≠ "")
    (hlayers : s.layers = []) :
    (s.openBackground b).cw = canvasWidth b.natW b.natH ∧
      (s.openBackground b).ch = canvasBaseH ∧
        (s.openBackground b).layers.map (·.forget) =
          backdrop (some b) (canvasWidth b.natW b.natH) canvasBaseH := by
  have hsize : s.setCanvasSize (orElse b.natW 1) (orElse b.natH 1) =
      { s with cw := canvasWidth b.natW b.natH, ch := canvasBaseH } := by
    have hbase : canvasBaseH ≠ 0 := by unfold canvasBaseH; norm_num
    unfold setCanvasSize
    rw [orElse_of_ne h.natW.ne', orElse_of_ne h.natH.ne',
      if_neg (not_or.2 ⟨h.natW.ne', h.natH.ne'⟩)]
    dsimp only
    split_ifs with hsame
    · -- The canvas has the size already.
      have hcw : canvasWidth b.natW b.natH = s.cw := eq_of_div_eq_one hsame.1
      have hch : canvasBaseH = s.ch := eq_of_div_eq_one hsame.2
      rw [hcw, hch]
    · rw [hlayers]
      rfl
  unfold openBackground
  rw [if_neg hsrc, hsize]
  refine ⟨rfl, rfl, ?_⟩
  rw [hlayers]
  simp only [backdrop, if_neg hsrc]
  rfl

/-- What `importDesign` makes of the canvas, before it opens the layers. -/
def opening (s : DesignStore) (background : Option DesignImage) : DesignStore :=
  let s := { s with layers := [], text := none, textSelected := false, selectedId := none }
  match background with
  | some b => s.openBackground b
  | none => s

theorem importDesign_layers (stored : List DesignLayer) :
    (s.importDesign stored background).layers =
      (stored.foldl openLayer (s.opening background)).layers := rfl

theorem openBackground_of_src (b : DesignImage) (hsrc : b.src = "") : s.openBackground b = s :=
  if_pos hsrc

theorem opening_of_not (h : ¬ SetsCanvas background) :
    (s.opening background).cw = s.cw ∧ (s.opening background).ch = s.ch ∧
      (s.opening background).layers = [] := by
  unfold opening
  cases background with
  | none => exact ⟨rfl, rfl, rfl⟩
  | some b =>
    have hsrc : b.src = "" := by
      by_contra hsrc
      exact h ⟨b, rfl, hsrc⟩
    dsimp only
    rw [openBackground_of_src b hsrc]
    exact ⟨rfl, rfl, rfl⟩

theorem opening_of_setsCanvas {b : DesignImage} (h : b.HasSize) (hsrc : b.src ≠ "") :
    (s.opening (some b)).cw = canvasWidth b.natW b.natH ∧
      (s.opening (some b)).ch = canvasBaseH ∧
        (s.opening (some b)).layers.map (·.forget) =
          backdrop (some b) (canvasWidth b.natW b.natH) canvasBaseH :=
  canvas_openBackground b h hsrc rfl

theorem scene_opening (hcw : 0 < s.cw) (hch : 0 < s.ch)
    (h : ∀ b ∈ background, b.src ≠ "" → b.HasSize) :
    Scene background (s.opening background).layers (s.opening background).cw
      (s.opening background).ch := by
  by_cases hsets : SetsCanvas background
  · obtain ⟨b, hb, hsrc⟩ := hsets
    obtain rfl := Option.mem_def.1 hb
    have hsize := h b rfl hsrc
    obtain ⟨hw, hh, hlayers⟩ := opening_of_setsCanvas (s := s) hsize hsrc
    refine
      { width := hw ▸ hsize.canvas
        height := by rw [hh]; unfold canvasBaseH; norm_num
        canvas := ?_
        layers := ⟨_, [], (List.append_nil _).symm, by rw [hlayers, hw, hh], ?_⟩ }
    · intro other hother _
      obtain rfl := Option.some.inj hother
      exact ⟨hsize, hw, hh⟩
    · exact fun layer hlayer => absurd hlayer List.not_mem_nil
  · obtain ⟨hw, hh, hlayers⟩ := opening_of_not (s := s) hsets
    refine
      { width := hw ▸ hcw
        height := hh ▸ hch
        canvas := fun b hb hsrc => absurd ⟨b, hb, hsrc⟩ hsets
        layers := ⟨[], [], hlayers, (backdrop_eq_nil hsets).symm, ?_⟩ }
    exact fun layer hlayer => absurd hlayer List.not_mem_nil

theorem scene_openLayers {stored : List DesignLayer} (h : ∀ layer ∈ stored, layer.HasSize)
    (hs : Scene background s.layers s.cw s.ch) :
    Scene background (stored.foldl openLayer s).layers (stored.foldl openLayer s).cw
      (stored.foldl openLayer s).ch := by
  induction stored generalizing s with
  | nil => exact hs
  | cons layer stored ih =>
    refine ih (fun other hother => h other (List.mem_cons_of_mem _ hother)) (s := s.openLayer layer) ?_
    exact hs.append (composed_open (h layer List.mem_cons_self) hs.width hs.height _)

/-! ## What is drawn and saved -/

/-- **A scene is drawn as it is composed.** -/
theorem drawn_of_scene (h : Scene background s.layers s.cw s.ch) : s.Drawn := by
  intro layer hmem hkind
  have hfitted := (h.composed hmem hkind).fitted
  exact ⟨hfitted.layerRect_eq h.width h.height, effectiveShape_export layer s.cw s.ch⟩

theorem openLayers_export {overlays : List EditorLayer} {cw ch : ℚ} (hcw : 0 < cw) (hch : 0 < ch)
    (h : ∀ layer ∈ overlays, Composed cw ch layer) (htw : t.cw = cw) (hth : t.ch = ch) :
    ((overlays.map fun layer => editorLayerToDesign layer cw ch).foldl openLayer t).layers.map
        (·.forget) = t.layers.map (·.forget) ++ overlays.map (·.forget) := by
  induction overlays generalizing t with
  | nil => simp
  | cons layer overlays ih =>
    have hopen : (t.openLayer (editorLayerToDesign layer cw ch)).layers.map (·.forget) =
        t.layers.map (·.forget) ++ [layer.forget] := by
      subst htw hth
      unfold openLayer
      dsimp only
      rw [List.map_append, List.map_singleton,
        (h layer List.mem_cons_self).open_export hcw hch]
    rw [List.map_cons, List.foldl_cons, ih
      (fun other hother => h other (List.mem_cons_of_mem _ hother)) (t := t.openLayer _) htw hth,
      hopen, List.append_assoc, List.map_cons, List.singleton_append]

/-- **And opens as it was saved.** -/
theorem saved_of_scene (h : Scene background s.layers s.cw s.ch) : s.Saved background := by
  intro t hcanvas
  obtain ⟨backs, overlays, hlayers, hbacks, hoverlays⟩ := h.layers
  have hexport : s.exportDesign = overlays.map fun layer => editorLayerToDesign layer s.cw s.ch := by
    unfold exportDesign
    rw [hlayers, List.filter_append, List.filter_eq_nil_iff.2, List.filter_eq_self.2,
      List.nil_append]
    · intro layer hlayer
      simp [(hoverlays layer hlayer).kind]
    · intro layer hlayer
      simp [kind_of_mem_backs hbacks hlayer]
  obtain ⟨htw, hth, hopened⟩ : (t.opening background).cw = s.cw ∧ (t.opening background).ch = s.ch ∧
      (t.opening background).layers.map (·.forget) = backs.map (·.forget) := by
    rw [hbacks]
    by_cases hsets : SetsCanvas background
    · obtain ⟨b, hb, hsrc⟩ := hsets
      obtain ⟨hsize, hw, hh⟩ := h.canvas b hb hsrc
      obtain rfl := Option.mem_def.1 hb
      rw [hw, hh]
      exact opening_of_setsCanvas hsize hsrc
    · obtain ⟨hw, hh, hnil⟩ := opening_of_not (s := t) hsets
      obtain ⟨hcw, hch⟩ := hcanvas hsets
      exact ⟨hw.trans hcw, hh.trans hch, by rw [hnil, backdrop_eq_nil hsets]; rfl⟩
  rw [importDesign_layers, hexport, openLayers_export h.width h.height hoverlays htw hth, hopened, hlayers,
    List.map_append]

/-! ## What an act leaves -/

/-- A scene, and scenes to come back to. -/
structure Composes (s : DesignStore) (background : Option DesignImage) : Prop where
  scene : Scene background s.layers s.cw s.ch
  history : ∀ snapshot ∈ s.history, Scene background snapshot.layers snapshot.cw snapshot.ch

section Composes

variable {ref : LayerRef} {f : EditorLayer → EditorLayer} {asked : EditorLayer → Prop}

theorem Composes.next (h : s.Composes background) (hhistory : t.history = s.history)
    (hscene : Scene background t.layers t.cw t.ch) : t.Composes background :=
  ⟨hscene, hhistory ▸ h.history⟩

theorem Composes.commit (h : s.Composes background) : s.commit.Composes background where
  scene := h.scene
  history := fun snapshot hmem => by
    obtain hmem | rfl := mem_history_commit hmem
    · exact h.history snapshot hmem
    · exact h.scene

theorem Composes.restart (h : Scene background s.layers s.cw s.ch) :
    s.restart.Composes background :=
  Composes.commit ⟨h, fun _ hmem => absurd hmem List.not_mem_nil⟩

/-- **What is done to one layer**, where it is as asked. -/
theorem Composes.put {layer : EditorLayer} (h : s.Composes background)
    (hresolve : s.resolve ref = some layer) (hspares : s.Spares ref f asked)
    (hf : ∀ layer, Composed s.cw s.ch layer → asked layer → Composed s.cw s.ch (f layer)) :
    (s.put ref (f layer)).Composes background := by
  cases ref with
  | detached _ => exact h
  | inStore place =>
    obtain ⟨hbackground, hlayer⟩ := hspares layer hresolve
    refine h.next rfl (h.scene.set hresolve hbackground fun hkind => ?_)
    exact hf layer (h.scene.composed (List.mem_of_getElem? hresolve) hkind) (hlayer hkind)

theorem Composes.update (h : s.Composes background) (hspares : s.Spares ref f asked)
    (hf : ∀ layer, Composed s.cw s.ch layer → asked layer → Composed s.cw s.ch (f layer)) :
    (s.update ref f).Composes background := by
  unfold DesignStore.update
  cases hresolve : s.resolve ref with
  | none => exact h
  | some layer => exact h.put hresolve hspares hf

theorem Composes.commitUpdate (h : s.Composes background) (hspares : s.Spares ref f asked)
    (hf : ∀ layer, Composed s.cw s.ch layer → asked layer → Composed s.cw s.ch (f layer)) :
    (s.commitUpdate ref f).Composes background := by
  unfold DesignStore.commitUpdate
  cases hresolve : s.resolve ref with
  | none => exact h
  | some layer => exact (h.put hresolve hspares hf).commit

theorem Composes.onSelected (h : s.Composes background) (hspares : s.SparesSelected f asked)
    (hf : ∀ layer, Composed s.cw s.ch layer → asked layer → Composed s.cw s.ch (f layer)) :
    (s.onSelected f).Composes background := by
  unfold DesignStore.onSelected
  cases hplace : s.placeOf s.selectedId with
  | none => exact h
  | some place => exact h.update (hspares place hplace) hf

theorem Composes.spares (h : s.Composes background)
    (hf : ∀ layer, layer.shape = .none → (f layer).forget = layer.forget) :
    s.Spares ref f fun _ => True := by
  cases ref with
  | detached _ => trivial
  | inStore place =>
    refine fun layer hlayer => ⟨fun hkind => hf layer ?_, fun _ => trivial⟩
    exact h.scene.shape_background (List.mem_of_getElem? hlayer) hkind

theorem spares_of_forget (hf : ∀ layer, (f layer).forget = layer.forget) :
    s.Spares ref f fun _ => True := by
  cases ref with
  | detached _ => trivial
  | inStore place => exact fun layer _ => ⟨fun _ => hf layer, fun _ => trivial⟩

theorem Composes.setShapeOn (h : s.Composes background) {shape : LayerShape}
    (hspares : s.Spares ref (fun layer => s.reshape layer shape) fun layer =>
      layer.shape ≠ .image ∧ shape ≠ .image) : (s.setShapeOn ref shape).Composes background := by
  unfold DesignStore.setShapeOn
  cases hresolve : s.resolve ref with
  | none => exact h
  | some layer =>
    have hput : (s.put ref (s.reshape layer shape)).Composes background :=
      h.put (f := fun layer => s.reshape layer shape) hresolve hspares fun layer hlayer hasked =>
        hlayer.reshape h.scene.width h.scene.height hasked.1 hasked.2
    dsimp only
    split_ifs
    · exact Composes.commit (hput.next rfl hput.scene)
    · exact hput.commit

theorem Composes.enterCrop (h : s.Composes background) (id : String) :
    (s.enterCrop id).Composes background := by
  unfold DesignStore.enterCrop
  cases hplace : s.placeOf (some id) with
  | none => exact h
  | some place =>
    dsimp only
    cases hget : s.layers[place]? with
    | none => exact h
    | some layer =>
      dsimp only
      split_ifs with hrefused
      · exact h
      · simp only [not_or] at hrefused
        obtain ⟨hkind, hframed, -⟩ := hrefused
        refine h.next rfl (h.scene.set hget (fun hback => absurd hback hkind) fun hlayer => ?_)
        exact (h.scene.composed (List.mem_of_getElem? hget) hlayer).setCrop hframed _

theorem Composes.duplicateLayer (h : s.Composes background)
    (hfaithful : s.Faithful background (.duplicateLayer ref)) :
    (s.duplicateLayer ref).Composes background := by
  unfold DesignStore.duplicateLayer
  cases hresolve : s.resolve ref with
  | none => exact h
  | some layer =>
    dsimp only
    by_cases hkind : layer.kind = .background
    · rw [if_pos hkind]
      exact h
    · rw [if_neg hkind]
      have hlayer : layer.kind = .layer := by
        cases hk : layer.kind with
        | layer => rfl
        | background => exact absurd hk hkind
      refine Composes.commit (h.next rfl ?_)
      cases ref with
      | inStore place =>
        have hmem := List.mem_of_getElem? hresolve
        have hlt : place < s.layers.length := (List.getElem?_eq_some_iff.1 hresolve).1
        have hcopy := (h.scene.composed hmem hlayer).move (hfaithful layer hresolve hlayer)
        exact h.scene.insert hlt (.inr (Nat.succ_pos place)) (hcopy.setId _)
      | detached other =>
        obtain rfl := Option.some.inj hresolve
        obtain ⟨hfitted, htidy, hnot⟩ := hfaithful hlayer
        have hcopy : Composed s.cw s.ch
            { other with cx := other.cx + duplicateOffset, cy := other.cy + duplicateOffset } :=
          { kind := hlayer
            fitted := hfitted
            tidy := ⟨htidy.name, htidy.shapeSrc, htidy.crop⟩ }
        exact h.scene.insert (Nat.zero_le _) (.inl hnot) (hcopy.setId _)

theorem Composes.removeLayerById (h : s.Composes background) {id : String}
    (hspares : ∀ layer ∈ s.layers, layer.kind = .background → layer.id ≠ id) :
    (s.removeLayerById id).Composes background := by
  have hscene : Scene background (s.layers.filter fun layer => layer.id ≠ id) s.cw s.ch :=
    h.scene.filter fun layer hlayer hkind => decide_eq_true (hspares layer hlayer hkind)
  unfold DesignStore.removeLayerById
  dsimp only
  refine Composes.commit ?_
  split_ifs <;> exact ⟨hscene, h.history⟩

/-- **No background is deleted.** -/
theorem Composes.deleteLayer (h : s.Composes background) (id : String) :
    (s.deleteLayer id).Composes background := by
  unfold DesignStore.deleteLayer
  cases hfind : s.layers.find? fun layer => layer.id = id with
  | none => exact h
  | some layer =>
    dsimp only
    split_ifs with hkind
    · exact h
    · refine h.removeLayerById fun back hback hbackground hid => hkind ?_
      -- It is the first of the layers, and found first.
      exact h.scene.background_of_find hback hbackground (decide_eq_true hid) hfind

theorem Composes.goTo (h : s.Composes background) (hidx : ℤ) : (s.goTo hidx).Composes background := by
  unfold DesignStore.goTo
  cases hget : s.history[hidx.toNat]? with
  | none => exact h.next rfl h.scene
  | some snapshot =>
    have hscene := h.history snapshot (List.mem_of_getElem? hget)
    refine h.next rfl ?_
    unfold restore
    dsimp only
    rw [if_pos ⟨hscene.width.ne', hscene.height.ne'⟩, if_pos ⟨hscene.width.ne', hscene.height.ne'⟩]
    exact hscene

theorem Composes.select (h : s.Composes background) (id : Option String) :
    (s.select id).Composes background := by
  unfold DesignStore.select
  dsimp only
  split_ifs
  · have hleft : ({ s with cropping := none } : DesignStore).Composes background :=
      h.next rfl h.scene
    exact hleft.commit.next rfl hleft.scene
  · exact h.next rfl h.scene

theorem Composes.selectText (h : s.Composes background) : s.selectText.Composes background := by
  unfold DesignStore.selectText
  dsimp only
  split_ifs
  · exact h
  · have hleft : ({ s with cropping := none } : DesignStore).Composes background :=
      h.next rfl h.scene
    exact hleft.commit.next rfl hleft.scene
  · exact h.next rfl h.scene

/-- **The canvas** keeps the size that its background gives it. -/
theorem Composes.setCanvasSize (h : s.Composes background) {natW natH : ℚ}
    (hfaithful : natW ≠ 0 → natH ≠ 0 →
      0 < canvasWidth natW natH ∧ ∀ b ∈ background, b.src ≠ "" →
        canvasWidth natW natH = canvasWidth b.natW b.natH) :
    (s.setCanvasSize natW natH).Composes background := by
  unfold DesignStore.setCanvasSize
  by_cases hzero : natW = 0 ∨ natH = 0
  · rw [if_pos hzero]
    exact h
  · rw [if_neg hzero]
    obtain ⟨hnatW, hnatH⟩ := not_or.1 hzero
    obtain ⟨hpos, hsame⟩ := hfaithful hnatW hnatH
    dsimp only
    split_ifs with hunchanged
    · exact h
    · by_cases hsets : SetsCanvas background
      · -- It has that size already.
        obtain ⟨b, hb, hsrc⟩ := hsets
        obtain ⟨-, hcw, hch⟩ := h.scene.canvas b hb hsrc
        have hwidth : mathRound (canvasBaseH * (natW / natH)) = s.cw :=
          (hsame b hb hsrc).trans hcw.symm
        rw [hwidth, ← hch, div_self h.scene.width.ne', div_self h.scene.height.ne'] at hunchanged
        exact absurd ⟨rfl, rfl⟩ hunchanged
      · have hbase : 0 < canvasBaseH := by unfold canvasBaseH; norm_num
        exact h.next rfl (h.scene.resizeCanvas hsets hpos hbase)

theorem Composes.alignSelected (h : s.Composes background)
    (hspares : s.SparesSelected (fun layer => if s.inCropMode layer then layer else f layer) asked)
    (hf : ∀ layer, Composed s.cw s.ch layer → asked layer → s.inCropMode layer = false →
      Composed s.cw s.ch (f layer)) : (s.alignSelected f).Composes background := by
  unfold DesignStore.alignSelected
  cases hplace : s.placeOf s.selectedId with
  | none => exact h
  | some place =>
    dsimp only
    cases hresolve : s.resolve (.inStore place) with
    | none => exact h
    | some layer =>
      dsimp only
      by_cases hcrop : s.inCropMode layer = true
      · rw [if_pos hcrop]
        exact h
      · rw [if_neg hcrop]
        have hput := h.put hresolve (hspares place hplace)
          fun layer hlayer hasked => by
            split_ifs with hmode
            · exact hlayer
            · exact hf layer hlayer hasked (Bool.eq_false_iff.2 hmode)
        rw [if_neg hcrop] at hput
        unfold DesignStore.commitUpdate
        rw [hresolve]
        exact hput.commit

/-- **An operation that is as asked leaves a scene.** -/
theorem Composes.perform (h : s.Composes background) (operation : Operation)
    (hfaithful : s.Faithful background operation) (hother : ∀ stored b, operation ≠ .importDesign stored b) :
    (s.perform operation).Composes background := by
  have hw := h.scene.width
  have hh := h.scene.height
  cases operation with
  | importDesign stored b => exact absurd rfl (hother stored b)
  | importText stored => exact Composes.restart h.scene
  | addLayer src name natW natH opts =>
    refine Composes.commit (h.next rfl ?_)
    exact h.scene.append { kind := rfl, fitted := hfaithful.1, tidy := hfaithful.2 }
  | duplicateLayer ref => exact h.duplicateLayer hfaithful
  | duplicateSelected =>
    show s.duplicateSelected.Composes background
    unfold DesignStore.duplicateSelected
    cases hplace : s.placeOf s.selectedId with
    | none => exact h
    | some place => exact h.duplicateLayer (hfaithful place hplace)
  | removeLayerById id => exact h.removeLayerById hfaithful
  | deleteLayer id => exact h.deleteLayer id
  | select id => exact h.select id
  | selectText => exact h.selectText
  | addText =>
    show s.addText.Composes background
    unfold DesignStore.addText
    split_ifs
    · exact h.selectText
    · exact Composes.commit (h.next rfl h.scene)
  | removeText =>
    show s.removeText.Composes background
    unfold DesignStore.removeText
    split_ifs
    · exact h
    · exact Composes.commit (h.next rfl h.scene)
  | updateText patch =>
    show (s.updateText patch).Composes background
    unfold DesignStore.updateText
    cases s.text with
    | none => exact h
    | some text => exact Composes.commit (h.next rfl h.scene)
  | nudgeText patch =>
    show (s.nudgeText patch).Composes background
    unfold DesignStore.nudgeText
    cases s.text with
    | none => exact h
    | some text => exact h.next rfl h.scene
  | toggleLock ref =>
    exact h.commitUpdate (spares_of_forget fun _ => rfl) fun _ hlayer _ => hlayer.setLocked _
  | toggleVisible ref => exact h.commitUpdate hfaithful fun _ hlayer _ => hlayer.setVisible _
  | reorderByIds ids =>
    refine Composes.commit (h.next rfl ?_)
    exact h.scene.backgroundFirst (List.mergeSort_perm _ _)
  | setShapeOn ref shape => exact h.setShapeOn hfaithful
  | setStyle style =>
    show (s.setStyle style).Composes background
    unfold DesignStore.setStyle
    cases hplace : s.placeOf s.selectedId with
    | none => exact h
    | some place =>
      refine h.commitUpdate (hfaithful place hplace) fun layer hlayer _ => ?_
      split_ifs
      · exact hlayer
      · exact hlayer.setStyle hw hh style
  | alignH side =>
    refine h.alignSelected hfaithful fun layer hlayer hasked hmode => ?_
    exact hlayer.move (hasked.resolve_left (Bool.eq_false_iff.1 hmode))
  | alignV side =>
    refine h.alignSelected hfaithful fun layer hlayer hasked hmode => ?_
    exact hlayer.move (hasked.resolve_left (Bool.eq_false_iff.1 hmode))
  | enterCrop id => exact h.enterCrop id
  | exitCrop =>
    show s.exitCrop.Composes background
    unfold DesignStore.exitCrop
    split_ifs
    · exact h
    · exact Composes.commit (h.next rfl h.scene)
  | setCropBox ref box =>
    refine h.update (h.spares fun layer hplain => by rw [if_pos hplain]) fun layer hlayer _ => ?_
    split_ifs with hframed
    · exact hlayer
    · exact hlayer.setCrop hframed _
  | setInnerRotation ref deg =>
    refine h.update (h.spares fun layer hplain => by rw [if_pos hplain]) fun layer hlayer _ => ?_
    split_ifs with hframed
    · exact hlayer
    · exact hlayer.setCrop hframed _
  | setRotation deg => exact h.onSelected hfaithful fun _ hlayer hasked => hlayer.rotate hasked
  | setOpacity pct => exact h.onSelected hfaithful fun _ hlayer _ => hlayer.setOpacity _
  | nudge dx dy =>
    refine h.onSelected hfaithful fun layer hlayer hasked => ?_
    split_ifs with hlocked
    · exact hlayer
    · exact hlayer.move (hasked.resolve_left hlocked)
  | setBg colour => exact Composes.commit (h.next rfl h.scene)
  | setChecker on => exact Composes.commit (h.next rfl h.scene)
  | commit => exact h.commit
  | undo =>
    show s.undo.Composes background
    unfold DesignStore.undo
    split_ifs
    · exact h.goTo _
    · exact h
  | redo =>
    show s.redo.Composes background
    unfold DesignStore.redo
    split_ifs
    · exact h.goTo _
    · exact h

/-- **A design that is opened is a scene**, whatever was open before. -/
theorem composes_importDesign (hcw : 0 < s.cw) (hch : 0 < s.ch) {stored : List DesignLayer}
    (hbackground : ∀ b ∈ background, b.src ≠ "" → b.HasSize)
    (hstored : ∀ layer ∈ stored, layer.HasSize) :
    (s.importDesign stored background).Composes background :=
  Composes.restart (scene_openLayers hstored (scene_opening hcw hch hbackground))

end Composes

end DesignStore

/-! ## Runs -/

namespace Session

variable {cosine sine : ℚ → ℚ} {session : Session}

theorem composes_step (act : Act) (hfaithful : session.Faithful cosine sine act)
    (h : session.store.Composes session.background) :
    (session.step cosine sine act).store.Composes (session.step cosine sine act).background := by
  cases act with
  | operation operation =>
    by_cases himport : ∃ stored b, operation = .importDesign stored b
    · obtain ⟨stored, b, rfl⟩ := himport
      exact DesignStore.composes_importDesign h.scene.width h.scene.height hfaithful.1 hfaithful.2
    · have hother : ∀ stored b, operation ≠ .importDesign stored b :=
        fun stored b heq => himport ⟨stored, b, heq⟩
      have hbackground : (session.step cosine sine (.operation operation)).background =
          session.background := by
        cases operation <;> first | rfl | exact absurd rfl (hother _ _)
      rw [hbackground]
      exact h.perform operation hfaithful hother
  | resize ref dx dy dir => exact h.update hfaithful fun _ hlayer hasked => hlayer.resize hasked
  | setCanvasSize natW natH => exact h.setCanvasSize hfaithful

/-- **What is composed is drawn, and saving loses nothing**, in every state that
a run reaches from a design that is opened, where every act is as asked. -/
theorem drawn_and_saved (hcw : 0 < session.store.cw) (hch : 0 < session.store.ch)
    {stored : List DesignLayer} {background : Option DesignImage} {acts : List Act}
    (hthroughout : Throughout (step cosine sine) (Session.Faithful cosine sine) session
      (.operation (.importDesign stored background) :: acts)) :
    ∀ before after, acts = before ++ after →
      let reached := run (step cosine sine) session
        (.operation (.importDesign stored background) :: before)
      reached.store.Drawn ∧ reached.store.Saved reached.background := by
  rintro before after rfl
  obtain ⟨⟨hbackground, hstored⟩, hrest⟩ := hthroughout
  have hopened := DesignStore.composes_importDesign hcw hch hbackground hstored
  have hreached := invariant (I := fun session : Session => session.store.Composes session.background)
    (fun _ act hact h => composes_step act hact h) (Throughout.of_prefix hrest ⟨after, rfl⟩) hopened
  exact ⟨DesignStore.drawn_of_scene hreached.scene, DesignStore.saved_of_scene hreached.scene⟩

def picture (style : LayerStyle) : DesignLayer where
  name := "Cat"
  src := "cat.png"
  natW := 200
  natH := 100
  pos := ⟨1 / 2, 1 / 2, 1 / 2, 1 / 4⟩
  rot := none
  style := some style
  opacity := none
  shape := none
  shapeSrc := none
  crop := none
  visible := none

/-- What the merchant does with a free one: a handle is dragged, the picture is
put in a circle, and the canvas gets another size. -/
def tour : List Act :=
  [.operation (.importDesign [picture .free] none), .resize (.inStore 0) 8 0 "e",
    .operation (.setShapeOn (.inStore 0) .circle), .setCanvasSize 300 200]

theorem spares_of_get {s : DesignStore} {place : ℕ} {f : EditorLayer → EditorLayer}
    {asked : EditorLayer → Prop} [DecidablePred asked]
    (h : (s.layers[place]?).all fun layer => layer.kind = .layer ∧ asked layer) :
    s.Spares (.inStore place) f asked := by
  intro layer hlayer
  obtain ⟨hkind, hasked⟩ := of_decide_eq_true ((Option.all_eq_true _ _).1 h layer hlayer)
  exact ⟨fun hback => absurd (hkind.symm.trans hback) (by decide), fun _ => hasked⟩

theorem drawn_and_saved_shown :
    let reached := run (step (fun _ => 1) (fun _ => 0)) (fresh 0) tour
    reached.store.Drawn ∧ reached.store.Saved reached.background := by
  have hthroughout : Throughout (step (fun _ => 1) (fun _ => 0))
      (Session.Faithful (fun _ => 1) (fun _ => 0)) (fresh 0) tour := by
    refine ⟨⟨?_, ?_⟩, ?_, ?_, ?_, trivial⟩
    · exact fun b hb => absurd hb (by simp)
    · intro layer hlayer
      rw [List.mem_singleton.1 hlayer]
      exact ⟨by norm_num [picture], by norm_num [picture], by norm_num [picture]⟩
    · exact spares_of_get (by decide +kernel)
    · exact spares_of_get (by decide +kernel)
    · exact fun _ _ =>
        ⟨by decide +kernel, fun b hb => absurd (show none = some b from hb) (by simp)⟩
  exact drawn_and_saved (by decide +kernel) (by decide +kernel) hthroughout tour.tail [] rfl

/-- A picture that covers the canvas is moved with the arrow keys, and drawn
where it was. -/
theorem nudged_cover : ¬ ∀ before after : List Act,
    [.operation (.nudge 10 0)] = before ++ after →
    let reached := run (step (fun _ => 1) (fun _ => 0)) (fresh 0)
      (.operation (.importDesign [picture .cover] none) :: before)
    reached.store.Drawn ∧ reached.store.Saved reached.background := by
  intro hall
  have hdrawn := (hall [.operation (.nudge 10 0)] [] rfl).1
  obtain ⟨layer, hmem, hkind, hmoved⟩ : ∃ layer ∈ (run (step (fun _ => 1) (fun _ => 0)) (fresh 0)
      [.operation (.importDesign [picture .cover] none), .operation (.nudge 10 0)]).store.layers,
      layer.kind = .layer ∧ (layerRect (editorLayerToDesign layer 392 464) 392 464).cx ≠ layer.cx := by
    decide +kernel
  exact hmoved (congrArg LayerRect.cx (hdrawn layer hmem hkind).1)

end Session

end Optionia.Design
