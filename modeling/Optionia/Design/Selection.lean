import Optionia.Design.Store
import Optionia.Lib.Runs
import Std.Data.String.ToNat
import Mathlib.Data.List.InsertIdx
import Mathlib.Data.List.Nodup
import Mathlib.Data.List.Perm.Basic
/-!
# What is selected, and what is cropped

The store keeps the layers, the text, the selection and the layer in crop mode
apart, and each operation writes some of them. Undo and redo put back what a
snapshot keeps, and a snapshot does not keep the crop mode; and not every
operation that selects another layer ends it. So the five agree in every state
exactly in the runs whose operations see to the rest (`sound_iff_heeds`).
-/

namespace Optionia.Design

open Runs

/-- A layer that can be cropped. -/
structure EditorLayer.Croppable (layer : EditorLayer) : Prop where
  framed : layer.shape ≠ .none
  unlocked : layer.locked = false

/-- The layer in crop mode is there, can be cropped, and is the selected one. -/
def FitsCrop (cropping selectedId : Option String) (layers : List EditorLayer) : Prop :=
  ∀ id ∈ cropping, selectedId = some id ∧ ∃ layer ∈ layers, layer.id = id ∧ layer.Croppable

namespace DesignStore

/-- **What is asked of every state.** -/
structure Sound (s : DesignStore) : Prop where
  ids : (s.layers.map (·.id)).Nodup
  background : ∀ layer ∈ s.layers.tail, layer.kind ≠ .background
  selected : ∀ id ∈ s.selectedId, ∃ layer ∈ s.layers, layer.id = id
  /-- A selected text is there, and no layer is selected with it. -/
  text : s.textSelected = true → s.text ≠ none ∧ s.selectedId = none
  cropping : FitsCrop s.cropping s.selectedId s.layers

/-- The snapshot that undo or redo goes to fits the crop mode. -/
def GoesWell (s : DesignStore) (hidx : ℤ) : Prop :=
  ∀ snapshot ∈ s.history[hidx.toNat]?, FitsCrop s.cropping snapshot.selectedId snapshot.layers

/-- **An operation sees to what the code does not**: no layer is opened, added
or duplicated, and no first text is added, while one is cropped; the layer in
crop mode is not locked; a layer that is selected is there; one that is
duplicated is of the store, or the store has no background; and undo and redo
go to a snapshot that fits the crop mode. -/
def Heeds (s : DesignStore) : Operation → Prop
  | .importDesign .. | .addLayer .. => s.cropping = none
  | .duplicateLayer ref => ∀ layer ∈ s.resolve ref, layer.kind ≠ .background →
      s.cropping = none ∧
        (ref = .detached layer → ∀ other ∈ s.layers, other.kind ≠ .background)
  | .duplicateSelected => ∀ place ∈ s.placeOf s.selectedId, ∀ layer ∈ s.layers[place]?,
      layer.kind ≠ .background → s.cropping = none
  | .select id => ∀ i ∈ id, ∃ layer ∈ s.layers, layer.id = i
  | .addText => s.text = none → s.cropping = none
  | .toggleLock (.inStore place) => ∀ layer ∈ s.layers[place]?, s.cropping ≠ some layer.id
  | .undo => 0 < s.hidx → s.GoesWell (s.hidx - 1)
  | .redo => s.hidx < s.history.length - 1 → s.GoesWell (s.hidx + 1)
  | .toggleLock (.detached _) | .importText _ | .removeLayerById _ | .deleteLayer _ | .selectText
  | .removeText | .updateText _ | .nudgeText _ | .toggleVisible _ | .reorderByIds _ | .setShapeOn ..
  | .setStyle _ | .alignH _ | .alignV _ | .enterCrop _ | .exitCrop | .setCropBox ..
  | .setInnerRotation .. | .setRotation _ | .setOpacity _ | .nudge .. | .setBg _ | .setChecker _
  | .commit => True

end DesignStore

/-! ## Ids -/

theorem layerId_injective {m n : ℕ} (h : layerId m = layerId n) : m = n := by
  unfold layerId at h
  have hrepr : m.repr = n.repr := by
    have hlist := congrArg String.toList h
    rw [String.toList_append, String.toList_append] at hlist
    exact String.toList_injective (List.append_cancel_left hlist)
  exact Nat.repr_injective hrepr

/-- An id that was given out. -/
def Issued (counter : ℕ) (id : String) : Prop := ∃ k ≤ counter, id = layerId k

theorem Issued.mono {counter counter' : ℕ} {id : String} (h : Issued counter id)
    (hle : counter ≤ counter') : Issued counter' id := by
  obtain ⟨k, hk, rfl⟩ := h
  exact ⟨k, hk.trans hle, rfl⟩

theorem issued_next (counter : ℕ) : Issued (counter + 1) (layerId (counter + 1)) :=
  ⟨counter + 1, le_rfl, rfl⟩

theorem not_issued_next (counter : ℕ) : ¬ Issued counter (layerId (counter + 1)) := by
  rintro ⟨k, hk, hid⟩
  have := layerId_injective hid
  omega

theorem Issued.ne_next {counter : ℕ} {id : String} (h : Issued counter id) :
    id ≠ layerId (counter + 1) := by
  rintro rfl
  exact not_issued_next counter h

theorem Issued.ne_empty {counter : ℕ} {id : String} (h : Issued counter id) : id ≠ "" := by
  obtain ⟨k, -, rfl⟩ := h
  intro hempty
  have hlist := congrArg String.toList hempty
  rw [layerId, String.toList_append] at hlist
  simp at hlist

/-! ## What a snapshot keeps -/

/-- Which layers there are, and which is the background. -/
def marks (layers : List EditorLayer) : List (String × LayerKind) :=
  layers.map fun layer => (layer.id, layer.kind)

/-- What of a sound state a snapshot keeps. -/
structure Kept (counter : ℕ) (snapshot : Snapshot) : Prop where
  ids : ((marks snapshot.layers).map Prod.fst).Nodup
  issued : ∀ mark ∈ marks snapshot.layers, Issued counter mark.1
  background : ∀ mark ∈ (marks snapshot.layers).tail, mark.2 ≠ .background
  selected : ∀ id ∈ snapshot.selectedId, ∃ mark ∈ marks snapshot.layers, mark.1 = id
  /-- A selected text is there, and no layer is selected with it. -/
  text : snapshot.textSelected = true → snapshot.text ≠ none ∧ snapshot.selectedId = none

section Marks

variable {layers : List EditorLayer} {place : ℕ} {layer layer' : EditorLayer} {id : String}

theorem map_fst_marks : (marks layers).map Prod.fst = layers.map (·.id) := List.map_map

theorem exists_mark : (∃ mark ∈ marks layers, mark.1 = id) ↔ ∃ layer ∈ layers, layer.id = id := by
  simp [marks]

theorem forall_tail_marks {p : LayerKind → Prop} :
    (∀ mark ∈ (marks layers).tail, p mark.2) ↔ ∀ layer ∈ layers.tail, p layer.kind := by
  simp [marks, ← List.map_tail]

theorem length_marks : (marks layers).length = layers.length :=
  List.length_map _

theorem marks_set (hget : layers[place]? = some layer) (hid : layer'.id = layer.id)
    (hkind : layer'.kind = layer.kind) : marks (layers.set place layer') = marks layers := by
  unfold marks
  rw [List.map_set, hid, hkind]
  refine List.ext_getElem? fun i => ?_
  rw [List.getElem?_set]
  split_ifs with h hlt
  · subst h
    rw [List.getElem?_map, hget]
    rfl
  · subst h
    exact (List.getElem?_eq_none (not_lt.1 hlt)).symm
  · rfl

theorem mem_set_of_mem (hmem : layer ∈ layers) :
    layer ∈ layers.set place layer' ∨
      layers[place]? = some layer ∧ layer' ∈ layers.set place layer' := by
  obtain ⟨i, hi⟩ := List.mem_iff_getElem?.1 hmem
  by_cases h : place = i
  · subst h
    have hlt : place < layers.length := (List.getElem?_eq_some_iff.1 hi).1
    exact .inr ⟨hi, List.mem_iff_getElem?.2 ⟨place, by rw [List.getElem?_set_self hlt]⟩⟩
  · exact .inl (List.mem_iff_getElem?.2 ⟨i, by rw [List.getElem?_set_ne h, hi]⟩)

end Marks

/-! ## What a snapshot keeps, from one to the next -/

section Kept

variable {counter counter' : ℕ} {a b : Snapshot}

theorem Kept.mono (h : Kept counter a) (hle : counter ≤ counter') : Kept counter' a :=
  { h with issued := fun mark hmark => (h.issued mark hmark).mono hle }

theorem Kept.congr (h : Kept counter a) (hmarks : marks b.layers = marks a.layers)
    (htext : b.text = a.text) (htextSelected : b.textSelected = a.textSelected)
    (hselectedId : b.selectedId = a.selectedId) : Kept counter b where
  ids := hmarks ▸ h.ids
  issued := hmarks ▸ h.issued
  background := hmarks ▸ h.background
  selected := by rw [hmarks, hselectedId]; exact h.selected
  text := by rw [htext, htextSelected, hselectedId]; exact h.text

theorem Kept.select (h : Kept counter a) (hmarks : marks b.layers = marks a.layers)
    (htextSelected : b.textSelected = false)
    (hselected : ∀ id ∈ b.selectedId, ∃ mark ∈ marks b.layers, mark.1 = id) : Kept counter b where
  ids := hmarks ▸ h.ids
  issued := hmarks ▸ h.issued
  background := hmarks ▸ h.background
  selected := hselected
  text := fun htrue => absurd htrue (by rw [htextSelected]; simp)

theorem Kept.selectText (h : Kept counter a) (hmarks : marks b.layers = marks a.layers)
    (hselectedId : b.selectedId = none) (htext : b.textSelected = true → b.text ≠ none) :
    Kept counter b where
  ids := hmarks ▸ h.ids
  issued := hmarks ▸ h.issued
  background := hmarks ▸ h.background
  selected := by rw [hselectedId]; exact fun id hid => absurd hid (by simp)
  text := fun htrue => ⟨htext htrue, hselectedId⟩

/-- **A new layer** goes above the background. -/
theorem Kept.insert (place : ℕ) (h : Kept counter a)
    (hmarks : marks b.layers =
      (marks a.layers).insertIdx place (layerId (counter + 1), .layer))
    (hle : place ≤ (marks a.layers).length)
    (hplace : 0 < place ∨ ∀ mark ∈ marks a.layers, mark.2 ≠ .background)
    (htextSelected : b.textSelected = false)
    (hselected : ∀ id ∈ b.selectedId, ∃ mark ∈ marks b.layers, mark.1 = id) :
    Kept (counter + 1) b := by
  have hperm : (marks b.layers).Perm ((layerId (counter + 1), .layer) :: marks a.layers) :=
    hmarks ▸ List.perm_insertIdx _ _ hle
  refine
    { ids := ?_
      issued := fun mark hmark => ?_
      background := ?_
      selected := hselected
      text := fun htrue => absurd htrue (by rw [htextSelected]; simp) }
  · rw [(hperm.map Prod.fst).nodup_iff, List.map_cons, List.nodup_cons]
    refine ⟨fun hmem => ?_, h.ids⟩
    obtain ⟨mark, hmark, hid⟩ := List.mem_map.1 hmem
    exact (h.issued mark hmark).ne_next hid
  · obtain rfl | hmark := List.mem_cons.1 (hperm.mem_iff.1 hmark)
    · exact issued_next counter
    · exact (h.issued mark hmark).mono (Nat.le_succ counter)
  · rw [hmarks]
    cases place with
    | zero =>
      obtain hplace | hplace := hplace
      · exact absurd hplace (lt_irrefl 0)
      · exact hplace
    | succ place =>
      have hbackground := h.background
      revert hle hbackground
      cases marks a.layers with
      | nil => exact fun hle => absurd hle (by simp)
      | cons first rest =>
        intro hle hbackground mark hmark
        obtain rfl | hmark := (List.mem_insertIdx (Nat.le_of_succ_le_succ hle)).1 hmark
        · simp
        · exact hbackground mark hmark

theorem Kept.append {layer : EditorLayer} (h : Kept counter a)
    (hlayers : b.layers = a.layers ++ [layer]) (hid : layer.id = layerId (counter + 1))
    (hkind : layer.kind = .layer) (htextSelected : b.textSelected = false)
    (hselected : ∀ id ∈ b.selectedId, ∃ mark ∈ marks b.layers, mark.1 = id) :
    Kept (counter + 1) b := by
  refine h.insert (marks a.layers).length ?_ le_rfl ?_ htextSelected hselected
  · rw [List.insertIdx_length_self, hlayers]
    unfold marks
    rw [List.map_append, List.map_singleton, hid, hkind]
  · obtain hnil | hpos := Nat.eq_zero_or_pos (marks a.layers).length
    · rw [List.length_eq_zero_iff] at hnil
      exact .inr (by rw [hnil]; simp)
    · exact .inl hpos

end Kept

namespace DesignStore

variable {s : DesignStore}

/-- What of a sound state undo and redo can come back to. -/
structure Base (s : DesignStore) : Prop where
  kept : Kept s.counter s.serialize
  history : ∀ snapshot ∈ s.history, Kept s.counter snapshot

/-- What a run preserves. -/
structure Inv (s : DesignStore) : Prop where
  base : s.Base
  cropping : FitsCrop s.cropping s.selectedId s.layers

theorem Base.sound_iff (h : s.Base) : s.Sound ↔ FitsCrop s.cropping s.selectedId s.layers := by
  refine ⟨Sound.cropping, fun hcropping => ?_⟩
  exact
    { ids := map_fst_marks ▸ h.kept.ids
      background := (forall_tail_marks (p := (· ≠ .background))).1 h.kept.background
      selected := fun id hid => exists_mark.1 (h.kept.selected id hid)
      text := h.kept.text
      cropping := hcropping }

theorem Inv.sound (h : s.Inv) : s.Sound := h.base.sound_iff.2 h.cropping

@[simp] theorem commit_layers : s.commit.layers = s.layers := rfl

@[simp] theorem commit_selectedId : s.commit.selectedId = s.selectedId := rfl

@[simp] theorem commit_cropping : s.commit.cropping = s.cropping := rfl

theorem mem_history_commit {snapshot : Snapshot} (h : snapshot ∈ s.commit.history) :
    snapshot ∈ s.history ∨ snapshot = s.serialize := by
  have hmem : snapshot ∈ s.history.take (s.hidx + 1).toNat ++ [s.serialize] := by
    unfold commit at h
    dsimp only at h
    split_ifs at h
    · exact List.mem_of_mem_tail h
    · exact h
  obtain h | h := List.mem_append.1 hmem
  · exact .inl (List.mem_of_mem_take h)
  · exact .inr (List.mem_singleton.1 h)

/-- **A commit keeps a state that is worth coming back to.** -/
theorem Base.commit (h : s.Base) : s.commit.Base where
  kept := h.kept
  history := fun snapshot hmem => by
    obtain hmem | rfl := mem_history_commit hmem
    · exact h.history snapshot hmem
    · exact h.kept

theorem Inv.commit (h : s.Inv) : s.commit.Inv := ⟨h.base.commit, h.cropping⟩

theorem Base.next {s' : DesignStore} (h : s.Base) (hhistory : s'.history = s.history)
    (hcounter : s.counter ≤ s'.counter) (hkept : Kept s'.counter s'.serialize) : s'.Base where
  kept := hkept
  history := fun snapshot hmem => (h.history snapshot (hhistory ▸ hmem)).mono hcounter

theorem Base.restart (hkept : Kept s.counter s.serialize) : s.restart.Base :=
  Base.commit { kept := hkept, history := fun _ hmem => absurd hmem List.not_mem_nil }

/-! ## Operations on one layer -/

section Update

variable {ref : LayerRef} {layer layer' : EditorLayer} {f : EditorLayer → EditorLayer}

theorem marks_put (hresolve : s.resolve ref = some layer) (hid : layer'.id = layer.id)
    (hkind : layer'.kind = layer.kind) : marks (s.put ref layer').layers = marks s.layers := by
  cases ref with
  | inStore place => exact marks_set hresolve hid hkind
  | detached _ => rfl

theorem Base.put (h : s.Base) (hresolve : s.resolve ref = some layer) (hid : layer'.id = layer.id)
    (hkind : layer'.kind = layer.kind) : (s.put ref layer').Base := by
  have hmarks := marks_put hresolve hid hkind
  cases ref with
  | inStore place => exact h.next rfl le_rfl (h.kept.congr hmarks rfl rfl rfl)
  | detached _ => exact h

@[simp] theorem put_cropping : (s.put ref layer').cropping = s.cropping := by
  cases ref <;> rfl

@[simp] theorem put_selectedId : (s.put ref layer').selectedId = s.selectedId := by
  cases ref <;> rfl

theorem fitsCrop_put {cropping selectedId : Option String}
    (h : FitsCrop cropping selectedId s.layers) (hresolve : s.resolve ref = some layer)
    (hid : layer'.id = layer.id)
    (hcroppable : cropping = some layer.id → layer.Croppable → layer'.Croppable) :
    FitsCrop cropping selectedId (s.put ref layer').layers := by
  intro id hcrop
  obtain ⟨hselected, other, hother, rfl, hother'⟩ := h id hcrop
  refine ⟨hselected, ?_⟩
  cases ref with
  | detached _ => exact ⟨other, hother, rfl, hother'⟩
  | inStore place =>
    have hset : other ∈ s.layers.set place layer' ∨
        s.layers[place]? = some other ∧ layer' ∈ s.layers.set place layer' := mem_set_of_mem hother
    obtain hmem | ⟨hget, hmem⟩ := hset
    · exact ⟨other, hmem, rfl, hother'⟩
    · obtain rfl := Option.some.inj (hresolve.symm.trans hget)
      exact ⟨layer', hmem, hid, hcroppable hcrop hother'⟩

/-- **What is done to one layer** leaves a sound state sound, where the layer
in crop mode stays croppable. -/
theorem Inv.put (h : s.Inv) (hresolve : s.resolve ref = some layer) (hid : layer'.id = layer.id)
    (hkind : layer'.kind = layer.kind)
    (hcroppable : s.cropping = some layer.id → layer.Croppable → layer'.Croppable) :
    (s.put ref layer').Inv := by
  refine ⟨h.base.put hresolve hid hkind, ?_⟩
  rw [put_cropping, put_selectedId]
  exact fitsCrop_put h.cropping hresolve hid hcroppable

/-- What leaves a layer's id, kind, frame and lock as they are. -/
structure Gentle (f : EditorLayer → EditorLayer) : Prop where
  id : ∀ layer, (f layer).id = layer.id
  kind : ∀ layer, (f layer).kind = layer.kind
  shape : ∀ layer, (f layer).shape = layer.shape
  locked : ∀ layer, (f layer).locked = layer.locked

theorem Gentle.croppable (hf : Gentle f) (h : layer.Croppable) : (f layer).Croppable :=
  ⟨by rw [hf.shape]; exact h.framed, by rw [hf.locked]; exact h.unlocked⟩

theorem Inv.update (h : s.Inv) (hf : Gentle f) : (s.update ref f).Inv := by
  unfold DesignStore.update
  cases hresolve : s.resolve ref with
  | none => exact h
  | some layer => exact h.put hresolve (hf.id layer) (hf.kind layer) fun _ => hf.croppable

theorem Inv.commitUpdate (h : s.Inv) (hf : Gentle f) : (s.commitUpdate ref f).Inv := by
  unfold DesignStore.commitUpdate
  cases hresolve : s.resolve ref with
  | none => exact h
  | some layer =>
    exact (h.put hresolve (hf.id layer) (hf.kind layer) fun _ => hf.croppable).commit

theorem Inv.onSelected (h : s.Inv) (hf : Gentle f) : (s.onSelected f).Inv := by
  unfold DesignStore.onSelected
  cases s.placeOf s.selectedId with
  | none => exact h
  | some place => exact h.update hf

end Update

theorem gentle_applyStyleGeometry (cw ch : ℚ) :
    Gentle fun layer => applyStyleGeometry layer cw ch := by
  have hall : ∀ layer, (applyStyleGeometry layer cw ch).id = layer.id ∧
      (applyStyleGeometry layer cw ch).kind = layer.kind ∧
      (applyStyleGeometry layer cw ch).shape = layer.shape ∧
      (applyStyleGeometry layer cw ch).locked = layer.locked := by
    intro layer
    unfold applyStyleGeometry
    dsimp only
    split_ifs <;> split <;> exact ⟨rfl, rfl, rfl, rfl⟩
  exact ⟨fun layer => (hall layer).1, fun layer => (hall layer).2.1,
    fun layer => (hall layer).2.2.1, fun layer => (hall layer).2.2.2⟩

theorem gentle_setStyle (s : DesignStore) (style : LayerStyle) : Gentle fun layer =>
    if s.inCropMode layer then layer
    else applyStyleGeometry { layer with style := style } s.cw s.ch := by
  have hstyle := gentle_applyStyleGeometry s.cw s.ch
  refine ⟨fun layer => ?_, fun layer => ?_, fun layer => ?_, fun layer => ?_⟩ <;> split_ifs
  · rfl
  · exact hstyle.id _
  · rfl
  · exact hstyle.kind _
  · rfl
  · exact hstyle.shape _
  · rfl
  · exact hstyle.locked _

theorem Gentle.ite {p : EditorLayer → Prop} [DecidablePred p] {f : EditorLayer → EditorLayer}
    (hf : Gentle f) : Gentle fun layer => if p layer then layer else f layer := by
  refine ⟨fun layer => ?_, fun layer => ?_, fun layer => ?_, fun layer => ?_⟩ <;> split_ifs
  · rfl
  · exact hf.id _
  · rfl
  · exact hf.kind _
  · rfl
  · exact hf.shape _
  · rfl
  · exact hf.locked _

theorem Inv.setStyle (h : s.Inv) (style : LayerStyle) : (s.setStyle style).Inv := by
  unfold DesignStore.setStyle
  cases s.placeOf s.selectedId with
  | none => exact h
  | some place => exact h.commitUpdate (gentle_setStyle s style)

theorem Inv.setRotation (h : s.Inv) (deg : ℚ) : (s.setRotation deg).Inv :=
  h.onSelected ⟨fun _ => rfl, fun _ => rfl, fun _ => rfl, fun _ => rfl⟩

theorem Inv.setOpacity (h : s.Inv) (pct : ℚ) : (s.setOpacity pct).Inv :=
  h.onSelected ⟨fun _ => rfl, fun _ => rfl, fun _ => rfl, fun _ => rfl⟩

theorem Inv.nudge (h : s.Inv) (dx dy : ℚ) : (s.nudge dx dy).Inv :=
  h.onSelected (Gentle.ite (p := fun layer => layer.locked = true)
    ⟨fun _ => rfl, fun _ => rfl, fun _ => rfl, fun _ => rfl⟩)

theorem Inv.alignSelected {f : EditorLayer → EditorLayer} (h : s.Inv) (hf : Gentle f) :
    (s.alignSelected f).Inv := by
  unfold DesignStore.alignSelected
  cases s.placeOf s.selectedId with
  | none => exact h
  | some place =>
    dsimp only
    cases s.resolve (.inStore place) with
    | none => exact h
    | some layer =>
      dsimp only
      split_ifs
      · exact h
      · exact h.commitUpdate hf

theorem Inv.alignH (h : s.Inv) (side : Alignment) : (s.alignH side).Inv :=
  h.alignSelected ⟨fun _ => rfl, fun _ => rfl, fun _ => rfl, fun _ => rfl⟩

theorem Inv.alignV (h : s.Inv) (side : Alignment) : (s.alignV side).Inv :=
  h.alignSelected ⟨fun _ => rfl, fun _ => rfl, fun _ => rfl, fun _ => rfl⟩

theorem Inv.toggleVisible (h : s.Inv) (ref : LayerRef) : (s.toggleVisible ref).Inv :=
  h.commitUpdate ⟨fun _ => rfl, fun _ => rfl, fun _ => rfl, fun _ => rfl⟩

theorem Inv.setCropBox (h : s.Inv) (ref : LayerRef) (box : CropBox) : (s.setCropBox ref box).Inv :=
  h.update (Gentle.ite ⟨fun _ => rfl, fun _ => rfl, fun _ => rfl, fun _ => rfl⟩)

theorem Inv.setInnerRotation (h : s.Inv) (ref : LayerRef) (deg : ℚ) :
    (s.setInnerRotation ref deg).Inv :=
  h.update (Gentle.ite ⟨fun _ => rfl, fun _ => rfl, fun _ => rfl, fun _ => rfl⟩)

/-! ## The frame, the lock and the crop mode of a layer -/

theorem fitsCrop_none {selectedId : Option String} {layers : List EditorLayer} :
    FitsCrop none selectedId layers := fun _ hid => absurd hid (by simp)

theorem reshape_id (layer : EditorLayer) (shape : LayerShape) :
    (s.reshape layer shape).id = layer.id ∧ (s.reshape layer shape).kind = layer.kind ∧
      (s.reshape layer shape).locked = layer.locked := by
  have hstyle := gentle_applyStyleGeometry s.cw s.ch
  unfold reshape
  dsimp only
  split_ifs
  · exact ⟨rfl, rfl, rfl⟩
  · exact ⟨hstyle.id _, hstyle.kind _, hstyle.locked _⟩
  · exact ⟨rfl, rfl, rfl⟩

/-- A layer has no frame after a change of its frame only where it left one. -/
theorem reshape_shape {layer : EditorLayer} {shape : LayerShape}
    (h : (shapeChangeFor layer shape).resetStyle = false) :
    (s.reshape layer shape).shape ≠ .none := by
  have hchange : (shapeChangeFor layer shape).shape ≠ .none := by
    unfold shapeChangeFor at h ⊢
    dsimp only at h ⊢
    split_ifs at h ⊢ with hleaving
    all_goals exact fun hnone => hleaving (.inl hnone)
  have hstyle := gentle_applyStyleGeometry s.cw s.ch
  unfold reshape
  dsimp only
  split_ifs with hreset
  · rw [h] at hreset
    simp at hreset
  · exact fun hnone => hchange ((hstyle.shape _).symm.trans hnone)
  · exact hchange

/-- **A layer that leaves its frame leaves the crop mode.** -/
theorem Inv.setShapeOn (h : s.Inv) (ref : LayerRef) (shape : LayerShape) :
    (s.setShapeOn ref shape).Inv := by
  unfold DesignStore.setShapeOn
  cases hresolve : s.resolve ref with
  | none => exact h
  | some layer =>
    obtain ⟨hid, hkind, hlocked⟩ := reshape_id (s := s) layer shape
    have hbase := h.base.put hresolve hid hkind
    dsimp only
    split_ifs with hleaves
    · exact Inv.commit ⟨hbase.next rfl le_rfl (hbase.kept.congr rfl rfl rfl rfl), fitsCrop_none⟩
    · refine Inv.commit (h.put hresolve hid hkind fun hcropping hcroppable => ?_)
      have hstays : (shapeChangeFor layer shape).resetStyle = false := by
        by_contra hreset
        exact hleaves ⟨by simpa using hreset, hcropping⟩
      exact ⟨reshape_shape hstays, hlocked.trans hcroppable.unlocked⟩

/-- **Which layer is locked matters** to the crop mode alone. -/
theorem Inv.toggleLock_iff (h : s.Inv) (ref : LayerRef) :
    (s.Heeds (.toggleLock ref) → (s.toggleLock ref).Inv) ∧
      ((s.toggleLock ref).Sound → s.Heeds (.toggleLock ref)) := by
  unfold DesignStore.toggleLock DesignStore.commitUpdate
  cases ref with
  | detached layer => exact ⟨fun _ => h.commit, fun _ => trivial⟩
  | inStore place =>
    cases hresolve : s.resolve (.inStore place) with
    | none =>
      have hget : s.layers[place]? = none := hresolve
      refine ⟨fun _ => h, fun _ layer hlayer => ?_⟩
      rw [hget] at hlayer
      simp at hlayer
    | some layer =>
      have hget : s.layers[place]? = some layer := hresolve
      constructor
      · intro hheeds
        refine Inv.commit (h.put hresolve rfl rfl fun hcropping => ?_)
        exact absurd hcropping (hheeds layer hget)
      · intro hsound other hother hcropping
        obtain rfl := Option.some.inj (hget.symm.trans hother)
        obtain ⟨-, was, hwas, hwasId, hwasCroppable⟩ := h.cropping layer.id hcropping
        obtain ⟨-, now, hnow, hnowId, hnowCroppable⟩ := hsound.cropping layer.id hcropping
        -- Ids are its own: the layer that was unlocked is the one that is locked now.
        have hwasEq : was = layer := List.inj_on_of_nodup_map h.sound.ids hwas
          (List.mem_of_getElem? hget) hwasId
        have hlt : place < s.layers.length := (List.getElem?_eq_some_iff.1 hget).1
        have hnowEq : now = { layer with locked := !layer.locked } :=
          List.inj_on_of_nodup_map hsound.ids hnow
            (List.mem_iff_getElem?.2 ⟨place, List.getElem?_set_self hlt⟩) hnowId
        have hlocked := hnowCroppable.unlocked
        rw [hnowEq, ← hwasEq, hwasCroppable.unlocked] at hlocked
        simp at hlocked

theorem placeOf_eq_some {id : Option String} {place : ℕ} (h : s.placeOf id = some place) :
    ∃ layer, s.layers[place]? = some layer ∧ some layer.id = id := by
  obtain ⟨hlt, hid, -⟩ := List.findIdx?_eq_some_iff_getElem.1 h
  exact ⟨_, List.getElem?_eq_getElem hlt, of_decide_eq_true hid⟩

theorem Inv.enterCrop (h : s.Inv) (id : String) : (s.enterCrop id).Inv := by
  unfold DesignStore.enterCrop
  cases hplace : s.placeOf (some id) with
  | none => exact h
  | some place =>
    obtain ⟨layer, hget, hid⟩ := placeOf_eq_some hplace
    obtain rfl := Option.some.inj hid
    dsimp only
    rw [hget]
    dsimp only
    split_ifs with hrefused
    · exact h
    · simp only [not_or, Bool.not_eq_true] at hrefused
      obtain ⟨-, hframed, hunlocked⟩ := hrefused
      have hbase : (s.put (.inStore place)
          { layer with crop := some (layer.crop.getD layer.cropDefault) }).Base :=
        h.base.put (show s.resolve (.inStore place) = some layer from hget) rfl rfl
      have hlt : place < s.layers.length := (List.getElem?_eq_some_iff.1 hget).1
      have hmem : { layer with crop := some (layer.crop.getD layer.cropDefault) } ∈
          s.layers.set place { layer with crop := some (layer.crop.getD layer.cropDefault) } :=
        List.mem_iff_getElem?.2 ⟨place, List.getElem?_set_self hlt⟩
      refine ⟨hbase.next rfl le_rfl (hbase.kept.select rfl rfl ?_), ?_⟩
      · intro id hselected
        exact exists_mark.2 ⟨_, hmem, Option.some.inj hselected⟩
      · intro id hcropping
        obtain rfl := Option.some.inj hcropping
        exact ⟨rfl, _, hmem, rfl, hframed, hunlocked⟩

/-! ## Layers that come -/

/-- Where a layer that was just added is selected and nothing else is cropped,
the crop mode is over. -/
theorem cropping_eq_none {s' : DesignStore} (h : s.Inv) (hsound : s'.Sound)
    (hcropping : s'.cropping = s.cropping)
    (hselected : s'.selectedId = some (layerId (s.counter + 1))) :
    s.cropping = none := by
  cases hcrop : s.cropping with
  | none => rfl
  | some id =>
    have hwas := (h.cropping id hcrop).1
    obtain ⟨mark, hmark, rfl⟩ := h.base.kept.selected id hwas
    have hnow := (hsound.cropping mark.1 (hcropping.trans hcrop)).1
    have hid := Option.some.inj (hselected.symm.trans hnow)
    exact absurd hid.symm (h.base.kept.issued mark hmark).ne_next

theorem Inv.addLayer_iff (h : s.Inv) (src name : String) (natW natH : ℚ) (opts : LayerOpts) :
    (s.Heeds (.addLayer src name natW natH opts) → (s.addLayer src name natW natH opts).Inv) ∧
      ((s.addLayer src name natW natH opts).Sound →
        s.Heeds (.addLayer src name natW natH opts)) := by
  constructor
  · intro (hcropping : s.cropping = none)
    refine Inv.commit ⟨h.base.next rfl (Nat.le_succ s.counter)
      (h.base.kept.append rfl rfl rfl rfl fun id hid => ?_), ?_⟩
    · exact exists_mark.2 ⟨_, List.mem_append_right _ (List.mem_singleton.2 rfl),
        Option.some.inj hid⟩
    · show FitsCrop s.cropping _ _
      rw [hcropping]
      exact fitsCrop_none
  · exact fun hsound => cropping_eq_none h hsound rfl rfl

theorem Inv.duplicateLayer_iff (h : s.Inv) (ref : LayerRef) :
    (s.Heeds (.duplicateLayer ref) → (s.duplicateLayer ref).Inv) ∧
      ((s.duplicateLayer ref).Sound → s.Heeds (.duplicateLayer ref)) := by
  unfold DesignStore.duplicateLayer DesignStore.Heeds
  cases hresolve : s.resolve ref with
  | none =>
    refine ⟨fun _ => h, fun _ layer hlayer => ?_⟩
    exact absurd (hresolve.symm.trans hlayer) (by simp)
  | some layer =>
    dsimp only
    by_cases hkind : layer.kind = .background
    · rw [if_pos hkind]
      refine ⟨fun _ => h, fun _ other hother hnot => ?_⟩
      obtain rfl := Option.some.inj (hresolve.symm.trans hother)
      exact absurd hkind hnot
    · rw [if_neg hkind]
      have hlayer : layer.kind = .layer := by
        cases hk : layer.kind with
        | layer => rfl
        | background => exact absurd hk hkind
      have hle : above ref ≤ (marks s.layers).length := by
        rw [length_marks]
        cases ref with
        | inStore place => exact (List.getElem?_eq_some_iff.1 hresolve).1
        | detached _ => exact Nat.zero_le _
      constructor
      · intro hheeds
        obtain ⟨hcropping, hdetached⟩ := hheeds layer hresolve hkind
        refine Inv.commit ⟨h.base.next rfl (Nat.le_succ s.counter)
          (h.base.kept.insert (above ref) ?_ hle ?_ rfl fun id hid => ?_), ?_⟩
        · show marks (s.layers.insertIdx _ _) = (marks s.layers).insertIdx _ _
          unfold marks
          rw [List.map_insertIdx, hlayer]
        · cases ref with
          | inStore place => exact .inl (Nat.succ_pos place)
          | detached other =>
            refine .inr fun mark hmark => ?_
            obtain ⟨below, hbelow, rfl⟩ := List.mem_map.1 hmark
            exact hdetached (congrArg _ (Option.some.inj hresolve)) below hbelow
        · rw [length_marks] at hle
          exact exists_mark.2 ⟨_, (List.mem_insertIdx hle).2 (.inl rfl), Option.some.inj hid⟩
        · show FitsCrop s.cropping _ _
          rw [hcropping]
          exact fitsCrop_none
      · intro hsound other hother _
        obtain rfl := Option.some.inj (hresolve.symm.trans hother)
        refine ⟨cropping_eq_none h hsound rfl rfl, ?_⟩
        rintro rfl below hbelow
        -- It comes at the bottom: what was there is above it now.
        exact hsound.background below hbelow

theorem Inv.duplicateSelected_iff (h : s.Inv) :
    (s.Heeds .duplicateSelected → s.duplicateSelected.Inv) ∧
      (s.duplicateSelected.Sound → s.Heeds .duplicateSelected) := by
  unfold DesignStore.duplicateSelected DesignStore.Heeds
  cases hplace : s.placeOf s.selectedId with
  | none =>
    exact ⟨fun _ => h, fun _ place hmem => absurd hmem (by simp)⟩
  | some place =>
    obtain ⟨hto, hfrom⟩ := h.duplicateLayer_iff (.inStore place)
    constructor
    · intro hheeds
      exact hto fun layer hlayer hkind =>
        ⟨hheeds place rfl layer hlayer hkind, fun heq => LayerRef.noConfusion heq⟩
    · intro hsound _ hmem layer hlayer hkind
      obtain rfl := Option.some.inj hmem
      exact (hfrom hsound layer hlayer hkind).1

/-! ## Layers that are loaded -/

/-- The state that a load goes through: what it places, and nothing selected. -/
structure Loading (counter : ℕ) (s : DesignStore) : Prop where
  kept : Kept s.counter s.serialize
  le : counter ≤ s.counter
  new : ∀ layer ∈ s.layers, ¬ Issued counter layer.id
  selectedId : s.selectedId = none
  textSelected : s.textSelected = false

theorem not_issued_of_le {counter counter' : ℕ} (h : counter ≤ counter') :
    ¬ Issued counter (layerId (counter' + 1)) := fun hissued =>
  not_issued_next counter' (hissued.mono h)

theorem Loading.openLayer {counter : ℕ} (h : Loading counter s) (stored : DesignLayer) :
    Loading counter (s.openLayer stored) := by
  have hstyle := gentle_applyStyleGeometry s.cw s.ch
  obtain ⟨layer, hlayers, hid, hkind⟩ : ∃ layer,
      (s.openLayer stored).layers = s.layers ++ [layer] ∧
        layer.id = layerId (s.counter + 1) ∧ layer.kind = .layer := by
    refine ⟨_, rfl, ?_, ?_⟩ <;> split_ifs
    · exact hstyle.id _
    · rfl
    · exact hstyle.kind _
    · rfl
  exact
    { kept := h.kept.append hlayers hid hkind h.textSelected fun id hmem =>
        absurd (h.selectedId.symm.trans hmem) (by simp)
      le := h.le.trans (Nat.le_succ s.counter)
      new := fun other hother => by
        rw [hlayers, List.mem_append, List.mem_singleton] at hother
        obtain hother | rfl := hother
        · exact h.new other hother
        · exact hid ▸ not_issued_of_le h.le
      selectedId := h.selectedId
      textSelected := h.textSelected }

theorem Loading.openBackground {counter : ℕ} (h : Loading counter s) (hlayers : s.layers = [])
    (background : DesignImage) : Loading counter (s.openBackground background) := by
  unfold DesignStore.openBackground
  by_cases hsrc : background.src = ""
  · rw [if_pos hsrc]
    exact h
  · rw [if_neg hsrc]
    obtain ⟨t, ht⟩ : ∃ t, t = s.setCanvasSize (orElse background.natW 1)
        (orElse background.natH 1) := ⟨_, rfl⟩
    have hsame : t.layers = [] ∧ t.counter = s.counter ∧ t.selectedId = s.selectedId ∧
        t.textSelected = s.textSelected := by
      rw [ht]
      unfold setCanvasSize
      dsimp only
      split_ifs <;> simp [hlayers]
    obtain ⟨hnil, hcounter, hselectedId, htextSelected⟩ := hsame
    dsimp only
    rw [← ht]
    exact
      { kept :=
          { ids := by simp [serialize, hnil, marks]
            issued := by
              simp only [serialize, hnil, marks, List.nil_append, List.map_singleton,
                List.mem_singleton, forall_eq]
              exact issued_next t.counter
            background := by simp [serialize, hnil, marks]
            selected := fun id hid =>
              absurd ((hselectedId.trans h.selectedId).symm.trans hid) (by simp)
            text := fun htrue =>
              absurd ((htextSelected.trans h.textSelected).symm.trans htrue) (by simp) }
        le := h.le.trans (hcounter ▸ Nat.le_succ t.counter)
        new := by
          simp only [hnil, List.nil_append, List.mem_singleton, forall_eq]
          exact not_issued_of_le (hcounter ▸ h.le)
        selectedId := hselectedId.trans h.selectedId
        textSelected := htextSelected.trans h.textSelected }

theorem loading_openDesign (s : DesignStore) (stored : List DesignLayer)
    (background : Option DesignImage) : Loading s.counter (s.openDesign stored background) := by
  have hempty : Loading s.counter
      { s with layers := [], text := none, textSelected := false, selectedId := none } :=
    { kept :=
        { ids := List.nodup_nil
          issued := fun _ hmark => absurd hmark List.not_mem_nil
          background := fun _ hmark => absurd hmark List.not_mem_nil
          selected := fun _ hid => absurd hid (by simp [serialize])
          text := fun htrue => absurd htrue (by simp [serialize]) }
      le := le_rfl
      new := fun _ hlayer => absurd hlayer List.not_mem_nil
      selectedId := rfl
      textSelected := rfl }
  have hfold : ∀ (stored : List DesignLayer) (t : DesignStore), Loading s.counter t →
      Loading s.counter (stored.foldl DesignStore.openLayer t) := by
    intro stored
    induction stored with
    | nil => exact fun _ ht => ht
    | cons layer stored ih => exact fun _ ht => ih _ (ht.openLayer layer)
  unfold openDesign
  refine hfold stored _ ?_
  cases background with
  | none => exact hempty
  | some background => exact hempty.openBackground rfl background

theorem mem_of_topOverlay {id : String} (h : s.topOverlay = some id) :
    ∃ layer ∈ s.layers, layer.id = id := by
  obtain ⟨layer, hlast, rfl⟩ := Option.map_eq_some_iff.1 h
  exact ⟨layer, (List.mem_filter.1 (List.mem_of_getLast? hlast)).1, rfl⟩

theorem cropping_openDesign (s : DesignStore) (stored : List DesignLayer)
    (background : Option DesignImage) : (s.openDesign stored background).cropping = s.cropping := by
  have hfold : ∀ (stored : List DesignLayer) (t : DesignStore),
      (stored.foldl DesignStore.openLayer t).cropping = t.cropping := by
    intro stored
    induction stored with
    | nil => exact fun _ => rfl
    | cons layer stored ih => exact fun t => (ih (t.openLayer layer)).trans rfl
  unfold openDesign
  refine (hfold stored _).trans ?_
  cases background with
  | none => rfl
  | some background =>
    dsimp only
    unfold openBackground setCanvasSize
    dsimp only
    split_ifs <;> rfl

theorem Inv.importDesign_iff (h : s.Inv) (stored : List DesignLayer)
    (background : Option DesignImage) :
    (s.Heeds (.importDesign stored background) → (s.importDesign stored background).Inv) ∧
      ((s.importDesign stored background).Sound → s.Heeds (.importDesign stored background)) := by
  have hloading := loading_openDesign s stored background
  have hsame := cropping_openDesign s stored background
  unfold DesignStore.importDesign
  constructor
  · intro (hcropping : s.cropping = none)
    refine ⟨Base.restart (hloading.kept.select rfl hloading.textSelected fun id hid => ?_), ?_⟩
    · exact exists_mark.2 (mem_of_topOverlay hid)
    · show FitsCrop (s.openDesign stored background).cropping _ _
      rw [hsame, hcropping]
      exact fitsCrop_none
  · intro hsound
    show s.cropping = none
    cases hcrop : s.cropping with
    | none => rfl
    | some id =>
      -- The layer in crop mode was one of those that are gone.
      obtain ⟨mark, hmark, rfl⟩ := h.base.kept.selected id (h.cropping id hcrop).1
      obtain ⟨-, layer, hlayer, hid, -⟩ := hsound.cropping mark.1 (hsame.trans hcrop)
      exact absurd (h.base.kept.issued mark hmark) (hid ▸ hloading.new layer hlayer)

theorem Inv.importText (h : s.Inv) (stored : Option TextDesign) : (s.importText stored).Inv := by
  refine ⟨Base.restart ?_, h.cropping⟩
  exact
    { ids := h.base.kept.ids
      issued := h.base.kept.issued
      background := h.base.kept.background
      selected := h.base.kept.selected
      text := fun htrue => by
        obtain ⟨htext, hselected⟩ := Bool.and_eq_true_iff.1 htrue
        exact ⟨Option.isSome_iff_ne_none.1 htext, Option.isNone_iff_eq_none.1 hselected⟩ }

/-! ## Layers that go -/

theorem marks_filter (layers : List EditorLayer) (id : String) :
    marks (layers.filter fun layer => layer.id ≠ id) =
      (marks layers).filter fun mark => mark.1 ≠ id := by
  unfold marks
  rw [List.filter_map]
  rfl

theorem mem_tail_of_mem_tail_filter {α : Type} {p : α → Bool} {l : List α} {a : α}
    (h : a ∈ (l.filter p).tail) : a ∈ l.tail := by
  cases l with
  | nil => exact h
  | cons first rest =>
    rw [List.filter_cons] at h
    split_ifs at h
    · exact (List.mem_filter.1 h).1
    · exact (List.mem_filter.1 (List.mem_of_mem_tail h)).1

theorem Inv.removeLayerById (h : s.Inv) (id : String) : (s.removeLayerById id).Inv := by
  have hkept := h.base.kept
  -- The layer in crop mode is the selected one: they go together or they stay.
  have hstays : ∀ other, s.selectedId = some other → other ≠ id →
      ∃ layer ∈ s.layers.filter fun layer => layer.id ≠ id, layer.id = other := by
    intro other hselected hother
    obtain ⟨layer, hlayer, rfl⟩ := exists_mark.1 (hkept.selected other hselected)
    exact ⟨layer, List.mem_filter.2 ⟨hlayer, decide_eq_true hother⟩, rfl⟩
  have hlayers : ∀ snapshot : Snapshot,
      snapshot.layers = (s.layers.filter fun layer => layer.id ≠ id) →
        (∀ i ∈ snapshot.selectedId, ∃ layer ∈ snapshot.layers, layer.id = i) →
          (snapshot.textSelected = true → snapshot.text ≠ none ∧ snapshot.selectedId = none) →
            Kept s.counter snapshot := by
    intro snapshot heq hselected htext
    have hmarks : marks snapshot.layers = (marks s.layers).filter fun mark => mark.1 ≠ id :=
      (congrArg marks heq).trans (marks_filter s.layers id)
    exact
      { ids := hmarks ▸ hkept.ids.sublist (List.filter_sublist.map Prod.fst)
        issued := fun mark hmark => hkept.issued mark (List.mem_filter.1 (hmarks ▸ hmark)).1
        background := fun mark hmark =>
          hkept.background mark (mem_tail_of_mem_tail_filter (hmarks ▸ hmark))
        selected := fun i hi => exists_mark.2 (hselected i hi)
        text := htext }
  unfold DesignStore.removeLayerById
  by_cases hselected : s.selectedId = some id
  · -- What is selected goes: the topmost layer that is left is selected next.
    have hgoes : ∀ (t : DesignStore), t.layers = (s.layers.filter fun layer => layer.id ≠ id) →
        t.history = s.history → t.counter = s.counter → t.cropping = none →
          (t.selectLayer t.topOverlay).Inv := by
      intro t heq hhistory hcounter hcrop
      refine ⟨h.base.next hhistory hcounter.ge ?_, ?_⟩
      · show Kept t.counter _
        rw [hcounter]
        exact hlayers _ heq (fun i hi => mem_of_topOverlay hi)
          fun htrue => absurd htrue (by simp [serialize, selectLayer])
      · show FitsCrop t.cropping _ _
        rw [hcrop]
        exact fitsCrop_none
    dsimp only
    by_cases hcrop : s.cropping = some id
    · rw [if_pos hcrop, if_pos hselected]
      exact (hgoes
        { s with layers := s.layers.filter fun layer => layer.id ≠ id, cropping := none }
        rfl rfl rfl rfl).commit
    · rw [if_neg hcrop, if_pos hselected]
      refine (hgoes { s with layers := s.layers.filter fun layer => layer.id ≠ id }
        rfl rfl rfl ?_).commit
      cases hother : s.cropping with
      | none => rfl
      | some other =>
        have hwas := (h.cropping other hother).1
        exact absurd (hother.trans (hwas.symm.trans hselected)) hcrop
  · have hcrop : s.cropping ≠ some id := fun hcrop => hselected (h.cropping id hcrop).1
    dsimp only
    rw [if_neg hcrop, if_neg hselected]
    refine Inv.commit ⟨h.base.next rfl le_rfl (hlayers _ rfl ?_ hkept.text), ?_⟩
    · exact fun i hi => hstays i hi fun heq => hselected (heq ▸ hi)
    · intro i hi
      obtain ⟨hwas, layer, hlayer, rfl, hcroppable⟩ := h.cropping i hi
      refine ⟨hwas, layer, List.mem_filter.2 ⟨hlayer, decide_eq_true fun heq => ?_⟩, rfl,
        hcroppable⟩
      exact hselected (heq ▸ hwas)

theorem Inv.deleteLayer (h : s.Inv) (id : String) : (s.deleteLayer id).Inv := by
  unfold DesignStore.deleteLayer
  cases s.layers.find? fun layer => layer.id = id with
  | none => exact h
  | some layer =>
    dsimp only
    split_ifs
    · exact h
    · exact h.removeLayerById id

/-! ## What is selected -/

theorem Inv.leave (h : s.Inv) : Inv { s with cropping := none } :=
  ⟨h.base.next rfl le_rfl (h.base.kept.congr rfl rfl rfl rfl), fitsCrop_none⟩

theorem Inv.exitCrop (h : s.Inv) : s.exitCrop.Inv := by
  unfold DesignStore.exitCrop
  split_ifs
  · exact h
  · exact h.leave.commit

theorem Inv.select_iff (h : s.Inv) (id : Option String) :
    (s.Heeds (.select id) → (s.select id).Inv) ∧ ((s.select id).Sound → s.Heeds (.select id)) := by
  obtain ⟨t, ht⟩ : ∃ t, t = if s.cropping ≠ none ∧ s.cropping ≠ id then
      { s with cropping := none }.commit else s := ⟨_, rfl⟩
  have hselect : s.select id = t.selectLayer id := by rw [ht]; rfl
  have hinv : t.Inv := by
    rw [ht]
    split_ifs
    · exact h.leave.commit
    · exact h
  have hlayers : t.layers = s.layers := by rw [ht]; split_ifs <;> rfl
  have hcropping : ∀ i ∈ t.cropping, id = some i := by
    rw [ht]
    split_ifs with hends
    · exact fun i hi => absurd hi (by simp)
    · intro i (hi : s.cropping = some i)
      by_contra hne
      exact hends ⟨by rw [hi]; simp, fun heq => hne (heq.symm.trans hi)⟩
  rw [hselect]
  constructor
  · intro hheeds
    refine ⟨hinv.base.next rfl le_rfl (hinv.base.kept.select rfl rfl fun i hi => ?_), ?_⟩
    · obtain ⟨layer, hlayer, hid⟩ := hheeds i hi
      exact exists_mark.2 ⟨layer, show layer ∈ t.layers from hlayers ▸ hlayer, hid⟩
    · exact fun i hi => ⟨hcropping i hi, (hinv.cropping i hi).2⟩
  · intro hsound i hi
    obtain ⟨layer, hlayer, hid⟩ := hsound.selected i hi
    exact ⟨layer, hlayers ▸ hlayer, hid⟩

theorem Inv.selectText (h : s.Inv) : s.selectText.Inv := by
  unfold DesignStore.selectText
  split_ifs with htext hends
  · exact h
  · exact ⟨h.leave.commit.base.next rfl le_rfl
      (h.leave.commit.base.kept.selectText rfl rfl fun _ => htext), fitsCrop_none⟩
  · -- No layer has an empty id: none is in crop mode.
    have hnone : s.cropping = none := by
      cases hcrop : s.cropping with
      | none => rfl
      | some id =>
        obtain ⟨mark, hmark, rfl⟩ := h.base.kept.selected id (h.cropping id hcrop).1
        refine absurd ⟨by rw [hcrop]; simp, fun hempty => ?_⟩ hends
        exact (h.base.kept.issued mark hmark).ne_empty (Option.some.inj (hcrop.symm.trans hempty))
    refine ⟨h.base.next rfl le_rfl (h.base.kept.selectText rfl rfl fun _ => htext), ?_⟩
    show FitsCrop s.cropping _ _
    rw [hnone]
    exact fitsCrop_none

theorem Inv.addText_iff (h : s.Inv) :
    (s.Heeds .addText → s.addText.Inv) ∧ (s.addText.Sound → s.Heeds .addText) := by
  unfold DesignStore.addText
  split_ifs with htext
  · exact ⟨fun _ => h.selectText, fun _ hnone => absurd hnone htext⟩
  · constructor
    · intro hheeds
      have hnone : s.cropping = none := hheeds (not_not.1 htext)
      refine Inv.commit ⟨h.base.next rfl le_rfl (h.base.kept.selectText rfl rfl fun _ => ?_), ?_⟩
      · simp [serialize]
      · show FitsCrop s.cropping _ _
        rw [hnone]
        exact fitsCrop_none
    · intro hsound _
      cases hcrop : s.cropping with
      | none => rfl
      | some id => exact absurd (hsound.cropping id hcrop).1 (by simp)

theorem Inv.removeText (h : s.Inv) : s.removeText.Inv := by
  unfold DesignStore.removeText
  split_ifs
  · exact h
  · exact Inv.commit
      ⟨h.base.next rfl le_rfl (h.base.kept.select rfl rfl h.base.kept.selected), h.cropping⟩

theorem Inv.setText (h : s.Inv) (text : EditorText) : Inv { s with text := some text } where
  base := h.base.next rfl le_rfl
    { ids := h.base.kept.ids
      issued := h.base.kept.issued
      background := h.base.kept.background
      selected := h.base.kept.selected
      text := fun htrue => ⟨by simp [serialize], (h.base.kept.text htrue).2⟩ }
  cropping := h.cropping

theorem Inv.updateText (h : s.Inv) (patch : TextPatch) : (s.updateText patch).Inv := by
  unfold DesignStore.updateText
  cases s.text with
  | none => exact h
  | some text => exact (h.setText _).commit

theorem Inv.nudgeText (h : s.Inv) (patch : TextPatch) : (s.nudgeText patch).Inv := by
  unfold DesignStore.nudgeText
  cases s.text with
  | none => exact h
  | some text => exact h.setText _

theorem Inv.setBg (h : s.Inv) (colour : String) : (s.setBg colour).Inv :=
  Inv.commit ⟨h.base.next rfl le_rfl (h.base.kept.congr rfl rfl rfl rfl), h.cropping⟩

theorem Inv.setChecker (h : s.Inv) (on : Bool) : (s.setChecker on).Inv :=
  Inv.commit ⟨h.base.next rfl le_rfl (h.base.kept.congr rfl rfl rfl rfl), h.cropping⟩

/-! ## The order of the layers -/

theorem backgroundFirst_perm (layers : List EditorLayer) :
    (backgroundFirst layers).Perm layers := by
  unfold backgroundFirst
  cases hplace : layers.findIdx? fun layer => layer.kind = .background with
  | none => exact .refl layers
  | some place =>
    dsimp only
    split_ifs
    · obtain ⟨hlt, -⟩ := List.findIdx?_eq_some_iff_getElem.1 hplace
      rw [List.getElem?_eq_getElem hlt, Option.toList_some, List.singleton_append]
      exact List.getElem_cons_eraseIdx_perm hlt
    · exact .refl layers

theorem tail_backgroundFirst {layers : List EditorLayer}
    (h : layers.countP (fun layer => layer.kind = .background) ≤ 1) :
    ∀ layer ∈ (backgroundFirst layers).tail, layer.kind ≠ .background := by
  have hcount := (backgroundFirst_perm layers).countP_eq
    (fun layer => decide (layer.kind = .background))
  have hfirst : ∀ first rest, backgroundFirst layers = first :: rest → first.kind = .background →
      ∀ layer ∈ rest, layer.kind ≠ .background := by
    intro first rest heq hkind layer hlayer hbackground
    have hpos : 0 < rest.countP fun layer => decide (layer.kind = .background) :=
      List.countP_pos_iff.2 ⟨layer, hlayer, decide_eq_true hbackground⟩
    rw [heq, List.countP_cons, if_pos (decide_eq_true hkind)] at hcount
    omega
  cases hplace : layers.findIdx? fun layer => layer.kind = .background with
  | none =>
    intro layer hlayer hbackground
    have hmem := (backgroundFirst_perm layers).mem_iff.1 (List.mem_of_mem_tail hlayer)
    exact absurd (List.findIdx?_eq_none_iff.1 hplace layer hmem) (by simp [hbackground])
  | some place =>
    obtain ⟨hlt, hkind, -⟩ := List.findIdx?_eq_some_iff_getElem.1 hplace
    have hshape : ∃ rest, backgroundFirst layers = layers[place] :: rest := by
      unfold backgroundFirst
      rw [hplace]
      dsimp only
      split_ifs with hpos
      · exact ⟨_, by rw [List.getElem?_eq_getElem hlt]; rfl⟩
      · obtain rfl : place = 0 := by omega
        cases layers with
        | nil => simp at hlt
        | cons first rest => exact ⟨rest, rfl⟩
    obtain ⟨rest, heq⟩ := hshape
    rw [heq]
    exact hfirst _ rest heq (of_decide_eq_true hkind)

theorem Inv.reorderByIds (h : s.Inv) (ids : List String) : (s.reorderByIds ids).Inv := by
  unfold DesignStore.reorderByIds
  dsimp only
  obtain ⟨sorted, hsorted⟩ : ∃ sorted, sorted = s.layers.mergeSort fun a b =>
    decide (orderOf ids.reverse a ≤ orderOf ids.reverse b) := ⟨_, rfl⟩
  rw [← hsorted]
  have hperm : sorted.Perm s.layers := hsorted ▸ List.mergeSort_perm _ _
  have hall : (backgroundFirst sorted).Perm s.layers := (backgroundFirst_perm sorted).trans hperm
  have hmarks : (marks (backgroundFirst sorted)).Perm (marks s.layers) := hall.map _
  have hone : sorted.countP (fun layer => layer.kind = .background) ≤ 1 := by
    rw [hperm.countP_eq]
    have htail := h.sound.background
    revert htail
    cases s.layers with
    | nil => simp
    | cons first rest =>
      intro htail
      have hzero : rest.countP (fun layer => decide (layer.kind = .background)) = 0 :=
        List.countP_eq_zero.2 fun layer hlayer => by simpa using htail layer hlayer
      rw [List.countP_cons, hzero]
      split_ifs <;> omega
  refine Inv.commit ⟨h.base.next rfl le_rfl ?_, fun id hid => ?_⟩
  · exact
      { ids := ((hmarks.map Prod.fst).nodup_iff).2 h.base.kept.ids
        issued := fun mark hmark => h.base.kept.issued mark (hmarks.mem_iff.1 hmark)
        background := (forall_tail_marks (p := (· ≠ .background))).2 (tail_backgroundFirst hone)
        selected := fun id hid => by
          obtain ⟨mark, hmark, rfl⟩ := h.base.kept.selected id hid
          exact ⟨mark, hmarks.mem_iff.2 hmark, rfl⟩
        text := h.base.kept.text }
  · obtain ⟨hselected, layer, hlayer, hlayerId, hcroppable⟩ := h.cropping id hid
    exact ⟨hselected, layer, hall.mem_iff.2 hlayer, hlayerId, hcroppable⟩

/-! ## Undo and redo -/

/-- **A snapshot is put back**, and the crop mode stays. -/
theorem Inv.goTo_iff (h : s.Inv) (hidx : ℤ) :
    (s.GoesWell hidx → (s.goTo hidx).Inv) ∧ ((s.goTo hidx).Sound → s.GoesWell hidx) := by
  unfold goTo GoesWell
  cases hget : s.history[hidx.toNat]? with
  | none =>
    refine ⟨fun _ => ⟨h.base.next rfl le_rfl (h.base.kept.congr rfl rfl rfl rfl), h.cropping⟩, ?_⟩
    exact fun _ snapshot hmem => absurd hmem (by simp)
  | some snapshot =>
    have hkept := h.base.history snapshot (List.mem_of_getElem? hget)
    constructor
    · intro hfits
      exact ⟨h.base.next rfl le_rfl (hkept.congr rfl rfl rfl rfl), hfits snapshot rfl⟩
    · intro hsound other hother
      obtain rfl := Option.some.inj hother
      exact hsound.cropping

/-! ## Runs -/

/-- **What an operation preserves**, one by one. -/
theorem Inv.perform_iff (h : s.Inv) (operation : Operation) :
    (s.Heeds operation → (s.perform operation).Inv) ∧
      ((s.perform operation).Sound → s.Heeds operation) := by
  cases operation with
  | importDesign stored background => exact h.importDesign_iff stored background
  | importText stored => exact ⟨fun _ => h.importText stored, fun _ => trivial⟩
  | addLayer src name natW natH opts => exact h.addLayer_iff src name natW natH opts
  | duplicateLayer ref => exact h.duplicateLayer_iff ref
  | duplicateSelected => exact h.duplicateSelected_iff
  | removeLayerById id => exact ⟨fun _ => h.removeLayerById id, fun _ => trivial⟩
  | deleteLayer id => exact ⟨fun _ => h.deleteLayer id, fun _ => trivial⟩
  | select id => exact h.select_iff id
  | selectText => exact ⟨fun _ => h.selectText, fun _ => trivial⟩
  | addText => exact h.addText_iff
  | removeText => exact ⟨fun _ => h.removeText, fun _ => trivial⟩
  | updateText patch => exact ⟨fun _ => h.updateText patch, fun _ => trivial⟩
  | nudgeText patch => exact ⟨fun _ => h.nudgeText patch, fun _ => trivial⟩
  | toggleLock ref => exact h.toggleLock_iff ref
  | toggleVisible ref => exact ⟨fun _ => h.toggleVisible ref, fun _ => trivial⟩
  | reorderByIds ids => exact ⟨fun _ => h.reorderByIds ids, fun _ => trivial⟩
  | setShapeOn ref shape => exact ⟨fun _ => h.setShapeOn ref shape, fun _ => trivial⟩
  | setStyle style => exact ⟨fun _ => h.setStyle style, fun _ => trivial⟩
  | alignH side => exact ⟨fun _ => h.alignH side, fun _ => trivial⟩
  | alignV side => exact ⟨fun _ => h.alignV side, fun _ => trivial⟩
  | enterCrop id => exact ⟨fun _ => h.enterCrop id, fun _ => trivial⟩
  | exitCrop => exact ⟨fun _ => h.exitCrop, fun _ => trivial⟩
  | setCropBox ref box => exact ⟨fun _ => h.setCropBox ref box, fun _ => trivial⟩
  | setInnerRotation ref deg => exact ⟨fun _ => h.setInnerRotation ref deg, fun _ => trivial⟩
  | setRotation deg => exact ⟨fun _ => h.setRotation deg, fun _ => trivial⟩
  | setOpacity pct => exact ⟨fun _ => h.setOpacity pct, fun _ => trivial⟩
  | nudge dx dy => exact ⟨fun _ => h.nudge dx dy, fun _ => trivial⟩
  | setBg colour => exact ⟨fun _ => h.setBg colour, fun _ => trivial⟩
  | setChecker on => exact ⟨fun _ => h.setChecker on, fun _ => trivial⟩
  | commit => exact ⟨fun _ => h.commit, fun _ => trivial⟩
  | undo =>
    unfold perform DesignStore.undo Heeds
    dsimp only
    split_ifs with hpos
    · exact ⟨fun hheeds => (h.goTo_iff _).1 (hheeds hpos), fun hsound _ => (h.goTo_iff _).2 hsound⟩
    · exact ⟨fun _ => h, fun _ hpos' => absurd hpos' hpos⟩
  | redo =>
    unfold perform DesignStore.redo Heeds
    dsimp only
    split_ifs with hlt
    · exact ⟨fun hheeds => (h.goTo_iff _).1 (hheeds hlt), fun hsound _ => (h.goTo_iff _).2 hsound⟩
    · exact ⟨fun _ => h, fun _ hlt' => absurd hlt' hlt⟩

theorem inv_fresh (counter : ℕ) : (fresh counter).Inv :=
  ⟨{ kept :=
      { ids := List.nodup_nil
        issued := fun _ hmark => absurd hmark List.not_mem_nil
        background := fun _ hmark => absurd hmark List.not_mem_nil
        selected := fun _ hid => absurd hid (by simp [serialize, fresh])
        text := fun htrue => absurd htrue (by simp [serialize, fresh]) }
     history := fun _ hmem => absurd hmem List.not_mem_nil }, fitsCrop_none⟩

/-- **Every state that a run reaches is sound exactly where its operations see
to the crop mode, to the layer that is selected and to the one duplicated.** -/
theorem sound_iff_heeds (counter : ℕ) (operations : List Operation) :
    (∀ before after, operations = before ++ after →
        (run perform (fresh counter) before).Sound) ↔
      Throughout perform Heeds (fresh counter) operations := by
  have hiff : Throughout perform Heeds (fresh counter) operations ↔
      Throughout perform (fun s operation => (s.perform operation).Sound) (fresh counter)
        operations :=
    throughout_congr_of_ok
      (fun s operation hheeds (h : s.Inv) => (h.perform_iff operation).1 hheeds)
      (fun s operation h => ⟨fun hheeds => ((h.perform_iff operation).1 hheeds).sound,
        (h.perform_iff operation).2⟩) (inv_fresh counter)
  rw [hiff]
  constructor
  · intro hall
    refine throughout_of_prefix fun before operation after hsplit => ?_
    have hsound := hall (before ++ [operation]) after (by rw [hsplit, List.append_assoc]; rfl)
    rwa [run_concat] at hsound
  · rintro hthroughout before after rfl
    -- The state is the fresh one, or the one that the last operation left.
    induction before using List.reverseRecOn with
    | nil => exact (inv_fresh counter).sound
    | append_singleton before operation _ =>
      rw [run_concat]
      rw [List.append_assoc] at hthroughout
      exact hthroughout.at

/-- A layer is put in a frame and cropped; undo takes the frame away, and the
crop mode stays. -/
theorem cropped_without_frame : ¬ ∀ before after,
    [.addLayer "cat.png" "Cat" 100 100 .empty, .setShapeOn (.inStore 0) .circle, .enterCrop "L1",
      .undo] = before ++ after → (run perform (fresh 0) before).Sound := by
  intro hall
  have hsound := hall [.addLayer "cat.png" "Cat" 100 100 .empty,
    .setShapeOn (.inStore 0) .circle, .enterCrop "L1", .undo] [] rfl
  obtain ⟨-, layer, hlayer, -, hcroppable⟩ := hsound.cropping "L1" (by decide +kernel)
  have hplain : ((run perform (fresh 0) [.addLayer "cat.png" "Cat" 100 100 .empty,
      .setShapeOn (.inStore 0) .circle, .enterCrop "L1", .undo]).layers.map (·.shape)) =
        [.none] := by decide +kernel
  have hshape := List.mem_map_of_mem (f := (·.shape)) hlayer
  rw [hplain] at hshape
  exact hcroppable.framed (List.mem_singleton.1 hshape)

end DesignStore

end Optionia.Design
