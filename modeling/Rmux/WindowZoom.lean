import Rmux.WindowOps

/-!
# Zoom coherence

A zoomed window shows its active pane over its whole area; every other pane, and every pane of a
window that is not zoomed, is shown in the rectangle of its leaf. Some operations reassign the
rectangles and do not look at the zoom (`zoom_coherence_fails_unguarded`). In a run where they come
while the window is not zoomed it holds throughout (`zoom_coherence`).
-/

namespace Rmux

open MachineInt LayoutCell Relation List LayoutTree WindowOp

/-- What a window promises of the rectangles of its panes. -/
def ZoomCoherent (w : Window) : Prop :=
  (w.zoomed = true → 2 ≤ w.panes.length ∧
    ∃ t position active, w.layoutTree = some t ∧ w.panePosition w.activePane = some position ∧
      w.panes[position]? = some active ∧ active.geometry = w.fullGeometry ∧
      ∀ i pane, i ≠ position → w.panes[i]? = some pane →
        t.paneGeometry i = some pane.geometry) ∧
  (w.zoomed = false → ∀ i pane, w.panes[i]? = some pane →
    ∃ t, w.layoutTree = some t ∧ t.paneGeometry i = some pane.geometry)

namespace Window

variable {w w' : Window} {P : TerminalSize → LayoutTree → ℕ → Prop}

theorem Flat.exists_tree (h : Flat P w) (hne : w.panes ≠ []) :
    ∃ t, w.layoutTree = some t ∧ P w.size t w.panes.length :=
  h.tree.resolve_left fun hemp => hne hemp.1

/-- Only the zoomed pane is shown elsewhere than in its leaf. -/
theorem ZoomedIn.zoomCoherent (h : ZoomedIn P w) : ZoomCoherent w := by
  obtain ⟨w₁, hfl, hlen, hmem, hshow⟩ := h
  simp only [shown, Prod.mk.injEq] at hshow
  obtain ⟨htree, hsz, hz, hact, hps⟩ := hshow
  replace hz : w.zoomed = true := hz
  obtain ⟨t, ht, -⟩ := hfl.exists_tree (ne_nil_of_length_pos (by omega))
  obtain ⟨active, hactive₁⟩ := exists_pane_of_mem hmem
  obtain ⟨position, hpos, hget⟩ := pane_eq_some_iff.mp hactive₁
  have hfind : w₁.panes.findIdx (·.index = w₁.activePane) = position :=
    (findIdx?_eq_some_iff_findIdx_eq.mp hpos).2
  replace hps : w.panes = w₁.panes.modify position
      fun pane => { pane with geometry := w₁.fullGeometry } := by
    rw [hps, ← hfind]
    rfl
  refine ⟨fun _ => ⟨?_, t, position, { active with geometry := w₁.fullGeometry },
    htree.trans ht, ?_, ?_, ?_, ?_⟩, fun hfalse => absurd (hz.symm.trans hfalse) (by simp)⟩
  · rwa [hps, length_modify]
  · have hidx : w.panes.map Pane.index = w₁.panes.map Pane.index := by
      rw [hps]
      exact map_modify_eq _ _ _ Pane.index fun _ => rfl
    rw [hact, panePosition_eq_of_map_index hidx]
    exact hpos
  · rw [hps, getElem?_modify_eq, hget]
    rfl
  · rw [fullGeometry, fullGeometry, hsz]
    rfl
  · intro i pane hi hp
    rw [hps, getElem?_modify_ne _ _ (Ne.symm hi)] at hp
    exact hfl.fitted t ht i pane hp

theorem Coherent.zoomCoherent (h : Coherent P w) : ZoomCoherent w := by
  rcases h with hfl | hzoom
  · refine ⟨fun htrue => absurd (hfl.unzoomed.symm.trans htrue) (by simp), fun _ i pane hp => ?_⟩
    obtain ⟨t, ht, -⟩ := hfl.exists_tree fun hnil => by simp [hnil] at hp
    exact ⟨t, ht, hfl.fitted t ht i pane hp⟩
  · exact hzoom.zoomCoherent

end Window

/-! ## Zooming and unzooming -/

theorem LayoutTree.resizeAxis_zero (d : LayoutDirection) (root : LayoutCell) :
    resizeAxis d 0 root = root := by
  simp [resizeAxis]

/-- A tree that a terminal can hold is resized to its own size by leaving it as it is. -/
theorem Leafed.resize_size {t : LayoutTree} {n : ℕ} (h : Leafed t n)
    (hmax : ∀ a, t.root.axisSize a ≤ u16Max) : t.resize t.size = t := by
  have hchg : ∀ {m : ℕ}, m ≤ u16Max → MachineInt.wrapI32 ((capU16 m).toNat - asI32 m) = 0 := by
    intro m hm
    have hsm : u16Max ≤ i32Max := by decide
    rw [toNat_capU16_eq hm, asI32_eq (hm.trans hsm), Int.sub_self]
    exact wrapI32_eq (by omega) (by omega)
  have hcols : MachineInt.wrapI32 (t.size.cols.toNat - asI32 (t.root.axisSize .leftRight)) = 0 :=
    hchg (hmax .leftRight)
  have hrw : MachineInt.wrapI32 (t.size.rows.toNat - asI32 (t.root.axisSize .topBottom)) = 0 :=
    hchg (hmax .topBottom)
  have hrt : (t.resize t.size).root = t.root := by
    rw [root_resize, hcols, resizeAxis_zero, hrw, resizeAxis_zero, h.offsets]
  have hmap := leafMap_resize t t.size
  cases t
  rw [mk.injEq]
  exact ⟨hrt, hmap⟩

namespace Window

variable {w w' : Window}

/-- Recalculating from the tree of a flat window gives its rectangles back, whatever rectangles its
panes have in the meantime. -/
theorem Flat.view_recalculateGeometry (h : Flat LeafedIn w)
    (hmax : ∀ t, w.layoutTree = some t → ∀ a, t.root.axisSize a ≤ u16Max)
    (htree : w'.layoutTree = w.layoutTree) (hsz : w'.size = w.size) (hzoom : w'.zoomed = false)
    (hids : w'.panes.map Pane.id = w.panes.map Pane.id) : w'.recalculateGeometry.view = w.view := by
  rcases h.tree with ⟨hnil, hn⟩ | ⟨t, ht, hleafed, hwsize⟩
  · have hnil' : w'.panes = [] := by simpa [hnil] using hids
    rw [recalculateGeometry, htree, hn]
    simp [view, htree, hn, hsz, hzoom, h.unzoomed, hnil, hnil']
  · have hresize : t.resize w'.size = t := by
      rw [hsz, hwsize]
      exact hleafed.resize_size (hmax t ht)
    have hps : (t.applyToPanes w'.panes).map (fun pane => (pane.id, pane.geometry)) =
        w.panes.map fun pane => (pane.id, pane.geometry) := by
      refine ext_getElem? fun i => ?_
      have hid := congrArg (·[i]?) hids
      rw [getElem?_map, getElem?_map, getElem?_applyToPanes]
      cases hi : w.panes[i]? with
      | none => simpa [hi] using hid
      | some pane =>
        obtain ⟨pane', hp', hsm⟩ : ∃ pane', w'.panes[i]? = some pane' ∧ pane'.id = pane.id := by
          simpa [hi] using hid
        simp [hp', hsm, h.fitted t ht i pane hi]
    rw [recalculateGeometry, htree, ht]
    simp only [view, hresize, hps, ht, hwsize, hzoom, h.unzoomed]

/-- Zooming a pane and unzooming again puts every pane back. -/
theorem Flat.unzoom_toggleZoom (h : Flat LeafedIn w)
    (hmax : ∀ t, w.layoutTree = some t → ∀ a, t.root.axisSize a ≤ u16Max) (i : ℕ) :
    (w.toggleZoom i).autoUnzoom.view = w.view := by
  have hself : w.autoUnzoom = w := by
    unfold autoUnzoom
    rw [if_neg (by simp [h.unzoomed])]
  unfold toggleZoom
  split_ifs with hp hz hlen
  · rw [hself]
  · rw [h.unzoomed] at hz
    cases hz
  · rw [hself]
  · -- The pane is shown over the whole window, and the tree is not touched.
    have hselect : (w.selectPane i).view = w.view := by
      unfold selectPane
      split_ifs
      · rw [view_markPaneActive, hself]
        rfl
      · rfl
    have hview : (w.selectPane i).layoutTree = w.layoutTree ∧
        (w.selectPane i).size = w.size := by
      simp only [view, Prod.mk.injEq] at hselect
      exact ⟨hselect.1, hselect.2.1⟩
    refine h.view_recalculateGeometry hmax hview.1 hview.2 rfl ?_
    rw [← map_id_of_view_eq hselect]
    exact map_modify_eq _ _ _ Pane.id fun _ => rfl

end Window

/-! ## The runs -/

/-- An operation is carried out that may come while the window is zoomed or not. -/
def GuardedStep (w w' : Window) : Prop := ∃ op : WindowOp, op.Guarded w ∧ op.run w = some w'

/-- Along a run whose operations are guarded the zoom is coherent, and zooming a pane and unzooming
again puts every pane back. -/
theorem zoom_coherence (size : TerminalSize) (paneId : PaneId) (id : WindowId) {w : Window}
    (hrun : ReflTransGen GuardedStep (Window.newWithInitialPane size paneId id) w) :
    ZoomCoherent w ∧
      (w.zoomed = false → (∀ t, w.layoutTree = some t → ∀ a, t.root.axisSize a ≤ u16Max) →
        ∀ paneIndex, (w.toggleZoom paneIndex).autoUnzoom.view = w.view) := by
  have hcoherent : Window.Coherent LeafedIn w := by
    induction hrun with
    | refl => exact .inl (Window.flat_newWithInitialPane treeClosed_leafedIn size paneId id)
    | tail _ hstep ih =>
      obtain ⟨op, hguard, hop⟩ := hstep
      exact coherent treeClosed_leafedIn ih fits_leafedIn (by cases op <;> trivial) hguard hop
  refine ⟨hcoherent.zoomCoherent, fun hzoomed hmax paneIndex => ?_⟩
  exact (hcoherent.laid.flat hzoomed).unzoom_toggleZoom hmax paneIndex

theorem WindowOp.run_split (w : Window) (p : ℕ) (paneId : PaneId)
    (hpos : p < w.panes.length) (hfr : paneId ∉ w.panes.map Pane.id)
    (d : SplitDirection) (before detached : Bool) :
    WindowOp.run w (.split p paneId d before detached) =
      some (w.splitAtPositionWithIdAndDirectionDetached p paneId d before
        detached) :=
  if_pos ⟨hpos, hfr⟩

/-- A window is split and its new pane is zoomed. -/
theorem zoom_coherence_split :
    ZoomCoherent (((Window.newWithInitialPane ⟨80, 24⟩ 0
      0).splitAtPositionWithIdAndDirectionDetached 0 1 .vertical false false).toggleZoom 1) := by
  have hsplit := run_split (Window.newWithInitialPane ⟨80, 24⟩ 0 0) 0 1 (by decide)
    (by decide) .vertical false false
  exact (zoom_coherence ⟨80, 24⟩ 0 0 (.tail (.single ⟨.split 0 1 .vertical false false, trivial,
    hsplit⟩) ⟨.toggleZoom 1, trivial, rfl⟩)).1

/-- Three panes side by side, of 5, 2 and 2 columns, with the first of them zoomed. -/
def zoomedColumns : Window :=
  (((Window.newWithInitialPane ⟨11, 3⟩ 0 0).splitAtPositionWithIdAndDirectionDetached 0 1 .vertical
    false false).splitAtPositionWithIdAndDirectionDetached 1 2 .vertical false false).toggleZoom 0

theorem zoomedColumns_reachable :
    ReflTransGen WindowStep (Window.newWithInitialPane ⟨11, 3⟩ 0 0) zoomedColumns := by
  have hfst := run_split (Window.newWithInitialPane ⟨11, 3⟩ 0 0) 0 1 (by decide)
    (by decide) .vertical false false
  have hsnd := run_split ((Window.newWithInitialPane ⟨11, 3⟩ 0
    0).splitAtPositionWithIdAndDirectionDetached 0 1 .vertical false false) 1 2 (by decide)
    (by decide) .vertical false false
  exact .tail (.tail (.single ⟨_, hfst⟩) ⟨_, hsnd⟩) ⟨.toggleZoom 0, rfl⟩

/-- Spreading the panes of a zoomed window gives the zoomed pane its rectangle in the tree. -/
theorem zoom_coherence_fails_unguarded :
    ReflTransGen WindowStep (Window.newWithInitialPane ⟨11, 3⟩ 0 0)
      (zoomedColumns.spreadLayout 0).2 ∧ ¬ZoomCoherent (zoomedColumns.spreadLayout 0).2 := by
  refine ⟨.tail zoomedColumns_reachable ⟨.spreadLayout 0, rfl⟩, fun h => ?_⟩
  have hzoomed : (zoomedColumns.spreadLayout 0).2.zoomed = true := by decide
  obtain ⟨-, t, position, active, -, hposition, hactive, hgeometry, -⟩ := h.1 hzoomed
  have hfirst : (zoomedColumns.spreadLayout 0).2.panePosition
      (zoomedColumns.spreadLayout 0).2.activePane = some 0 := by decide
  obtain rfl := Option.some.inj (hposition.symm.trans hfirst)
  have hshown : (zoomedColumns.spreadLayout 0).2.panes[0]?.map Pane.geometry ≠
      some (zoomedColumns.spreadLayout 0).2.fullGeometry := by decide
  exact hshown (by rw [hactive, Option.map_some, hgeometry])

end Rmux
