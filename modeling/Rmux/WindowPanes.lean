import Mathlib.Data.List.Nodup
import Rmux.Window

/-!
# The panes of a window

Most operations keep the panes of a window, in another order at most (`Window.SamePanes`); the
others take one out or put one in. `Window.view` is what is left of a window when the numbers of the
panes are forgotten, which is all that most of the bookkeeping of an operation changes.
-/

namespace Rmux

open MachineInt LayoutCell List Option

theorem map_id_numberPanes (ps : List Pane) : (numberPanes ps).map Pane.id = ps.map Pane.id := by
  refine ext_getElem? fun i => ?_
  simp only [numberPanes, getElem?_map, getElem?_mapIdx, Option.map_map]
  rfl

theorem map_shown_numberPanes (ps : List Pane) :
    ((numberPanes ps).map fun pane => (pane.id, pane.geometry)) =
      ps.map fun pane => (pane.id, pane.geometry) := by
  refine ext_getElem? fun i => ?_
  simp only [numberPanes, getElem?_map, getElem?_mapIdx, Option.map_map]
  rfl

namespace Window

variable {w w' : Window} {paneIndex : ℕ}

/-! ## What the operations leave alone -/

/-- What is shown, without the numbers of the panes and without which of them is active. -/
def view (w : Window) : Option LayoutTree × TerminalSize × Bool × List (PaneId × PaneGeometry) :=
  (w.layoutTree, w.size, w.zoomed, w.panes.map fun pane => (pane.id, pane.geometry))

theorem view_modifyPane (paneIndex : ℕ) {f : Pane → Pane} (hid : ∀ p, (f p).id = p.id)
    (hgeo : ∀ p, (f p).geometry = p.geometry) : (w.modifyPane paneIndex f).view = w.view := by
  simp only [view, modifyPane]
  rw [map_modify_eq _ _ _ _ fun p => Prod.ext (hid p) (hgeo p)]

@[simp] theorem view_markPaneActive (paneIndex : ℕ) : (w.markPaneActive paneIndex).view = w.view :=
  view_modifyPane _ (fun _ => rfl) fun _ => rfl

@[simp] theorem view_renumberPanesByPosition (activePaneId : PaneId) (lastPaneId : Option PaneId) :
    (w.renumberPanesByPosition activePaneId lastPaneId).view = w.view := by
  simp [renumberPanesByPosition, view, map_shown_numberPanes]

@[simp] theorem view_renumberPanesByPositionStamping (activePaneId : PaneId)
    (lastPaneId previousActivePaneId : Option PaneId) :
    (w.renumberPanesByPositionStamping activePaneId lastPaneId previousActivePaneId).view =
      w.view := by
  unfold renumberPanesByPositionStamping
  split_ifs <;> simp

@[simp] theorem view_commitSplitRenumber (newPaneId : PaneId) (active last : Option PaneId)
    (detached : Bool) : (w.commitSplitRenumber newPaneId active last detached).view = w.view := by
  unfold commitSplitRenumber
  split_ifs
  · cases active <;> simp
  · dsimp only
    split_ifs <;> simp

theorem map_id_of_view_eq (h : w'.view = w.view) : w'.panes.map Pane.id = w.panes.map Pane.id := by
  have hps := congrArg (fun v => v.2.2.2.map Prod.fst) h
  simpa [view, List.map_map, Function.comp_def] using hps

theorem length_panes_of_map_id_eq (h : w'.panes.map Pane.id = w.panes.map Pane.id) :
    w'.panes.length = w.panes.length := by
  simpa using congrArg length h

@[simp] theorem layoutTree_applyLayoutTree : w.applyLayoutTree.layoutTree = w.layoutTree := by
  unfold applyLayoutTree
  split
  · rfl
  · rfl

@[simp] theorem map_id_applyLayoutTree :
    w.applyLayoutTree.panes.map Pane.id = w.panes.map Pane.id := by
  unfold applyLayoutTree
  split <;> simp

@[simp] theorem map_id_applyZoomGeometry :
    w.applyZoomGeometry.panes.map Pane.id = w.panes.map Pane.id :=
  map_modify_eq _ _ _ Pane.id fun _ => rfl

@[simp] theorem map_id_recalculateGeometry :
    w.recalculateGeometry.panes.map Pane.id = w.panes.map Pane.id := by
  unfold recalculateGeometry
  split <;> simp

@[simp] theorem map_id_autoUnzoom : w.autoUnzoom.panes.map Pane.id = w.panes.map Pane.id := by
  unfold autoUnzoom
  split_ifs <;> simp

@[simp] theorem length_panes_autoUnzoom : w.autoUnzoom.panes.length = w.panes.length :=
  length_panes_of_map_id_eq map_id_autoUnzoom

@[simp] theorem map_id_rebuildNamedLayoutTree (t : LayoutName) :
    (w.rebuildNamedLayoutTree t).panes.map Pane.id = w.panes.map Pane.id := by
  unfold rebuildNamedLayoutTree
  split_ifs
  · rfl
  · exact map_id_applyLayoutTree

@[simp] theorem map_id_updateTree (change : LayoutTree → Option LayoutTree) :
    (w.updateTree change).panes.map Pane.id = w.panes.map Pane.id := by
  unfold updateTree
  split
  · exact map_id_rebuildNamedLayoutTree _
  · exact map_id_applyLayoutTree

@[simp] theorem map_id_setSize (size : TerminalSize) :
    (w.setSize size).panes.map Pane.id = w.panes.map Pane.id := by
  unfold setSize
  dsimp only
  split_ifs
  · exact map_id_applyZoomGeometry.trans map_id_recalculateGeometry
  · exact map_id_recalculateGeometry

/-! ## Operations that keep the panes -/

/-- The same panes, in any order. -/
def SamePanes (w w' : Window) : Prop := (w'.panes.map Pane.id).Perm (w.panes.map Pane.id)

theorem SamePanes.refl (w : Window) : SamePanes w w := List.Perm.refl _

theorem SamePanes.trans {w₁ : Window} (h : SamePanes w w₁) (h' : SamePanes w₁ w') :
    SamePanes w w' :=
  List.Perm.trans h' h

theorem SamePanes.of_map_id_eq (h : w'.panes.map Pane.id = w.panes.map Pane.id) :
    SamePanes w w' := by
  rw [SamePanes, h]

theorem SamePanes.of_view_eq (h : w'.view = w.view) : SamePanes w w' :=
  .of_map_id_eq (map_id_of_view_eq h)

theorem SamePanes.length_eq (h : SamePanes w w') : w'.panes.length = w.panes.length := by
  simpa using List.Perm.length_eq h

theorem samePanes_autoUnzoom : SamePanes w w.autoUnzoom := .of_map_id_eq map_id_autoUnzoom

theorem samePanes_pushZoom (restore : Bool) : SamePanes w (w.pushZoom restore) :=
  samePanes_autoUnzoom

theorem samePanes_popZoom : SamePanes w w.popZoom := by
  unfold popZoom
  split_ifs
  · exact .of_map_id_eq map_id_applyZoomGeometry
  · exact .refl w
  · exact .refl w

theorem samePanes_setSize (size : TerminalSize) : SamePanes w (w.setSize size) :=
  .of_map_id_eq (map_id_setSize size)

theorem samePanes_selectPane (paneIndex : ℕ) : SamePanes w (w.selectPane paneIndex) := by
  unfold selectPane
  split_ifs
  · exact .refl w
  · exact samePanes_autoUnzoom.trans (.of_view_eq (view_markPaneActive paneIndex))
  · exact .refl w

theorem samePanes_toggleZoom (paneIndex : ℕ) : SamePanes w (w.toggleZoom paneIndex) := by
  unfold toggleZoom
  split_ifs
  · exact .refl w
  · exact samePanes_autoUnzoom
  · exact .refl w
  · exact (samePanes_selectPane paneIndex).trans (.of_map_id_eq map_id_applyZoomGeometry)

theorem samePanes_setLayoutWithMainPaneSize (t : LayoutName)
    (mainWidth mainHeight : Option UInt16) :
    SamePanes w (w.setLayoutWithMainPaneSize t mainWidth mainHeight) :=
  samePanes_autoUnzoom.trans (.of_map_id_eq (map_id_rebuildNamedLayoutTree _))

theorem samePanes_tryUpdateTree (change : LayoutTree → Option LayoutTree) :
    SamePanes w (w.tryUpdateTree change).2 := by
  unfold tryUpdateTree
  split
  · exact .refl w
  · exact .of_map_id_eq map_id_applyLayoutTree

theorem samePanes_resizeMainPaneTo (d : LayoutDirection) (cells : UInt16) :
    SamePanes w (w.resizeMainPaneTo d cells) := by
  unfold resizeMainPaneTo
  dsimp only
  split_ifs
  · exact samePanes_autoUnzoom.trans (samePanes_tryUpdateTree _)
  · refine samePanes_autoUnzoom.trans (.of_map_id_eq ?_)
    cases d <;> exact map_id_rebuildNamedLayoutTree _

theorem samePanes_resizePaneAlong (d : LayoutDirection) (paneIndex : ℕ) (cells : UInt16) :
    SamePanes w (w.resizePaneAlong d paneIndex cells).2 := by
  unfold resizePaneAlong
  split
  · exact .refl w
  rename_i p _
  split_ifs
  · exact samePanes_resizeMainPaneTo d cells
  have htry := samePanes_tryUpdateTree (w := w.autoUnzoom)
    fun tree => tree.resizePaneTo p d cells.toNat
  dsimp only
  split
  · rename_i htrue
    rw [htrue] at htry
    refine samePanes_autoUnzoom.trans (htry.trans ?_)
    cases d <;> exact .refl _
  · rename_i hfalse
    rw [hfalse] at htry
    exact samePanes_autoUnzoom.trans htry

theorem samePanes_resizePaneTo (paneIndex : ℕ) (d : SplitDirection) (newSize : ℕ) :
    SamePanes w (w.resizePaneTo paneIndex d newSize).2 := by
  unfold resizePaneTo
  split
  · exact .refl w
  · exact samePanes_autoUnzoom.trans (samePanes_tryUpdateTree _)

theorem samePanes_resizePaneBy (paneIndex : ℕ) (adjustment : ResizePaneAdjustment) :
    SamePanes w (w.resizePaneBy paneIndex adjustment).2 := by
  unfold resizePaneBy
  split
  swap
  · exact .refl w
  dsimp only
  split
  · exact samePanes_autoUnzoom
  · refine samePanes_autoUnzoom.trans (.of_map_id_eq (map_id_applyLayoutTree.trans ?_))
    unfold syncRequestedMainSizeAfterDirectionalResize
    split_ifs
    · rfl
    · split <;> rfl

theorem rotatedPanes_perm (panes : List Pane) (d : RotateWindowDirection) :
    (rotatedPanes panes d).Perm panes := by
  cases d with
  | down => exact rotateRight_perm _ 1
  | up => exact rotateLeft_perm _ 1

theorem samePanes_rotatePanesWithZoom (d : RotateWindowDirection) (restore : Bool) :
    SamePanes w (w.rotatePanesWithZoom d restore) := by
  unfold rotatePanesWithZoom
  split_ifs
  · exact .refl w
  dsimp only
  split
  swap
  · exact samePanes_pushZoom restore
  refine ((samePanes_pushZoom restore).trans ?_).trans samePanes_popZoom
  refine SamePanes.trans ?_ (.of_view_eq (view_markPaneActive _))
  show List.Perm _ _
  rw [map_id_applyLayoutTree, map_id_numberPanes]
  exact (rotatedPanes_perm _ d).map Pane.id

theorem samePanes_swapPanes (src t : ℕ) : SamePanes w (w.swapPanes src t).2 := by
  unfold swapPanes
  split
  swap
  · exact .refl w
  split_ifs
  · exact .refl w
  dsimp only
  split
  swap
  · exact samePanes_autoUnzoom
  rename_i hsrc htgt
  obtain ⟨hi, rfl⟩ := List.getElem?_eq_some_iff.mp hsrc
  obtain ⟨hj, rfl⟩ := List.getElem?_eq_some_iff.mp htgt
  refine samePanes_autoUnzoom.trans ?_
  refine SamePanes.trans ?_ (.of_view_eq (view_renumberPanesByPosition _ _))
  show List.Perm _ _
  rw [map_id_applyLayoutTree]
  exact (set_set_perm hi hj).map Pane.id

theorem samePanes_movePaneBySplittingTarget (src t p : ℕ) (d : SplitDirection) (before : Bool) :
    SamePanes w (w.movePaneBySplittingTarget src t p d before).2 := by
  unfold movePaneBySplittingTarget
  dsimp only
  split_ifs with hsrc htgt hfinal
  · exact .refl w
  · exact .refl w
  · exact .refl w
  split
  · exact samePanes_autoUnzoom
  split
  · exact samePanes_autoUnzoom
  split
  · rename_i moved hmove
    obtain ⟨hlt, rfl⟩ := List.getElem?_eq_some_iff.mp hmove
    refine samePanes_autoUnzoom.trans ?_
    show List.Perm _ _
    rw [map_id_applyLayoutTree]
    have herase := length_eraseIdx_add_one hlt
    have hlen := length_panes_autoUnzoom (w := w)
    have hle : p ≤ (w.autoUnzoom.panes.eraseIdx src).length := by omega
    exact ((perm_insertIdx _ _ hle).trans (getElem_cons_eraseIdx_perm hlt)).map Pane.id
  · exact samePanes_autoUnzoom

theorem samePanes_renumberSinglePaneToZero : SamePanes w w.renumberSinglePaneToZero := by
  unfold renumberSinglePaneToZero
  split
  · rename_i hps
    refine .of_map_id_eq (map_id_recalculateGeometry.trans ?_)
    simp [hps]
  · exact .refl w

/-! ## Taking panes out and putting them in -/

theorem map_id_splitAtPosition (p : ℕ) (paneId : PaneId)
    (d : SplitDirection) (before detached : Bool) :
    (w.splitAtPositionWithIdAndDirectionDetached p paneId d before
      detached).panes.map Pane.id =
      (w.panes.map Pane.id).insertIdx (if before then p else p + 1) paneId := by
  unfold splitAtPositionWithIdAndDirectionDetached
  rw [map_id_of_view_eq (view_commitSplitRenumber _ _ _ _), map_id_updateTree, map_insertIdx,
    map_id_autoUnzoom]

theorem length_panes_splitAtPosition {p : ℕ} (hpos : p < w.panes.length)
    (paneId : PaneId) (d : SplitDirection) (before detached : Bool) :
    (w.splitAtPositionWithIdAndDirectionDetached p paneId d before
      detached).panes.length = w.panes.length + 1 := by
  have h := congrArg length (map_id_splitAtPosition (w := w) p paneId d before detached)
  rwa [length_map, length_insertIdx_of_le_length, length_map] at h
  rw [length_map]
  split_ifs <;> omega

theorem length_panes_dropPane {p : ℕ} (hpos : p < w.panes.length) :
    (w.dropPane p).panes.length + 1 = w.panes.length := by
  unfold dropPane
  rw [length_panes_of_map_id_eq (map_id_updateTree _)]
  exact length_eraseIdx_add_one hpos

theorem pane_isNone_iff : (w.pane paneIndex).isNone ↔ paneIndex ∉ w.panes.map Pane.index := by
  simp [pane]

@[simp] theorem map_index_recalculateGeometry :
    w.recalculateGeometry.panes.map Pane.index = w.panes.map Pane.index := by
  unfold recalculateGeometry
  split <;> simp

@[simp] theorem map_index_autoUnzoom :
    w.autoUnzoom.panes.map Pane.index = w.panes.map Pane.index := by
  unfold autoUnzoom
  split_ifs <;> simp

@[simp] theorem activePane_recalculateGeometry :
    w.recalculateGeometry.activePane = w.activePane := by
  unfold recalculateGeometry
  split <;> rfl

theorem exists_pane_of_mem (h : paneIndex ∈ w.panes.map Pane.index) :
    ∃ pane, w.pane paneIndex = some pane := by
  refine isSome_iff_exists.mp ?_
  rw [← not_isNone, Bool.not_eq_true', Bool.eq_false_iff]
  exact fun hn => pane_isNone_iff.mp hn h

/-- The pane at an index is at its position. -/
theorem pane_eq_some_iff {pane : Pane} : w.pane paneIndex = some pane ↔
    ∃ p, w.panePosition paneIndex = some p ∧ w.panes[p]? = some pane := by
  rw [Window.pane, find?_eq_bind_findIdx?_getElem?, bind_eq_some_iff]
  rfl

/-- Positions are told by the indices. -/
theorem panePosition_eq_of_map_index (h : w'.panes.map Pane.index = w.panes.map Pane.index)
    (paneIndex : ℕ) : w'.panePosition paneIndex = w.panePosition paneIndex := by
  have hmap : ∀ ps : List Pane, ps.findIdx? (·.index = paneIndex) =
      (ps.map Pane.index).findIdx? (· = paneIndex) := fun ps => by
    rw [findIdx?_map]
    rfl
  rw [panePosition, panePosition, hmap, hmap, h]

/-- At most one pane is taken out. -/
theorem length_le_extractPane (paneIndex : ℕ) :
    w.panes.length ≤ (w.extractPane paneIndex).2.panes.length + 1 := by
  have hlen := length_panes_autoUnzoom (w := w)
  unfold extractPane
  split
  · exact Nat.le_succ _
  dsimp only
  split
  swap
  · dsimp only
    omega
  rename_i hrem
  have hdp := length_panes_dropPane (List.getElem?_eq_some_iff.mp hrem).1
  split_ifs with hone htwo
  · show w.panes.length ≤ 0 + 1
    omega
  · rw [samePanes_renumberSinglePaneToZero.length_eq]
    omega
  · rw [length_panes_of_map_id_eq (map_id_of_view_eq (view_renumberPanesByPosition _ _))]
    omega

theorem removeOtherPanes_ne_nil (h : w.panes ≠ []) :
    (w.removeOtherPanes paneIndex).2.panes ≠ [] := by
  unfold removeOtherPanes
  split
  · exact h
  rename_i keep hkeep
  dsimp only
  split_ifs
  · refine ne_nil_of_length_pos ?_
    rw [(samePanes_selectPane paneIndex).length_eq]
    exact length_pos_iff.mpr h
  · refine ne_nil_of_length_pos ?_
    rw [samePanes_renumberSinglePaneToZero.length_eq]
    have hmem : keep.id ∈ w.autoUnzoom.panes.map Pane.id := by
      rw [map_id_autoUnzoom]
      exact mem_map_of_mem (mem_of_find?_eq_some hkeep)
    obtain ⟨pane, hp, hid⟩ := mem_map.mp hmem
    refine length_pos_of_mem (mem_filter.mpr ⟨hp, ?_⟩)
    simpa using hid

end Window

end Rmux
