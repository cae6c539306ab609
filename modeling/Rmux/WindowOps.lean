import Mathlib.Logic.Relation
import Rmux.WindowPlacement

/-!
# Runs of a window

An operation that is refused is no step. `WindowOp.laid` and `WindowOp.coherent` are the step lemmas
: the tree and the rectangles stay in order through every operation, and the zoom too if the
operations that only reassign the rectangles come while the window is not zoomed.
-/

namespace Rmux

open Relation List Option Except LayoutTree

/-- The operations of a window, as the session calls them. -/
inductive WindowOp
  | split (position : ℕ) (paneId : PaneId) (direction : SplitDirection) (before detached : Bool)
  | extractPane (paneIndex : ℕ)
  | removePane (paneIndex : ℕ)
  | removeOtherPanes (paneIndex : ℕ)
  | selectPane (paneIndex : ℕ)
  | selectPaneById (paneId : PaneId)
  | selectAdjacentPane (paneIndex : ℕ) (direction : SelectPaneDirection)
  | toggleZoom (paneIndex : ℕ)
  | autoUnzoom
  | pushZoom (restore : Bool)
  | popZoom
  | rotatePanes (direction : RotateWindowDirection) (restoreZoom : Bool)
  | swapPanes (sourcePaneIndex targetPaneIndex : ℕ)
  | movePane (source target position : ℕ) (direction : SplitDirection) (before : Bool)
  | insertPaneAtPosition (position : ℕ) (pane : Pane) (direction : SplitDirection)
  | insertPaneFullSize (pane : Pane) (direction : SplitDirection) (before : Bool)
  | replacePaneForSwap (paneIndex : ℕ) (pane : Pane)
  | renumberPanesByPosition (activePaneId : PaneId) (lastPaneId : Option PaneId)
  | renumberPanesByPositionStamping (activePaneId : PaneId)
      (lastPaneId previousActivePaneId : Option PaneId)
  | renumberSinglePaneToZero
  | setSize (size : TerminalSize)
  | recalculateGeometry
  | setLayout (layout : LayoutName) (mainWidth mainHeight : Option UInt16)
  | nextLayout (mainWidth mainHeight : Option UInt16)
  | previousLayout (mainWidth mainHeight : Option UInt16)
  | resizeMainPane (adjustment : ResizePaneAdjustment)
  | resizePaneWidth (paneIndex : ℕ) (columns : UInt16)
  | resizePaneHeight (paneIndex : ℕ) (rows : UInt16)
  | resizePaneTo (paneIndex : ℕ) (direction : SplitDirection) (newSize : ℕ)
  | resizeNewSplitPaneTo (paneIndex : ℕ) (direction : SplitDirection) (newSize : ℕ)
      (before : Bool)
  | resizePaneBy (paneIndex : ℕ) (adjustment : ResizePaneAdjustment)
  | applyCustomLayout (layout : String)
  | saveOldLayout
  | reapplyOldLayout
  | spreadLayout (paneIndex : ℕ)
  | respawn (paneId : PaneId)
  | setName (name : String)

namespace WindowOp

/-- Carry out an operation, unless it is refused. A split needs the position of a pane and an
identity that is not in use. -/
def run (w : Window) : WindowOp → Option Window
  | split position paneId direction before detached =>
    if position < w.panes.length ∧ paneId ∉ w.panes.map Pane.id then
      some (w.splitAtPositionWithIdAndDirectionDetached position paneId direction before detached)
    else none
  | extractPane paneIndex => some (w.extractPane paneIndex).2
  | removePane paneIndex => some (w.removePane paneIndex).2
  | removeOtherPanes paneIndex => some (w.removeOtherPanes paneIndex).2
  | selectPane paneIndex => some (w.selectPane paneIndex)
  | selectPaneById paneId => some (w.selectPaneById paneId)
  | selectAdjacentPane paneIndex direction => some (w.selectAdjacentPane paneIndex direction)
  | toggleZoom paneIndex => some (w.toggleZoom paneIndex)
  | autoUnzoom => some w.autoUnzoom
  | pushZoom restore => some (w.pushZoom restore)
  | popZoom => some w.popZoom
  | rotatePanes direction restoreZoom => some (w.rotatePanesWithZoom direction restoreZoom)
  | swapPanes source target => some (w.swapPanes source target).2
  | movePane source target position direction before =>
    some (w.movePaneBySplittingTarget source target position direction before).2
  | insertPaneAtPosition position pane direction =>
    (w.insertPaneAtPosition position pane direction).toOption
  | insertPaneFullSize pane direction before =>
    (w.insertPaneFullSize pane direction before).toOption
  | replacePaneForSwap paneIndex pane => (w.replacePaneForSwap paneIndex pane).toOption
  | renumberPanesByPosition active last => some (w.renumberPanesByPosition active last)
  | renumberPanesByPositionStamping active last previous =>
    some (w.renumberPanesByPositionStamping active last previous)
  | renumberSinglePaneToZero => some w.renumberSinglePaneToZero
  | setSize size => some (w.setSize size)
  | recalculateGeometry => some w.recalculateGeometry
  | setLayout layout mainWidth mainHeight =>
    some (w.setLayoutWithMainPaneSize layout mainWidth mainHeight)
  | nextLayout mainWidth mainHeight => some (w.nextLayoutWithMainPaneSize mainWidth mainHeight)
  | previousLayout mainWidth mainHeight =>
    some (w.previousLayoutWithMainPaneSize mainWidth mainHeight)
  | resizeMainPane adjustment => some (w.resizeMainPane adjustment)
  | resizePaneWidth paneIndex columns => some (w.resizePaneWidth paneIndex columns).2
  | resizePaneHeight paneIndex rows => some (w.resizePaneHeight paneIndex rows).2
  | resizePaneTo paneIndex direction newSize =>
    some (w.resizePaneTo paneIndex direction newSize).2
  | resizeNewSplitPaneTo paneIndex direction newSize before =>
    some (w.resizeNewSplitPaneTo paneIndex direction newSize before).2
  | resizePaneBy paneIndex adjustment => some (w.resizePaneBy paneIndex adjustment).2
  | applyCustomLayout layout => (w.applyCustomLayout layout).toOption
  | saveOldLayout => some w.saveOldLayout
  | reapplyOldLayout => some w.reapplyOldLayout.2
  | spreadLayout paneIndex => some (w.spreadLayout paneIndex).2
  | respawn paneId => some (w.respawn paneId)
  | setName name => some (w.setName name)

/-- The operations that reassign rectangles or numbers without unzooming come while the window is
not zoomed, and a pane is zoomed again only if there is an active one. -/
def Guarded (w : Window) : WindowOp → Prop
  | replacePaneForSwap .. | renumberPanesByPosition .. | renumberPanesByPositionStamping ..
  | recalculateGeometry | applyCustomLayout .. | reapplyOldLayout | spreadLayout .. =>
    w.zoomed = false
  | popZoom => w.zoomRestorePending = true → 2 ≤ w.panes.length →
      w.activePane ∈ w.panes.map Pane.index
  | _ => True

/-- The trees that do not come from the operations of `TreeClosed` satisfy `P`. -/
def Fits (P : TerminalSize → LayoutTree → ℕ → Prop) (w : Window) : WindowOp → Prop
  | insertPaneFullSize _ _ before => ∀ s t t' d, P s t w.panes.length →
      t.splitRoot d before = some t' → P s t' (w.panes.length + 1)
  | applyCustomLayout layout => ∀ t, LayoutTree.parse layout w.panes.length = .ok t →
      P t.size t w.panes.length
  | reapplyOldLayout => ∀ layout t, w.oldLayout = some layout →
      LayoutTree.parse layout w.panes.length = .ok t → P t.size t w.panes.length
  | spreadLayout _ => ∀ t t' i, P w.size t w.panes.length → t.spreadFromLeaf i = some t' →
      P w.size t' w.panes.length
  | _ => True

end WindowOp

namespace Window

variable {w w' : Window} {B : ℕ → Prop} {P : TerminalSize → LayoutTree → ℕ → Prop}
  (hP : TreeClosed B P)

/-! ## The operations that only reassign the rectangles -/

section

include hP

/-- Assigning the rectangles makes a window flat, unless it is zoomed. -/
theorem Laid.applyLayoutTree_of_placed (h : Laid P w) (hpl : Placed P w')
    (hz : w'.zoomed = w.zoomed) (hlen : w'.panes.length = w.panes.length) :
    Laid P w'.applyLayoutTree ∧ w'.applyLayoutTree.zoomed = w.zoomed := by
  have hzoom : w'.applyLayoutTree.zoomed = w'.zoomed := by
    unfold applyLayoutTree
    split <;> rfl
  have hsz : w'.applyLayoutTree.size = w'.size := by
    unfold applyLayoutTree
    split <;> rfl
  refine ⟨?_, hzoom.trans hz⟩
  rcases h with hfl | ⟨-, htrue, htwo⟩
  · exact .inl (hpl.applyLayoutTree hP (hz.trans hfl.unzoomed))
  · refine .inr ⟨hpl.of_eq layoutTree_applyLayoutTree hsz map_id_applyLayoutTree,
      (hzoom.trans hz).trans htrue, ?_⟩
    rwa [length_panes_of_map_id_eq map_id_applyLayoutTree, hlen]

theorem Laid.replacePaneForSwap (h : Laid P w) {i : ℕ} {pane : Pane}
    (hok : w.replacePaneForSwap i pane = .ok w') : Laid P w' ∧ w'.zoomed = w.zoomed := by
  obtain ⟨w₁, hpl, hz, hlen, rfl⟩ := replacePaneForSwap_placed h.placed hok
  exact h.applyLayoutTree_of_placed hP hpl hz hlen

theorem Laid.applyCustomLayout (h : Laid P w) {layout : String}
    (hft : ∀ t, LayoutTree.parse layout w.panes.length = .ok t → P t.size t w.panes.length)
    (hok : w.applyCustomLayout layout = .ok w') : Laid P w' ∧ w'.zoomed = w.zoomed := by
  unfold Window.applyCustomLayout at hok
  split_ifs at hok
  obtain ⟨t, ht, hok⟩ := bind_eq_ok hok
  cases hok
  have hpl : Placed P { w with size := t.size, layoutTree := some t, customLayout := true } :=
    ⟨h.placed.nodup, .inr ⟨t, rfl, hft t ht⟩⟩
  exact h.applyLayoutTree_of_placed hP hpl rfl rfl

theorem Laid.reapplyOldLayout (h : Laid P w) (hft : ∀ layout t, w.oldLayout = some layout →
      LayoutTree.parse layout w.panes.length = .ok t → P t.size t w.panes.length) :
    Laid P w.reapplyOldLayout.2 ∧ w.reapplyOldLayout.2.zoomed = w.zoomed := by
  have hsaved : Laid P w.saveOldLayout := h.of_shown_eq rfl
  unfold Window.reapplyOldLayout
  dsimp only
  split
  · exact ⟨hsaved, rfl⟩
  · rename_i layout hlayout
    split
    · exact ⟨hsaved, rfl⟩
    · rename_i hok
      obtain ⟨hlaid, hz⟩ := hsaved.applyCustomLayout hP (hft layout · hlayout) hok
      exact ⟨hlaid, hz⟩

theorem Laid.spreadLayout (h : Laid P w) (paneIndex : ℕ)
    (hft : ∀ t t' i, P w.size t w.panes.length → t.spreadFromLeaf i = some t' →
      P w.size t' w.panes.length) :
    Laid P (w.spreadLayout paneIndex).2 ∧ (w.spreadLayout paneIndex).2.zoomed = w.zoomed := by
  unfold Window.spreadLayout
  split
  · exact ⟨h, rfl⟩
  unfold tryUpdateTree
  split
  · exact ⟨h, rfl⟩
  rename_i t' ht'
  obtain ⟨t, ht, hspread⟩ := bind_eq_some_iff.mp ht'
  have hpl : Placed P { w with layoutTree := some t' } :=
    ⟨h.placed.nodup, .inr ⟨t', rfl, hft t t' _ (h.placed.of_tree ht) hspread⟩⟩
  exact h.applyLayoutTree_of_placed hP hpl rfl rfl

theorem Laid.recalculateGeometry (h : Laid P w) : Laid P w.recalculateGeometry := by
  rcases h with hfl | ⟨hpl, hz, htwo⟩
  · exact .inl (flat_recalculateGeometry hP (s := w.size) hfl.toPlaced hfl.unzoomed)
  · refine .inr ⟨placed_recalculateGeometry hP (s := w.size) hpl, ?_, ?_⟩
    · rw [zoomed_recalculateGeometry, hz]
    · rwa [length_panes_of_map_id_eq map_id_recalculateGeometry]

end

/-! ## Zooming -/

theorem Laid.popZoom (h : Laid P w) : Laid P w.popZoom := by
  unfold Window.popZoom
  split_ifs with hpend hlen
  · refine .inr ⟨h.placed.of_eq rfl rfl map_id_applyZoomGeometry, rfl, ?_⟩
    exact hlen.trans_eq (length_panes_of_map_id_eq (w := w) map_id_applyZoomGeometry).symm
  · exact h.of_shown_eq rfl
  · exact h

@[simp] theorem map_index_applyZoomGeometry :
    w.applyZoomGeometry.panes.map Pane.index = w.panes.map Pane.index :=
  map_modify_eq _ _ _ Pane.index fun _ => rfl

theorem ZoomedIn.active_mem (h : ZoomedIn P w) : w.activePane ∈ w.panes.map Pane.index := by
  obtain ⟨w₁, -, -, hact, hshow⟩ := h
  simp only [shown, Prod.mk.injEq] at hshow
  obtain ⟨-, -, -, hact', hps⟩ := hshow
  rw [hact', hps]
  show w₁.activePane ∈ w₁.zoomIn.panes.map Pane.index
  rwa [zoomIn, map_index_applyZoomGeometry]

theorem setSize_of_zoomed (hz : w.zoomed = true) (size : TerminalSize) : w.setSize size =
    ({ w with size := size } : Window).recalculateGeometry.applyZoomGeometry := by
  unfold Window.setSize
  rw [if_pos (zoomed_recalculateGeometry (w := { w with size := size }).trans hz)]

theorem recalculateGeometry_setZoomed (zoomed : Bool) :
    ({ w with zoomed := zoomed } : Window).recalculateGeometry =
      { w.recalculateGeometry with zoomed := zoomed } := by
  cases ht : w.layoutTree <;> simp [recalculateGeometry, ht]

section

include hP

theorem Flat.setSize (h : Flat P w) (size : TerminalSize) : Flat P (w.setSize size) := by
  have hpl : Placed P { ({ w with size := size } : Window) with size := w.size } :=
    h.toPlaced.of_eq rfl rfl rfl
  have hfl := flat_recalculateGeometry hP hpl h.unzoomed
  unfold Window.setSize
  rw [if_neg (by rw [hfl.unzoomed]; simp)]
  exact hfl

theorem Laid.setSize (h : Laid P w) (size : TerminalSize) : Laid P (w.setSize size) := by
  have hpl : Placed P { ({ w with size := size } : Window) with size := w.size } :=
    h.placed.of_eq rfl rfl rfl
  rcases h with hfl | ⟨-, hz, htwo⟩
  · exact .inl (hfl.setSize hP size)
  · rw [setSize_of_zoomed hz]
    refine .inr ⟨(placed_recalculateGeometry hP hpl).of_eq rfl rfl map_id_applyZoomGeometry,
      zoomed_recalculateGeometry.trans hz, ?_⟩
    rw [length_panes_of_map_id_eq map_id_applyZoomGeometry,
      length_panes_of_map_id_eq map_id_recalculateGeometry]
    exact htwo

/-- Resizing a zoomed window is zooming the resized one. -/
theorem ZoomedIn.setSize (h : ZoomedIn P w) (size : TerminalSize) :
    ZoomedIn P (w.setSize size) := by
  have hlaid : Laid P w := Coherent.laid (.inr h)
  have hz : w.zoomed = true := by
    obtain ⟨w₁, -, -, -, hshow⟩ := h
    exact congrArg (fun v => v.2.2.1) hshow
  have htwo : 2 ≤ w.panes.length := by
    rcases hlaid with hfl | ⟨-, -, htwo⟩
    · rw [hfl.unzoomed] at hz
      cases hz
    · exact htwo
  have hpl : Placed P ({ ({ w with size := size, zoomed := false } : Window) with
      size := w.size } : Window) := hlaid.placed.of_eq rfl rfl rfl
  refine ⟨_, flat_recalculateGeometry hP hpl rfl, ?_, ?_, ?_⟩
  · rwa [length_panes_of_map_id_eq map_id_recalculateGeometry]
  · rw [map_index_recalculateGeometry, activePane_recalculateGeometry]
    exact h.active_mem
  · have hzoom : ({ w with size := size } : Window).recalculateGeometry.zoomed = true :=
      zoomed_recalculateGeometry.trans hz
    have hcommute : ({ w with size := size, zoomed := false } : Window).recalculateGeometry =
        { ({ w with size := size } : Window).recalculateGeometry with zoomed := false } :=
      recalculateGeometry_setZoomed (w := { w with size := size }) false
    rw [setSize_of_zoomed hz, hcommute]
    simp only [shown, zoomIn, applyZoomGeometry, modifyPane, fullGeometry, hzoom]

theorem flat_respawn (p : PaneId) : Flat P (w.respawn p) := by
  refine ⟨⟨by simp [respawn], .inr ⟨_, rfl, hP.single w.size⟩⟩, rfl, ?_⟩
  intro t ht i pane hp
  obtain rfl : single w.size = t := some.inj ht
  cases i with
  | zero =>
    obtain rfl := some.inj hp
    have hz : MachineInt.capU16 0 = 0 := rfl
    simp [paneGeometry, single, leafOf,
      LayoutCell.leafGeometries, LayoutGeometry.toPane, fullGeometry, hz]
  | succ i => cases hp

end

/-- Zooming in twice is zooming in once. -/
theorem shown_zoomIn_zoomIn : w.zoomIn.zoomIn.shown = w.zoomIn.shown := by
  have hfind : ∀ ps : List Pane, ps.findIdx (·.index = w.activePane) =
      (ps.map Pane.index).findIdx (· = w.activePane) := fun ps => by
    rw [findIdx_map]
    rfl
  have hsm : w.zoomIn.panes.findIdx (·.index = w.activePane) =
      w.panes.findIdx (·.index = w.activePane) := by
    rw [hfind, hfind, zoomIn, map_index_applyZoomGeometry]
  have hps : w.zoomIn.zoomIn.panes = w.zoomIn.panes := by
    show w.zoomIn.panes.modify (w.zoomIn.panes.findIdx (·.index = w.activePane)) _ = _
    rw [hsm]
    exact modify_modify_eq _ _ _ _
  simp only [shown, hps]
  rfl

/-- Zooming again what is zoomed already. -/
theorem Coherent.popZoom (h : Coherent P w) (hact : w.zoomRestorePending = true →
    2 ≤ w.panes.length → w.activePane ∈ w.panes.map Pane.index) : Coherent P w.popZoom := by
  rcases h with hfl | ⟨w₁, hfl, hlen, hmem, hshow⟩
  · exact Coherent.of_settles (.inl hfl) (hfl.popZoom hact)
  unfold Window.popZoom
  split_ifs
  · refine .inr ⟨w₁, hfl, hlen, hmem, ?_⟩
    rw [← shown_zoomIn_zoomIn]
    simp only [shown, Prod.mk.injEq] at hshow
    obtain ⟨ht, hsz, hz, hact', hps⟩ := hshow
    simp only [shown, applyZoomGeometry, modifyPane, fullGeometry, ht, hsz, hact', hps]
    rfl
  · exact .inr ⟨w₁, hfl, hlen, hmem, hshow⟩
  · exact .inr ⟨w₁, hfl, hlen, hmem, hshow⟩

end Window

/-! ## The steps -/

namespace WindowOp

variable {w w' : Window} {op : WindowOp} {B : ℕ → Prop} {P : TerminalSize → LayoutTree → ℕ → Prop}

/-- How many panes there may be for the preset layouts an operation can build. -/
def Bounded (B : ℕ → Prop) (w : Window) : WindowOp → Prop
  | split .. | insertPaneAtPosition .. | insertPaneFullSize .. => B (w.panes.length + 1)
  | extractPane .. | removePane .. => B (w.panes.length - 1)
  | _ => B w.panes.length

/-- Every operation settles the window, but for those that are guarded and resizing a window that
is zoomed. -/
theorem settles (hP : TreeClosed B P) (h : Window.Laid P w) (hft : op.Fits P w)
    (hB : op.Bounded B w) (hrun : op.run w = some w') :
    Window.Settles P w w' ∨ Window.Laid P w' ∧ (op.Guarded w → w'.zoomed = false) ∨
      op = popZoom ∨ ∃ size, op = setSize size := by
  cases op with
  | split position p d before detached =>
    simp only [run, ite_none_right_eq_some, some.injEq] at hrun
    obtain ⟨⟨hpos, hfr⟩, rfl⟩ := hrun
    exact .inl (h.splitAtPosition hP hpos hfr d before detached hB).settles
  | extractPane i => exact .inl (some.inj hrun ▸ h.extractPane hP i hB)
  | removePane i => exact .inl (some.inj hrun ▸ h.removePane hP i hB)
  | removeOtherPanes i => exact .inl (some.inj hrun ▸ h.removeOtherPanes hP i)
  | selectPane i => exact .inl (some.inj hrun ▸ h.selectPane hP i)
  | selectPaneById p => exact .inl (some.inj hrun ▸ h.selectPaneById hP p)
  | selectAdjacentPane i d => exact .inl (some.inj hrun ▸ h.selectAdjacentPane hP i d)
  | toggleZoom i => exact .inl (some.inj hrun ▸ h.toggleZoom hP i)
  | autoUnzoom => exact .inl (some.inj hrun ▸ (h.autoUnzoom hP).settles)
  | pushZoom restore => exact .inl (some.inj hrun ▸ (h.pushZoom hP restore).settles)
  | popZoom => exact .inr (.inr (.inl rfl))
  | rotatePanes d restore => exact .inl (some.inj hrun ▸ h.rotatePanesWithZoom hP d restore)
  | swapPanes src t => exact .inl (some.inj hrun ▸ h.swapPanes hP src t)
  | movePane src t position d before =>
    exact .inl (some.inj hrun ▸ h.movePaneBySplittingTarget hP src t position d before)
  | insertPaneAtPosition position pane d =>
    exact .inl (h.insertPaneAtPosition hP hB (toOption_eq_some_iff.mp hrun)).settles
  | insertPaneFullSize pane d before =>
    exact .inl (h.insertPaneFullSize hP hB hft (toOption_eq_some_iff.mp hrun)).settles
  | replacePaneForSwap i pane =>
    obtain ⟨hlaid, hz⟩ := h.replacePaneForSwap hP (toOption_eq_some_iff.mp hrun)
    exact .inr (.inl ⟨hlaid, hz.trans⟩)
  | renumberPanesByPosition active last =>
    obtain rfl := some.inj hrun
    have hview := Window.view_renumberPanesByPosition (w := w) active last
    have hz : (w.renumberPanesByPosition active last).zoomed = w.zoomed := rfl
    exact .inr (.inl ⟨h.of_view_eq hview, hz.trans⟩)
  | renumberPanesByPositionStamping active last previous =>
    obtain rfl := some.inj hrun
    have hview := Window.view_renumberPanesByPositionStamping (w := w) active last previous
    have hz : (w.renumberPanesByPositionStamping active last previous).zoomed = w.zoomed :=
      congrArg (fun v => v.2.2.1) hview
    exact .inr (.inl ⟨h.of_view_eq hview, hz.trans⟩)
  | renumberSinglePaneToZero =>
    obtain rfl := some.inj hrun
    by_cases hone : w.panes.length = 1
    · exact .inl (Window.flat_renumberSinglePaneToZero hP hone).settles
    · refine .inl (.inl ?_)
      unfold Window.renumberSinglePaneToZero
      split
      · rename_i hps
        simp [hps] at hone
      · rfl
  | setSize size => exact .inr (.inr (.inr ⟨size, rfl⟩))
  | recalculateGeometry =>
    obtain rfl := some.inj hrun
    exact .inr (.inl ⟨h.recalculateGeometry hP, Window.zoomed_recalculateGeometry.trans⟩)
  | setLayout layout mainWidth mainHeight =>
    exact .inl (some.inj hrun ▸
      (h.setLayoutWithMainPaneSize hP hB layout mainWidth mainHeight).settles)
  | nextLayout mainWidth mainHeight | previousLayout mainWidth mainHeight =>
    exact .inl (some.inj hrun ▸ (h.setLayoutWithMainPaneSize hP hB _ mainWidth mainHeight).settles)
  | resizeMainPane adjustment => exact .inl (some.inj hrun ▸ h.resizeMainPane hP hB adjustment)
  | resizePaneWidth i cols =>
    exact .inl (some.inj hrun ▸ h.resizePaneAlong hP hB .leftRight i cols)
  | resizePaneHeight i rows =>
    exact .inl (some.inj hrun ▸ h.resizePaneAlong hP hB .topBottom i rows)
  | resizePaneTo i d newSize => exact .inl (some.inj hrun ▸ h.resizePaneTo hP i d newSize)
  | resizeNewSplitPaneTo i d newSize before =>
    exact .inl (some.inj hrun ▸ h.resizeNewSplitPaneTo hP i d newSize before)
  | resizePaneBy i adjustment => exact .inl (some.inj hrun ▸ h.resizePaneBy hP i adjustment)
  | applyCustomLayout layout =>
    obtain ⟨hlaid, hz⟩ := h.applyCustomLayout hP hft (toOption_eq_some_iff.mp hrun)
    exact .inr (.inl ⟨hlaid, hz.trans⟩)
  | saveOldLayout => exact .inl (.inl (some.inj hrun ▸ rfl))
  | reapplyOldLayout =>
    obtain rfl := some.inj hrun
    obtain ⟨hlaid, hz⟩ := h.reapplyOldLayout hP hft
    exact .inr (.inl ⟨hlaid, hz.trans⟩)
  | spreadLayout i =>
    obtain rfl := some.inj hrun
    obtain ⟨hlaid, hz⟩ := h.spreadLayout hP i hft
    exact .inr (.inl ⟨hlaid, hz.trans⟩)
  | respawn p => exact .inl (some.inj hrun ▸ (Window.flat_respawn hP p).settles)
  | setName name => exact .inl (.inl (some.inj hrun ▸ rfl))

/-- The tree and the rectangles of a window that is not zoomed stay in order. -/
theorem laid (hP : TreeClosed B P) (h : Window.Laid P w) (hft : op.Fits P w)
    (hB : op.Bounded B w) (hrun : op.run w = some w') : Window.Laid P w' := by
  rcases settles hP h hft hB hrun with hs | ⟨hlaid, -⟩ | rfl | ⟨size, rfl⟩
  · exact h.of_settles hs
  · exact hlaid
  · obtain rfl := some.inj hrun
    exact h.popZoom
  · obtain rfl := some.inj hrun
    exact h.setSize hP size

/-- Guarded operations keep the zoom in order too. -/
theorem coherent (hP : TreeClosed B P) (h : Window.Coherent P w) (hft : op.Fits P w)
    (hB : op.Bounded B w) (hguard : op.Guarded w) (hrun : op.run w = some w') :
    Window.Coherent P w' := by
  rcases settles hP h.laid hft hB hrun with hs | ⟨hlaid, hzoom⟩ | rfl | ⟨size, rfl⟩
  · exact h.of_settles hs
  · exact .inl (hlaid.flat (hzoom hguard))
  · obtain rfl := some.inj hrun
    exact h.popZoom hguard
  · obtain rfl := some.inj hrun
    rcases h with hfl | hzoom
    · exact .inl (hfl.setSize hP size)
    · exact .inr (hzoom.setSize hP size)

/-- Every tree an operation makes has a leaf for every pane. -/
theorem fits_leafedIn : op.Fits LeafedIn w := by
  cases op with
  | insertPaneFullSize pane direction before =>
    intro s t t' d ht ht'
    exact ⟨ht.1.splitRoot ht', ht.2.trans (size_eq_of_axisSize (splitRoot_frame ht').1).symm⟩
  | applyCustomLayout layout => exact fun t ht => ⟨.parse ht, rfl⟩
  | reapplyOldLayout => exact fun layout t _ ht => ⟨.parse ht, rfl⟩
  | spreadLayout paneIndex =>
    intro t t' i ht ht'
    exact ⟨ht.1.spreadFromLeaf ht', ht.2.trans
      (size_eq_of_axisSize (spreadFromLeaf_frame ht').1.axisSize).symm⟩
  | _ => trivial

end WindowOp

/-! ## The runs -/

/-- Some operation is carried out. -/
def WindowStep (w w' : Window) : Prop := ∃ op : WindowOp, op.run w = some w'

end Rmux
