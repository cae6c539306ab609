import Rmux.LayoutNamed
import Rmux.LayoutParser

/-!
# Windows

Every operation restores the tree and the rectangles by hand (`window.rs` and `window/`). Where the
source panics (a lookup with `expect`, an `assert!`) the operation here goes on with what it has;
`Window.Coherent` says that a window of a session is never in that position. The queued alerts and
the timestamps are left out, since no modelled function reads them.
-/

namespace Rmux

open MachineInt LayoutCell

abbrev WindowId := UInt32

/-- `vertical` puts the new pane beside the old one, `horizontal` below it. -/
inductive SplitDirection
  | vertical
  | horizontal
  deriving DecidableEq

def LayoutDirection.fromSplitDirection : SplitDirection → LayoutDirection
  | .vertical => .leftRight
  | .horizontal => .topBottom

/-- Which way the panes are rotated. -/
inductive RotateWindowDirection
  | down
  | up
  deriving DecidableEq

/-- Where the pane is that is selected. -/
inductive SelectPaneDirection
  | up
  | down
  | left
  | right
  deriving DecidableEq

/-- Which way a border is moved. -/
inductive ResizePaneRelativeDirection
  | up
  | down
  | left
  | right
  deriving DecidableEq

/-- How a pane is resized. -/
inductive ResizePaneAdjustment
  | absoluteWidth (columns : UInt16)
  | absoluteHeight (rows : UInt16)
  | zoom
  | up (cells : UInt16)
  | down (cells : UInt16)
  | left (cells : UInt16)
  | right (cells : UInt16)
  | noOp
  | absoluteSize (columns rows : UInt16)
  | trimBelow
  | composite (columns rows : Option UInt16) (relative : Option ResizePaneRelativeDirection)
      (cells : UInt16)
  deriving DecidableEq

def ResizePaneRelativeDirection.toAdjustment (relative : ResizePaneRelativeDirection)
    (cells : UInt16) : ResizePaneAdjustment :=
  match relative with
  | .up => .up cells
  | .down => .down cells
  | .left => .left cells
  | .right => .right cells

/-- Panes in an order, a layout tree whose leaves give them their rectangles, the indices of the
active and the last pane, and the zoom state. -/
structure Window where
  id : WindowId
  panes : List Pane
  nextPaneIndex : ℕ
  activePane : ℕ
  lastPane : Option ℕ
  layout : LayoutName
  lastLayout : Option LayoutName
  layoutTree : Option LayoutTree
  customLayout : Bool
  oldLayout : Option String
  size : TerminalSize
  name : Option String
  automaticRename : Bool
  zoomed : Bool
  zoomRestorePending : Bool
  requestedMainWidth : Option UInt16
  requestedMainHeight : Option UInt16

def layoutForSplit : SplitDirection → LayoutName
  | .vertical => .mainVertical
  | .horizontal => .mainHorizontal

/-- Panes numbered by position. -/
def numberPanes (panes : List Pane) : List Pane :=
  panes.mapIdx fun index pane => { pane with index := index }

namespace Window

variable (w : Window)

/-! ## Panes -/

variable (paneIndex : ℕ)

def pane : Option Pane := w.panes.find? (·.index = paneIndex)

def panePosition : Option ℕ := w.panes.findIdx? (·.index = paneIndex)

/-- The active pane itself (`active_pane()`). -/
def activePane? : Option Pane := w.pane w.activePane

def paneIndexForId (paneId : PaneId) : Option ℕ := (w.panes.find? (·.id = paneId)).map Pane.index

/-- The id of the last pane, if that pane still exists. -/
def lastPaneId : Option PaneId := w.lastPane.bind fun paneIndex => (w.pane paneIndex).map Pane.id

/-- Change the pane with an index (`pane_mut`). -/
def modifyPane (f : Pane → Pane) : Window :=
  { w with panes := w.panes.modify (w.panes.findIdx (·.index = paneIndex)) f }

def paneActivePointMax : ℕ := 2 ^ 64 - 1

/-- Stamp a pane as the most recently active one. -/
def markPaneActive : Window :=
  let next := min ((w.panes.map Pane.activePoint).foldl max 0 + 1) paneActivePointMax
  w.modifyPane paneIndex fun pane => { pane with activePoint := next }

def fullGeometry : PaneGeometry := ⟨0, 0, w.size.cols, w.size.rows⟩

/-! ## Rectangles and zoom -/

/-- Fit the tree to the window size, and the window size to the tree. -/
def recalculateGeometry : Window :=
  match w.layoutTree with
  | none => w
  | some tree =>
    let tree := tree.resize w.size
    { w with layoutTree := some tree, size := tree.size, panes := tree.applyToPanes w.panes }

def applyLayoutTree : Window :=
  match w.layoutTree with
  | none => w
  | some tree => { w with panes := tree.applyToPanes w.panes }

/-- Show the active pane over the whole window. -/
def applyZoomGeometry : Window :=
  w.modifyPane w.activePane fun pane => { pane with geometry := w.fullGeometry }

def autoUnzoom : Window :=
  if w.zoomed then { w with zoomed := false }.recalculateGeometry else w

/-- Unzoom, and remember whether `popZoom` is to zoom again. -/
def pushZoom (restore : Bool) : Window :=
  { w.autoUnzoom with zoomRestorePending := w.zoomed && restore }

def popZoom : Window :=
  if w.zoomRestorePending then
    if 1 < w.panes.length then
      { w with zoomRestorePending := false, zoomed := true }.applyZoomGeometry
    else { w with zoomRestorePending := false }
  else w

def selectPane : Window :=
  if (w.pane paneIndex).isNone then w
  else if w.activePane ≠ paneIndex then
    { w.autoUnzoom with lastPane := some w.activePane, activePane := paneIndex }.markPaneActive
      paneIndex
  else w

def selectPaneById (paneId : PaneId) : Window :=
  match w.paneIndexForId paneId with
  | none => w
  | some paneIndex => w.selectPane paneIndex

/-- Does a run of cells meet the cells of another one, the cell after it included ? -/
def tmuxAxisOverlap (sourceStart sourceSize candidateStart candidateSize : ℕ) : Bool :=
  let sourceEnd := sourceStart + sourceSize
  let candidateEnd := candidateStart + (candidateSize - 1)
  (candidateStart < sourceStart && sourceEnd < candidateEnd) ||
    (sourceStart ≤ candidateStart && candidateStart ≤ sourceEnd) ||
    (sourceStart ≤ candidateEnd && candidateEnd ≤ sourceEnd)

/-- Is the candidate next to the source in a direction, the window wrapping around ? The source
computes a distance as well, which nothing reads. -/
def isAdjacent (source candidate : PaneGeometry) (direction : SelectPaneDirection)
    (windowSize : TerminalSize) : Bool :=
  let rowsOverlap := tmuxAxisOverlap source.y.toNat source.rows.toNat candidate.y.toNat
    candidate.rows.toNat
  let colsOverlap := tmuxAxisOverlap source.x.toNat source.cols.toNat candidate.x.toNat
    candidate.cols.toNat
  match direction with
  | .right =>
    let edge := source.x.toNat + source.cols.toNat + 1
    let edge := if windowSize.cols.toNat ≤ edge then 0 else edge
    candidate.x.toNat == edge && rowsOverlap
  | .left =>
    let edge := if source.x = 0 then windowSize.cols.toNat + 1 else source.x.toNat
    candidate.x.toNat + candidate.cols.toNat + 1 == edge && rowsOverlap
  | .down =>
    let edge := source.y.toNat + source.rows.toNat + 1
    let edge := if windowSize.rows.toNat ≤ edge then 0 else edge
    candidate.y.toNat == edge && colsOverlap
  | .up =>
    let edge := if source.y = 0 then windowSize.rows.toNat + 1 else source.y.toNat
    candidate.y.toNat + candidate.rows.toNat + 1 == edge && colsOverlap

/-- The adjacent pane that was active most recently, the first one if several are. -/
def adjacentCandidate (source : PaneGeometry) (paneIndex : ℕ) (direction : SelectPaneDirection) :
    Option Pane :=
  (w.panes.filter fun pane =>
      pane.index ≠ paneIndex && isAdjacent source pane.geometry direction w.size).foldl
    (fun best pane =>
      match best with
      | some b => if pane.activePoint ≤ b.activePoint then some b else some pane
      | none => some pane)
    none

def selectAdjacentPane (direction : SelectPaneDirection) : Window :=
  match w.pane paneIndex with
  | none => w
  | some source =>
    match w.adjacentCandidate source.geometry paneIndex direction with
    | none => w
    | some candidate => w.selectPane candidate.index

def toggleZoom : Window :=
  if (w.pane paneIndex).isNone then w
  else if w.zoomed then w.autoUnzoom
  else if w.panes.length ≤ 1 then w
  else { w.selectPane paneIndex with zoomed := true }.applyZoomGeometry

/-! ## Layouts -/

def layoutOptions : LayoutOptions where
  requestedMainWidth := w.requestedMainWidth
  requestedMainHeight := w.requestedMainHeight
  tiledMaxColumns := none

def rebuildNamedLayoutTree (layout : LayoutName) : Window :=
  if w.panes.isEmpty then { w with layoutTree := none, customLayout := false }
  else
    let tree := LayoutTree.named layout w.panes.length w.size w.layoutOptions
    { w with size := tree.size, layoutTree := some tree, customLayout := false }.applyLayoutTree

def setLayoutWithMainPaneSize (layout : LayoutName) (mainWidth mainHeight : Option UInt16) :
    Window :=
  { w.autoUnzoom with
    layout := layout
    lastLayout := some layout
    requestedMainWidth := mainWidth
    requestedMainHeight := mainHeight }.rebuildNamedLayoutTree layout

/-- The order in which `next-layout` goes through the presets. -/
def layoutCycle : List LayoutName :=
  [.evenHorizontal, .evenVertical, .mainHorizontal, .mainVertical, .tiled]

/-- The place of a layout in the cycle; a mirrored one counts as its original. -/
def cyclePosition (layout : LayoutName) : ℕ :=
  layoutCycle.idxOf <|
    match layout with
    | .mainHorizontalMirrored => .mainHorizontal
    | .mainVerticalMirrored => .mainVertical
    | layout => layout

def nextCycleLayout : Option LayoutName → LayoutName
  | none => .evenHorizontal
  | some layout =>
    layoutCycle.getD ((cyclePosition layout + 1) % layoutCycle.length) .evenHorizontal

def previousCycleLayout : Option LayoutName → LayoutName
  | none => .tiled
  | some layout =>
    layoutCycle.getD ((cyclePosition layout + layoutCycle.length - 1) % layoutCycle.length) .tiled

def nextLayoutWithMainPaneSize (mainWidth mainHeight : Option UInt16) : Window :=
  w.setLayoutWithMainPaneSize (nextCycleLayout w.lastLayout) mainWidth mainHeight

def previousLayoutWithMainPaneSize (mainWidth mainHeight : Option UInt16) : Window :=
  w.setLayoutWithMainPaneSize (previousCycleLayout w.lastLayout) mainWidth mainHeight

/-- Change the tree, and with it the rectangles; rebuild a preset layout if that fails. -/
def updateTree (change : LayoutTree → Option LayoutTree) : Window :=
  match w.layoutTree.bind change with
  | none => w.rebuildNamedLayoutTree w.layout
  | some tree => { w with layoutTree := some tree }.applyLayoutTree

/-- Change the tree and the rectangles, or report that nothing changed. -/
def tryUpdateTree (change : LayoutTree → Option LayoutTree) : Bool × Window :=
  match w.layoutTree.bind change with
  | none => (false, w)
  | some tree => (true, { w with layoutTree := some tree }.applyLayoutTree)

def layoutDump : String := (w.layoutTree.map (·.dump w.panes)).getD ""

/-! ## Numbering -/

/-- Number the panes by position, and find the active and the last pane again by id. -/
def renumberPanesByPosition (activePaneId : PaneId) (lastPaneId : Option PaneId) : Window :=
  let w : Window := { w with panes := numberPanes w.panes, nextPaneIndex := w.panes.length }
  let active := (w.paneIndexForId activePaneId).getD w.activePane
  { w with
    activePane := active
    lastPane := (lastPaneId.bind w.paneIndexForId).filter (· ≠ active) }

/-- The same, and stamp the active pane if it is another one than before. -/
def renumberPanesByPositionStamping (activePaneId : PaneId) (lastPaneId : Option PaneId)
    (previousActivePaneId : Option PaneId) : Window :=
  let w := w.renumberPanesByPosition activePaneId lastPaneId
  if previousActivePaneId ≠ some activePaneId then w.markPaneActive w.activePane else w

def renumberSinglePaneToZero : Window :=
  match w.panes with
  | [pane] =>
    { w with
      panes := [{ pane with index := 0, geometry := w.fullGeometry }]
      nextPaneIndex := 1
      activePane := 0
      lastPane := none
      layout := .mainVertical
      lastLayout := none
      layoutTree := some (.single w.size)
      customLayout := false
      oldLayout := none
      zoomed := false
      zoomRestorePending := false
      requestedMainWidth := none
      requestedMainHeight := none }.recalculateGeometry
  | _ => w

/-! ## Creation -/

/-- A window with one pane. -/
def newWithInitialPane (size : TerminalSize) (paneId : PaneId) (id : WindowId) : Window :=
  recalculateGeometry
    { id := id
      panes := [⟨paneId, 0, ⟨0, 0, size.cols, size.rows⟩, 0⟩]
      nextPaneIndex := 1
      activePane := 0
      lastPane := none
      layout := .mainVertical
      lastLayout := none
      layoutTree := some (.single size)
      customLayout := false
      oldLayout := none
      size := size
      name := none
      automaticRename := true
      zoomed := false
      zoomRestorePending := false
      requestedMainWidth := none
      requestedMainHeight := none }

/-- Back to a single new pane; the id, the name and the size stay. -/
def respawn (paneId : PaneId) : Window :=
  { w with
    panes := [⟨paneId, 0, w.fullGeometry, 0⟩]
    nextPaneIndex := 1
    activePane := 0
    lastPane := none
    layout := .mainVertical
    lastLayout := none
    layoutTree := some (.single w.size)
    customLayout := false
    oldLayout := none
    automaticRename := true
    zoomed := false
    zoomRestorePending := false
    requestedMainWidth := none
    requestedMainHeight := none }

def setName (name : String) : Window := { w with name := some name, automaticRename := false }

def setSize (size : TerminalSize) : Window :=
  let w := { w with size := size }.recalculateGeometry
  if w.zoomed then w.applyZoomGeometry else w

/-! ## Splitting -/

/-- Number the panes after a split. A detached split keeps the active and the last pane. -/
def commitSplitRenumber (newPaneId : PaneId) (previousActivePaneId previousLastPaneId :
    Option PaneId) (detached : Bool) : Window :=
  if detached then
    match previousActivePaneId with
    | none => w
    | some activePaneId => w.renumberPanesByPosition activePaneId previousLastPaneId
  else
    let w := w.renumberPanesByPosition newPaneId previousActivePaneId
    if w.activePane?.map Pane.id ≠ previousActivePaneId then w.markPaneActive w.activePane else w

/-- Split the pane at a position; the new pane comes before or after it. -/
def splitAtPositionWithIdAndDirectionDetached (position : ℕ) (paneId : PaneId)
    (direction : SplitDirection) (before detached : Bool) : Window :=
  let w : Window := { w.autoUnzoom with layout := layoutForSplit direction }
  let previousActivePaneId := w.activePane?.map Pane.id
  let previousLastPaneId := w.lastPaneId
  let insertAt := if before then position else position + 1
  let w : Window := { w with
    nextPaneIndex := w.nextPaneIndex + 1
    panes := w.panes.insertIdx insertAt ⟨paneId, w.nextPaneIndex, ⟨0, 0, 0, 0⟩, 0⟩ }
  let w := w.updateTree fun tree => tree.splitLeaf position (.fromSplitDirection direction)
  w.commitSplitRenumber paneId previousActivePaneId previousLastPaneId detached

/-! ## Removing -/

/-- The pane that becomes active when the active one is removed : the last pane, or a
neighbour. -/
def nextActivePaneAfterRemoval (position removedPaneIndex : ℕ) : Option PaneId :=
  let last := w.lastPane.filter (· ≠ removedPaneIndex)
  ((last.bind w.pane).map Pane.id).or <|
    if 0 < position then w.panes[position - 1]?.map Pane.id
    else w.panes[position + 1]?.map Pane.id

/-- The pane that is active after a removal. -/
def activeAfterRemoval (position removedPaneIndex : ℕ) (previousActivePaneId : PaneId) : PaneId :=
  if w.activePane = removedPaneIndex ∧ 1 < w.panes.length then
    (w.nextActivePaneAfterRemoval position removedPaneIndex).getD previousActivePaneId
  else previousActivePaneId

/-- The last pane after a removal : none if the active pane or the last one itself goes. -/
def lastAfterRemoval (removed : Pane) : Option PaneId :=
  if removed.index = w.activePane then none else w.lastPaneId.filter (· ≠ removed.id)

/-- Drop the pane at a position, and its leaf. -/
def dropPane (position : ℕ) : Window :=
  { w with panes := w.panes.eraseIdx position }.updateTree fun tree => tree.removeLeaf position

/-- Take a pane out of the window. The window may be left without panes. -/
def extractPane : Option Pane × Window :=
  match w.panePosition paneIndex with
  | none => (none, w)
  | some position =>
    let w := w.autoUnzoom
    match w.activePane?.map Pane.id, w.panes[position]? with
    | some previousActivePaneId, some removed =>
      if w.panes.length = 1 then
        (some removed, { w with
          panes := []
          layoutTree := none
          customLayout := false
          activePane := removed.index
          lastPane := none })
      else if w.panes.length = 2 then (some removed, (w.dropPane position).renumberSinglePaneToZero)
      else
        (some removed, (w.dropPane position).renumberPanesByPosition
          (w.activeAfterRemoval position paneIndex previousActivePaneId)
          (w.lastAfterRemoval removed))
    | _, _ => (none, w)

def removePane : Option Pane × Window :=
  if w.panes.length ≤ 1 then (none, w) else w.extractPane paneIndex

/-- Remove all panes but one, and return their ids. -/
def removeOtherPanes : Option (List PaneId) × Window :=
  match w.pane paneIndex with
  | none => (none, w)
  | some keep =>
    let removed := (w.panes.filter (·.id ≠ keep.id)).map Pane.id
    if removed.isEmpty then (some removed, w.selectPane paneIndex)
    else
      let w := w.autoUnzoom
      (some removed,
        { w with panes := w.panes.filter (·.id = keep.id) }.renumberSinglePaneToZero)

/-! ## Rearranging -/

/-- The panes moved on by one position. -/
def rotatedPanes (panes : List Pane) : RotateWindowDirection → List Pane
  | .down => panes.rotateRight 1
  | .up => panes.rotateLeft 1

/-- Rotate the panes through the positions. The active position stays, and the pane that was
active becomes the last one. -/
def rotatePanesWithZoom (direction : RotateWindowDirection) (restoreZoom : Bool) : Window :=
  if w.panes.length ≤ 1 then w
  else
    let w := w.pushZoom restoreZoom
    match w.activePane?, w.panePosition w.activePane with
    | some previousActive, some activePosition =>
      let w := { w with panes := numberPanes (rotatedPanes w.panes direction) }.applyLayoutTree
      let w : Window := { w with
        activePane := activePosition
        lastPane := (w.paneIndexForId previousActive.id).filter (· ≠ activePosition) }
      (w.markPaneActive w.activePane).popZoom
    | _, _ => w

def rotatePanes (direction : RotateWindowDirection) : Window :=
  w.rotatePanesWithZoom direction false

/-- Exchange the panes at two indices. The active and the last pane are followed by id. -/
def swapPanes (sourcePaneIndex targetPaneIndex : ℕ) : Bool × Window :=
  match w.panePosition sourcePaneIndex, w.panePosition targetPaneIndex with
  | some sourcePosition, some targetPosition =>
    if sourcePosition = targetPosition then (true, w)
    else
      let w := w.autoUnzoom
      match w.activePane?, w.panes[sourcePosition]?, w.panes[targetPosition]? with
      | some active, some source, some target =>
        let lastPaneId := w.lastPaneId
        let swapped := (w.panes.set sourcePosition target).set targetPosition source
        let w := { w with panes := swapped }.applyLayoutTree
        (true, w.renumberPanesByPosition active.id lastPaneId)
      | _, _, _ => (true, w)
  | _, _ => (false, w)

/-- The check that a pane's id and index are new to the window. One position may be exempt. -/
def ensureAcceptsPane (pane : Pane) (ignoredPosition : Option ℕ) : Except RmuxError Unit :=
  (w.panes.zipIdx.filter (fun (_, position) => some position ≠ ignoredPosition)).forM
    fun (existing, _) =>
      if existing.id = pane.id then
        .error (.server s!"pane id {pane.id.toNat} already exists in window @{w.id.toNat}")
      else if existing.index = pane.index then
        .error (.server s!"pane index {pane.index} already exists in window @{w.id.toNat}")
      else .ok ()

def bumpNextPaneIndex : Window :=
  { w with nextPaneIndex := max w.nextPaneIndex (paneIndex + 1) }

/-- Insert a pane next to the pane before a position. -/
def insertPaneAtPosition (position : ℕ) (pane : Pane) (direction : SplitDirection) :
    Except RmuxError Window :=
  if w.panes.length < position then
    .error (.server s!"cannot insert pane at position {position} in a {w.panes.length}-pane window")
  else do
    w.ensureAcceptsPane pane none
    let w := { w.autoUnzoom with layout := layoutForSplit direction }.bumpNextPaneIndex pane.index
    let w : Window := { w with panes := w.panes.insertIdx position pane }
    if w.panes.length = 1 then
      .ok { w with
        activePane := pane.index
        lastPane := none
        layoutTree := some (.single w.size) }.applyLayoutTree
    else
      let targetLeaf := if position = 0 then 0 else position - 1
      .ok (w.updateTree fun tree => tree.splitLeaf targetLeaf (.fromSplitDirection direction))

/-- The leaf of a pane after the target has been split. -/
def sourceLeafAfterSplit (sourcePosition targetPosition : ℕ) (insertBeforeTarget : Bool) : ℕ :=
  let splitInsertPosition := if insertBeforeTarget then targetPosition else targetPosition + 1
  if splitInsertPosition ≤ sourcePosition then sourcePosition + 1 else sourcePosition

/-- Move a pane next to another one : split the target, then remove the source leaf. The window
is changed even when it fails half-way. -/
def movePaneBySplittingTarget (sourcePosition targetPosition finalInsertPosition : ℕ)
    (direction : SplitDirection) (insertBeforeTarget : Bool) :
    Except RmuxError PaneId × Window :=
  let paneCount := w.panes.length
  if paneCount ≤ sourcePosition then
    (.error (.server s!"cannot move missing pane at position {sourcePosition}"), w)
  else if paneCount ≤ targetPosition then
    (.error (.server s!"cannot split missing target pane at position {targetPosition}"), w)
  else if paneCount - 1 < finalInsertPosition then
    let room := paneCount - 1
    (.error (.server
      s!"cannot insert moved pane at position {finalInsertPosition} in a {room}-pane window"), w)
  else
    let w : Window := { w.autoUnzoom with layout := layoutForSplit direction }
    let sourceLeaf := sourceLeafAfterSplit sourcePosition targetPosition insertBeforeTarget
    match w.layoutTree with
    | none => (.error (.server "cannot move pane without a layout tree"), w)
    | some tree =>
      match tree.splitLeaf targetPosition (.fromSplitDirection direction) with
      | none =>
        (.error (.server s!"cannot split target pane at position {targetPosition}"), w)
      | some tree =>
        let w : Window := { w with layoutTree := some tree }
        match tree.removeLeaf sourceLeaf, w.panes[sourcePosition]? with
        | some tree, some moved =>
          (.ok moved.id, { w with
            layoutTree := some tree
            panes := (w.panes.eraseIdx sourcePosition).insertIdx finalInsertPosition
              moved }.applyLayoutTree)
        | _, _ =>
          (.error (.server s!"cannot remove source pane leaf at position {sourceLeaf}"), w)

/-- Insert a pane along one whole side of the window. -/
def insertPaneFullSize (pane : Pane) (direction : SplitDirection) (insertBeforeTarget : Bool) :
    Except RmuxError Window := do
  w.ensureAcceptsPane pane none
  let w := { w.autoUnzoom with layout := layoutForSplit direction }.bumpNextPaneIndex pane.index
  let w : Window := { w with
    panes := if insertBeforeTarget then pane :: w.panes else w.panes ++ [pane] }
  .ok (w.updateTree fun tree =>
    tree.splitRoot (.fromSplitDirection direction) insertBeforeTarget)

/-- Put another pane in the place of the one at an index. -/
def replacePaneForSwap (pane : Pane) : Except RmuxError Window :=
  match w.panePosition paneIndex with
  | none =>
    .error (.server s!"cannot replace missing pane index {paneIndex} in window @{w.id.toNat}")
  | some position =>
    if (w.panes.eraseIdx position).any (·.id = pane.id) then
      .error (.server s!"pane id {pane.id.toNat} already exists in window @{w.id.toNat}")
    else
      let w := w.bumpNextPaneIndex pane.index
      .ok { w with panes := w.panes.set position pane }.applyLayoutTree

/-! ## Resizing -/

/-- Request an extent of the main pane along `d`, or resize the first pane of a custom layout. -/
def resizeMainPaneTo (d : LayoutDirection) (cells : UInt16) : Window :=
  let w := w.autoUnzoom
  if w.customLayout then (w.tryUpdateTree fun tree => tree.resizePaneTo 0 d cells.toNat).2
  else
    let w : Window :=
      match d with
      | .leftRight => { w with requestedMainWidth := some cells }
      | .topBottom => { w with requestedMainHeight := some cells }
    w.rebuildNamedLayoutTree w.layout

/-- The extent of pane 0 along `d`, as it is shown, moved by some cells and at least 1. -/
def mainPaneExtent (d : LayoutDirection) (move : ℕ → ℕ) : UInt16 :=
  match w.pane 0 with
  | none => 1
  | some pane =>
    let extent :=
      match d with
      | .leftRight => pane.geometry.cols
      | .topBottom => pane.geometry.rows
    capU16 (max (move extent.toNat) 1)

/-- The adjustments of `resize_main_pane` that are not made of others. -/
def resizeMainPaneSimple : ResizePaneAdjustment → Window
  | .absoluteWidth columns => w.resizeMainPaneTo .leftRight columns
  | .absoluteHeight rows => w.resizeMainPaneTo .topBottom rows
  | .zoom => w.toggleZoom w.activePane
  | .up cells => w.resizeMainPaneTo .topBottom (w.mainPaneExtent .topBottom (· - cells.toNat))
  | .down cells => w.resizeMainPaneTo .topBottom (w.mainPaneExtent .topBottom (· + cells.toNat))
  | .left cells => w.resizeMainPaneTo .leftRight (w.mainPaneExtent .leftRight (· - cells.toNat))
  | .right cells => w.resizeMainPaneTo .leftRight (w.mainPaneExtent .leftRight (· + cells.toNat))
  | _ => w

def resizeMainPane : ResizePaneAdjustment → Window
  | .absoluteSize columns rows =>
    (w.resizeMainPaneTo .leftRight columns).resizeMainPaneTo .topBottom rows
  | .composite columns rows relative cells =>
    let w := (columns.map (w.resizeMainPaneTo .leftRight)).getD w
    let w := (rows.map (w.resizeMainPaneTo .topBottom)).getD w
    (relative.map fun r => w.resizeMainPaneSimple (r.toAdjustment cells)).getD w
  | adjustment => w.resizeMainPaneSimple adjustment

def clearRequested (d : LayoutDirection) : Window :=
  match d with
  | .leftRight => { w with requestedMainWidth := none }
  | .topBottom => { w with requestedMainHeight := none }

/-- Resize a pane along `d` and drop the request for the main pane. -/
def resizePaneAlong (d : LayoutDirection) (paneIndex : ℕ) (cells : UInt16) : Bool × Window :=
  match w.panePosition paneIndex with
  | none => (false, w)
  | some position =>
    if w.panes.length = 1 then (true, w.resizeMainPaneTo d cells)
    else
      let w := w.autoUnzoom
      match w.tryUpdateTree fun tree => tree.resizePaneTo position d cells.toNat with
      | (true, w) => (true, w.clearRequested d)
      | (false, w) => (false, w)

def resizePaneWidth (columns : UInt16) : Bool × Window :=
  w.resizePaneAlong .leftRight paneIndex columns

def resizePaneHeight (rows : UInt16) : Bool × Window :=
  w.resizePaneAlong .topBottom paneIndex rows

def resizePaneTo (direction : SplitDirection) (newSize : ℕ) : Bool × Window :=
  match w.panePosition paneIndex with
  | none => (false, w)
  | some position =>
    w.autoUnzoom.tryUpdateTree fun tree =>
      tree.resizePaneTo position (.fromSplitDirection direction) newSize

def paneExtent (pane : Pane) : SplitDirection → ℕ
  | .vertical => pane.geometry.cols.toNat
  | .horizontal => pane.geometry.rows.toNat

/-- Size a pane that was just inserted against the pane it was split from. -/
def resizeNewSplitPaneTo (newPaneIndex : ℕ) (direction : SplitDirection) (newSize : ℕ)
    (insertedBeforeTarget : Bool) : Bool × Window :=
  let newSize := max newSize 1
  if insertedBeforeTarget then w.resizePaneTo newPaneIndex direction newSize
  else
    match w.panePosition newPaneIndex with
    | none => (false, w)
    | some 0 => w.resizePaneTo newPaneIndex direction newSize
    | some (targetPosition + 1) =>
      match w.panes[targetPosition]?, w.panes[targetPosition + 1]? with
      | some target, some new =>
        let combined := paneExtent target direction + paneExtent new direction + 1
        w.resizePaneTo target.index direction (max (combined - 1 - newSize) 1)
      | _, _ => (false, w)

/-- Remember the main pane's extent, as it is shown, for when the layout is built again. -/
def syncRequestedMainSizeAfterDirectionalResize : Window :=
  if w.customLayout then w
  else
    match w.layout with
    | .mainVertical | .mainVerticalMirrored =>
      { w with requestedMainWidth := (w.pane 0).map (·.geometry.cols) }
    | .mainHorizontal | .mainHorizontalMirrored =>
      { w with requestedMainHeight := (w.pane 0).map (·.geometry.rows) }
    | _ => w

def ResizePaneAdjustment.directional : ResizePaneAdjustment → Option (LayoutDirection × ℤ)
  | .up cells => some (.topBottom, -cells.toNat)
  | .down cells => some (.topBottom, cells.toNat)
  | .left cells => some (.leftRight, -cells.toNat)
  | .right cells => some (.leftRight, cells.toNat)
  | _ => none

/-- Move a border of a pane. The main pane's extent is remembered as it was before. -/
def resizePaneBy (adjustment : ResizePaneAdjustment) : Bool × Window :=
  match w.panePosition paneIndex, ResizePaneAdjustment.directional adjustment with
  | some position, some (direction, change) =>
    let w := w.autoUnzoom
    match w.layoutTree.bind fun tree => tree.resizePaneBy position direction change with
    | none => (false, w)
    | some tree =>
      (true, { w with
        layoutTree := some tree }.syncRequestedMainSizeAfterDirectionalResize.applyLayoutTree)
  | _, _ => (false, w)

/-! ## Custom layouts -/

def applyCustomLayout (layout : String) : Except RmuxError Window :=
  if w.panes.isEmpty then .error (.server "invalid layout")
  else do
    let tree ← LayoutTree.parse layout w.panes.length
    .ok { w with size := tree.size, layoutTree := some tree, customLayout := true }.applyLayoutTree

def saveOldLayout : Window := { w with oldLayout := some w.layoutDump }

/-- Exchange the layout with the saved one. The saved one is replaced even if it cannot be
applied. -/
def reapplyOldLayout : Except RmuxError Bool × Window :=
  let saved := w.saveOldLayout
  match w.oldLayout with
  | none => (.ok false, saved)
  | some layout =>
    match saved.applyCustomLayout layout with
    | .error e => (.error e, saved)
    | .ok w => (.ok true, w)

def spreadLayout : Bool × Window :=
  match w.panePosition paneIndex with
  | none => (false, w)
  | some position => w.tryUpdateTree fun tree => tree.spreadFromLeaf position

end Window

end Rmux
