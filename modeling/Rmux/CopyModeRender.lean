import Rmux.CopyModeCommands

/-!
# What copy mode shows

The summary that formats read and the picture of the viewport : its rows with the column ranges to
be marked as selected, one for each selected row on view, and the overlays.
-/

namespace Rmux

/-- What formats read of a copy mode. -/
structure CopyModeSummary where
  viewMode : Bool
  lineNumbersEnabled : Bool
  showPosition : Bool
  historySize : ℕ
  backingRows : ℕ
  scrollPosition : ℕ
  rectangleToggle : Bool
  cursorX : ℕ
  cursorY : ℕ
  selectionStart : Option CopyPosition
  selectionEnd : Option CopyPosition
  selectionActive : Bool
  selectionPresent : Bool
  selectionMode : Option SelectionMode
  searchPresent : Bool
  searchTimedOut : Bool
  searchCount : ℕ
  searchCountPartial : Bool
  searchMatch : Option Text
  copyCursorWord : Text
  copyCursorLine : Text
  copyCursorHyperlink : Text
  paneSearchString : Text
  topLineTime : ℤ
deriving DecidableEq

/-- Columns of a row of the viewport. -/
structure CopyModeOverlayRange where
  row : ℕ
  startX : ℕ
  endX : ℕ
deriving DecidableEq

/-- What is marked on the picture : the mark, the matches and the current one. -/
structure CopyModeRenderOverlays where
  mark : Option CopyModeOverlayRange
  matched : List CopyModeOverlayRange
  currentMatch : Option CopyModeOverlayRange
deriving DecidableEq

/-- A picture of the viewport : its rows, the cursor and the ranges marked as selected. -/
structure CopyModeViewport where
  lines : List GridLineView
  cursorX : ℕ
  cursorY : ℕ
  selected : List CopyModeOverlayRange
deriving DecidableEq

/-- The picture of a copy mode. -/
structure CopyModeRenderSnapshot where
  screen : CopyModeViewport
  overlays : CopyModeRenderOverlays
  historySize : ℕ
  scrollPosition : ℕ
  alternateOn : Bool
  lineNumbersEnabled : Bool
deriving DecidableEq

/-- The rows of a screen from `topLine` on, as a picture with nothing selected. -/
def ScreenView.cloneViewport (screen : ScreenView) (topLine cursorX cursorAbsoluteY : ℕ) :
    CopyModeViewport :=
  let rows := max screen.rows 1
  let topLine := min topLine (screen.absoluteLineCount - rows)
  let lines := (List.range rows).map fun offset =>
    ((screen.history ++ screen.visible)[topLine + offset]?).getD ⟨.cells [], false, false, 0⟩
  let cursorY :=
    if topLine ≤ cursorAbsoluteY ∧ cursorAbsoluteY < topLine + rows then cursorAbsoluteY - topLine
    else 0
  ⟨lines, min cursorX (max screen.cols 1 - 1), cursorY, []⟩

namespace CopyModeState

variable (s : CopyModeState)

def summary : Option CopyModeSummary := do
  let word ← s.currentWord
  let line ← s.currentLineText
  let hyperlink ← s.currentHyperlink
  some
    { viewMode := s.viewMode
      lineNumbersEnabled := s.lineNumbersEnabled
      showPosition := s.showPosition
      historySize := s.backing.historySize
      backingRows := s.backing.rows
      scrollPosition := s.bottomTopLine - s.topLine
      rectangleToggle := s.rectangle
      cursorX := s.cursor.x
      cursorY := s.cursor.y - s.topLine
      selectionStart := s.selection.map (·.anchor)
      selectionEnd := s.selection.map (·.stop)
      selectionActive := s.selection.any (·.active)
      selectionPresent := s.selection.isSome
      selectionMode := s.selection.map (·.mode)
      searchPresent := !s.searchPattern.isEmpty
      searchTimedOut := s.searchTimedOut
      searchCount := s.searchResults.length
      searchCountPartial := s.searchCountPartial
      searchMatch := (s.searchCurrent.bind (s.searchResults[·]?)).map (·.text)
      copyCursorWord := word.getD []
      copyCursorLine := line
      copyCursorHyperlink := hyperlink.getD []
      paneSearchString := s.searchPattern
      topLineTime :=
        if s.topLine < s.backing.historySize then
          ((s.backing.absoluteLineView s.topLine).map (·.time)).getD 0
        else 0 }

/-- The columns of row `y` that a selection covers. -/
def selectedColumns (selection : SelectionState) (start stop : CopyPosition) (y : ℕ) :
    Option (ℕ × ℕ) :=
  if selection.mode = .line then (s.lineEndX y).map fun x => (0, x)
  else if s.rectangle then some (min start.x stop.x, max start.x stop.x)
  else do
    let rangeStart := if y = start.y then start.x else 0
    let rangeEnd ← (if y = stop.y then some stop.x else s.lineEndX y)
    some (rangeStart, rangeEnd)

def markSelectionInViewport (viewport : CopyModeViewport) (selection : SelectionState) :
    Option CopyModeViewport := do
  let viewportBottom := s.topLine + max s.rows 1
  let (start, stop) := normalizePositions selection.anchor selection.stop
  let rows := (linesBetween start.y stop.y).filter fun y => s.topLine ≤ y && y < viewportBottom
  let ranges ← rows.mapM fun y => do
    let (rangeStart, rangeEnd) ← s.selectedColumns selection start stop y
    some ⟨y - s.topLine, rangeStart, rangeEnd⟩
  some { viewport with selected := ranges }

def renderScreen : Option CopyModeViewport :=
  let viewport := s.backing.cloneViewport s.topLine s.cursor.x s.cursor.y
  match s.selection with
  | some selection => s.markSelectionInViewport viewport selection
  | none => some viewport

def visibleRow (absoluteY : ℕ) : Option ℕ :=
  if s.topLine ≤ absoluteY ∧ absoluteY - s.topLine < max s.rows 1 then some (absoluteY - s.topLine)
  else none

def visibleFullRow (absoluteY : ℕ) : Option CopyModeOverlayRange :=
  (s.visibleRow absoluteY).map fun row => ⟨row, 0, s.cols - 1⟩

def visibleMatchRange (found : SearchMatch) : Option CopyModeOverlayRange :=
  if found.start.y ≠ found.stop.y then none
  else (s.visibleRow found.start.y).map fun row => ⟨row, found.start.x, found.stop.x⟩

def renderOverlays : CopyModeRenderOverlays :=
  let mark :=
    if s.showMark && 0 < s.cols then s.mark.bind fun mark => s.visibleFullRow mark.y else none
  if !s.searchHighlighted then ⟨mark, [], none⟩
  else
    ⟨mark, s.searchResults.filterMap s.visibleMatchRange,
      (s.searchCurrent.bind (s.searchResults[·]?)).bind s.visibleMatchRange⟩

def renderSnapshot : Option CopyModeRenderSnapshot := do
  let screen ← s.renderScreen
  some ⟨screen, s.renderOverlays, s.backing.historySize, s.bottomTopLine - s.topLine,
    s.backing.alternate, s.lineNumbersEnabled⟩

end CopyModeState

end Rmux
