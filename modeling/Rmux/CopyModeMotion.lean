import Rmux.CopyModeState

/-!
# Movement, selection and search in copy mode

The commands that move the cursor, the viewport and the selection, as functions on the state. A
motion that finds nothing leaves the cursor where it is. None of the source's motions fails, so
their `Result` is left out.
-/

namespace Rmux

namespace CopyModeState

variable (s : CopyModeState)

/-! ## Selection -/

def beginSelection : CopyModeState :=
  { s with selection := some ⟨s.cursor, s.cursor, .char, true⟩ }

def selectLine : Option CopyModeState := do
  let startY ← s.logicalLineStartY s.cursor.y
  let endY ← s.logicalLineEndY s.cursor.y
  let x ← s.lineEndX endY
  some { s with
    cursor := ⟨x, endY⟩
    selection := some ⟨⟨0, startY⟩, ⟨x, endY⟩, .line, true⟩ }.ensureCursorVisible

def selectWord : Option CopyModeState := do
  let range ← s.wordSelectionRange s.cursor
  some { s with
    selection := some ⟨range.start, range.stop, .word, true⟩
    cursor := range.stop }.ensureCursorVisible

/-! ## Motions -/

/-- The cursor goes to `position`, the viewport after it. -/
def showCursorAt (position : CopyPosition) : CopyModeState :=
  { s with cursor := position }.ensureCursorVisible

/-- The cursor goes to `position` if there is one. An active selection follows in any case. -/
def moveAndSync (position : Option CopyPosition) : CopyModeState :=
  (position.elim s s.showCursorAt).syncSelectionWithCursor

/-- The cursor goes to `position` if there is one, and only then an active selection follows. -/
def syncIfMoved (position : Option CopyPosition) : CopyModeState :=
  position.elim s fun position => (s.showCursorAt position).syncSelectionWithCursor

def cmdCursorDown : Option CopyModeState :=
  if s.cursor.y + 1 < s.totalLines then do
    let x ← s.owningOrZero (s.cursor.y + 1) s.cursor.x
    some (s.moveAndSync (some ⟨x, s.cursor.y + 1⟩))
  else some s.syncSelectionWithCursor

def cmdCursorUp : Option CopyModeState :=
  if 0 < s.cursor.y then do
    let x ← s.owningOrZero (s.cursor.y - 1) s.cursor.x
    some (s.moveAndSync (some ⟨x, s.cursor.y - 1⟩))
  else some s.syncSelectionWithCursor

def cmdCursorLeft : Option CopyModeState := do
  some (s.moveAndSync (← s.previousCellPosition s.cursor))

def cmdCursorRight : Option CopyModeState := do
  some (s.moveAndSync (← s.nextCellPosition s.cursor))

/-- The viewport starts `above` lines above the cursor. -/
def scrollCursorTo (above : ℕ) : CopyModeState :=
  { s with topLine := min (s.cursor.y - above) s.bottomTopLine }.syncSelectionWithCursor

def cmdCursorCentreVertical : Option CopyModeState := some (s.scrollCursorTo (s.rows / 2))

def cmdCursorCentreHorizontal : Option CopyModeState := do
  let x ← s.owningOrZero s.cursor.y (s.cols / 2)
  some { s with cursor := ⟨x, s.cursor.y⟩ }.syncSelectionWithCursor

def cmdStartOfLine : Option CopyModeState :=
  some { s with cursor := ⟨0, s.cursor.y⟩ }.syncSelectionWithCursor

def cmdEndOfLine : Option CopyModeState := do
  let y ← s.logicalLineEndY s.cursor.y
  let x ← s.lineEndX y
  some { s with cursor := ⟨x, y⟩ }.syncSelectionWithCursor

def cmdTopLine : Option CopyModeState :=
  some { s with cursor := ⟨0, s.topLine⟩ }.syncSelectionWithCursor

def cmdBottomLine : Option CopyModeState :=
  some { s with cursor := ⟨0, min (s.topLine + (s.rows - 1)) (s.totalLines - 1)⟩
    }.syncSelectionWithCursor

def cmdMiddleLine : Option CopyModeState :=
  some { s with cursor := ⟨0, min (s.topLine + (s.rows - 1) / 2) (s.totalLines - 1)⟩
    }.syncSelectionWithCursor

/-- The viewport and the cursor go up by `step` lines. -/
def pageUpBy (step : ℕ) : CopyModeState :=
  { s with
    topLine := s.topLine - step
    cursor := ⟨s.cursor.x, s.cursor.y - step⟩ }.ensureCursorVisible.syncSelectionWithCursor

/-- The viewport and the cursor go down by `step` lines. -/
def pageDownBy (step : ℕ) : CopyModeState :=
  { s with
    topLine := min (s.topLine + step) s.bottomTopLine
    cursor := ⟨s.cursor.x, min (s.cursor.y + step) (s.totalLines - 1)⟩
    }.ensureCursorVisible.syncSelectionWithCursor

def cmdPageUp : Option CopyModeState := some (s.pageUpBy (max s.rows 1))

def cmdPageDown : Option CopyModeState := some (s.pageDownBy (max s.rows 1))

def cmdHalfpageUp : Option CopyModeState := some (s.pageUpBy (max (max s.rows 1 / 2) 1))

def cmdHalfpageDown : Option CopyModeState := some (s.pageDownBy (max (max s.rows 1 / 2) 1))

def cmdHistoryTop : Option CopyModeState :=
  some { s with topLine := 0, cursor := ⟨0, 0⟩ }.syncSelectionWithCursor

/-- The cursor of the screen. -/
def backingCursor : CopyPosition := ⟨s.backing.cursorX, s.backing.cursorAbsoluteY⟩

def cmdHistoryBottom : Option CopyModeState :=
  some { s with
    topLine := s.bottomTopLine
    cursor := s.backingCursor }.ensureCursorVisible.syncSelectionWithCursor

def cmdScrollTop : Option CopyModeState := some (s.scrollCursorTo 0)

def cmdScrollBottom : Option CopyModeState := some (s.scrollCursorTo (s.rows - 1))

def cmdScrollMiddle : Option CopyModeState := some (s.scrollCursorTo (s.rows / 2))

def cmdRecentreTopBottom : Option CopyModeState := do
  let line := s.cursor.y
  let position := match s.recentreTopBottom with
    | some state => if state.line = line then state.next else .middle
    | none => .middle
  let scrolled ← (match position with
    | .middle => s.cmdScrollMiddle
    | .top => s.cmdScrollTop
    | .bottom => s.cmdScrollBottom)
  some { scrolled with recentreTopBottom := some ⟨line, position.next⟩ }

def cmdScrollUp : Option CopyModeState :=
  let top := s.topLine - 1
  let y := if top + s.rows - 1 < s.cursor.y then s.cursor.y - 1 else s.cursor.y
  some { s with topLine := top, cursor := ⟨s.cursor.x, y⟩
    }.ensureCursorVisible.syncSelectionWithCursor

def cmdScrollDown : Option CopyModeState :=
  let top := min (s.topLine + 1) s.bottomTopLine
  let y := if s.cursor.y < top then min (s.cursor.y + 1) (s.totalLines - 1) else s.cursor.y
  some { s with topLine := top, cursor := ⟨s.cursor.x, y⟩
    }.ensureCursorVisible.syncSelectionWithCursor

def cmdBackToIndentation : Option CopyModeState := do
  let line ← s.line s.cursor.y
  let x := (ownerPositions line).find? fun x =>
    ((line.cell x).bind fun cell => cell.text.head?).any fun ch => !isWhitespace ch
  some { s with cursor := ⟨x.getD 0, s.cursor.y⟩ }.syncSelectionWithCursor

/-- How far above the bottom the viewport goes for a line number. -/
def gotoLineScroll (number : ℤ) (absoluteLineNumbers : Bool) : ℕ :=
  let maxScroll := s.bottomTopLine
  if absoluteLineNumbers then
    let line := if number ≤ 0 then 1 else min number.toNat (maxScroll + 1)
    maxScroll - (line - 1)
  else if number < 0 then maxScroll
  else min number.toNat maxScroll

def cmdGotoLine (line : Text) (absoluteLineNumbers : Bool) : Option CopyModeState :=
  match parseI64 line with
  | none => some s
  | some number =>
    if number < -1 then some s
    else do
      let top := s.bottomTopLine - s.gotoLineScroll number absoluteLineNumbers
      let visibleLast := top + max s.rows 1 - 1
      -- a range to clamp to must not be empty
      if visibleLast < top then none
      else
        let y := min (min (max s.cursor.y top) visibleLast) (s.totalLines - 1)
        let x ← { s with topLine := top }.owningOrZero y s.cursor.x
        some { s with topLine := top, cursor := ⟨x, y⟩
          }.ensureCursorVisible.syncSelectionWithCursor

def startsPrompt (y : ℕ) : Bool := (s.backing.absoluteLineView y).any (·.startPrompt)

def cmdNextPrompt (onlyAfter : Bool) : Option CopyModeState :=
  let start := if onlyAfter then s.cursor.y + 1 else s.cursor.y
  let found := (List.range' start (s.totalLines - start)).find? s.startsPrompt
  some (s.syncIfMoved (found.map fun y => ⟨0, y⟩))

def cmdPreviousPrompt (onlyBefore : Bool) : Option CopyModeState :=
  let start := if onlyBefore then s.cursor.y - 1 else s.cursor.y
  let found := (List.range (start + 1)).reverse.find? s.startsPrompt
  some (s.syncIfMoved (found.map fun y => ⟨0, y⟩))

def cmdNextMatchingBracket : Option CopyModeState := do
  some (s.syncIfMoved (← s.findMatchingBracket true))

def cmdPreviousMatchingBracket : Option CopyModeState := do
  some (s.syncIfMoved (← s.findMatchingBracket false))

/-- Line `y` is not blank, its neighbour `other` is. -/
def paragraphStarts (y other : ℕ) : Option Bool := do
  let currentBlank ← s.lineBlank y
  let otherBlank ← s.lineBlank other
  some (currentBlank != otherBlank && !currentBlank)

def cmdNextParagraph : Option CopyModeState := do
  let start := s.cursor.y + 1
  let found ← (List.range' start (s.totalLines - start)).findM? fun y => s.paragraphStarts y (y - 1)
  some (s.syncIfMoved (found.map fun y => ⟨0, y⟩))

def cmdPreviousParagraph : Option CopyModeState := do
  let found ← (List.range s.cursor.y).reverse.findM? fun y => s.paragraphStarts y (y + 1)
  some (s.syncIfMoved (found.map fun y => ⟨0, y⟩))

def cmdNextWord : Option CopyModeState := do
  some (s.moveAndSync (← s.findWordBoundary s.cursor .nextStart))

def cmdNextWordEnd : Option CopyModeState := do
  some (s.moveAndSync (← s.findWordBoundary s.cursor .nextEnd))

def cmdPreviousWord : Option CopyModeState := do
  some (s.moveAndSync (← s.findWordBoundary s.cursor .previousStart))

def cmdNextSpace : Option CopyModeState := do
  some (s.moveAndSync (← s.findSpaceBoundary s.cursor .nextStart))

def cmdNextSpaceEnd : Option CopyModeState := do
  some (s.moveAndSync (← s.findSpaceBoundary s.cursor .nextEnd))

def cmdPreviousSpace : Option CopyModeState := do
  some (s.moveAndSync (← s.findSpaceBoundary s.cursor .previousStart))

def cmdSetMark : Option CopyModeState := some { s with mark := some s.cursor, showMark := true }

def cmdJumpToMark : Option CopyModeState := some (s.syncIfMoved s.mark)

/-! ## The mouse -/

def repositionCursorToMouse (x y : ℕ) : Option CopyModeState :=
  if s.totalLines = 0 then some s
  else do
    let y := min (s.topLine + y) (s.totalLines - 1)
    let x ← s.owningOrZero y (min x (s.cols - 1))
    some (s.showCursorAt ⟨x, y⟩)

def moveCursorToMouse (x y : ℕ) : Option CopyModeState := do
  some (← s.repositionCursorToMouse x y).syncSelectionWithCursor

def scrollbarSliderHeight (lib : CopyModeLibraries) (rows historySize : ℕ) : ℕ :=
  let height := max rows 1
  let totalHeight := max (historySize + height) 1
  min (max (lib.scaleFloor height height totalHeight) 1) height

def scrollToMouse (lib : CopyModeLibraries) (sliderMpos : ℤ) (mouseY : ℕ) : Option CopyModeState :=
  if sliderMpos < 0 then some s
  else
    let height := max s.rows 1
    let size := s.bottomTopLine
    if height = 0 ∨ size = 0 then some s
    else
      let sliderHeight := scrollbarSliderHeight lib (max s.rows 1) size
      let newSliderY := min (mouseY - sliderMpos.toNat) (height - sliderHeight)
      let newOffset := lib.scaleFloor newSliderY (size + height) height
      let delta : ℤ := (size - s.topLine : ℕ) - newOffset
      if 0 ≤ delta then
        -- the difference must not be negative
        if min (s.topLine + delta.toNat) size < s.topLine then none
        else
          let actual := min (s.topLine + delta.toNat) size - s.topLine
          some { s with
            topLine := s.topLine + actual
            cursor := ⟨s.cursor.x, s.cursor.y - actual⟩ }.syncSelectionWithCursor
      else
        let actual := min s.topLine delta.natAbs
        some { s with
          topLine := s.topLine - actual
          cursor := ⟨s.cursor.x, min (s.cursor.y + actual) (s.totalLines - 1)⟩
          }.syncSelectionWithCursor

/-! ## Search -/

/-- The matches of a pattern on line `y`. -/
def lineMatches (lib : CopyModeLibraries) (plainText : Bool) (caseInsensitive : Bool)
    (find : Text → List ByteRange) (line : ScreenLineView) (y : ℕ) : List SearchMatch :=
  let map := LineTextMap.new line
  if map.text.isEmpty then []
  else if plainText then
    let needle := if caseInsensitive then lib.toLowercase s.searchPattern else s.searchPattern
    if caseInsensitive then
      let lowercase := LowercaseTextMap.new lib.lowercaseChar map.text
      (needleRanges needle (lowercase.text.length + 1) 0 lowercase.text).filterMap fun range =>
        (lowercase.originalRange range).bind (map.matchRange y)
    else
      (needleRanges needle (map.text.length + 1) 0 map.text).filterMap (map.matchRange y)
  else (find map.text).filterMap (map.matchRange y)

def rebuildSearchResults (lib : CopyModeLibraries) (plainText : Bool) : Option CopyModeState :=
  if s.searchPattern.isEmpty then some { s with searchResults := [], searchCurrent := none }
  else
    let caseInsensitive := s.searchPattern.all fun ch => !ch.isUpper
    let regex := if plainText then some fun _ => [] else lib.regex s.searchPattern caseInsensitive
    match regex with
    | none => some { s with searchResults := [], searchCountPartial := true }
    | some find => do
      let results ← (List.range s.totalLines).mapM fun y => do
        let line ← s.line y
        some (s.lineMatches lib plainText caseInsensitive find line y)
      some { s with searchResults := results.flatten }

def findSearchMatch (direction : SearchDirection) : Option ℕ :=
  match direction with
  | .forward =>
    (s.searchResults.findIdx? fun result => positionGe result.start s.cursor).or
      (if s.wrapSearch && !s.searchResults.isEmpty then some 0 else none)
  | .backward =>
    ((List.range s.searchResults.length).reverse.find? fun index =>
      s.searchResults[index]?.any fun result => positionLe result.stop s.cursor).or
      (if s.wrapSearch && !s.searchResults.isEmpty then some (s.searchResults.length - 1) else none)

/-- The cursor goes to the match with an index, if there is one. -/
def showMatch (index : Option ℕ) : CopyModeState :=
  s.syncIfMoved ((index.bind (s.searchResults[·]?)).map fun result =>
    match s.modeKeys with
    | .vi => result.start
    | .emacs => result.stop)

def performSearch (lib : CopyModeLibraries) (pattern : Text) (direction : SearchDirection)
    (plainText : Bool) : Option CopyModeState := do
  let s := { s with
    searchPattern := pattern, searchDirection := direction
    searchTimedOut := false, searchCountPartial := false }
  let s ← s.rebuildSearchResults lib plainText
  let current := s.findSearchMatch direction
  some ({ s with searchHighlighted := true, searchCurrent := current }.showMatch current)

/-- The match after or before the current one. -/
def neighbourMatch (direction : SearchDirection) (index : ℕ) : Option ℕ :=
  match direction with
  | .forward =>
    if index + 1 < s.searchResults.length then some (index + 1)
    else if s.wrapSearch then some 0 else none
  | .backward =>
    if 0 < index then some (index - 1)
    else if s.wrapSearch then some (s.searchResults.length - 1) else none

def advanceSearchMatch (direction : SearchDirection) : CopyModeState :=
  if s.searchResults.isEmpty then s
  else
    let next := (s.searchCurrent.bind (s.neighbourMatch direction)).or (s.findSearchMatch direction)
    if next.isNone && s.searchCurrent.isSome then s
    else { ({ s with searchCurrent := next }.showMatch next) with searchHighlighted := true }

def executeJump (kind : JumpKind) (ch : Char) : Option CopyModeState := do
  let line ← s.line s.cursor.y
  let positions := ownerPositions line
  if positions.isEmpty then some s
  else
    let currentOwner := (line.owningCellX s.cursor.x).getD 0
    let isChar := fun x => decide (lineChar line x = some ch)
    let found := match kind with
      | .forward => positions.find? fun x => currentOwner < x && isChar x
      | .toForward => positions.find? fun x => currentOwner + 1 < x && isChar x
      | .backward => positions.reverse.find? fun x => x < currentOwner && isChar x
      | .toBackward => positions.reverse.find? fun x =>
        (nextOwnerInLine line x).any (· < currentOwner) && isChar x
    let target := found.map fun found => match kind with
      | .forward | .backward => found
      | .toForward => (positions.reverse.find? (· < found)).getD found
      | .toBackward => (nextOwnerInLine line found).getD found
    some (s.syncIfMoved (target.map fun x => ⟨x, s.cursor.y⟩))

end CopyModeState

end Rmux
