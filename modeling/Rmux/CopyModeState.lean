import Rmux.CopyModeLine
import Rmux.ReturnLemmas

/-!
# The state of copy mode

Everything here reads the state. The lookup of a line that does not exist stops the program
(`CopyModeState.line`), so that what reads a line is a partial computation.
-/

namespace Rmux

/-! ## What the state is made of -/

/-- The key bindings. -/
inductive ModeKeys
  | emacs
  | vi
deriving DecidableEq

/-- What is selected : characters, words or lines. -/
inductive SelectionMode
  | char
  | word
  | line
deriving DecidableEq

def SelectionMode.parse (value : Text) : Option SelectionMode :=
  if value = ['c', 'h', 'a', 'r'] ∨ value = ['c'] then some .char
  else if value = ['w', 'o', 'r', 'd'] ∨ value = ['w'] then some .word
  else if value = ['l', 'i', 'n', 'e'] ∨ value = ['l'] then some .line
  else none

/-- A selection from its anchor to its end. -/
structure SelectionState where
  anchor : CopyPosition
  stop : CopyPosition
  mode : SelectionMode
  active : Bool
deriving DecidableEq

/-- Where a search goes. -/
inductive SearchDirection
  | forward
  | backward
deriving DecidableEq

/-- Where a jump to a character goes, and whether it stops before it. -/
inductive JumpKind
  | forward
  | backward
  | toForward
  | toBackward
deriving DecidableEq

def JumpKind.reverse : JumpKind → JumpKind
  | .forward => .backward
  | .backward => .forward
  | .toForward => .toBackward
  | .toBackward => .toForward

/-- The last jump. -/
structure JumpState where
  kind : JumpKind
  ch : Char
deriving DecidableEq

/-- Where the line of the cursor is brought. -/
inductive RecentreTopBottomPosition
  | middle
  | top
  | bottom
deriving DecidableEq

def RecentreTopBottomPosition.next : RecentreTopBottomPosition → RecentreTopBottomPosition
  | .middle => .top
  | .top => .bottom
  | .bottom => .middle

/-- The line that was brought somewhere last, and where it goes next. -/
structure RecentreTopBottomState where
  line : ℕ
  next : RecentreTopBottomPosition
deriving DecidableEq

/-- What copy mode takes from outside the program : the case tables of Unicode, a regular expression
engine, and the product of a number with a quotient in floating point, rounded down. -/
structure CopyModeLibraries where
  /-- `str::to_lowercase`. -/
  toLowercase : Text → Text
  /-- `char::to_lowercase`. -/
  lowercaseChar : Char → Text
  /-- The matches of a pattern, with or without regard to case, if the pattern is a regular
  expression. -/
  regex : Text → Bool → Option (Text → List ByteRange)
  /-- `(a * (n / d)).floor()`. -/
  scaleFloor : ℕ → ℕ → ℕ → ℕ

/-- A copy of a screen with a cursor, a selection, a mark, the first line shown and the results of
the last search. -/
structure CopyModeState where
  viewMode : Bool
  lineNumbersEnabled : Bool
  backing : ScreenView
  topLine : ℕ
  cursor : CopyPosition
  selection : Option SelectionState
  rectangle : Bool
  mark : Option CopyPosition
  showMark : Bool
  showPosition : Bool
  exitOnScroll : Bool
  modeKeys : ModeKeys
  wrapSearch : Bool
  wordSeparators : Text
  searchPattern : Text
  searchDirection : SearchDirection
  searchResults : List SearchMatch
  searchCurrent : Option ℕ
  searchTimedOut : Bool
  searchCountPartial : Bool
  searchHighlighted : Bool
  jump : Option JumpState
  recentreTopBottom : Option RecentreTopBottomState

namespace CopyModeState

variable (s : CopyModeState)

/-! ## Geometry -/

def rows : ℕ := max s.backing.rows 1

def cols : ℕ := max s.backing.cols 1

def totalLines : ℕ := max s.backing.absoluteLineCount 1

def bottomTopLine : ℕ := s.totalLines - max s.rows 1

def atBottom : Bool := s.bottomTopLine ≤ s.topLine

/-- The line with number `y`, which must exist. -/
def line (y : ℕ) : Option ScreenLineView := s.backing.absoluteLineView y

def ensureCursorVisible : CopyModeState :=
  let rows := max s.rows 1
  let top :=
    if s.cursor.y < s.topLine then s.cursor.y
    else if s.topLine + rows ≤ s.cursor.y then s.cursor.y - (rows - 1)
    else s.topLine
  { s with topLine := min top s.bottomTopLine }

/-- The end of an active selection follows the cursor. -/
def syncSelectionWithCursor : CopyModeState :=
  { s with selection := s.selection.map fun selection =>
      if selection.active then { selection with stop := s.cursor } else selection }

/-! ## Places in a line -/

variable (line : ScreenLineView)

def previousOwnerInLine (x : ℕ) : Option ℕ :=
  ((ownerPositions line).takeWhile (· < x)).getLast?

def nextOwnerInLine (x : ℕ) : Option ℕ :=
  (ownerPositions line).find? (x < ·)

def owningOrZero (y x : ℕ) : Option ℕ := do
  let line ← s.line y
  some ((line.owningCellX x).getD 0)

/-- The last column that shows more than white space. -/
def lastContent : Option ℕ :=
  (ownerPositions line).reverse.find? fun x =>
    (line.cell x).any fun cell => !cell.text.all isWhitespace

def lineEndX (y : ℕ) : Option ℕ := do
  let line ← s.line y
  match lastContent line with
  | none => some 0
  | some lastContent =>
    some (((ownerPositions line).find? (lastContent < ·)).getD lastContent)

def clampCursor : Option CopyModeState :=
  if s.totalLines = 0 then some { s with cursor := ⟨0, 0⟩ }
  else do
    let y := min s.cursor.y (s.totalLines - 1)
    let x ← s.owningOrZero y (min s.cursor.x (s.cols - 1))
    some { s with cursor := ⟨x, y⟩ }

def previousCellPosition (position : CopyPosition) : Option (Option CopyPosition) := do
  let line ← s.line position.y
  let owner := (line.owningCellX position.x).getD position.x
  match previousOwnerInLine line owner with
  | some previous => some (some ⟨previous, position.y⟩)
  | none =>
    if position.y = 0 then some none
    else do
      let previousY := position.y - 1
      let x ← s.lineEndX previousY
      some (some ⟨x, previousY⟩)

def nextCellPosition (position : CopyPosition) : Option (Option CopyPosition) := do
  let line ← s.line position.y
  let owner := (line.owningCellX position.x).getD position.x
  let lineEnd ← s.lineEndX position.y
  let next := if owner < lineEnd then (nextOwnerInLine line owner).filter (· ≤ lineEnd) else none
  match next with
  | some next => some (some ⟨next, position.y⟩)
  | none =>
    if s.totalLines ≤ position.y + 1 then some none
    else some (some ⟨0, position.y + 1⟩)

/-! ## Text -/

/-- The text of the columns `x` to `last`. -/
def lineColumns (line : ScreenLineView) (last x : ℕ) : Text :=
  if x ≤ last then
    match line.cell x with
    | some cell =>
      if cell.padding then lineColumns line last (x + 1)
      else cell.text ++ lineColumns line last (x + max cell.width 1)
    | none => if x < line.width then ' ' :: lineColumns line last (x + 1) else []
  else []
termination_by last + 1 - x

def extractLineRange (start stop : ℕ) (trimSpaces : Bool) : Text :=
  let start := (line.owningCellX start).getD start
  let stop := (line.owningCellX stop).getD stop
  let output := lineColumns line (min stop (s.cols - 1)) start
  if trimSpaces && !line.wrapped then output.rdropWhile (· = ' ') else output

def fullLineText (y : ℕ) (trimSpaces : Bool) : Option Text := do
  let line ← s.line y
  some (s.extractLineRange line 0 (s.cols - 1) trimSpaces)

def lineBlank (y : ℕ) : Option Bool := do
  let text ← s.fullLineText y true
  some (trim text).isEmpty

/-- The numbers `first`, …, `last`. -/
def linesBetween (first last : ℕ) : List ℕ := List.range' first (last + 1 - first)

def logicalLineTextRange (startY endY : ℕ) (trimSpaces : Bool) : Option Text := do
  let texts ← (linesBetween startY endY).mapM fun y => s.fullLineText y (trimSpaces && y = endY)
  some texts.flatten

/-- The first row of the logical line of row `y`. -/
def logicalLineStartY : ℕ → Option ℕ
  | 0 => some 0
  | y + 1 => do
    let line ← s.line y
    if line.wrapped then logicalLineStartY y else some (y + 1)

/-- The last row of the logical line of row `y`. -/
def logicalLineEndY (y : ℕ) : Option ℕ :=
  if y + 1 < s.totalLines then do
    let line ← s.line y
    if line.wrapped then logicalLineEndY (y + 1) else some y
  else some y
termination_by s.totalLines - y

/-! ## Brackets -/

def bracketScanLimit : ℕ := 1500

/-- A search for a matching bracket : still going on, or stopped. -/
inductive BracketScan
  | searching (visited depth : ℕ)
  | stopped (found : Option CopyPosition)
deriving DecidableEq

/-- The scan goes on unless it has visited enough positions. -/
def BracketScan.goOn (visited depth : ℕ) : BracketScan :=
  if bracketScanLimit ≤ visited then .stopped none else .searching visited depth

/-- Visit one position. `deeper` is the bracket that opens a level in the direction of the scan. -/
def bracketVisit (deeper shallower : Char) (y : ℕ) (scan : BracketScan) (x : ℕ) : BracketScan :=
  match scan with
  | .stopped found => .stopped found
  | .searching visited depth =>
    match lineChar line x with
    | none => .goOn (visited + 1) depth
    | some ch =>
      if ch = deeper then .goOn (visited + 1) (depth + 1)
      else if ch = shallower then
        if depth - 1 = 0 then .stopped (some ⟨x, y⟩) else .goOn (visited + 1) (depth - 1)
      else .goOn (visited + 1) depth

/-- The positions of line `y` that the scan visits. -/
def bracketColumns (scanForward : Bool) (line : ScreenLineView) (y : ℕ) : List ℕ :=
  let columns := (ownerPositions line).filter fun x =>
    !(y = s.cursor.y && (if scanForward then x ≤ s.cursor.x else s.cursor.x ≤ x))
  if scanForward then columns else columns.reverse

def bracketVisitLine (scanForward : Bool) (deeper shallower : Char) (scan : BracketScan) (y : ℕ) :
    Option BracketScan :=
  match scan with
  | .stopped found => some (.stopped found)
  | .searching visited depth => do
    let line ← s.line y
    some ((s.bracketColumns scanForward line y).foldl (bracketVisit line deeper shallower y)
      (.searching visited depth))

/-- The brackets of a pair, and whether the one at the cursor opens it. -/
def bracketPair (ch : Char) : Option (Char × Char × Bool) :=
  if ch = '(' then some ('(', ')', true)
  else if ch = '[' then some ('[', ']', true)
  else if ch = '{' then some ('{', '}', true)
  else if ch = ')' then some ('(', ')', false)
  else if ch = ']' then some ('[', ']', false)
  else if ch = '}' then some ('{', '}', false)
  else none

/-- The rows of the scan. -/
def bracketRows (scanForward : Bool) : List ℕ :=
  if scanForward then List.range' s.cursor.y (s.totalLines - s.cursor.y)
  else (List.range (s.cursor.y + 1)).reverse

def findMatchingBracket (forward : Bool) : Option (Option CopyPosition) := do
  let currentLine ← s.line s.cursor.y
  if !isOwnerPosition currentLine s.cursor.x then some none
  else match (lineChar currentLine s.cursor.x).bind bracketPair with
    | none => some none
    | some (opening, closing, opens) => do
      let scanForward := if forward then opens else !opens
      let (deeper, shallower) := if scanForward then (opening, closing) else (closing, opening)
      let scan ← (s.bracketRows scanForward).foldlM
        (s.bracketVisitLine scanForward deeper shallower) (.searching 0 1)
      match scan with
      | .searching _ _ => some none
      | .stopped found => some found

/-! ## Words -/

/-- The boundary a word motion goes to. -/
inductive WordBoundary
  | nextStart
  | nextEnd
  | previousStart
deriving DecidableEq

def flattenOwnerPositions : Option (List CopyPosition) := do
  let rows ← (List.range s.totalLines).mapM fun y => do
    let line ← s.line y
    some ((ownerPositions line).map fun x => CopyPosition.mk x y)
  some rows.flatten

def classAt (spacesOnly : Bool) (candidate : CopyPosition) : Option WordClass := do
  let line ← s.line candidate.y
  some (classifyWordChar ((lineChar line candidate.x).getD ' ') s.wordSeparators spacesOnly)

def endOfBufferNextX (y : ℕ) : Option (Option ℕ) := do
  let line ← s.line y
  some ((lastContent line).map fun lastContent =>
    ((ownerPositions line).find? (lastContent < ·)).getD line.width)

def endOfBufferWordBoundary (boundary : WordBoundary) : Option CopyPosition := do
  let y := s.totalLines - 1
  let x ← (match boundary with
    | .nextStart => (s.endOfBufferNextX y).map (·.getD (min 1 (s.cols - 1)))
    | .nextEnd => (s.endOfBufferNextX y).map (·.getD 0)
    | .previousStart => some 0)
  some ⟨x, y⟩

/-- The first candidate that starts a token other than the one the search starts in. -/
def nextTokenStart (classAt : CopyPosition → Option WordClass) (currentToken : Option WordClass) :
    Bool → List CopyPosition → Option (Option CopyPosition)
  | _, [] => some none
  | sawSpace, candidate :: rest => do
    let cls ← classAt candidate
    if cls = .space then nextTokenStart classAt currentToken true rest
    else if currentToken.all fun token => sawSpace || cls ≠ token then some (some candidate)
    else nextTokenStart classAt currentToken sawSpace rest

/-- The first candidate past the next token. -/
def nextTokenEnd (classAt : CopyPosition → Option WordClass) :
    Option WordClass → List CopyPosition → Option (Option CopyPosition)
  | _, [] => some none
  | tokenClass, candidate :: rest => do
    let cls ← classAt candidate
    if cls = .space then
      if tokenClass.isSome then some (some candidate) else nextTokenEnd classAt tokenClass rest
    else match tokenClass with
      | some start =>
        if start = cls then nextTokenEnd classAt tokenClass rest else some (some candidate)
      | none => nextTokenEnd classAt (some cls) rest

/-- The last of the candidates that are of one class. -/
def extendToken (classAt : CopyPosition → Option WordClass) (cls : WordClass) :
    Option CopyPosition → List CopyPosition → Option (Option CopyPosition)
  | start, [] => some start
  | start, candidate :: rest => do
    if (← classAt candidate) = cls then extendToken classAt cls (some candidate) rest else some start

/-- The start of the nearest token of the candidates, which are read backwards. -/
def previousTokenStart (classAt : CopyPosition → Option WordClass) :
    Option (WordClass × CopyPosition) → List CopyPosition → Option (Option CopyPosition)
  | token, [] => some (token.map Prod.snd)
  | token, candidate :: rest => do
    let cls ← classAt candidate
    match token with
    | none =>
      if cls = .space then previousTokenStart classAt none rest
      else previousTokenStart classAt (some (cls, candidate)) rest
    | some (start, position) =>
      if start = cls then previousTokenStart classAt (some (start, candidate)) rest
      else some (some position)

def findNextTokenStart (classAt : CopyPosition → Option WordClass) (position : CopyPosition)
    (after : List CopyPosition) : Option (Option CopyPosition) := do
  let current ← classAt position
  let currentToken := if current = .space then none else some current
  match ← nextTokenStart classAt currentToken currentToken.isNone after with
  | some found => some (some found)
  | none => (s.endOfBufferWordBoundary .nextStart).map some

def findNextTokenEnd (classAt : CopyPosition → Option WordClass) (position : CopyPosition)
    (after : List CopyPosition) : Option (Option CopyPosition) := do
  let current ← classAt position
  let found ←
    (if current = .space then nextTokenEnd classAt none after
    else after.findM? fun candidate => (classAt candidate).map fun cls => decide (cls ≠ current))
  match found with
  | some found => some (some found)
  | none => (s.endOfBufferWordBoundary .nextEnd).map some

def findPreviousTokenStart (classAt : CopyPosition → Option WordClass) (position : CopyPosition)
    (before : List CopyPosition) : Option (Option CopyPosition) := do
  let current ← classAt position
  let moved ← (if current = .space then some none else extendToken classAt current none before)
  match moved with
  | some start => some (some start)
  | none => previousTokenStart classAt none before

def findBoundary (position : CopyPosition) (boundary : WordBoundary) (spacesOnly : Bool) :
    Option (Option CopyPosition) := do
  let positions ← s.flattenOwnerPositions
  match positions.findIdx? (· = position) with
  | none => some none
  | some index =>
    let classAt := s.classAt spacesOnly
    match boundary with
    | .nextStart => s.findNextTokenStart classAt position (positions.drop (index + 1))
    | .nextEnd => s.findNextTokenEnd classAt position (positions.drop (index + 1))
    | .previousStart => findPreviousTokenStart classAt position (positions.take index).reverse

def findWordBoundary (position : CopyPosition) (boundary : WordBoundary) :
    Option (Option CopyPosition) :=
  s.findBoundary position boundary false

def findSpaceBoundary (position : CopyPosition) (boundary : WordBoundary) :
    Option (Option CopyPosition) :=
  s.findBoundary position boundary true

/-- A range of positions. -/
structure CopyRange where
  start : CopyPosition
  stop : CopyPosition
deriving DecidableEq

def wordClassAt (x : ℕ) : WordClass :=
  ((lineChar line x).map fun ch => classifyWordChar ch s.wordSeparators false).getD .space

/-- The column whose word is taken : off a word, that of the next word of the line. -/
def wordOwner (owner : ℕ) : ℕ :=
  if s.wordClassAt line owner = .word then owner
  else (((ownerPositions line).filter (owner < ·)).find? fun x =>
    s.wordClassAt line x = .word).getD owner

def wordSelectionRange (position : CopyPosition) : Option CopyRange := do
  let line ← s.line position.y
  let positions := ownerPositions line
  if positions.isEmpty then some ⟨position, position⟩
  else
    let owner := s.wordOwner line ((line.owningCellX position.x).getD position.x)
    let same := fun x => decide (s.wordClassAt line x = s.wordClassAt line owner)
    let start := ((positions.reverse.filter (· < owner)).takeWhile same).getLastD owner
    let stop := ((positions.filter (owner < ·)).takeWhile same).getLastD owner
    some ⟨⟨start, position.y⟩, ⟨stop, position.y⟩⟩

/-! ## What is at the cursor -/

def currentWord : Option (Option Text) := do
  let range ← s.wordSelectionRange s.cursor
  let line ← s.line range.start.y
  if s.wordClassAt line range.start.x ≠ .word then some none
  else some (some (s.extractLineRange line range.start.x range.stop.x false))

def currentLineText : Option Text := s.fullLineText s.cursor.y true

def currentHyperlink : Option (Option Text) := do
  let line ← s.line s.cursor.y
  let x := (line.owningCellX s.cursor.x).getD s.cursor.x
  match line.cell x with
  | none => some none
  | some cell => if cell.link = 0 then some none else some (s.backing.hyperlinkUri cell.link)

end CopyModeState

end Rmux
