import Rmux.CopyModeMotion
import Rmux.Pane

/-!
# The commands of copy mode

`executeCommandWithPrefix` runs a command by its name. A command may fail, and the state is then
kept as the command left it. `CopyModeState.step` puts the commands beside the two other ways in
which a copy mode changes, a resize and a refresh from a screen.
-/

namespace Rmux

/-! ## Arguments -/

/-- The flags of a command and its other arguments. -/
structure ParsedFlaggedArgs where
  flags : List Char
  positionals : List Text
deriving DecidableEq

def stripLeadingSeparator : List Text → List Text
  | ['-', '-'] :: args => args
  | args => args

def parseFlaggedArgs (allowedFlags : List Char) : Bool → List Text → ParsedFlaggedArgs
  | _, [] => ⟨[], []⟩
  | positionalMode, arg :: args =>
    let positional (mode : Bool) : ParsedFlaggedArgs :=
      let parsed := parseFlaggedArgs allowedFlags mode args
      ⟨parsed.flags, arg :: parsed.positionals⟩
    if positionalMode then positional true
    else match arg with
      | ['-', '-'] => parseFlaggedArgs allowedFlags true args
      | '-' :: cluster =>
        if !cluster.isEmpty && cluster.all allowedFlags.contains then
          let parsed := parseFlaggedArgs allowedFlags false args
          ⟨cluster ++ parsed.flags, parsed.positionals⟩
        else positional false
      | _ => positional false

def parsePositionals (args : List Text) : List Text := (parseFlaggedArgs [] false args).positionals

def ensureMaxPositional (command : String) (args : List Text) (max : ℕ) : Except RmuxError Unit :=
  if max < args.length then
    .error (.server (command ++ " accepts at most " ++ toString max ++ " argument" ++
      if max = 1 then "" else "s"))
  else .ok ()

def ensureNoExtraArgs (command : String) (args : List Text) : Except RmuxError Unit :=
  if args.isEmpty then .ok ()
  else .error (.server (command ++ " does not accept extra arguments"))

def parseSingleArgument (command : String) (args : List Text) : Except RmuxError Text := do
  let positionals := parsePositionals args
  match positionals with
  | [] => .error (.server (command ++ " expects one argument"))
  | first :: _ => do
    ensureMaxPositional command positionals 1
    .ok first

/-! ## Commands and their context -/

/-- When a command clears the selection. -/
inductive ClearPolicy
  | always
  | never
  | emacsOnly
deriving DecidableEq

/-- How lines are numbered on the screen. -/
inductive CopyModeLineNumberMode
  | off
  | default
  | absolute
  | relative
  | hybrid
deriving DecidableEq

def CopyModeLineNumberMode.usesAbsolutePositions : CopyModeLineNumberMode → Bool
  | .absolute | .relative | .hybrid => true
  | .off | .default => false

/-- Where the mouse is when a command is run by it. -/
structure CopyModeMouseContext where
  contentX : ℕ
  contentY : ℕ
  selectionAnchor : Option (ℕ × ℕ)
  scrollY : ℕ
  sliderMpos : ℤ
  moveCursorBeforeCommand : Bool
deriving DecidableEq

/-- What a command reads beside the state. -/
structure CopyModeCommandContext where
  modeKeys : ModeKeys
  lineNumberMode : CopyModeLineNumberMode
  wrapSearch : Bool
  wordSeparators : Text
  refreshScreen : Option ScreenView
  mouse : Option CopyModeMouseContext

/-- The paste buffer for a copy : a new one, or the last. -/
inductive CopyBufferTarget
  | new (name : Option Text)
  | top
deriving DecidableEq

/-- The command for a pipe : given with the copy, or by an option. -/
inductive CopyModePipeCommand
  | explicit (command : Text)
  | copyCommandOption
deriving DecidableEq

/-- What a command copies, and to where. -/
structure CopyModeTransfer where
  data : Text
  bufferTarget : Option CopyBufferTarget
  append : Bool
  pipeCommand : Option CopyModePipeCommand
deriving DecidableEq

/-- Whether copy mode ends, and what was copied. -/
structure CopyModeCommandOutcome where
  cancel : Bool
  transfer : Option CopyModeTransfer
deriving DecidableEq

def CopyModeCommandOutcome.nothing : CopyModeCommandOutcome := ⟨false, none⟩

/-- The commands by name. -/
inductive CopyModeCommand
  | appendSelection
  | appendSelectionAndCancel
  | backToIndentation
  | beginSelection
  | bottomLine
  | cancel
  | cancelOrClearSelection
  | clearSelection
  | copyEndOfLine
  | copyEndOfLineAndCancel
  | copyPipeEndOfLine
  | copyPipeEndOfLineAndCancel
  | copyLine
  | copyLineAndCancel
  | copyPipeLine
  | copyPipeLineAndCancel
  | copyPipeNoClear
  | copyPipe
  | copyPipeAndCancel
  | copySelectionNoClear
  | copySelection
  | copySelectionAndCancel
  | cursorDown
  | cursorDownAndCancel
  | cursorLeft
  | cursorRight
  | cursorUp
  | cursorCentreVertical
  | cursorCentreHorizontal
  | endOfLine
  | gotoLine
  | halfpageDown
  | halfpageDownAndCancel
  | halfpageUp
  | endOfBuffer
  | historyBottom
  | historyTop
  | startOfBuffer
  | jumpAgain
  | jumpBackward
  | jumpForward
  | jumpReverse
  | jumpToBackward
  | jumpToForward
  | jumpToMark
  | nextPrompt
  | previousPrompt
  | middleLine
  | nextMatchingBracket
  | nextParagraph
  | nextSpace
  | nextSpaceEnd
  | nextWord
  | nextWordEnd
  | otherEnd
  | pageDown
  | pageDownAndCancel
  | pageUp
  | pipeNoClear
  | pipe
  | pipeAndCancel
  | previousMatchingBracket
  | previousParagraph
  | previousSpace
  | previousWord
  | rectangleOn
  | rectangleOff
  | rectangleToggle
  | refreshFromPane
  | recentreTopBottom
  | scrollBottom
  | scrollDown
  | scrollDownAndCancel
  | scrollExitOn
  | scrollExitOff
  | scrollExitToggle
  | scrollMiddle
  | scrollToMouse
  | scrollTop
  | scrollUp
  | searchAgain
  | searchBackward
  | searchBackwardText
  | searchBackwardIncremental
  | searchForward
  | searchForwardText
  | searchForwardIncremental
  | searchReverse
  | selectLine
  | selectWord
  | selectionMode
  | setMark
  | startOfLine
  | stopSelection
  | togglePosition
  | topLine
deriving DecidableEq

namespace CopyModeCommand

/-- The commands by name. -/
def table : List (String × CopyModeCommand) :=
  [("append-selection", appendSelection),
   ("append-selection-and-cancel", appendSelectionAndCancel),
   ("back-to-indentation", backToIndentation),
   ("begin-selection", beginSelection),
   ("bottom-line", bottomLine),
   ("cancel", cancel),
   ("cancel-or-clear-selection", cancelOrClearSelection),
   ("clear-selection", clearSelection),
   ("copy-end-of-line", copyEndOfLine),
   ("copy-end-of-line-and-cancel", copyEndOfLineAndCancel),
   ("copy-pipe-end-of-line", copyPipeEndOfLine),
   ("copy-pipe-end-of-line-and-cancel", copyPipeEndOfLineAndCancel),
   ("copy-line", copyLine),
   ("copy-line-and-cancel", copyLineAndCancel),
   ("copy-pipe-line", copyPipeLine),
   ("copy-pipe-line-and-cancel", copyPipeLineAndCancel),
   ("copy-pipe-no-clear", copyPipeNoClear),
   ("copy-pipe", copyPipe),
   ("copy-pipe-and-cancel", copyPipeAndCancel),
   ("copy-selection-no-clear", copySelectionNoClear),
   ("copy-selection", copySelection),
   ("copy-selection-and-cancel", copySelectionAndCancel),
   ("cursor-down", cursorDown),
   ("cursor-down-and-cancel", cursorDownAndCancel),
   ("cursor-left", cursorLeft),
   ("cursor-right", cursorRight),
   ("cursor-up", cursorUp),
   ("cursor-centre-vertical", cursorCentreVertical),
   ("cursor-centre-horizontal", cursorCentreHorizontal),
   ("end-of-line", endOfLine),
   ("goto-line", gotoLine),
   ("halfpage-down", halfpageDown),
   ("halfpage-down-and-cancel", halfpageDownAndCancel),
   ("halfpage-up", halfpageUp),
   ("end-of-buffer", endOfBuffer),
   ("history-bottom", historyBottom),
   ("history-top", historyTop),
   ("start-of-buffer", startOfBuffer),
   ("jump-again", jumpAgain),
   ("jump-backward", jumpBackward),
   ("jump-forward", jumpForward),
   ("jump-reverse", jumpReverse),
   ("jump-to-backward", jumpToBackward),
   ("jump-to-forward", jumpToForward),
   ("jump-to-mark", jumpToMark),
   ("next-prompt", nextPrompt),
   ("previous-prompt", previousPrompt),
   ("middle-line", middleLine),
   ("next-matching-bracket", nextMatchingBracket),
   ("next-paragraph", nextParagraph),
   ("next-space", nextSpace),
   ("next-space-end", nextSpaceEnd),
   ("next-word", nextWord),
   ("next-word-end", nextWordEnd),
   ("other-end", otherEnd),
   ("page-down", pageDown),
   ("page-down-and-cancel", pageDownAndCancel),
   ("page-up", pageUp),
   ("pipe-no-clear", pipeNoClear),
   ("pipe", pipe),
   ("pipe-and-cancel", pipeAndCancel),
   ("previous-matching-bracket", previousMatchingBracket),
   ("previous-paragraph", previousParagraph),
   ("previous-space", previousSpace),
   ("previous-word", previousWord),
   ("rectangle-on", rectangleOn),
   ("rectangle-off", rectangleOff),
   ("rectangle-toggle", rectangleToggle),
   ("refresh-from-pane", refreshFromPane),
   ("recentre-top-bottom", recentreTopBottom),
   ("scroll-bottom", scrollBottom),
   ("scroll-down", scrollDown),
   ("scroll-down-and-cancel", scrollDownAndCancel),
   ("scroll-exit-on", scrollExitOn),
   ("scroll-exit-off", scrollExitOff),
   ("scroll-exit-toggle", scrollExitToggle),
   ("scroll-middle", scrollMiddle),
   ("scroll-to-mouse", scrollToMouse),
   ("scroll-top", scrollTop),
   ("scroll-up", scrollUp),
   ("search-again", searchAgain),
   ("search-backward", searchBackward),
   ("search-backward-text", searchBackwardText),
   ("search-backward-incremental", searchBackwardIncremental),
   ("search-forward", searchForward),
   ("search-forward-text", searchForwardText),
   ("search-forward-incremental", searchForwardIncremental),
   ("search-reverse", searchReverse),
   ("select-line", selectLine),
   ("select-word", selectWord),
   ("selection-mode", selectionMode),
   ("set-mark", setMark),
   ("start-of-line", startOfLine),
   ("stop-selection", stopSelection),
   ("toggle-position", togglePosition),
   ("top-line", topLine)]

def ofName (name : String) : Option CopyModeCommand := table.lookup name

/-- The commands that a view allows. -/
def isReadonly : CopyModeCommand → Bool
  | backToIndentation | bottomLine | cancel | cursorDown | cursorDownAndCancel | cursorLeft
  | cursorRight | cursorUp | cursorCentreVertical | cursorCentreHorizontal | endOfLine | gotoLine
  | halfpageDown | halfpageDownAndCancel | halfpageUp | historyBottom | historyTop | jumpToMark
  | nextPrompt | previousPrompt | middleLine | nextMatchingBracket | nextParagraph | nextSpace
  | nextSpaceEnd | nextWord | nextWordEnd | pageDown | pageDownAndCancel | pageUp
  | previousMatchingBracket | previousParagraph | previousSpace | previousWord | refreshFromPane
  | recentreTopBottom | scrollBottom | scrollDown | scrollDownAndCancel | scrollMiddle
  | scrollToMouse | scrollTop | scrollUp | setMark | startOfLine | togglePosition | topLine => true
  | _ => false

end CopyModeCommand

namespace CopyModeState

variable (lib : CopyModeLibraries) (s : CopyModeState)

/-! ## New, resized and refreshed states -/

def new (backing : ScreenView) (viewMode : Bool) (context : CopyModeCommandContext)
    (exitOnScroll showPosition : Bool) : CopyModeState :=
  let s : CopyModeState :=
    { viewMode := viewMode, lineNumbersEnabled := !viewMode, backing := backing, topLine := 0
      cursor := ⟨backing.cursorX, backing.cursorAbsoluteY⟩, selection := none, rectangle := false
      mark := none, showMark := false, showPosition := showPosition, exitOnScroll := exitOnScroll
      modeKeys := context.modeKeys, wrapSearch := context.wrapSearch
      wordSeparators := context.wordSeparators, searchPattern := [], searchDirection := .forward
      searchResults := [], searchCurrent := none, searchTimedOut := false
      searchCountPartial := false, searchHighlighted := false, jump := none
      recentreTopBottom := none }
  { s with topLine := s.bottomTopLine }.ensureCursorVisible

/-- The results of the last search, on a screen that has changed. -/
def searchAnew : Option CopyModeState :=
  if s.searchPattern.isEmpty then some s
  else s.rebuildSearchResults lib (!patternLooksLikeRegex s.searchPattern)

/-- The screen becomes `resized`, its content in the new size. -/
def resize (resized : ScreenView) : Option CopyModeState := do
  let s := { s with
    backing := resized, selection := none, searchTimedOut := false
    searchCountPartial := false, searchHighlighted := false }
  let s ← s.clampCursor
  let s := { s with topLine := min s.topLine s.bottomTopLine }.ensureCursorVisible
  s.searchAnew lib

def refreshFromScreen (backing : ScreenView) : Option CopyModeState :=
  let s := { s with
    backing := backing, cursor := ⟨backing.cursorX, backing.cursorAbsoluteY⟩ }
  let s := { s with
    topLine := s.bottomTopLine, selection := none, searchTimedOut := false
    searchCountPartial := false, searchHighlighted := false }
  s.searchAnew lib

/-! ## Results of commands -/

/-- What a command gives : an outcome or an error, and the state it leaves. -/
abbrev CommandResult := Option (Except RmuxError CopyModeCommandOutcome × CopyModeState)

def clearFor (policy : ClearPolicy) : CopyModeState :=
  match policy with
  | .always => { s with searchHighlighted := false }
  | .never => s
  | .emacsOnly => if s.modeKeys = .emacs then { s with searchHighlighted := false } else s

def finishPolicy (outcome : CopyModeCommandOutcome) (policy : ClearPolicy) : CommandResult :=
  some (.ok outcome, s.clearFor policy)

def fails (error : RmuxError) : CommandResult := some (.error error, s)

/-- A command that only moves. -/
def readonly (command : CopyModeState → Option CopyModeState) (policy : ClearPolicy) :
    CommandResult := do
  (← command s).finishPolicy .nothing policy

def readonlyExitOnScroll (command : CopyModeState → Option CopyModeState) (policy : ClearPolicy) :
    CommandResult := do
  let s ← command s
  s.finishPolicy ⟨s.exitOnScroll && s.atBottom, none⟩ policy

/-- A command that moves and leaves copy mode at the bottom. -/
def cancelAtBottom (command : CopyModeState → Option CopyModeState) : CommandResult := do
  let s ← command s
  s.finishPolicy ⟨s.atBottom, none⟩ .always

def cursorDownAndCancel : CommandResult := do
  let oldY := s.cursor.y
  let s ← s.cmdCursorDown
  s.finishPolicy ⟨s.cursor.y = oldY && s.atBottom, none⟩ .always

/-! ## Selection commands -/

def beginSelectionCommand (mouse : Option CopyModeMouseContext) : CommandResult := do
  match mouse with
  | none => s.beginSelection.finishPolicy .nothing .always
  | some mouse =>
    if s.selection.any (·.active) then
      (← s.moveCursorToMouse mouse.contentX mouse.contentY).finishPolicy .nothing .always
    else match mouse.selectionAnchor with
      | some (anchorX, anchorY) => do
        let s ← s.moveCursorToMouse anchorX anchorY
        let s ← s.beginSelection.moveCursorToMouse mouse.contentX mouse.contentY
        s.finishPolicy .nothing .always
      | none => do
        let s ← s.moveCursorToMouse mouse.contentX mouse.contentY
        s.beginSelection.finishPolicy .nothing .always

def moveToMouse (mouse : Option CopyModeMouseContext) : Option CopyModeState :=
  match mouse with
  | some mouse => s.moveCursorToMouse mouse.contentX mouse.contentY
  | none => some s

def otherEnd : CommandResult :=
  if s.viewMode then s.finishPolicy .nothing .emacsOnly
  else match s.selection with
    | none => s.finishPolicy .nothing .emacsOnly
    | some selection =>
      { s with
        cursor := selection.anchor
        selection := some ⟨s.cursor, selection.anchor, selection.mode, true⟩
        }.ensureCursorVisible.finishPolicy .nothing .emacsOnly

variable (args : List Text)

def selectionMode : CommandResult :=
  match parseSingleArgument "selection-mode" args with
  | .error error => s.fails error
  | .ok value =>
    match SelectionMode.parse value with
    | none => s.fails (.server ("invalid selection mode: " ++ String.ofList value))
    | some mode =>
      let anchor := (s.selection.map (·.anchor)).getD s.cursor
      { s with selection := some ⟨anchor, s.cursor, mode, true⟩ }.finishPolicy .nothing .never

def stopSelection : CommandResult :=
  let selection := s.selection.map fun selection =>
    { selection with stop := s.cursor, active := false }
  { s with selection := selection }.finishPolicy .nothing .always

/-! ## Search and jump commands -/

def finishSearch : CommandResult :=
  some (.ok .nothing, { s.clearFor .always with searchHighlighted := !s.searchResults.isEmpty })

def searchWithArg (direction : SearchDirection) (plainText : Bool) : CommandResult :=
  match parseSingleArgument "search" args with
  | .error error => s.fails error
  | .ok pattern => do
    (← s.performSearch lib pattern direction plainText).finishSearch

def searchAgain : CommandResult :=
  if s.searchPattern.isEmpty || s.searchResults.isEmpty then s.finishPolicy .nothing .always
  else (s.advanceSearchMatch s.searchDirection).finishPolicy .nothing .always

def searchReverse : CommandResult :=
  if s.searchPattern.isEmpty || s.searchResults.isEmpty then s.finishPolicy .nothing .always
  else
    let reverse := match s.searchDirection with
      | .forward => .backward
      | .backward => .forward
    (s.advanceSearchMatch reverse).finishPolicy .nothing .always

/-- The sign before the first colon, and the pattern after it. -/
def incrementalPattern (value : Text) : Text × Text :=
  if value.contains ':' then
    (value.takeWhile (· ≠ ':'), (value.dropWhile (· ≠ ':')).tail)
  else (['='], value)

def incrementalSearch (defaultDirection : SearchDirection) : CommandResult :=
  match parseSingleArgument "incremental-search" args with
  | .error error => s.fails error
  | .ok value =>
    let (sign, pattern) := incrementalPattern value
    if sign.isEmpty then s.finishPolicy .nothing .always
    else
      let direction :=
        if sign = ['+'] then .forward
        else if sign = ['-'] then .backward
        else if sign = ['='] then s.searchDirection
        else defaultDirection
      if pattern.isEmpty then
        { s with
          searchPattern := [], searchResults := [], searchCurrent := none
          searchHighlighted := false }.finishPolicy .nothing .always
      else do
        (← s.performSearch lib pattern direction (!patternLooksLikeRegex pattern)).finishSearch

def jumpWithArg (kind : JumpKind) : CommandResult :=
  match parseSingleArgument "jump" args with
  | .error error => s.fails error
  | .ok [] => s.fails (.server "jump command expects a non-empty character")
  | .ok (ch :: _) => do
    let s ← { s with jump := some ⟨kind, ch⟩ }.executeJump kind ch
    s.finishPolicy .nothing .emacsOnly

def jumpAgain (reverse : Bool) : CommandResult :=
  match s.jump with
  | none => s.finishPolicy .nothing .emacsOnly
  | some jump => do
    let kind := if reverse then jump.kind.reverse else jump.kind
    (← s.executeJump kind jump.ch).finishPolicy .nothing .emacsOnly

def gotoLineCommand (absolute : Bool) : CommandResult :=
  match args with
  | [] => s.fails (.server "goto-line expects a line")
  | line :: _ => s.readonly (fun s => s.cmdGotoLine line absolute) .emacsOnly

/-! ## Copied text -/

def countedPhysicalLineEndY (y count : ℕ) : Option ℕ :=
  s.logicalLineEndY (min (y + (count - 1)) (s.totalLines - 1))

/-- The logical lines from row `y` to row `endY`. Every round goes at least one row on. -/
def lineSpans (endY : ℕ) : ℕ → ℕ → Option (List Text)
  | 0, _ => some []
  | fuel + 1, y =>
    if y ≤ endY then do
      let spanEnd := min (← s.logicalLineEndY y) endY
      let text ← s.logicalLineTextRange y spanEnd true
      let texts ← lineSpans endY fuel (spanEnd + 1)
      some (text :: texts)
    else some []

def extractLineSpan (startY endY : ℕ) : Option Text := do
  let texts ← s.lineSpans endY (endY + 1 - startY) startY
  some (['\n'].intercalate texts)

def currentLineTransferBytes (count : ℕ) : Option Text := do
  let startY ← s.logicalLineStartY s.cursor.y
  let endY ← s.countedPhysicalLineEndY startY count
  s.extractLineSpan startY endY

def currentEndOfLineTransferBytes (count : ℕ) : Option Text := do
  let endY ← s.countedPhysicalLineEndY s.cursor.y count
  let texts ← (linesBetween s.cursor.y endY).mapM fun y => do
    let line ← s.line y
    let start := if y = s.cursor.y then (line.owningCellX s.cursor.x).getD 0 else 0
    let lineEnd ← s.lineEndX y
    let text := s.extractLineRange line start lineEnd (!line.wrapped || y = endY)
    some (text ++ if y < endY && !line.wrapped then ['\n'] else [])
  some texts.flatten

def exclusiveCharLineEnd (stop : CopyPosition) : Option (Option ℕ) := do
  let line ← s.line stop.y
  let owner := (line.owningCellX stop.x).getD stop.x
  some ((ownerPositions line).reverse.find? (· < owner))

/-- The part of row `y` in a selection of characters, up to the column `rangeEnd` if there is one. -/
def charSelectionRow (start stop : CopyPosition) (line : ScreenLineView) (y : ℕ)
    (rangeEnd : Option ℕ) : Text :=
  let rangeStart := if y = start.y then start.x else 0
  let text := match rangeEnd with
    | some rangeEnd =>
      if rangeStart ≤ rangeEnd then
        s.extractLineRange line rangeStart rangeEnd (y ≠ start.y || y ≠ stop.y)
      else []
    | none => []
  text ++ if y ≠ stop.y && !line.wrapped then ['\n'] else []

def extractCharSelectionExclusive (start stop : CopyPosition) : Option Text :=
  if start = stop then some []
  else do
    let texts ← (linesBetween start.y stop.y).mapM fun y => do
      let line ← s.line y
      let rangeEnd ← (if y = stop.y then s.exclusiveCharLineEnd stop else (s.lineEndX y).map some)
      some (s.charSelectionRow start stop line y rangeEnd)
    some texts.flatten

def extractCharSelectionInclusive (start stop : CopyPosition) : Option Text := do
  let texts ← (linesBetween start.y stop.y).mapM fun y => do
    let line ← s.line y
    let rangeEnd ← (if y = stop.y then some stop.x else s.lineEndX y)
    some (s.charSelectionRow start stop line y (some rangeEnd))
  some texts.flatten

def extractSelection : Option (Option Text) :=
  match s.selection with
  | none => some none
  | some selection =>
    let (start, stop) := normalizePositions selection.anchor selection.stop
    if selection.mode = .line then do
      let text ← s.extractLineSpan start.y stop.y
      some (some (text ++ if s.modeKeys = .vi then ['\n'] else []))
    else if selection.mode = .char && !s.rectangle then
      match s.modeKeys with
      | .vi => (s.extractCharSelectionInclusive start stop).map some
      | .emacs => (s.extractCharSelectionExclusive start stop).map some
    else do
      let texts ← (linesBetween start.y stop.y).mapM fun y => do
        let line ← s.line y
        if s.rectangle then
          some (s.extractLineRange line (min start.x stop.x) (max start.x stop.x) false)
        else do
          let rangeStart := if y = start.y then start.x else 0
          let rangeEnd ← (if y = stop.y then some stop.x else s.lineEndX y)
          some (s.extractLineRange line rangeStart rangeEnd (y ≠ start.y || y ≠ stop.y))
      some (some (['\n'].intercalate texts))

def currentSelectionBytes : Option Text := (s.extractSelection).map (·.getD [])

/-! ## Transfer commands -/

def explicitPipeCommand (positionals : List Text) : Option CopyModePipeCommand :=
  (positionals.head?.filter fun value => !value.isEmpty).map .explicit

def copyPipeCommand (positionals : List Text) : CopyModePipeCommand :=
  (explicitPipeCommand positionals).getD .copyCommandOption

/-- A new buffer, named by an argument that is not empty. -/
def newBufferNamed (positionals : List Text) (index : ℕ) : Option CopyBufferTarget :=
  some (.new (positionals[index]?.filter fun value => !value.isEmpty))

/-- The selection goes, unless the command keeps everything. -/
def dropSelection (policy : ClearPolicy) : CopyModeState :=
  if policy ≠ .never then { s with selection := none } else s

def transferSelection (append cancel clearSelection : Bool) : CommandResult := do
  let data ← s.currentSelectionBytes
  let target := if append then CopyBufferTarget.top else .new none
  let s := if clearSelection then { s with selection := none } else s
  match ensureNoExtraArgs "append-selection" args with
  | .error error => s.fails error
  | .ok () => s.finishPolicy ⟨cancel, some ⟨data, some target, append, none⟩⟩ .always

def transferCopySelection (cancel : Bool) (policy : ClearPolicy) : CommandResult :=
  let parsed := parseFlaggedArgs ['C', 'P'] false args
  match ensureMaxPositional "copy-selection" parsed.positionals 1 with
  | .error error => s.fails error
  | .ok () => do
    let data ← s.currentSelectionBytes
    let target := if parsed.flags.contains 'P' then none else newBufferNamed parsed.positionals 0
    (s.dropSelection policy).finishPolicy ⟨cancel, some ⟨data, target, false, none⟩⟩ policy

def transferCopyPipe (cancel : Bool) (policy : ClearPolicy) : CommandResult :=
  let parsed := parseFlaggedArgs ['C', 'P'] false args
  match ensureMaxPositional "copy-pipe" parsed.positionals 2 with
  | .error error => s.fails error
  | .ok () => do
    let data ← s.currentSelectionBytes
    let target := if parsed.flags.contains 'P' then none else newBufferNamed parsed.positionals 1
    let transfer := ⟨data, target, false, some (copyPipeCommand parsed.positionals)⟩
    (s.dropSelection policy).finishPolicy ⟨cancel, some transfer⟩ policy

def transferPipe (cancel : Bool) (policy : ClearPolicy) : CommandResult :=
  let positionals := parsePositionals args
  match ensureMaxPositional "pipe" positionals 1 with
  | .error error => s.fails error
  | .ok () => do
    let data ← s.currentSelectionBytes
    let transfer := ⟨data, none, false, explicitPipeCommand positionals⟩
    (s.dropSelection policy).finishPolicy ⟨cancel, some transfer⟩ policy

/-- Transfer a text taken at the cursor. -/
def transferText (command : String) (extract : CopyModeState → Option Text) (args : List Text)
    (pipe cancel : Bool) : CommandResult :=
  let parsed := parseFlaggedArgs ['C', 'P'] false args
  match ensureMaxPositional command parsed.positionals (if pipe then 2 else 1) with
  | .error error => s.fails error
  | .ok () => do
    let data ← extract s
    let target :=
      if pipe then
        if parsed.flags.contains 'P' then none else newBufferNamed parsed.positionals 1
      else newBufferNamed parsed.positionals 0
    let pipeCommand := if pipe then some (copyPipeCommand parsed.positionals) else none
    s.finishPolicy ⟨cancel, some ⟨data, target, false, pipeCommand⟩⟩ .always

def transferLine (pipe cancel : Bool) (count : ℕ) : CommandResult :=
  s.transferText "copy-line" (fun s => s.currentLineTransferBytes count) args pipe cancel

def transferEndOfLine (pipe cancel : Bool) (count : ℕ) : CommandResult :=
  s.transferText "copy-end-of-line" (fun s => s.currentEndOfLineTransferBytes count) args pipe cancel

/-! ## Dispatch -/

def dispatch (command : CopyModeCommand) (args : List Text) (context : CopyModeCommandContext)
    (count : ℕ) : CommandResult :=
  match command with
  | .appendSelection => s.transferSelection args true false true
  | .appendSelectionAndCancel => s.transferSelection args true true true
  | .backToIndentation => s.readonly cmdBackToIndentation .always
  | .beginSelection => s.beginSelectionCommand context.mouse
  | .bottomLine => s.readonly cmdBottomLine .emacsOnly
  | .cancel => s.finishPolicy ⟨true, none⟩ .always
  | .cancelOrClearSelection =>
    if s.selection.isSome then { s with selection := none }.finishPolicy .nothing .always
    else s.finishPolicy ⟨true, none⟩ .always
  | .clearSelection => { s with selection := none }.finishPolicy .nothing .always
  | .copyEndOfLine => s.transferEndOfLine args false false count
  | .copyEndOfLineAndCancel => s.transferEndOfLine args false true count
  | .copyPipeEndOfLine => s.transferEndOfLine args true false count
  | .copyPipeEndOfLineAndCancel => s.transferEndOfLine args true true count
  | .copyLine => s.transferLine args false false count
  | .copyLineAndCancel => s.transferLine args false true count
  | .copyPipeLine => s.transferLine args true false count
  | .copyPipeLineAndCancel => s.transferLine args true true count
  | .copyPipeNoClear => s.transferCopyPipe args false .never
  | .copyPipe => s.transferCopyPipe args false .always
  | .copyPipeAndCancel => s.transferCopyPipe args true .always
  | .copySelectionNoClear => s.transferCopySelection args false .never
  | .copySelection => s.transferCopySelection args false .always
  | .copySelectionAndCancel => s.transferCopySelection args true .always
  | .cursorDown => s.readonly cmdCursorDown .emacsOnly
  | .cursorDownAndCancel => s.cursorDownAndCancel
  | .cursorLeft => s.readonly cmdCursorLeft .emacsOnly
  | .cursorRight => s.readonly cmdCursorRight .emacsOnly
  | .cursorUp => s.readonly cmdCursorUp .emacsOnly
  | .cursorCentreVertical => s.readonly cmdCursorCentreVertical .emacsOnly
  | .cursorCentreHorizontal => s.readonly cmdCursorCentreHorizontal .emacsOnly
  | .endOfLine => s.readonly cmdEndOfLine .emacsOnly
  | .gotoLine =>
    s.gotoLineCommand args (s.lineNumbersEnabled && context.lineNumberMode.usesAbsolutePositions)
  | .halfpageDown => s.readonlyExitOnScroll cmdHalfpageDown .emacsOnly
  | .halfpageDownAndCancel => s.cancelAtBottom cmdHalfpageDown
  | .halfpageUp => s.readonly cmdHalfpageUp .emacsOnly
  | .endOfBuffer | .historyBottom => s.readonly cmdHistoryBottom .emacsOnly
  | .historyTop | .startOfBuffer => s.readonly cmdHistoryTop .emacsOnly
  | .jumpAgain => s.jumpAgain false
  | .jumpBackward => s.jumpWithArg args .backward
  | .jumpForward => s.jumpWithArg args .forward
  | .jumpReverse => s.jumpAgain true
  | .jumpToBackward => s.jumpWithArg args .toBackward
  | .jumpToForward => s.jumpWithArg args .toForward
  | .jumpToMark => s.readonly cmdJumpToMark .always
  | .nextPrompt => s.readonly (fun s => s.cmdNextPrompt (args.contains ['-', 'o'])) .always
  | .previousPrompt => s.readonly (fun s => s.cmdPreviousPrompt (args.contains ['-', 'o'])) .always
  | .middleLine => s.readonly cmdMiddleLine .emacsOnly
  | .nextMatchingBracket => s.readonly cmdNextMatchingBracket .always
  | .nextParagraph => s.readonly cmdNextParagraph .emacsOnly
  | .nextSpace => s.readonly cmdNextSpace .emacsOnly
  | .nextSpaceEnd => s.readonly cmdNextSpaceEnd .emacsOnly
  | .nextWord => s.readonly cmdNextWord .emacsOnly
  | .nextWordEnd => s.readonly cmdNextWordEnd .emacsOnly
  | .otherEnd => s.otherEnd
  | .pageDown => s.readonlyExitOnScroll cmdPageDown .emacsOnly
  | .pageDownAndCancel => s.cancelAtBottom cmdPageDown
  | .pageUp => s.readonly cmdPageUp .emacsOnly
  | .pipeNoClear => s.transferPipe args false .never
  | .pipe => s.transferPipe args false .always
  | .pipeAndCancel => s.transferPipe args true .always
  | .previousMatchingBracket => s.readonly cmdPreviousMatchingBracket .always
  | .previousParagraph => s.readonly cmdPreviousParagraph .emacsOnly
  | .previousSpace => s.readonly cmdPreviousSpace .emacsOnly
  | .previousWord => s.readonly cmdPreviousWord .emacsOnly
  | .rectangleOn => { s with rectangle := true }.finishPolicy .nothing .always
  | .rectangleOff => { s with rectangle := false }.finishPolicy .nothing .always
  | .rectangleToggle => { s with rectangle := !s.rectangle }.finishPolicy .nothing .always
  | .refreshFromPane =>
    match context.refreshScreen with
    | some screen => s.readonly (fun s => s.refreshFromScreen lib screen) .always
    | none => s.finishPolicy .nothing .always
  | .recentreTopBottom => s.readonly cmdRecentreTopBottom .always
  | .scrollBottom => s.readonly cmdScrollBottom .always
  | .scrollDown => s.readonlyExitOnScroll cmdScrollDown .emacsOnly
  | .scrollDownAndCancel => s.cancelAtBottom cmdScrollDown
  | .scrollExitOn => { s with exitOnScroll := true }.finishPolicy .nothing .always
  | .scrollExitOff => { s with exitOnScroll := false }.finishPolicy .nothing .always
  | .scrollExitToggle => { s with exitOnScroll := !s.exitOnScroll }.finishPolicy .nothing .always
  | .scrollMiddle => s.readonly cmdScrollMiddle .always
  | .scrollToMouse =>
    match context.mouse with
    | some mouse => s.readonly (fun s => s.scrollToMouse lib mouse.sliderMpos mouse.scrollY) .emacsOnly
    | none => s.finishPolicy .nothing .emacsOnly
  | .scrollTop => s.readonly cmdScrollTop .always
  | .scrollUp => s.readonly cmdScrollUp .emacsOnly
  | .searchAgain => s.searchAgain
  | .searchBackward => s.searchWithArg lib args .backward false
  | .searchBackwardText => s.searchWithArg lib args .backward true
  | .searchBackwardIncremental => s.incrementalSearch lib args .backward
  | .searchForward => s.searchWithArg lib args .forward false
  | .searchForwardText => s.searchWithArg lib args .forward true
  | .searchForwardIncremental => s.incrementalSearch lib args .forward
  | .searchReverse => s.searchReverse
  | .selectLine => do
    let s ← s.moveToMouse context.mouse
    s.readonly selectLine .always
  | .selectWord => do
    let s ← s.moveToMouse context.mouse
    s.readonly selectWord .always
  | .selectionMode => s.selectionMode args
  | .setMark => s.readonly cmdSetMark .always
  | .startOfLine => s.readonly cmdStartOfLine .emacsOnly
  | .stopSelection => s.stopSelection
  | .togglePosition => { s with showPosition := !s.showPosition }.finishPolicy .nothing .never
  | .topLine => s.readonly cmdTopLine .emacsOnly

/-- The options a command runs under, and the cursor under the mouse. -/
def beforeCommand (context : CopyModeCommandContext) : Option CopyModeState :=
  let s := { s with
    modeKeys := context.modeKeys, wrapSearch := context.wrapSearch
    wordSeparators := context.wordSeparators }
  match context.mouse with
  | some mouse =>
    if mouse.moveCursorBeforeCommand then
      s.repositionCursorToMouse mouse.contentX mouse.contentY
    else some s
  | none => some s

def executeCommandWithPrefix (command : String) (args : List Text)
    (context : CopyModeCommandContext) (count : ℕ) : CommandResult := do
  let args := stripLeadingSeparator args
  let s ← s.beforeCommand context
  match CopyModeCommand.ofName command with
  | none =>
    if s.viewMode then some (.ok .nothing, s)
    else s.fails (.server ("unknown copy-mode command: " ++ command))
  | some command =>
    if s.viewMode && !command.isReadonly then some (.ok .nothing, s)
    else s.dispatch lib command args context count

/-! ## Runs -/

/-- What happens to a copy mode. -/
inductive Step
  | command (name : String) (args : List Text) (context : CopyModeCommandContext) (count : ℕ)
  | resize (resized : ScreenView)
  | refresh (screen : ScreenView)

def step : Step → Option CopyModeState
  | .command name args context count =>
    (s.executeCommandWithPrefix lib name args context count).map Prod.snd
  | .resize resized => s.resize lib resized
  | .refresh screen => s.refreshFromScreen lib screen

def run (steps : List Step) : Option CopyModeState := steps.foldlM (step lib) s

end CopyModeState

end Rmux
