import Mathlib.Data.List.Infix
import Rmux.AttachCodec
import Rmux.Utf8

/-!
# Console input of an attached client

A Windows console delivers key and mouse records in batches (`attach_windows/input.rs`). A batch
with several text keys is taken for a paste, and is sent between the markers of a bracketed paste,
possibly together with the batches that follow it. Markers in the text itself are removed.
-/

namespace Rmux

def bracketedPasteStart : List UInt8 := [0x1b, 0x5b, 0x32, 0x30, 0x30, 0x7e]

def bracketedPasteEnd : List UInt8 := [0x1b, 0x5b, 0x32, 0x30, 0x31, 0x7e]

/-! ## Console records -/

@[match_pattern] def vkBack : UInt16 := 0x08
@[match_pattern] def vkTab : UInt16 := 0x09
@[match_pattern] def vkReturn : UInt16 := 0x0d
@[match_pattern] def vkShift : UInt16 := 0x10
@[match_pattern] def vkControl : UInt16 := 0x11
@[match_pattern] def vkMenu : UInt16 := 0x12
@[match_pattern] def vkEscape : UInt16 := 0x1b
@[match_pattern] def vkSpace : UInt16 := 0x20
@[match_pattern] def vkPrior : UInt16 := 0x21
@[match_pattern] def vkNext : UInt16 := 0x22
@[match_pattern] def vkEnd : UInt16 := 0x23
@[match_pattern] def vkHome : UInt16 := 0x24
@[match_pattern] def vkLeft : UInt16 := 0x25
@[match_pattern] def vkUp : UInt16 := 0x26
@[match_pattern] def vkRight : UInt16 := 0x27
@[match_pattern] def vkDown : UInt16 := 0x28
@[match_pattern] def vkInsert : UInt16 := 0x2d
@[match_pattern] def vkDelete : UInt16 := 0x2e
@[match_pattern] def vkF1 : UInt16 := 0x70
@[match_pattern] def vkF2 : UInt16 := 0x71
@[match_pattern] def vkF3 : UInt16 := 0x72
@[match_pattern] def vkF4 : UInt16 := 0x73
@[match_pattern] def vkF5 : UInt16 := 0x74
@[match_pattern] def vkF6 : UInt16 := 0x75
@[match_pattern] def vkF7 : UInt16 := 0x76
@[match_pattern] def vkF8 : UInt16 := 0x77
@[match_pattern] def vkF9 : UInt16 := 0x78
@[match_pattern] def vkF10 : UInt16 := 0x79
@[match_pattern] def vkF11 : UInt16 := 0x7a
@[match_pattern] def vkF12 : UInt16 := 0x7b
@[match_pattern] def vkLShift : UInt16 := 0xa0
@[match_pattern] def vkRShift : UInt16 := 0xa1
@[match_pattern] def vkLControl : UInt16 := 0xa2
@[match_pattern] def vkRControl : UInt16 := 0xa3
@[match_pattern] def vkLMenu : UInt16 := 0xa4
@[match_pattern] def vkRMenu : UInt16 := 0xa5

def rightAltPressed : UInt32 := 0x01
def leftAltPressed : UInt32 := 0x02
def rightCtrlPressed : UInt32 := 0x04
def leftCtrlPressed : UInt32 := 0x08
def shiftPressedFlag : UInt32 := 0x10

def fromLeft1stButtonPressed : UInt32 := 0x01
def rightmostButtonPressed : UInt32 := 0x02
def fromLeft2ndButtonPressed : UInt32 := 0x04
def fromLeft3rdButtonPressed : UInt32 := 0x08

def mouseMoved : UInt32 := 0x01
def mouseWheeled : UInt32 := 0x04
def mouseHWheeled : UInt32 := 0x08

/-- A key record of the console. -/
structure ConsoleKeyEvent where
  keyDown : Bool
  repeatCount : UInt16
  virtualKeyCode : UInt16
  virtualScanCode : UInt16
  unicodeChar : UInt16
  controlKeyState : UInt32
deriving DecidableEq

/-- A mouse record of the console. -/
structure MouseEventRecord where
  x : Int16
  y : Int16
  buttonState : UInt32
  controlKeyState : UInt32
  eventFlags : UInt32
deriving DecidableEq

/-- A record of a batch. -/
inductive BatchEvent
  | key (key : ConsoleKeyEvent)
  | mouse (mouse : MouseEventRecord)
deriving DecidableEq

/-- What is sent for one or more records. -/
structure AttachInput where
  bytes : List UInt8
  windowsConsoleKey : Option AttachedWindowsConsoleKey
  repeatCount : UInt16
deriving DecidableEq

namespace AttachInput

def ofBytes (bytes : List UInt8) : AttachInput := ⟨bytes, none, 1⟩

def withWindowsConsoleKey (bytes : List UInt8) (key : AttachedWindowsConsoleKey) : AttachInput :=
  ⟨bytes, some key, max key.repeatCount 1⟩

def repeatedBytes (bytes : List UInt8) (repeatCount : UInt16) : AttachInput :=
  ⟨bytes, none, max repeatCount 1⟩

end AttachInput

/-! ## Modifiers -/

def ctrlPressed (state : UInt32) : Bool := state &&& (leftCtrlPressed ||| rightCtrlPressed) != 0

def altGrPressed (state : UInt32) : Bool :=
  state &&& rightAltPressed != 0 && state &&& leftCtrlPressed != 0 &&
    state &&& leftAltPressed == 0 && state &&& rightCtrlPressed == 0

def metaPressed (state : UInt32) : Bool :=
  state &&& (leftAltPressed ||| rightAltPressed) != 0 && !altGrPressed state

def shiftPressed (state : UInt32) : Bool := state &&& shiftPressedFlag != 0

def xtermModifierParameter (state : UInt32) : ℕ :=
  let shift := shiftPressed state
  let alt := metaPressed state
  let ctrl := ctrlPressed state && !altGrPressed state
  1 + shift.toNat + alt.toNat * 2 + ctrl.toNat * 4

/-! ## Keys -/

def withMetaPrefix (alt : Bool) (bytes : List UInt8) : List UInt8 :=
  if alt then 0x1b :: bytes else bytes

def charFromU32 (value : ℕ) : Option Char :=
  if value.isValidChar then some (Char.ofNat value) else none

/-- A character of one or two UTF-16 units. The first of two is kept. -/
def charFromUtf16Event (value : UInt16) (pendingHighSurrogate : Option UInt16) :
    Option Char × Option UInt16 :=
  if 0xd800 ≤ value ∧ value ≤ 0xdbff then (none, some value)
  else
    match pendingHighSurrogate with
    | some high =>
      if 0xdc00 ≤ value ∧ value ≤ 0xdfff then
        let high := (high - 0xd800).toNat
        let low := (value - 0xdc00).toNat
        (charFromU32 (0x10000 + (high <<< 10 ||| low)), none)
      else (charFromU32 value.toNat, none)
    | none => (charFromU32 value.toNat, none)

variable (event : ConsoleKeyEvent)

def controlByteForEvent : Option UInt8 :=
  if 1 ≤ event.unicodeChar ∧ event.unicodeChar ≤ 0x1a then some event.unicodeChar.toUInt8
  else if event.virtualKeyCode = vkSpace then some 0x00
  else
    (charFromU32 event.unicodeChar.toNat).bind fun character =>
      let character := character.toLower
      if 'a' ≤ character ∧ character ≤ 'z' then some (character.toNat.toUInt8 - 0x61 + 1)
      else
        match character with
        | ' ' | '@' => some 0x00
        | '[' => some 0x1b
        | '\\' => some 0x1c
        | ']' => some 0x1d
        | '^' => some 0x1e
        | '_' => some 0x1f
        | '?' => some 0x7f
        | _ => none

def controlByteForVirtualKey (key : UInt16) : Option UInt8 :=
  if 0x41 ≤ key ∧ key ≤ 0x5a then some (key.toUInt8 - 0x41 + 1)
  else
    match key with
    | 0x32 => some 0x00
    | 0x33 => some 0x1b
    | 0x34 => some 0x1c
    | 0x35 => some 0x1d
    | 0x36 => some 0x1e
    | 0x5f => some 0x1f
    | _ => none

def encodeUnicodeKeyEvent (pendingHighSurrogate : Option UInt16) : List UInt8 × Option UInt16 :=
  let alt := metaPressed event.controlKeyState
  let ctrl := ctrlPressed event.controlKeyState && !altGrPressed event.controlKeyState
  match if ctrl then controlByteForEvent event else none with
  | some control => (withMetaPrefix alt [control], pendingHighSurrogate)
  | none =>
    match charFromUtf16Event event.unicodeChar pendingHighSurrogate with
    | (none, pending) => ([], pending)
    | (some character, pending) => (withMetaPrefix alt (String.utf8EncodeChar character), pending)

def csiUSequence (key modifier : ℕ) : List UInt8 := textUtf8 s!"\x1b[{key};{modifier}u"

/-- A cursor key, and the last letter of the sequence for it with modifiers. -/
def cursorKeySequence : UInt16 → Option (List UInt8 × Char)
  | vkUp => some (textUtf8 "\x1b[A", 'A')
  | vkDown => some (textUtf8 "\x1b[B", 'B')
  | vkRight => some (textUtf8 "\x1b[C", 'C')
  | vkLeft => some (textUtf8 "\x1b[D", 'D')
  | vkHome => some (textUtf8 "\x1b[H", 'H')
  | vkEnd => some (textUtf8 "\x1b[F", 'F')
  | _ => none

def tildeKeyNumber : UInt16 → Option ℕ
  | vkInsert => some 2
  | vkDelete => some 3
  | vkPrior => some 5
  | vkNext => some 6
  | vkF5 => some 15
  | vkF6 => some 17
  | vkF7 => some 18
  | vkF8 => some 19
  | vkF9 => some 20
  | vkF10 => some 21
  | vkF11 => some 23
  | vkF12 => some 24
  | _ => none

def functionKeySequence : UInt16 → Option (List UInt8 × Char)
  | vkF1 => some (textUtf8 "\x1bOP", 'P')
  | vkF2 => some (textUtf8 "\x1bOQ", 'Q')
  | vkF3 => some (textUtf8 "\x1bOR", 'R')
  | vkF4 => some (textUtf8 "\x1bOS", 'S')
  | _ => none

/-- The sequence of a key that has a letter at its end. -/
def letterKey (modifier : ℕ) : List UInt8 × Char → List UInt8
  | (normal, modifiedFinal) =>
    if modifier = 1 then normal else textUtf8 s!"\x1b[1;{modifier}{modifiedFinal}"

def encodeVirtualKeyEvent : List UInt8 :=
  let state := event.controlKeyState
  let alt := metaPressed state
  let modifier := xtermModifierParameter state
  let key := event.virtualKeyCode
  let ctrl := ctrlPressed state && !altGrPressed state
  if key = vkEscape then if alt then [0x1b, 0x1b] else [0x1b]
  else if key = vkSpace ∧ ctrl then withMetaPrefix alt [0x00]
  else
    match if ctrl then controlByteForVirtualKey key else none with
    | some control => withMetaPrefix alt [control]
    | none =>
      if key = vkBack then if modifier = 1 then [0x7f] else csiUSequence 0x7f modifier
      else if key = vkTab then
        match modifier with
        | 1 => [0x09]
        | 2 => textUtf8 "\x1b[Z"
        | _ => csiUSequence 0x09 modifier
      else if key = vkReturn then if modifier = 1 then [0x0d] else csiUSequence 0x0d modifier
      else
        match cursorKeySequence key with
        | some sequence => letterKey modifier sequence
        | none =>
          match tildeKeyNumber key with
          | some number =>
            if modifier = 1 then textUtf8 s!"\x1b[{number}~"
            else textUtf8 s!"\x1b[{number};{modifier}~"
          | none => ((functionKeySequence key).map (letterKey modifier)).getD []

def virtualKeyRequiresModifierMapping : Bool :=
  match event.virtualKeyCode with
  | vkBack | vkEscape | vkReturn | vkTab => true
  | _ => false

def encodeKeyEvent (pendingHighSurrogate : Option UInt16) : List UInt8 × Option UInt16 :=
  if event.keyDown then
    let repeatCount := (max event.repeatCount 1).toNat
    let (once, pending) :=
      if event.unicodeChar ≠ 0 ∧ ¬virtualKeyRequiresModifierMapping event then
        encodeUnicodeKeyEvent event pendingHighSurrogate
      else (encodeVirtualKeyEvent event, none)
    ((List.replicate repeatCount once).flatten, pending)
  else ([], pendingHighSurrogate)

/-! ## Text of a paste -/

def isSynthesizedPasteLf : Bool :=
  let knownVirtualKey := event.virtualKeyCode = 0x4a || event.virtualKeyCode = vkReturn
  event.keyDown && ctrlPressed event.controlKeyState && !altGrPressed event.controlKeyState &&
    !metaPressed event.controlKeyState && event.unicodeChar == 0x0a && knownVirtualKey &&
    !shiftPressed event.controlKeyState

def isPasteBodyText : Bool :=
  if !event.keyDown || event.unicodeChar == 0 then false
  else
    let altGr := altGrPressed event.controlKeyState
    let ctrl := ctrlPressed event.controlKeyState && !altGr
    let alt := metaPressed event.controlKeyState && !altGr
    if alt then false else if !ctrl then true else isSynthesizedPasteLf event

def isPureModifierKeyDown : Bool :=
  event.keyDown && event.unicodeChar == 0 &&
    match event.virtualKeyCode with
    | vkShift | vkControl | vkMenu | vkLShift | vkRShift | vkLControl | vkRControl | vkLMenu
    | vkRMenu => true
    | _ => false

def encodePasteBodyKeyEvent (pendingHighSurrogate : Option UInt16) : List UInt8 × Option UInt16 :=
  if isSynthesizedPasteLf event then
    (List.replicate (max event.repeatCount 1).toNat 0x0a, pendingHighSurrogate)
  else encodeKeyEvent event pendingHighSurrogate

/-- Remove the needle from left to right. Every round reads at least one byte. -/
def removeSubslicesFrom (needle : List UInt8) : ℕ → List UInt8 → List UInt8
  | 0, buf => buf
  | _, [] => []
  | fuel + 1, byte :: rest =>
    if needle <+: byte :: rest then
      removeSubslicesFrom needle fuel ((byte :: rest).drop needle.length)
    else byte :: removeSubslicesFrom needle fuel rest

def removeAllSubslices (needle buf : List UInt8) : List UInt8 :=
  if needle.isEmpty || buf.length < needle.length then buf
  else removeSubslicesFrom needle buf.length buf

/-- Remove both markers until a round removes none. Every other round makes the text shorter. -/
def stripRounds : ℕ → List UInt8 → List UInt8
  | 0, text => text
  | fuel + 1, text =>
    let stripped :=
      removeAllSubslices bracketedPasteStart (removeAllSubslices bracketedPasteEnd text)
    if stripped.length = text.length then stripped else stripRounds fuel stripped

def stripEmbeddedPasteMarkers (text : List UInt8) : List UInt8 :=
  if text.length < min bracketedPasteEnd.length bracketedPasteStart.length then text
  else stripRounds (text.length + 1) text

/-- How many bytes at the end could begin a marker. -/
def markerStraddleHoldLen (text : List UInt8) : ℕ :=
  let maxHold := bracketedPasteStart.length - 1
  (((List.range' 1 maxHold).reverse.filter fun k => k ≤ text.length).find? fun k =>
    let tail := text.drop (text.length - k)
    tail <+: bracketedPasteStart || tail <+: bracketedPasteEnd).getD 0

/-! ## Mouse -/

def sgrModifierBits (controlKeyState : UInt32) : UInt16 :=
  (if controlKeyState &&& shiftPressedFlag != 0 then 4 else 0) |||
    (if controlKeyState &&& (leftAltPressed ||| rightAltPressed) != 0 then 8 else 0) |||
    if controlKeyState &&& (leftCtrlPressed ||| rightCtrlPressed) != 0 then 16 else 0

def sgrButtonsForState (buttons : UInt32) : List UInt16 :=
  (if buttons &&& fromLeft1stButtonPressed != 0 then [0] else []) ++
    (if buttons &&& rightmostButtonPressed != 0 then [2] else []) ++
    if buttons &&& (fromLeft2ndButtonPressed ||| fromLeft3rdButtonPressed) != 0 then [1] else []

def sgrButtonForState (buttons : UInt32) : Option UInt16 :=
  if buttons &&& fromLeft1stButtonPressed != 0 then some 0
  else if buttons &&& rightmostButtonPressed != 0 then some 2
  else if buttons &&& (fromLeft2ndButtonPressed ||| fromLeft3rdButtonPressed) != 0 then some 1
  else none

def formatSgrMouse (button : UInt16) (x y : ℕ) (terminator : Char) : List UInt8 :=
  textUtf8 s!"\x1b[<{button.toNat};{x};{y}{terminator}"

/-- The sequences for a mouse record, and the buttons that are down after it. -/
def encodeMouseEvent (event : MouseEventRecord) (lastButtonState : UInt32) :
    List (List UInt8) × UInt32 :=
  let x := event.x.toNatClampNeg + 1
  let y := event.y.toNatClampNeg + 1
  let buttons := event.buttonState
  let modifiers := sgrModifierBits event.controlKeyState
  let delta := (buttons >>> 16).toUInt16.toInt16
  if event.eventFlags &&& mouseWheeled != 0 then
    ([formatSgrMouse ((if 0 ≤ delta then 64 else 65) ||| modifiers) x y 'M'], lastButtonState)
  else if event.eventFlags &&& mouseHWheeled != 0 then
    ([formatSgrMouse ((if 0 ≤ delta then 67 else 66) ||| modifiers) x y 'M'], lastButtonState)
  else
    let pressed := buttons &&& ~~~lastButtonState
    let released := lastButtonState &&& ~~~buttons
    if pressed = 0 ∧ released = 0 then
      if event.eventFlags &&& mouseMoved != 0 then
        ([formatSgrMouse ((sgrButtonForState buttons).getD 3 ||| 32 ||| modifiers) x y 'M'],
          buttons)
      else ([], buttons)
    else
      ((sgrButtonsForState released).map (fun button =>
          formatSgrMouse (button ||| modifiers) x y 'm') ++
        (sgrButtonsForState pressed).map (fun button =>
          formatSgrMouse (button ||| modifiers) x y 'M'), buttons)

/-! ## Batches -/

/-- What the reader knows about a batch that could be a paste. -/
structure PasteEncodingHint where
  forceAmbiguousLookaheadPaste : Bool
  suppressFreshPaste : Bool
deriving DecidableEq

/-- What is kept from one batch to the next. -/
structure PasteState where
  pasteOpen : Bool
  pasteCarryover : List UInt8
  pendingHighSurrogate : Option UInt16
  lastMouseButtonState : UInt32
deriving DecidableEq

def PasteState.initial : PasteState := ⟨false, [], none, 0⟩

/-- The records of one read, and whether the console was drained by it. -/
structure InputBatch where
  events : List BatchEvent
  drained : Bool
  hint : PasteEncodingHint
deriving DecidableEq

def windowsConsoleKeyForEvent (encodedBytes : List UInt8) : Option AttachedWindowsConsoleKey :=
  if !event.keyDown || encodedBytes.isEmpty || !ctrlPressed event.controlKeyState ||
      altGrPressed event.controlKeyState || metaPressed event.controlKeyState then none
  else
    some ⟨event.virtualKeyCode, event.virtualScanCode, event.unicodeChar, event.controlKeyState,
      max event.repeatCount 1⟩

def encodeLiveInputBatch : List BatchEvent → PasteState → List AttachInput × PasteState
  | [], state => ([], state)
  | .key key :: events, state =>
    let (bytes, pending) := encodeKeyEvent { key with repeatCount := 1 } state.pendingHighSurrogate
    let (inputs, state') :=
      encodeLiveInputBatch events { state with pendingHighSurrogate := pending }
    if bytes.isEmpty then (inputs, state')
    else
      let input :=
        match windowsConsoleKeyForEvent key bytes with
        | some consoleKey => AttachInput.withWindowsConsoleKey bytes consoleKey
        | none => AttachInput.repeatedBytes bytes key.repeatCount
      (input :: inputs, state')
  | .mouse mouse :: events, state =>
    let (sequences, buttons) := encodeMouseEvent mouse state.lastMouseButtonState
    let (inputs, state') :=
      encodeLiveInputBatch events { state with lastMouseButtonState := buttons }
    (sequences.map AttachInput.ofBytes ++ inputs, state')

def BatchEvent.key? : BatchEvent → Option ConsoleKeyEvent
  | .key event => some event
  | .mouse _ => none

def BatchEvent.mouse? : BatchEvent → Option MouseEventRecord
  | .key _ => none
  | .mouse event => some event

namespace InputBatch

variable (batch : InputBatch)

def keys : List ConsoleKeyEvent := batch.events.filterMap BatchEvent.key?

/-- Keys that are pressed and are not only modifiers. -/
def downs : List ConsoleKeyEvent :=
  batch.keys.filter fun key => key.keyDown && !isPureModifierKeyDown key

def textDowns : ℕ := batch.downs.countP isPasteBodyText

def hasOtherKey : Bool := batch.downs.any fun key => !isPasteBodyText key

def continuationNoiseOnly : Bool :=
  batch.events.all fun
    | .key key => !key.keyDown || isPureModifierKeyDown key
    | .mouse _ => false

def isPaste (pasteOpen : Bool) : Bool :=
  let continuingPaste := pasteOpen && 1 ≤ batch.textDowns
  let freshPaste := !batch.hint.suppressFreshPaste &&
    (2 ≤ batch.textDowns || (batch.hint.forceAmbiguousLookaheadPaste && 1 ≤ batch.textDowns))
  !batch.hasOtherKey && (continuingPaste || freshPaste)

/-- The text of a paste. -/
def encodePasteBody (pendingHighSurrogate : Option UInt16) : List UInt8 × Option UInt16 :=
  batch.keys.foldl (fun (text, pending) key =>
    let (bytes, pending) := encodePasteBodyKeyEvent key pending
    (text ++ bytes, pending)) ([], pendingHighSurrogate)

/-- Mouse records in a paste are not sent. -/
def suppressMouse (lastMouseButtonState : UInt32) : UInt32 :=
  (batch.events.filterMap BatchEvent.mouse?).foldl
    (fun buttons mouse => (encodeMouseEvent mouse buttons).2) lastMouseButtonState

end InputBatch

def encodeInputBatchWithHint (batch : InputBatch) (state : PasteState) :
    List AttachInput × PasteState :=
  if state.pasteOpen && !batch.drained && batch.continuationNoiseOnly then ([], state)
  else if batch.isPaste state.pasteOpen then
    let opener := if state.pasteOpen then [] else bracketedPasteStart
    let (body, pending) := batch.encodePasteBody state.pendingHighSurrogate
    let buttons := batch.suppressMouse state.lastMouseButtonState
    let text := stripEmbeddedPasteMarkers (state.pasteCarryover ++ body)
    let (payload, state') :=
      if batch.drained then
        (opener ++ text ++ bracketedPasteEnd, PasteState.mk false [] pending buttons)
      else
        let split := text.length - markerStraddleHoldLen text
        (opener ++ text.take split, PasteState.mk true (text.drop split) pending buttons)
    (if payload.isEmpty then [] else [.ofBytes payload], state')
  else
    let closer :=
      if state.pasteOpen then
        [.ofBytes (stripEmbeddedPasteMarkers state.pasteCarryover ++ bracketedPasteEnd)]
      else []
    let state :=
      if state.pasteOpen then { state with pasteOpen := false, pasteCarryover := [] } else state
    let (inputs, state) := encodeLiveInputBatch batch.events state
    (closer ++ inputs, state)

end Rmux
