import Rmux.InputKeys
import Rmux.Scan

/-!
# Terminal controls in a client's input

Between the keys a client's terminal sends bracketed pastes, graphics replies, focus changes, answers to
queries and strings for the program in the pane. What has an end marker is searched for it. The search of
a decoder that was given the length `newInputAt` of what it has seen before resumes shortly before that
place.
-/

namespace Rmux.Input

open List Option Nat

variable {input : List UInt8} {size : ℕ}

/-- Whether `needle` stands at the start. -/
def marker (needle l : List UInt8) : Option Unit := if startsWith needle l then some () else none

theorem startsWith_iff {start : List UInt8} : startsWith start input = true ↔ start <+: input :=
  isPrefixOf_iff_prefix

theorem length_le_of_startsWith {start : List UInt8} (h : startsWith start input = true) :
    start.length ≤ input.length :=
  (startsWith_iff.mp h).length_le

theorem marker_size {needle l : List UInt8} (h : marker needle l = some ()) :
    needle.length ≤ l.length := by
  unfold marker at h
  split_ifs at h with hst
  exact length_le_of_startsWith hst

theorem scanFrom_marker_le {needle : List UInt8} {start i : ℕ}
    (h : input.scanFrom (marker needle) start = some (i, ())) :
    i + needle.length ≤ input.length := by
  obtain ⟨-, hlt, hat⟩ := scanFrom_eq_some h
  have hsz := marker_size hat
  rw [length_drop] at hsz
  omega

/-! ## Bracketed paste -/

def bracketedPasteStart : List UInt8 := [0x1b, 0x5b, 0x32, 0x30, 0x30, 0x7e]

def bracketedPasteEnd : List UInt8 := [0x1b, 0x5b, 0x32, 0x30, 0x31, 0x7e]

/-- Whether a bracketed paste starts the input, and where its text is. -/
inductive BracketedPasteDecode
  | notPaste
  | incomplete
  | matched (size bodyStart bodyEnd : ℕ)
  deriving DecidableEq

def decodeBracketedPasteAfterAppend (input : List UInt8) (newInputAt : ℕ) : BracketedPasteDecode :=
  if startsWith bracketedPasteStart input then
    let searchAt := min (max (newInputAt - (bracketedPasteEnd.length - 1)) bracketedPasteStart.length)
      input.length
    match input.scanFrom (marker bracketedPasteEnd) searchAt with
    | some (bodyEnd, _) =>
      .matched (bodyEnd + bracketedPasteEnd.length) bracketedPasteStart.length bodyEnd
    | none => .incomplete
  else if 3 ≤ input.length && startsWith input bracketedPasteStart then .incomplete
  else .notPaste

theorem decodeBracketedPaste_size {n bodyStart bodyEnd : ℕ}
    (h : decodeBracketedPasteAfterAppend input n = .matched size bodyStart bodyEnd) :
    0 < size ∧ size ≤ input.length := by
  unfold decodeBracketedPasteAfterAppend at h
  dsimp only at h
  split_ifs at h
  split at h
  · rename_i hf
    obtain ⟨rfl, -, -⟩ := BracketedPasteDecode.matched.inj h
    exact ⟨Nat.add_pos_right _ (by decide), scanFrom_marker_le hf⟩
  · cases h

/-- The longest beginning of `marker` that `input` ends with, `marker` itself apart. -/
def longestProperSuffix (input marker : List UInt8) : Option ℕ :=
  (List.range' 1 (marker.length - 1)).reverse.find? fun n => (marker.take n).isSuffixOf input

/-- The length of the unfinished character that `input` ends with. -/
def incompleteUtf8SuffixLen (input : List UInt8) : ℕ :=
  let continuation := ((input.reverse.take 3).takeWhile fun byte => byte &&& 0xc0 == 0x80).length
  match input[input.length - (continuation + 1)]? with
  | none => 0
  | some lead =>
    let expected :=
      if 0xc2 ≤ lead && lead ≤ 0xdf then 2
      else if 0xe0 ≤ lead && lead ≤ 0xef then 3
      else if 0xf0 ≤ lead && lead ≤ 0xf4 then 4
      else 0
    if continuation + 1 < expected then continuation + 1 else 0

/-- Takes a segment off an unfinished paste that is longer than `maximum`. The opening marker stays, and
so does what may be the beginning of the closing one or of a character. -/
def takeIncompleteBracketedPasteSegment (input : List UInt8) (maximum : ℕ) :
    Option (List UInt8 × List UInt8) :=
  if input.length ≤ maximum ∨ ¬startsWith bracketedPasteStart input then none
  else
    let tailLen := max ((longestProperSuffix input bracketedPasteEnd).getD 0)
      (incompleteUtf8SuffixLen input)
    let bodyEnd := input.length - tailLen
    if bodyEnd ≤ bracketedPasteStart.length then none
    else some ((input.take bodyEnd).drop bracketedPasteStart.length,
      input.take bracketedPasteStart.length ++ input.drop bodyEnd)

/-! ## Graphics replies -/

def kittyGraphicsApcStart : List UInt8 := [0x1b, 0x5f, 0x47]

def stringTerminator : List UInt8 := [0x1b, 0x5c]

/-- Whether a graphics reply starts the input. -/
inductive KittyGraphicsApcDecode
  | notKittyGraphics
  | incomplete
  | matched (size : ℕ)
  deriving DecidableEq

def decodeKittyGraphicsApcAfterAppend (input : List UInt8) (newInputAt : ℕ) :
    KittyGraphicsApcDecode :=
  if input ≠ [] ∧ input.length < kittyGraphicsApcStart.length ∧
      startsWith input kittyGraphicsApcStart then .incomplete
  else if startsWith kittyGraphicsApcStart input then
    let searchAt := min (max (newInputAt - (stringTerminator.length - 1)) kittyGraphicsApcStart.length)
      input.length
    match input.scanFrom (marker stringTerminator) searchAt with
    | some (bodyEnd, _) => .matched (bodyEnd + stringTerminator.length)
    | none => .incomplete
  else .notKittyGraphics

theorem decodeKittyGraphicsApc_size {n : ℕ}
    (h : decodeKittyGraphicsApcAfterAppend input n = .matched size) :
    0 < size ∧ size ≤ input.length := by
  unfold decodeKittyGraphicsApcAfterAppend at h
  dsimp only at h
  split_ifs at h
  split at h
  · rename_i hf
    obtain rfl := KittyGraphicsApcDecode.matched.inj h
    exact ⟨Nat.add_pos_right _ (by decide), scanFrom_marker_le hf⟩
  · cases h

/-! ## Answers of the terminal -/

/-- What a terminal reports by itself. -/
inductive TerminalControlEvent
  | focusIn
  | focusOut
  | clientLightTheme
  | clientDarkTheme
  deriving DecidableEq

/-- Whether an answer of the terminal starts the input, and what it is for. -/
inductive TerminalResponseDecode
  | notResponse
  | incomplete
  | paneBound (size : ℕ)
  | paletteResponse (size index : ℕ)
  | clipboardResponse (size : ℕ) (selection : Option UInt8) (content : List UInt8)
  | matched (size : ℕ) (event : Option TerminalControlEvent)
  deriving DecidableEq

/-- An answer that is read from `length` bytes takes some of them. -/
def TerminalResponseDecode.Fits (length : ℕ) : TerminalResponseDecode → Prop
  | paneBound size | paletteResponse size _ | clipboardResponse size _ _ | matched size _ =>
    0 < size ∧ size ≤ length
  | notResponse | incomplete => True

def decodeFocusEvent (input : List UInt8) : Option TerminalControlEvent :=
  if startsWith [0x1b, 0x5b, 0x49] input then some .focusIn
  else if startsWith [0x1b, 0x5b, 0x4f] input then some .focusOut
  else none

theorem decodeFocusEvent_size {event : TerminalControlEvent}
    (h : decodeFocusEvent input = some event) : 3 ≤ input.length := by
  unfold decodeFocusEvent at h
  split_ifs at h with hin hout
  exacts [length_le_of_startsWith hin, length_le_of_startsWith hout]

def decodeFocusResponse (input : List UInt8) : TerminalResponseDecode :=
  match decodeFocusEvent input with
  | some event => .matched 3 (some event)
  | none => .notResponse

theorem decodeFocusResponse_fits (input : List UInt8) :
    (decodeFocusResponse input).Fits input.length := by
  unfold decodeFocusResponse
  split
  · exact ⟨by omega, decodeFocusEvent_size ‹_›⟩
  · trivial

/-- The report of the terminal's theme. -/
def decodeThemeReport (input : List UInt8) (finalIndex : ℕ) : Option TerminalControlEvent :=
  if input.take (finalIndex + 1) = [0x1b, 0x5b, 0x3f, 0x39, 0x39, 0x37, 0x3b, 0x31, 0x6e] then
    some .clientDarkTheme
  else if input.take (finalIndex + 1) = [0x1b, 0x5b, 0x3f, 0x39, 0x39, 0x37, 0x3b, 0x32, 0x6e] then
    some .clientLightTheme
  else none

def isCsiFinal (byte : UInt8) : Bool := 0x40 ≤ byte && byte ≤ 0x7e

/-- A parameter or intermediate byte of a control sequence. -/
def isCsiBody (byte : UInt8) : Bool := 0x20 ≤ byte && byte ≤ 0x3f

/-- Whether a control sequence stops at the first byte, and whether it is finished by it. -/
def csiStop : List UInt8 → Option Bool
  | [] => none
  | byte :: _ =>
    if isCsiFinal byte then some true else if !isCsiBody byte then some false else none

def isDecrpmResponse (input : List UInt8) (finalIndex : ℕ) : Bool :=
  2 < finalIndex && input[finalIndex - 1]? == some 0x24

def isPlausibleTerminalResponsePrefix (input : List UInt8) : Bool :=
  input[2]?.any fun byte => byte == 0x3f || byte == 0x3e || isAsciiDigit byte

/-- What a control sequence answers, by its final byte. -/
def decodeFinal (input : List UInt8) (finalIndex : ℕ) : TerminalResponseDecode :=
  let final := input[finalIndex]?
  if final = some 0x6e then .matched (finalIndex + 1) (decodeThemeReport input finalIndex)
  else if final = some 0x63 ∨ final = some 0x74 then .matched (finalIndex + 1) none
  else if final = some 0x79 ∧ isDecrpmResponse input finalIndex then .matched (finalIndex + 1) none
  else if final = some 0x52 then .paneBound (finalIndex + 1)
  else .notResponse

def decodeTerminalResponseAfterAppend (input : List UInt8) (newInputAt : ℕ) :
    TerminalResponseDecode :=
  if !startsWith [0x1b, 0x5b] input then .notResponse
  else
    let searchAt := min (max newInputAt 2) input.length
    match input.scanFrom csiStop searchAt with
    | some (finalIndex, true) => decodeFinal input finalIndex
    | some (_, false) => .notResponse
    | none =>
      if isPlausibleTerminalResponsePrefix input then .incomplete else .notResponse

theorem decodeTerminalResponse_fits (input : List UInt8) (n : ℕ) :
    (decodeTerminalResponseAfterAppend input n).Fits input.length := by
  unfold decodeTerminalResponseAfterAppend
  dsimp only
  split
  · trivial
  · split
    · unfold decodeFinal
      dsimp only
      split_ifs
      all_goals first | exact ⟨succ_pos _, (scanFrom_eq_some ‹_›).2.1⟩ | trivial
    · trivial
    · split <;> trivial

/-! ### Answers about colours and the clipboard -/

/-- A hexadecimal digit. -/
def isAsciiHexdigit (byte : UInt8) : Bool :=
  isAsciiDigit byte || (0x41 ≤ byte && byte ≤ 0x46) || (0x61 ≤ byte && byte ≤ 0x66)

def parsePaletteIndex (index : List UInt8) : Option ℕ :=
  if index = [] ∨ ¬index.all isAsciiDigit then none else parseNumber 255 index

def decodePaletteResponseBody (body : List UInt8) : Option ℕ := do
  let separator ← body.findIdx? (· == 0x3b)
  let index ← parsePaletteIndex (body.take separator)
  let value := body.drop (separator + 1)
  if startsWith [0x72, 0x67, 0x62, 0x3a] value then
    let channels := (value.drop 4).splitOn 0x2f
    if channels.length = 3 ∧ channels.all fun channel =>
        channel ≠ [] ∧ channel.length ≤ 4 ∧ channel.all isAsciiHexdigit then
      some index
    else none
  else none

def symbolValue (byte : UInt8) : Option ℕ :=
  if 0x41 ≤ byte && byte ≤ 0x5a then some (byte.toNat - 0x41)
  else if 0x61 ≤ byte && byte ≤ 0x7a then some (byte.toNat - 0x61 + 26)
  else if 0x30 ≤ byte && byte ≤ 0x39 then some (byte.toNat - 0x30 + 52)
  else if byte = 0x2b then some 62
  else if byte = 0x2f then some 63
  else none

/-- The bytes that symbols of six bits spell, from the `bits` bits `accumulator` on. No bits may be
left over that are not zero. -/
def decodeSymbols : List UInt8 → ℕ → ℕ → Option (List UInt8)
  | [], accumulator, _ => if accumulator = 0 then some [] else none
  | byte :: symbols, accumulator, bits => do
    let value ← symbolValue byte
    let accumulator := accumulator * 64 + value
    let bits := bits + 6
    if 8 ≤ bits then
      let output ← decodeSymbols symbols (accumulator % 2 ^ (bits - 8)) (bits - 8)
      return UInt8.ofNat (accumulator / 2 ^ (bits - 8)) :: output
    else decodeSymbols symbols accumulator bits

def decodeBase64StandardWithLimit (input : List UInt8) (maxInputBytes : ℕ) : Option (List UInt8) :=
  let symbols := input.rdropWhile (· == 0x3d)
  let padding := input.length - symbols.length
  let remainder := symbols.length % 4
  if input = [] ∨ maxInputBytes < input.length ∨ 2 < padding ∨ remainder = 1 then none
  else if 0 < padding ∧ (input.length % 4 ≠ 0 ∨
      ¬((remainder = 2 ∧ padding = 2) ∨ (remainder = 3 ∧ padding = 1))) then none
  else decodeSymbols symbols 0 0

def maxAttachedClipboardSequenceBytes : ℕ := 1024 * 1024

def validSelections : List UInt8 :=
  [0x63, 0x70, 0x71, 0x73, 0x30, 0x31, 0x32, 0x33, 0x34, 0x35, 0x36, 0x37]

def decodeClipboardResponseBody (body : List UInt8) : Option (Option UInt8 × List UInt8) :=
  if maxAttachedClipboardSequenceBytes < body.length + 7 then none
  else do
    let separator ← body.findIdx? (· == 0x3b)
    let selection :=
      match body.take separator with
      | [selection] => if validSelections.contains selection then some selection else none
      | _ => none
    let decoded ← decodeBase64StandardWithLimit (body.drop (separator + 1))
      maxAttachedClipboardSequenceBytes
    if decoded = [] then none else some (selection, decoded)

/-- The system commands that are answers of the terminal. -/
def consumedOscPrefixes : List (List UInt8) :=
  [[0x1b, 0x5d, 0x34, 0x3b], [0x1b, 0x5d, 0x31, 0x30, 0x3b], [0x1b, 0x5d, 0x31, 0x31, 0x3b],
    [0x1b, 0x5d, 0x31, 0x32, 0x3b], [0x1b, 0x5d, 0x35, 0x32, 0x3b]]

def decodeCompleteOscSequence (input : List UInt8) (bodyEnd size : ℕ) : TerminalResponseDecode :=
  let palette :=
    if startsWith [0x1b, 0x5d, 0x34, 0x3b] input then
      decodePaletteResponseBody ((input.take bodyEnd).drop 4)
    else none
  match palette with
  | some index => .paletteResponse size index
  | none =>
    let clipboard :=
      if startsWith [0x1b, 0x5d, 0x35, 0x32, 0x3b] input then
        decodeClipboardResponseBody ((input.drop 5).take (bodyEnd - 5))
      else none
    match clipboard with
    | some (selection, content) => .clipboardResponse size selection content
    | none => .matched size none

/-- Whether a string ends at the first byte, and with how many bytes. Some strings end with a bell, some
with the single byte of a string terminator. -/
def stringEnd (bell single : Bool) (l : List UInt8) : Option ℕ :=
  if bell && l.head? == some 0x07 then some 1
  else if single && l.head? == some 0x9c then some 1
  else if startsWith stringTerminator l then some 2
  else none

variable {bell single : Bool}

theorem stringEnd_size {l : List UInt8} {width : ℕ}
    (h : stringEnd bell single l = some width) : 0 < width ∧ width ≤ l.length := by
  unfold stringEnd at h
  split_ifs at h with hbell hsingle hst
  · obtain rfl := some.inj h
    cases l with
    | nil => simp at hbell
    | cons byte l => exact ⟨by omega, succ_pos _⟩
  · obtain rfl := some.inj h
    cases l with
    | nil => simp at hsingle
    | cons byte l => exact ⟨by omega, succ_pos _⟩
  · obtain rfl := some.inj h
    exact ⟨by omega, length_le_of_startsWith hst⟩

theorem scanFrom_stringEnd_size {start i width : ℕ}
    (h : input.scanFrom (stringEnd bell single) start = some (i, width)) :
    0 < i + width ∧ i + width ≤ input.length := by
  obtain ⟨-, hlt, hat⟩ := scanFrom_eq_some h
  have hsz := stringEnd_size hat
  rw [length_drop] at hsz
  omega

def decodeOscSequence (input : List UInt8) (newInputAt : ℕ) : TerminalResponseDecode :=
  if !startsWith [0x1b, 0x5d] input then .notResponse
  else if consumedOscPrefixes.any fun start =>
      input.length < start.length && startsWith input start then .incomplete
  else if !consumedOscPrefixes.any fun start => startsWith start input then .notResponse
  else
    let index := min (max (newInputAt - 1) 2) input.length
    match input.scanFrom (stringEnd true false) index with
    | some (bodyEnd, width) => decodeCompleteOscSequence input bodyEnd (bodyEnd + width)
    | none => .incomplete

theorem decodeOscSequence_fits (input : List UInt8) (n : ℕ) :
    (decodeOscSequence input n).Fits input.length := by
  unfold decodeOscSequence
  dsimp only
  split_ifs
  · trivial
  · trivial
  · trivial
  · split
    · obtain ⟨hpos, hle⟩ := scanFrom_stringEnd_size ‹_›
      unfold decodeCompleteOscSequence
      dsimp only
      split
      · exact ⟨hpos, hle⟩
      · split <;> exact ⟨hpos, hle⟩
    · trivial

def decodeAttachedTerminalControlAfterAppend (input : List UInt8) (focusPassthrough : Bool)
    (newInputAt : ℕ) : TerminalResponseDecode :=
  match decodeOscSequence input newInputAt with
  | .notResponse =>
    match if focusPassthrough then .notResponse else decodeFocusResponse input with
    | .notResponse => decodeTerminalResponseAfterAppend input newInputAt
    | decoded => decoded
  | decoded => decoded

theorem decodeAttachedTerminalControl_fits (input : List UInt8) (focusPassthrough : Bool) (n : ℕ) :
    (decodeAttachedTerminalControlAfterAppend input focusPassthrough n).Fits input.length := by
  unfold decodeAttachedTerminalControlAfterAppend
  split
  · have hfocus : (if focusPassthrough then .notResponse else decodeFocusResponse input :
        TerminalResponseDecode).Fits input.length := by
      split
      exacts [trivial, decodeFocusResponse_fits input]
    split
    exacts [decodeTerminalResponse_fits input n, hfocus]
  · exact decodeOscSequence_fits input n

/-! ## Strings for the program in the pane -/

/-- Whether a string for the pane starts the input. -/
inductive PaneBoundTerminalStringDecode
  | notString
  | incomplete
  | matched (size : ℕ)
  deriving DecidableEq

/-- Where the body of a string starts, and whether a bell ends it. -/
def stringBody (input : List UInt8) : Option (ℕ × Bool) :=
  if startsWith [0x1b, 0x5d] input then some (2, true)
  else if startsWith [0x1b, 0x50] input || startsWith [0x1b, 0x5f] input ||
      startsWith [0x1b, 0x5e] input || startsWith [0x1b, 0x58] input then some (2, false)
  else
    match input with
    | [] => none
    | first :: _ =>
      if first = 0x9d then some (1, true)
      else if first = 0x90 ∨ first = 0x98 ∨ first = 0x9e ∨ first = 0x9f then some (1, false)
      else none

def findOpaqueTerminator (input : List UInt8) (offset : ℕ) (bellTerminated : Bool) : Option ℕ :=
  (input.scanFrom (stringEnd bellTerminated true) offset).map fun found => found.1 + found.2

def decodePaneBoundTerminalString (input : List UInt8) : PaneBoundTerminalStringDecode :=
  match stringBody input with
  | none => .notString
  | some (bodyStart, bellTerminated) =>
    match findOpaqueTerminator input bodyStart bellTerminated with
    | some size => .matched size
    | none => .incomplete

theorem decodePaneBoundTerminalString_size
    (h : decodePaneBoundTerminalString input = .matched size) : 0 < size ∧ size ≤ input.length := by
  unfold decodePaneBoundTerminalString at h
  split at h
  · cases h
  · split at h
    · rename_i hf
      obtain rfl := PaneBoundTerminalStringDecode.matched.inj h
      obtain ⟨found, hsc, rfl⟩ := map_eq_some_iff.mp hf
      exact scanFrom_stringEnd_size hsc
    · cases h

end Rmux.Input
