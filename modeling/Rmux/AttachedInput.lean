import Rmux.InputControls

/-!
# The decoding loop of an attached client

The loop tries the decoders in a fixed order at one place after another (`decodeAt`), hands over
what it has decoded, and keeps what it cannot decide yet for the next read (`decodeLoop`, `feed`).
The model is of a read-write client in its normal surface : what the server does with an item is a
parameter where it decides how the loop goes on.
-/

namespace Rmux.Input

open List

/-- What the loop hands over. Bytes that no decoder takes go to the pane one after the other. -/
inductive InputItem
  | paste (body : List UInt8)
  | kittyGraphics (bytes : List UInt8)
  | paneString (bytes : List UInt8)
  | focus (event : TerminalControlEvent)
  | theme (event : TerminalControlEvent)
  | consumed (bytes : List UInt8)
  | cursorReport (bytes : List UInt8)
  | palette (index : ℕ) (bytes : List UInt8)
  | clipboard (selection : Option UInt8) (content : List UInt8)
  | mouse (event : MouseForwardEvent)
  | discardedMouse (bytes : List UInt8)
  | key (key : KeyCode)
  | raw (byte : UInt8)
  deriving DecidableEq

/-- The decoder that waits for more bytes. -/
inductive Retention
  | bracketedPaste
  | kittyGraphicsApc
  | terminalResponse
  | paneBoundString
  | mouse
  | extendedKey
  | utf8
  | attachedKey
  deriving DecidableEq

def Retention.context : Retention → String
  | bracketedPaste => "live bracketed paste"
  | kittyGraphicsApc => "live kitty graphics APC"
  | terminalResponse => "live terminal response"
  | paneBoundString => "live pane-bound terminal string"
  | mouse => "live mouse"
  | extendedKey => "live extended key"
  | utf8 => "live utf-8"
  | attachedKey => "live attached key"

def maxRetainedAttachedControlInput : ℕ := 1024 * 1024

def maxRetainedAttachedEscapeInput : ℕ := 64

/-- How many bytes may be kept. -/
def Retention.limit : Retention → ℕ
  | bracketedPaste | kittyGraphicsApc | terminalResponse | paneBoundString =>
    maxRetainedAttachedControlInput
  | mouse | extendedKey | utf8 | attachedKey => maxRetainedAttachedEscapeInput

/-- The prefix keys and the bound keys of the key table, without their flags. -/
structure PlainKeyDispatchSnapshot where
  first : Option KeyCode
  second : Option KeyCode
  bindings : List KeyCode

def PlainKeyDispatchSnapshot.requiresDispatch (snapshot : PlainKeyDispatchSnapshot)
    (key : KeyCode) : Bool :=
  matchesPrefixKey (keyCodeLookupBits key) snapshot.first snapshot.second ||
    snapshot.bindings.any fun binding => binding == keycAny || binding == keyCodeLookupBits key

/-- What the loop reads of the server : the focus mode of the pane, the byte that Backspace sends, the
bound keys, which keys a binding takes, and which mouse event is remembered. -/
structure Surface where
  focusEvents : Bool
  backspace : Option UInt8
  plainKeys : PlainKeyDispatchSnapshot
  handled : KeyCode → Bool
  remember : Option MouseForwardEvent → MouseForwardEvent → Option MouseForwardEvent

/-- What the loop decides at one place. After some items the rest of the input starts anew. -/
inductive Decoded
  | item (item : InputItem) (size : ℕ) (reroute : Bool)
  | raw (size : ℕ)
  | retain (retention : Retention)
  deriving DecidableEq

variable (surface : Surface)

/-- A key that is not a plain character. -/
def decodeKeystroke (slice : List UInt8) : Decoded :=
  match decodeLiveAttachedKey slice surface.backspace with
  | .matched size key => .item (.key key) size (surface.handled key)
  | .incomplete => .retain .attachedKey
  | .invalid => .raw 1

/-- The plain character at the start of bytes. -/
def plainKey (slice : List UInt8) : Option (KeyCode × ℕ) :=
  match slice with
  | [] => none
  | first :: _ =>
    if isAscii first then some (UInt64.ofNat first.toNat, 1)
    else (decodeUtf8Char slice).map fun decoded => (charKey decoded.1, decoded.2)

def isUnfinishedUtf8 (slice : List UInt8) : Bool :=
  slice.head?.any fun first => isUtf8LeadByte first && slice.length < utf8ExpectedLen first

/-- A plain character goes to the pane as it is unless a binding may take it. -/
def decodeTyped (slice : List UInt8) : Decoded :=
  if slice.head?.all isAsciiControl then decodeKeystroke surface slice
  else
    match plainKey slice with
    | some (key, size) =>
      if surface.plainKeys.requiresDispatch key then decodeKeystroke surface slice else .raw size
    | none => if isUnfinishedUtf8 slice then .retain .utf8 else .raw 1

def decodeKeyboard (last : Option MouseForwardEvent) (slice : List UInt8) : Decoded :=
  if isMousePrefix slice then
    match decodeMouse slice last with
    | .matched size event => .item (.mouse event) size true
    | .discard size => .item (.discardedMouse (slice.take size)) size false
    | .incomplete => .retain .mouse
    | .overlong => .retain .mouse
    | .invalid => .raw 1
  else if isExtendedKeyPrefix slice then
    match decodeExtendedKey slice surface.backspace with
    | .matched size key => .item (.key key) size (surface.handled key)
    | .incomplete => .retain .extendedKey
    | .invalid => decodeTyped surface slice
  else decodeTyped surface slice

def decodeString (last : Option MouseForwardEvent) (slice : List UInt8) : Decoded :=
  match decodePaneBoundTerminalString slice with
  | .matched size => .item (.paneString (slice.take size)) size false
  | .incomplete => .retain .paneBoundString
  | .notString => decodeKeyboard surface last slice

/-- What becomes of an answer of the terminal. What is none is left to the `other` decoders. -/
def ofResponse (slice : List UInt8) (other : Decoded) : TerminalResponseDecode → Decoded
  | .matched size (some event) => .item (.theme event) size true
  | .matched size none => .item (.consumed (slice.take size)) size false
  | .paneBound size => .item (.cursorReport (slice.take size)) size false
  | .paletteResponse size index => .item (.palette index (slice.take size)) size false
  | .clipboardResponse size selection content => .item (.clipboard selection content) size false
  | .incomplete => .retain .terminalResponse
  | .notResponse => other

def decodeControl (last : Option MouseForwardEvent) (newInputAt : ℕ) (slice : List UInt8) : Decoded :=
  ofResponse slice (decodeString surface last slice)
    (decodeAttachedTerminalControlAfterAppend slice surface.focusEvents newInputAt)

def decodeFocus (last : Option MouseForwardEvent) (newInputAt : ℕ) (slice : List UInt8) : Decoded :=
  match decodeFocusEvent slice with
  | some event => .item (.focus event) 3 true
  | none => decodeControl surface last newInputAt slice

def decodeKitty (last : Option MouseForwardEvent) (newInputAt : ℕ) (slice : List UInt8) : Decoded :=
  match decodeKittyGraphicsApcAfterAppend slice newInputAt with
  | .matched size => .item (.kittyGraphics (slice.take size)) size false
  | .incomplete => .retain .kittyGraphicsApc
  | .notKittyGraphics => decodeFocus surface last newInputAt slice

/-- The decoders in their order, at the start of `slice`. The first `newInputAt` bytes were there before
the last read. -/
def decodeAt (last : Option MouseForwardEvent) (newInputAt : ℕ) (slice : List UInt8) : Decoded :=
  match decodeBracketedPasteAfterAppend slice newInputAt with
  | .matched size bodyStart bodyEnd => .item (.paste ((slice.take bodyEnd).drop bodyStart)) size false
  | .incomplete => .retain .bracketedPaste
  | .notPaste => decodeKitty surface last newInputAt slice

/-! ## Progress

Whatever is decided takes some of the bytes. -/

/-- What is decided about `length` bytes takes some of them. -/
def Decoded.Fits (length : ℕ) : Decoded → Prop
  | item _ size _ | raw size => 0 < size ∧ size ≤ length
  | retain _ => True

variable {surface : Surface} {last : Option MouseForwardEvent} {slice : List UInt8}

theorem sub_lt_of_fits (hsl : slice ≠ []) (h : 0 < size ∧ size ≤ slice.length) :
    slice.length - size < slice.length :=
  Nat.sub_lt (length_pos_iff.mpr hsl) h.1

theorem decodeKeystroke_fits (h : slice ≠ []) :
    (decodeKeystroke surface slice).Fits slice.length := by
  unfold decodeKeystroke
  have hkey := decodeLiveAttachedKey_fits slice surface.backspace
  cases hdec : decodeLiveAttachedKey slice surface.backspace with
  | matched size key => rwa [hdec] at hkey
  | incomplete => trivial
  | invalid => exact ⟨by omega, length_pos_iff.mpr h⟩

theorem plainKey_size {key : KeyCode} (h : plainKey slice = some (key, size)) :
    0 < size ∧ size ≤ slice.length := by
  cases slice with
  | nil => cases h
  | cons first r =>
    simp only [plainKey] at h
    split_ifs at h
    · obtain ⟨-, rfl⟩ := Prod.mk.inj (Option.some.inj h)
      exact ⟨by omega, Nat.succ_pos _⟩
    · obtain ⟨decoded, hdec, h⟩ := Option.map_eq_some_iff.mp h
      obtain ⟨-, rfl⟩ := Prod.mk.inj h
      exact decodeUtf8Char_size hdec

theorem decodeTyped_fits (h : slice ≠ []) : (decodeTyped surface slice).Fits slice.length := by
  unfold decodeTyped
  split
  · exact decodeKeystroke_fits h
  · split
    · split
      exacts [decodeKeystroke_fits h, plainKey_size ‹_›]
    · split
      exacts [trivial, ⟨by omega, length_pos_iff.mpr h⟩]

theorem decodeKeyboard_fits (h : slice ≠ []) :
    (decodeKeyboard surface last slice).Fits slice.length := by
  have hone : 0 < 1 ∧ 1 ≤ slice.length := ⟨by omega, length_pos_iff.mpr h⟩
  unfold decodeKeyboard
  split
  · have hms := decodeMouse_fits slice last
    cases hdec : decodeMouse slice last with
    | matched size event | discard size => rwa [hdec] at hms
    | incomplete | overlong => trivial
    | invalid => exact hone
  · split
    · have hkey := decodeExtendedKey_fits slice surface.backspace
      cases hdec : decodeExtendedKey slice surface.backspace with
      | matched size key => rwa [hdec] at hkey
      | incomplete => trivial
      | invalid => exact decodeTyped_fits h
    · exact decodeTyped_fits h

theorem decodeString_fits (h : slice ≠ []) :
    (decodeString surface last slice).Fits slice.length := by
  unfold decodeString
  split
  exacts [decodePaneBoundTerminalString_size ‹_›, trivial, decodeKeyboard_fits h]

theorem ofResponse_fits {other : Decoded} {decoded : TerminalResponseDecode}
    (h : decoded.Fits slice.length) (ho : other.Fits slice.length) :
    (ofResponse slice other decoded).Fits slice.length := by
  match decoded with
  | .matched _ (some _) | .matched _ none | .paneBound _ | .paletteResponse _ _
  | .clipboardResponse _ _ _ => exact h
  | .incomplete => trivial
  | .notResponse => exact ho

theorem decodeControl_fits (newInputAt : ℕ) (h : slice ≠ []) :
    (decodeControl surface last newInputAt slice).Fits slice.length :=
  ofResponse_fits (decodeAttachedTerminalControl_fits slice surface.focusEvents newInputAt)
    (decodeString_fits h)

theorem decodeAt_fits (newInputAt : ℕ) (h : slice ≠ []) :
    (decodeAt surface last newInputAt slice).Fits slice.length := by
  unfold decodeAt
  split
  · exact decodeBracketedPaste_size ‹_›
  · trivial
  · unfold decodeKitty
    split
    · exact decodeKittyGraphicsApc_size ‹_›
    · trivial
    · unfold decodeFocus
      split
      exacts [⟨by omega, decodeFocusEvent_size ‹_›⟩, decodeControl_fits newInputAt h]

/-! ## The loop -/

variable (surface)

/-- The mouse event that is remembered after an item. -/
def Surface.lastMouse (last : Option MouseForwardEvent) : InputItem → Option MouseForwardEvent
  | .mouse event => surface.remember last event
  | _ => last

/-- What the loop has made of its input : the items, what it keeps for the next read, and the last mouse
event. -/
structure Decoding where
  items : List InputItem
  undecided : Option (List UInt8 × Retention)
  last : Option MouseForwardEvent
  deriving DecidableEq

/-- After other items. -/
def Decoding.after (items : List InputItem) (decoding : Decoding) : Decoding :=
  { decoding with items := items ++ decoding.items }

/-- The loop over `slice`, of which the first `newInputAt` bytes were there before the last read. -/
def decodeLoop (last : Option MouseForwardEvent) (newInputAt : ℕ) (slice : List UInt8) : Decoding :=
  if _hslice : slice = [] then ⟨[], none, last⟩
  else
    match _hdecoded : decodeAt surface last newInputAt slice with
    | .item item size reroute =>
      (decodeLoop (surface.lastMouse last item) (if reroute then 0 else newInputAt - size)
        (slice.drop size)).after [item]
    | .raw size =>
      (decodeLoop last (newInputAt - size) (slice.drop size)).after ((slice.take size).map .raw)
    | .retain retention => ⟨[], some (slice, retention), last⟩
termination_by slice.length
decreasing_by
  all_goals
    have hfits : (decodeAt surface last newInputAt slice).Fits slice.length :=
      decodeAt_fits newInputAt _hslice
    rw [_hdecoded] at hfits
    rw [List.length_drop]
    exact sub_lt_of_fits _hslice hfits

variable {surface} {newInputAt size : ℕ} {item : InputItem} {reroute : Bool} {retention : Retention}

theorem decodeLoop_nil : decodeLoop surface last newInputAt [] = ⟨[], none, last⟩ := by
  rw [decodeLoop, dif_pos rfl]

theorem decodeLoop_item (hsl : slice ≠ [])
    (h : decodeAt surface last newInputAt slice = .item item size reroute) :
    decodeLoop surface last newInputAt slice =
      (decodeLoop surface (surface.lastMouse last item) (if reroute then 0 else newInputAt - size)
        (slice.drop size)).after [item] := by
  rw [decodeLoop, dif_neg hsl]
  split
  · rename_i heq
    obtain ⟨rfl, rfl, rfl⟩ := Decoded.item.inj (heq.symm.trans h)
    rfl
  · rename_i heq
    cases heq.symm.trans h
  · rename_i heq
    cases heq.symm.trans h

theorem decodeLoop_raw (hsl : slice ≠ []) (h : decodeAt surface last newInputAt slice = .raw size) :
    decodeLoop surface last newInputAt slice =
      (decodeLoop surface last (newInputAt - size) (slice.drop size)).after
        ((slice.take size).map .raw) := by
  rw [decodeLoop, dif_neg hsl]
  split
  · rename_i heq
    cases heq.symm.trans h
  · rename_i heq
    obtain rfl := Decoded.raw.inj (heq.symm.trans h)
    rfl
  · rename_i heq
    cases heq.symm.trans h

theorem decodeLoop_retain (hsl : slice ≠ [])
    (h : decodeAt surface last newInputAt slice = .retain retention) :
    decodeLoop surface last newInputAt slice = ⟨[], some (slice, retention), last⟩ := by
  rw [decodeLoop, dif_neg hsl]
  split
  · rename_i heq
    cases heq.symm.trans h
  · rename_i heq
    cases heq.symm.trans h
  · rename_i heq
    obtain rfl := Decoded.retain.inj (heq.symm.trans h)
    rfl

variable (surface)

/-! ## Reads -/

/-- What is kept between two reads. -/
structure InputState where
  pending : List UInt8
  last : Option MouseForwardEvent
  deriving DecidableEq

/-- More bytes would have to be kept than are allowed. -/
structure RetentionError where
  retention : Retention
  retained : ℕ
  deriving DecidableEq

def RetentionError.message (error : RetentionError) : String :=
  error.retention.context ++ " retained " ++ toString error.retained ++
    " bytes of partial attached control input; maximum is " ++ toString error.retention.limit

def retainPartialAttachedInput (retention : Retention) (pending : List UInt8) :
    Except RetentionError (List UInt8) :=
  if pending.length ≤ retention.limit then .ok pending else .error ⟨retention, pending.length⟩

/-- Keeps what is undecided. Of a paste that is too long a segment is handed over. -/
def retain : Option (List UInt8 × Retention) → Except RetentionError (List InputItem × List UInt8)
  | none => .ok ([], [])
  | some (tail, .bracketedPaste) =>
    match takeIncompleteBracketedPasteSegment tail maxRetainedAttachedControlInput with
    | some (segment, kept) => do
      let pending ← retainPartialAttachedInput .bracketedPaste kept
      return ([.paste segment], pending)
    | none => do
      let pending ← retainPartialAttachedInput .bracketedPaste tail
      return ([], pending)
  | some (tail, retention) => do
    let pending ← retainPartialAttachedInput retention tail
    return ([], pending)

/-- What the loop makes of a read. -/
def readChunk (state : InputState) (bytes : List UInt8) : Decoding :=
  decodeLoop surface state.last state.pending.length (state.pending ++ bytes)

/-- One read. -/
def feed (state : InputState) (bytes : List UInt8) :
    Except RetentionError (List InputItem × InputState) := do
  let decoding := readChunk surface state bytes
  let (items, pending) ← retain decoding.undecided
  return (decoding.items ++ items, ⟨pending, decoding.last⟩)

/-- One read after the other. -/
def feedAll (state : InputState) :
    List (List UInt8) → Except RetentionError (List InputItem × InputState)
  | [] => .ok ([], state)
  | chunk :: chunks => do
    let (items, state) ← feed surface state chunk
    let (later, state) ← feedAll state chunks
    return (items ++ later, state)

end Rmux.Input
