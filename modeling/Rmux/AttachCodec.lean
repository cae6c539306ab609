import Mathlib.Data.List.Infix
import Rmux.ByteOrder
import Rmux.ExceptLemmas
import Rmux.FrameStream
import Rmux.LayoutMutation
import Rmux.MachineInt
import Rmux.Utf8

/-!
# Messages of an attached client

A message is written as a tag and, if it has contents, their length in four bytes and the contents.
A resize has two numbers of two bytes instead. Slices and drains that would be out of range are
`none`. The serialisation of the structured contents is given by `Codec`.
-/

namespace Rmux

open MachineInt FrameStream List Option

variable {bytes : List UInt8}

/-- The errors of the codecs. -/
inductive WireError
  | frameTooLarge (length maximum : ℕ)
  | emptyFrame
  | badFrameMagic (magic : UInt8)
  | unsupportedWireVersion (got minimum maximum : ℕ)
  | incompleteFrame (expected received : ℕ)
  | encode (text : String)
  | decode (text : String)
deriving DecidableEq

/-- A serialisation whose results are read back. -/
structure Codec (T : Type) where
  serialize : T → Except String (List UInt8)
  deserialize : List UInt8 → Except String T
  deserialize_serialize : ∀ {value bytes}, serialize value = .ok bytes →
    deserialize bytes = .ok value

def defaultMaxFrameLength : ℕ := 1024 * 1024

/-! ## Slices -/

/-- The bytes from `start` up to `stop`. -/
def slice (bytes : List UInt8) (start stop : ℕ) : Option (List UInt8) :=
  if start ≤ stop ∧ stop ≤ bytes.length then some ((bytes.drop start).take (stop - start)) else none

/-- The first `n` bytes taken off. -/
def drain (bytes : List UInt8) (n : ℕ) : Option (List UInt8 × List UInt8) :=
  if n ≤ bytes.length then some (bytes.take n, bytes.drop n) else none

/-- The number in a slice of `width` bytes. -/
def fromLeArray (width : ℕ) (error : String) (bytes : List UInt8) : Except WireError ℕ :=
  if bytes.length = width then .ok (ofLeBytes bytes) else .error (.decode error)

theorem slice_of_le {start stop : ℕ} (h : start ≤ stop) (hsp : stop ≤ bytes.length) :
    slice bytes start stop = some ((bytes.drop start).take (stop - start)) :=
  if_pos ⟨h, hsp⟩

theorem drain_of_le {n : ℕ} (h : n ≤ bytes.length) :
    drain bytes n = some (bytes.take n, bytes.drop n) :=
  if_pos h

/-! ## Messages -/

/-- A key record of a Windows console. -/
structure AttachedWindowsConsoleKey where
  virtualKeyCode : UInt16
  virtualScanCode : UInt16
  unicodeChar : UInt16
  controlKeyState : UInt32
  repeatCount : UInt16
deriving DecidableEq

/-- The bytes of a key, with its console record if there is one. -/
structure AttachedKeystroke where
  bytes : List UInt8
  windowsConsoleKey : Option AttachedWindowsConsoleKey
deriving DecidableEq

/-- A key with its console record. -/
structure AttachedWindowsConsoleKeystroke where
  bytes : List UInt8
  windowsConsoleKey : AttachedWindowsConsoleKey
deriving DecidableEq

def AttachedWindowsConsoleKeystroke.intoKeystroke (k : AttachedWindowsConsoleKeystroke) :
    AttachedKeystroke :=
  ⟨k.bytes, some k.windowsConsoleKey⟩

/-- The answer to a key : how many bytes it had, and whether a binding took it. -/
structure KeyDispatched where
  byteLen : UInt32
  consumed : Bool
deriving DecidableEq

/-- A command to be run in a shell. -/
structure AttachShellCommand where
  command : String
  shell : String
  cwd : String
deriving DecidableEq

/-- The size of a terminal in pixels. -/
structure TerminalPixels where
  width : UInt16
  height : UInt16
deriving DecidableEq

/-- The size of a terminal in cells and, if known, in pixels. -/
structure TerminalGeometry where
  size : TerminalSize
  pixels : Option TerminalPixels
deriving DecidableEq

/-- What a client and the server send each other while the client is attached. -/
inductive AttachMessage
  | data (bytes : List UInt8)
  | render (bytes : List UInt8)
  | keystroke (keystroke : AttachedKeystroke)
  | keyDispatched (response : KeyDispatched)
  | resize (size : TerminalSize)
  | resizeGeometry (geometry : TerminalGeometry)
  | lock (command : String)
  | lockShellCommand (command : AttachShellCommand)
  | unlock
  | suspend
  | detachKill
  | detachExec (command : String)
  | detachExecShellCommand (command : AttachShellCommand)
deriving DecidableEq

/-- The serialisations of structured contents. -/
structure AttachCodecs where
  bytes : Codec (List UInt8)
  windowsConsoleKeystroke : Codec AttachedWindowsConsoleKeystroke
  keyDispatched : Codec KeyDispatched
  geometry : Codec TerminalGeometry
  shellCommand : Codec AttachShellCommand

def dataTag : UInt8 := 1
def resizeTag : UInt8 := 2
def lockTag : UInt8 := 3
def unlockTag : UInt8 := 4
def suspendTag : UInt8 := 5
def detachKillTag : UInt8 := 6
def detachExecTag : UInt8 := 7
def keystrokeTag : UInt8 := 8
def keyDispatchedTag : UInt8 := 9
def lockShellCommandTag : UInt8 := 10
def detachExecShellCommandTag : UInt8 := 11
def resizeGeometryTag : UInt8 := 12
def renderTag : UInt8 := 13
def windowsConsoleKeystrokeTag : UInt8 := 14
def dataHeaderLen : ℕ := 5
def resizeFrameLen : ℕ := 5
def singleTagFrameLen : ℕ := 1

/-! ## Encoding -/

def validateDataLikePayload (bytes : List UInt8) : Except WireError Unit :=
  if bytes.length > defaultMaxFrameLength then
    .error (.frameTooLarge bytes.length defaultMaxFrameLength)
  else .ok ()

def encodeDataLikeMessage (tag : UInt8) (bytes : List UInt8) : Except WireError (List UInt8) := do
  validateDataLikePayload bytes
  if bytes.length > u32Max then .error (.frameTooLarge bytes.length u32Max)
  else .ok (tag :: (leBytes 4 bytes.length ++ bytes))

def encodeStructuredMessage {T : Type} (codec : Codec T) (tag : UInt8) (message : T) :
    Except WireError (List UInt8) :=
  match codec.serialize message with
  | .error error => .error (.encode ("invalid attach structured frame: " ++ error))
  | .ok bytes => encodeDataLikeMessage tag bytes

def encodeResizeMessage (size : TerminalSize) : List UInt8 :=
  resizeTag :: (leBytes 2 size.cols.toNat ++ leBytes 2 size.rows.toNat)

section Codecs

variable (codecs : AttachCodecs)

def encodeKeystrokeMessage (keystroke : AttachedKeystroke) : Except WireError (List UInt8) :=
  match keystroke.windowsConsoleKey with
  | some key => encodeStructuredMessage codecs.windowsConsoleKeystroke windowsConsoleKeystrokeTag
      ⟨keystroke.bytes, key⟩
  | none => encodeStructuredMessage codecs.bytes keystrokeTag keystroke.bytes

def encodeAttachMessage : AttachMessage → Except WireError (List UInt8)
  | .data bytes => encodeDataLikeMessage dataTag bytes
  | .render bytes => encodeDataLikeMessage renderTag bytes
  | .keystroke keystroke => encodeKeystrokeMessage codecs keystroke
  | .keyDispatched response => encodeStructuredMessage codecs.keyDispatched keyDispatchedTag response
  | .resize size => .ok (encodeResizeMessage size)
  | .resizeGeometry geometry => encodeStructuredMessage codecs.geometry resizeGeometryTag geometry
  | .lock command => encodeDataLikeMessage lockTag (textUtf8 command)
  | .lockShellCommand command =>
    encodeStructuredMessage codecs.shellCommand lockShellCommandTag command
  | .unlock => .ok [unlockTag]
  | .suspend => .ok [suspendTag]
  | .detachKill => .ok [detachKillTag]
  | .detachExec command => encodeDataLikeMessage detachExecTag (textUtf8 command)
  | .detachExecShellCommand command =>
    encodeStructuredMessage codecs.shellCommand detachExecShellCommandTag command

end Codecs

/-! ## Decoding -/

/-- What was pushed and not read yet, and the longest contents allowed. -/
structure AttachFrameDecoder where
  maxDataLength : ℕ
  buffer : List UInt8
deriving DecidableEq

/-- What a call of the decoder returns, with the decoder after it. -/
abbrev AttachReturn (T : Type) : Type := Except WireError (Option T) × AttachFrameDecoder

def AttachReturn.map {S T : Type} (f : S → T) (out : AttachReturn S) : AttachReturn T :=
  (out.1.map (Option.map f), out.2)

/-- The contents of a frame as a value. -/
def AttachReturn.decodeStructured {T : Type} (codec : Codec T) :
    AttachReturn (List UInt8) → AttachReturn T
  | (.error error, d) => (.error error, d)
  | (.ok none, d) => (.ok none, d)
  | (.ok (some bytes), d) =>
    match codec.deserialize bytes with
    | .error error => (.error (.decode ("invalid attach structured frame: " ++ error)), d)
    | .ok message => (.ok (some message), d)

namespace AttachFrameDecoder

variable (d : AttachFrameDecoder)

def clear : AttachFrameDecoder := { d with buffer := [] }

/-- The contents' length that the buffer starts with. -/
def headerLength : Option (Except WireError ℕ) :=
  (slice d.buffer 1 dataHeaderLen).map (fromLeArray 4 "invalid attach data header")

def nextDataPayloadInto (scratchLen : ℕ) : Option (AttachReturn (List UInt8)) :=
  if d.buffer.head? ≠ some dataTag then some (.ok none, d)
  else if d.buffer.length < dataHeaderLen then some (.ok none, d)
  else do
    match ← d.headerLength with
    | .error error => some (.error error, d)
    | .ok length =>
      if length > d.maxDataLength then
        some (.error (.frameTooLarge length d.maxDataLength), d.clear)
      else if d.buffer.length < dataHeaderLen + length ∨ length > scratchLen then some (.ok none, d)
      else do
        let bytes ← slice d.buffer dataHeaderLen (dataHeaderLen + length)
        let (_, buffer) ← drain d.buffer (dataHeaderLen + length)
        some (.ok (some bytes), { d with buffer := buffer })

def nextDataMessage : Option (AttachReturn AttachMessage) :=
  if d.buffer.length < dataHeaderLen then some (.ok none, d)
  else do
    match ← d.headerLength with
    | .error error => some (.error error, d)
    | .ok length =>
      if length > d.maxDataLength then
        some (.error (.frameTooLarge length d.maxDataLength), d.clear)
      else if d.buffer.length < dataHeaderLen + length then some (.ok none, d)
      else do
        let (_, buffer) ← drain d.buffer dataHeaderLen
        let (bytes, buffer) ← drain buffer length
        some (.ok (some (.data bytes)), { d with buffer := buffer })

def nextDataLikeMessage (tag : UInt8) : Option (AttachReturn (List UInt8)) :=
  if d.buffer.length < dataHeaderLen then some (.ok none, d)
  else do
    match ← d.headerLength with
    | .error error => some (.error error, d)
    | .ok length =>
      if length > d.maxDataLength then
        some (.error (.frameTooLarge length d.maxDataLength), d.clear)
      else if d.buffer.length < dataHeaderLen + length then some (.ok none, d)
      else do
        let first ← d.buffer[0]?
        if first ≠ tag then some (.error (.decode "invalid attach data-like frame"), d.clear)
        else do
          let (_, buffer) ← drain d.buffer dataHeaderLen
          let (bytes, buffer) ← drain buffer length
          some (.ok (some bytes), { d with buffer := buffer })

def nextStructuredMessage {T : Type} (codec : Codec T) (tag : UInt8) : Option (AttachReturn T) :=
  (d.nextDataLikeMessage tag).map (.decodeStructured codec)

/-- `Unlock`, `Suspend` and `DetachKill`. -/
def nextSingleTagMessage (tag : UInt8) (message : AttachMessage) (error : String) :
    Option (AttachReturn AttachMessage) :=
  if d.buffer.length < singleTagFrameLen then some (.ok none, d)
  else do
    let (frame, buffer) ← drain d.buffer singleTagFrameLen
    let first ← frame[0]?
    if first ≠ tag then some (.error (.decode error), d.clear)
    else some (.ok (some message), { d with buffer := buffer })

def nextResizeMessage : Option (AttachReturn AttachMessage) :=
  if d.buffer.length < resizeFrameLen then some (.ok none, d)
  else do
    let (frame, buffer) ← drain d.buffer resizeFrameLen
    let d := { d with buffer := buffer }
    match fromLeArray 2 "invalid attach resize columns" (← slice frame 1 3) with
    | .error error => some (.error error, d)
    | .ok cols =>
      match fromLeArray 2 "invalid attach resize rows" (← slice frame 3 5) with
      | .error error => some (.error error, d)
      | .ok rows => some (.ok (some (.resize ⟨UInt16.ofNat cols, UInt16.ofNat rows⟩)), d)

def nextRenderMessage : Option (AttachReturn AttachMessage) :=
  (d.nextDataLikeMessage renderTag).map <| .map .render

def nextLockMessage : Option (AttachReturn AttachMessage) :=
  (d.nextDataLikeMessage lockTag).map <| .map fun bytes => .lock (fromUtf8Lossy bytes)

def nextDetachExecMessage : Option (AttachReturn AttachMessage) :=
  (d.nextDataLikeMessage detachExecTag).map <| .map fun bytes => .detachExec (fromUtf8Lossy bytes)

def nextUnlockMessage : Option (AttachReturn AttachMessage) :=
  d.nextSingleTagMessage unlockTag .unlock "invalid attach unlock frame"

def nextSuspendMessage : Option (AttachReturn AttachMessage) :=
  d.nextSingleTagMessage suspendTag .suspend "invalid attach suspend frame"

def nextDetachKillMessage : Option (AttachReturn AttachMessage) :=
  d.nextSingleTagMessage detachKillTag .detachKill "invalid attach detach-kill frame"

variable (codecs : AttachCodecs)

def nextKeystrokeMessage : Option (AttachReturn AttachMessage) :=
  (d.nextStructuredMessage codecs.bytes keystrokeTag).map <| .map
    fun bytes => .keystroke ⟨bytes, none⟩

def nextWindowsConsoleKeystrokeMessage : Option (AttachReturn AttachMessage) :=
  (d.nextStructuredMessage codecs.windowsConsoleKeystroke windowsConsoleKeystrokeTag).map <| .map
    fun keystroke => .keystroke keystroke.intoKeystroke

def nextKeyDispatchedMessage : Option (AttachReturn AttachMessage) :=
  (d.nextStructuredMessage codecs.keyDispatched keyDispatchedTag).map <| .map .keyDispatched

def nextResizeGeometryMessage : Option (AttachReturn AttachMessage) :=
  (d.nextStructuredMessage codecs.geometry resizeGeometryTag).map <| .map .resizeGeometry

def nextLockShellCommandMessage : Option (AttachReturn AttachMessage) :=
  (d.nextStructuredMessage codecs.shellCommand lockShellCommandTag).map <| .map .lockShellCommand

def nextDetachExecShellCommandMessage : Option (AttachReturn AttachMessage) :=
  (d.nextStructuredMessage codecs.shellCommand detachExecShellCommandTag).map <| .map
    .detachExecShellCommand

def nextMessage : Option (AttachReturn AttachMessage) :=
  match d.buffer.head? with
  | none => some (.ok none, d)
  | some tag =>
    if tag = dataTag then d.nextDataMessage
    else if tag = resizeTag then d.nextResizeMessage
    else if tag = lockTag then d.nextLockMessage
    else if tag = unlockTag then d.nextUnlockMessage
    else if tag = suspendTag then d.nextSuspendMessage
    else if tag = detachKillTag then d.nextDetachKillMessage
    else if tag = detachExecTag then d.nextDetachExecMessage
    else if tag = keystrokeTag then d.nextKeystrokeMessage codecs
    else if tag = keyDispatchedTag then d.nextKeyDispatchedMessage codecs
    else if tag = lockShellCommandTag then d.nextLockShellCommandMessage codecs
    else if tag = detachExecShellCommandTag then d.nextDetachExecShellCommandMessage codecs
    else if tag = resizeGeometryTag then d.nextResizeGeometryMessage codecs
    else if tag = renderTag then d.nextRenderMessage
    else if tag = windowsConsoleKeystrokeTag then d.nextWindowsConsoleKeystrokeMessage codecs
    else some (.error (.decode ("unknown attach-stream message tag " ++ toString tag)), d.clear)

end AttachFrameDecoder

/-- The two ways to read, the second with the length of the slice it reads into. -/
inductive AttachRead
  | nextMessage
  | nextDataPayloadInto (scratchLen : ℕ)

def AttachFrameDecoder.read (codecs : AttachCodecs) (d : AttachFrameDecoder) :
    AttachRead → Option (AttachReturn AttachMessage)
  | .nextMessage => d.nextMessage codecs
  | .nextDataPayloadInto scratchLen => (d.nextDataPayloadInto scratchLen).map <| .map .data

/-! ## Reading a frame -/

/-- The frame of a message with contents. -/
def dataFrame (tag : UInt8) (bytes : List UInt8) : List UInt8 :=
  tag :: (leBytes 4 bytes.length ++ bytes)

theorem length_dataFrame (tag : UInt8) (bytes : List UInt8) :
    (dataFrame tag bytes).length = dataHeaderLen + bytes.length := by
  rw [dataFrame, length_cons, length_append, length_leBytes, dataHeaderLen]
  omega

namespace AttachFrameDecoder

variable (d : AttachFrameDecoder)

/-- The number after the tag. -/
def frameLength : ℕ := ofLeBytes ((d.buffer.drop 1).take 4)

variable {d}

theorem headerLength_eq (h : ¬d.buffer.length < dataHeaderLen) :
    d.headerLength = some (.ok d.frameLength) := by
  rw [dataHeaderLen] at h
  have hlen : ((d.buffer.drop 1).take 4).length = 4 := by
    rw [length_take, length_drop]
    omega
  rw [headerLength, dataHeaderLen, slice_of_le (by omega) (by omega), map_some,
    fromLeArray, if_pos hlen, frameLength]

theorem getElem?_zero_buffer (h : ¬d.buffer.length < dataHeaderLen) :
    ∃ first, d.buffer[0]? = some first ∧ d.buffer.head? = some first := by
  cases hbuf : d.buffer with
  | nil => exact absurd (by simp [hbuf, dataHeaderLen]) h
  | cons first rest => exact ⟨first, rfl, rfl⟩

theorem drain_drain {length : ℕ} (h : ¬d.buffer.length < dataHeaderLen + length) :
    drain d.buffer dataHeaderLen =
        some (d.buffer.take dataHeaderLen, d.buffer.drop dataHeaderLen) ∧
      drain (d.buffer.drop dataHeaderLen) length =
        some ((d.buffer.drop dataHeaderLen).take length,
          d.buffer.drop (dataHeaderLen + length)) := by
  constructor
  · exact drain_of_le (by omega)
  · rw [drain_of_le (by rw [length_drop]; omega), drop_drop]

/-- No slice of `nextDataLikeMessage` is out of range. -/
theorem nextDataLikeMessage_eq (tag : UInt8) : d.nextDataLikeMessage tag = some (
      if d.buffer.length < dataHeaderLen then (.ok none, d)
      else if d.frameLength > d.maxDataLength then
        (.error (.frameTooLarge d.frameLength d.maxDataLength), d.clear)
      else if d.buffer.length < dataHeaderLen + d.frameLength then (.ok none, d)
      else if d.buffer.head? ≠ some tag then
        (.error (.decode "invalid attach data-like frame"), d.clear)
      else (.ok (some ((d.buffer.drop dataHeaderLen).take d.frameLength)),
        { d with buffer := d.buffer.drop (dataHeaderLen + d.frameLength) })) := by
  rw [nextDataLikeMessage]
  split_ifs with h hmax hlen htag
  · rfl
  · simp [headerLength_eq h, hmax]
  · simp [headerLength_eq h, hmax, hlen]
  all_goals
    obtain ⟨first, hfst, hhd⟩ := getElem?_zero_buffer h
    obtain ⟨hhdr, hcont⟩ := drain_drain hlen
    rw [hhd, ne_eq, some.injEq] at htag
    simp [headerLength_eq h, hmax, hlen, hfst, htag, hhdr, hcont]

theorem nextDataMessage_eq (h : d.buffer.head? = some dataTag) :
    d.nextDataMessage = (d.nextDataLikeMessage dataTag).map (.map .data) := by
  rw [nextDataLikeMessage_eq, nextDataMessage]
  split_ifs with hhdr hmax hlen htag
  · rfl
  · simp [headerLength_eq hhdr, hmax, AttachReturn.map, Except.map]
  · simp [headerLength_eq hhdr, hmax, hlen, AttachReturn.map, Except.map]
  · exact absurd h htag
  · obtain ⟨hdr, hcont⟩ := drain_drain hlen
    simp [headerLength_eq hhdr, hmax, hlen, hdr, hcont, AttachReturn.map, Except.map]

/-- No slice of `nextDataPayloadInto` is out of range. -/
theorem nextDataPayloadInto_eq (scratchLen : ℕ) : d.nextDataPayloadInto scratchLen = some (
      if d.buffer.head? ≠ some dataTag then (.ok none, d)
      else if d.buffer.length < dataHeaderLen then (.ok none, d)
      else if d.frameLength > d.maxDataLength then
        (.error (.frameTooLarge d.frameLength d.maxDataLength), d.clear)
      else if d.buffer.length < dataHeaderLen + d.frameLength ∨ d.frameLength > scratchLen then
        (.ok none, d)
      else (.ok (some ((d.buffer.drop dataHeaderLen).take d.frameLength)),
        { d with buffer := d.buffer.drop (dataHeaderLen + d.frameLength) })) := by
  rw [nextDataPayloadInto]
  split_ifs with htag h hmax hlen
  · rfl
  · rfl
  · simp [headerLength_eq h, hmax]
  · simp [headerLength_eq h, hmax, hlen]
  · rw [headerLength_eq h]
    have hrequired : dataHeaderLen + d.frameLength ≤ d.buffer.length := by omega
    simp [hmax, hlen, slice_of_le (Nat.le_add_right _ _) hrequired, drain_of_le hrequired]

/-- The number after the tag, in a buffer that holds it and begins like a frame. -/
theorem frameLength_of_beginning {n : ℕ} {contents : List UInt8}
    (h : d.buffer <+: tag :: (leBytes 4 n ++ contents)) (hn : n < 256 ^ 4)
    (hlen : ¬d.buffer.length < dataHeaderLen) : d.frameLength = n := by
  obtain ⟨rest, hr⟩ := h
  rw [dataHeaderLen] at hlen
  have hdp : d.buffer.drop 1 ++ rest = leBytes 4 n ++ contents := by
    rw [← drop_append_of_le_length (by omega), hr, drop_one, tail_cons]
  have htk : (d.buffer.drop 1).take 4 = leBytes 4 n := by
    have h4 : 4 ≤ (d.buffer.drop 1).length := by rw [length_drop]; omega
    rw [← take_append_of_le_length h4, hdp,
      take_append_of_le_length (by rw [length_leBytes]), take_of_length_le]
    rw [length_leBytes]
  rw [frameLength, htk, ofLeBytes_leBytes hn]

variable {tag : UInt8} {bytes rest : List UInt8}

/-- Part of a frame waits. -/
theorem nextDataLikeMessage_partial (hmax : bytes.length ≤ d.maxDataLength)
    (hbs : bytes.length < 256 ^ 4) (hpart : d.buffer <+: dataFrame tag bytes)
    (hne : d.buffer ≠ dataFrame tag bytes) : d.nextDataLikeMessage tag = some (.ok none, d) := by
  have hlt : d.buffer.length < dataHeaderLen + bytes.length := by
    have hlen : d.buffer.length ≠ (dataFrame tag bytes).length :=
      fun h => hne (hpart.eq_of_length h)
    have hle := hpart.length_le
    rw [length_dataFrame] at hle hlen
    omega
  rw [nextDataLikeMessage_eq]
  split_ifs with hhdr hbd hsh htag
  · rfl
  · rw [frameLength_of_beginning hpart hbs hhdr] at hbd
    omega
  · rfl
  all_goals
    rw [frameLength_of_beginning hpart hbs hhdr] at hsh
    exact absurd hlt hsh

theorem frameLength_complete (hbs : bytes.length < 256 ^ 4)
    (hd : d.buffer = dataFrame tag bytes ++ rest) :
    ¬d.buffer.length < dataHeaderLen + bytes.length ∧ d.frameLength = bytes.length := by
  have hlen : ¬d.buffer.length < dataHeaderLen + bytes.length := by
    rw [hd, length_append, length_dataFrame]
    omega
  have hpre : d.buffer <+: tag :: (leBytes 4 bytes.length ++ (bytes ++ rest)) := by
    rw [hd, dataFrame, cons_append, append_assoc]
  exact ⟨hlen, frameLength_of_beginning hpre hbs (by omega)⟩

theorem contents_complete (hd : d.buffer = dataFrame tag bytes ++ rest) :
    (d.buffer.drop dataHeaderLen).take bytes.length = bytes ∧
      d.buffer.drop (dataHeaderLen + bytes.length) = rest := by
  have hdp : d.buffer.drop dataHeaderLen = bytes ++ rest := by
    have hhdr : (tag :: leBytes 4 bytes.length).length = dataHeaderLen := by
      rw [length_cons, length_leBytes, dataHeaderLen]
    rw [hd, dataFrame, ← cons_append, append_assoc, ← hhdr, drop_left]
  rw [← drop_drop, hdp]
  exact ⟨take_left, drop_left⟩

/-- A frame is taken off. -/
theorem nextDataLikeMessage_complete (hmax : bytes.length ≤ d.maxDataLength)
    (hbs : bytes.length < 256 ^ 4) (hd : d.buffer = dataFrame tag bytes ++ rest) :
    d.nextDataLikeMessage tag = some (.ok (some bytes), { d with buffer := rest }) := by
  obtain ⟨hlen, hfr⟩ := frameLength_complete hbs hd
  obtain ⟨htk, hdp⟩ := contents_complete hd
  have htag : d.buffer.head? = some tag := by rw [hd]; rfl
  rw [nextDataLikeMessage_eq, hfr, if_neg (by omega), if_neg (by omega), if_neg hlen,
    if_neg (not_not_intro htag), htk, hdp]

theorem nextDataPayloadInto_of_ne {scratchLen : ℕ} (h : d.buffer.head? ≠ some dataTag) :
    d.nextDataPayloadInto scratchLen = some (.ok none, d) :=
  if_pos h

theorem nextDataPayloadInto_partial {scratchLen : ℕ} (hmax : bytes.length ≤ d.maxDataLength)
    (hbs : bytes.length < 256 ^ 4) (hpart : d.buffer <+: dataFrame dataTag bytes)
    (hne : d.buffer ≠ dataFrame dataTag bytes) :
    d.nextDataPayloadInto scratchLen = some (.ok none, d) := by
  have hwait := nextDataLikeMessage_partial hmax hbs hpart hne
  rw [nextDataLikeMessage_eq] at hwait
  rw [nextDataPayloadInto_eq]
  split_ifs with htag hhdr hbd hsh
  · rfl
  · rfl
  · rw [if_neg hhdr, if_pos hbd] at hwait
    cases hwait
  · rfl
  · rw [if_neg hhdr, if_neg hbd, if_neg (fun h => hsh (.inl h)), if_neg htag] at hwait
    cases hwait

theorem nextDataPayloadInto_complete (scratchLen : ℕ) (hmax : bytes.length ≤ d.maxDataLength)
    (hbs : bytes.length < 256 ^ 4) (hd : d.buffer = dataFrame dataTag bytes ++ rest) :
    d.nextDataPayloadInto scratchLen = if scratchLen < bytes.length then some (.ok none, d)
      else some (.ok (some bytes), { d with buffer := rest }) := by
  obtain ⟨hlen, hfr⟩ := frameLength_complete hbs hd
  obtain ⟨htk, hdp⟩ := contents_complete hd
  have htag : d.buffer.head? = some dataTag := by rw [hd]; rfl
  rw [nextDataPayloadInto_eq, hfr, if_neg (not_not_intro htag), if_neg (by omega),
    if_neg (by omega), htk, hdp]
  by_cases hscr : scratchLen < bytes.length
  · rw [if_pos (.inr hscr), if_pos hscr]
  · rw [if_neg (by omega), if_neg hscr]

end AttachFrameDecoder

/-! ## Messages and their frames -/

/-- How the frame of a message is read by `nextMessage` : as contents that `k` turns into the message,
or at once when its fixed number of bytes is there. -/
inductive ReadAs (codecs : AttachCodecs) (message : AttachMessage) (frame : List UInt8) : Prop
  | contents (tag : UInt8) (bytes : List UInt8)
      (k : AttachReturn (List UInt8) → AttachReturn AttachMessage)
      (hframe : frame = dataFrame tag bytes) (hbytes : bytes.length ≤ defaultMaxFrameLength)
      (hread : ∀ d : AttachFrameDecoder, d.buffer.head? = some tag →
        d.nextMessage codecs = (d.nextDataLikeMessage tag).map k)
      (hwait : ∀ d, k (.ok none, d) = (.ok none, d))
      (hdone : ∀ d, k (.ok (some bytes), d) = (.ok (some message), d))
      (hdata : tag = dataTag ∧ message = .data bytes ∨ tag ≠ dataTag ∧ ∀ data, message ≠ .data data)
  | fixed (tag : UInt8) (rest : List UInt8) (hframe : frame = tag :: rest)
      (hpart : ∀ d : AttachFrameDecoder, d.buffer.head? = some tag → d.buffer.length ≤ rest.length →
        d.nextMessage codecs = some (.ok none, d))
      (hdone : ∀ (d : AttachFrameDecoder) (more : List UInt8), d.buffer = frame ++ more →
        d.nextMessage codecs = some (.ok (some message), { d with buffer := more }))
      (hdata : tag ≠ dataTag ∧ ∀ data, message ≠ .data data)

theorem encodeDataLikeMessage_eq_ok {tag : UInt8} {frame : List UInt8}
    (h : encodeDataLikeMessage tag bytes = .ok frame) :
    frame = dataFrame tag bytes ∧ bytes.length ≤ defaultMaxFrameLength := by
  rw [encodeDataLikeMessage, validateDataLikePayload] at h
  by_cases hmax : bytes.length > defaultMaxFrameLength
  · rw [if_pos hmax] at h
    cases h
  · have hu32 : ¬bytes.length > u32Max := by
      rw [defaultMaxFrameLength] at hmax
      rw [u32Max]
      omega
    rw [if_neg hmax, if_neg hu32] at h
    cases h
    exact ⟨rfl, by omega⟩

theorem encodeStructuredMessage_eq_ok {T : Type} {codec : Codec T} {tag : UInt8} {message : T}
    {frame : List UInt8} (h : encodeStructuredMessage codec tag message = .ok frame) :
    ∃ bytes, codec.serialize message = .ok bytes ∧ frame = dataFrame tag bytes ∧
      bytes.length ≤ defaultMaxFrameLength := by
  rw [encodeStructuredMessage] at h
  cases hbs : codec.serialize message with
  | error error => rw [hbs] at h; cases h
  | ok bytes =>
    rw [hbs] at h
    exact ⟨bytes, rfl, encodeDataLikeMessage_eq_ok h⟩

section Kinds

variable {codecs : AttachCodecs} {tag : UInt8} {frame : List UInt8} {message : AttachMessage}

theorem ReadAs.dataLike {f : List UInt8 → AttachMessage} {bytes : List UInt8}
    (h : encodeDataLikeMessage tag bytes = .ok frame) (hf : f bytes = message)
    (hrd : ∀ d : AttachFrameDecoder, d.buffer.head? = some tag →
      d.nextMessage codecs = (d.nextDataLikeMessage tag).map (.map f) := by
        intro d hd; rw [AttachFrameDecoder.nextMessage, hd]; rfl)
    (hdata : tag = dataTag ∧ message = .data bytes ∨ tag ≠ dataTag ∧
      ∀ data, message ≠ .data data := by exact .inr ⟨by decide, by simp⟩) :
    ReadAs codecs message frame := by
  obtain ⟨hfr, hbs⟩ := encodeDataLikeMessage_eq_ok h
  exact .contents tag bytes (.map f) hfr hbs hrd (fun _ => rfl)
    (fun d => by rw [AttachReturn.map, ← hf]; rfl) hdata

theorem ReadAs.structured {T : Type} {codec : Codec T} {v : T} {f : T → AttachMessage}
    (h : encodeStructuredMessage codec tag v = .ok frame) (hf : f v = message)
    (hrd : ∀ d : AttachFrameDecoder, d.buffer.head? = some tag →
      d.nextMessage codecs = (d.nextStructuredMessage codec tag).map (.map f) := by
        intro d hd; rw [AttachFrameDecoder.nextMessage, hd]; rfl)
    (hdata : tag ≠ dataTag ∧ ∀ data, message ≠ .data data := by exact ⟨by decide, by simp⟩) :
    ReadAs codecs message frame := by
  obtain ⟨bytes, hserialize, hfr, hbs⟩ := encodeStructuredMessage_eq_ok h
  have hrnd := codec.deserialize_serialize hserialize
  refine .contents tag bytes (fun out => (out.decodeStructured codec).map f) hfr hbs
    (fun d hd => ?_) (fun _ => rfl) (fun _ => ?_) (.inr hdata)
  · exact (hrd d hd).trans (map_map _ _ _)
  · rw [AttachReturn.decodeStructured, hrnd, ← hf]
    rfl

theorem ReadAs.singleTag (error : String)
    (hrd : ∀ d : AttachFrameDecoder, d.buffer.head? = some tag →
      d.nextMessage codecs = d.nextSingleTagMessage tag message error := by
        intro d hd; rw [AttachFrameDecoder.nextMessage, hd]; rfl)
    (hdata : tag ≠ dataTag ∧ ∀ data, message ≠ .data data := by exact ⟨by decide, by simp⟩) :
    ReadAs codecs message [tag] := by
  refine .fixed tag [] rfl (fun d hd hsh => ?_) (fun d more hd => ?_) hdata
  · rw [length_nil, Nat.le_zero, length_eq_zero_iff] at hsh
    rw [hsh] at hd
    cases hd
  · have hlen : ¬d.buffer.length < singleTagFrameLen := by
      rw [hd, singleTagFrameLen]
      simp
    rw [hrd d (by rw [hd]; rfl), AttachFrameDecoder.nextSingleTagMessage, if_neg hlen,
      drain_of_le (by omega), hd]
    simp [singleTagFrameLen]

theorem nextResizeMessage_complete {d : AttachFrameDecoder} {size : TerminalSize}
    {more : List UInt8} (hd : d.buffer = encodeResizeMessage size ++ more) :
    d.nextResizeMessage = some (.ok (some (.resize size)), { d with buffer := more }) := by
  have hcols : ofLeBytes (leBytes 2 size.cols.toNat) = size.cols.toNat :=
    ofLeBytes_leBytes size.cols.toNat_lt
  have hrw : ofLeBytes (leBytes 2 size.rows.toNat) = size.rows.toNat :=
    ofLeBytes_leBytes size.rows.toNat_lt
  have hlen : ¬d.buffer.length < resizeFrameLen := by
    rw [hd, length_append, resizeFrameLen]
    simp [encodeResizeMessage]
  have hdr : drain d.buffer resizeFrameLen = some (encodeResizeMessage size, more) := by
    rw [drain_of_le (by omega), hd]
    rfl
  have hslices : slice (encodeResizeMessage size) 1 3 = some (leBytes 2 size.cols.toNat) ∧
      slice (encodeResizeMessage size) 3 5 = some (leBytes 2 size.rows.toNat) := ⟨rfl, rfl⟩
  rw [AttachFrameDecoder.nextResizeMessage, if_neg hlen, hdr]
  simp [hslices, fromLeArray, hcols, hrw]

theorem ReadAs.resize (size : TerminalSize) :
    ReadAs codecs (.resize size) (encodeResizeMessage size) := by
  have hrd : ∀ d : AttachFrameDecoder, d.buffer.head? = some resizeTag →
      d.nextMessage codecs = d.nextResizeMessage := by
    intro d hd
    rw [AttachFrameDecoder.nextMessage, hd]
    rfl
  refine .fixed resizeTag _ rfl (fun d hd hsh => ?_) (fun d more hd => ?_) ⟨by decide, by simp⟩
  · rw [length_append, length_leBytes, length_leBytes] at hsh
    rw [hrd d hd]
    exact if_pos (by rw [resizeFrameLen]; omega)
  · rw [hrd d (by rw [hd]; rfl), nextResizeMessage_complete hd]

theorem readAs_of_encode (h : encodeAttachMessage codecs message = .ok frame) :
    ReadAs codecs message frame := by
  cases message with
  | data bytes =>
    refine .dataLike h rfl (fun d hd => ?_) (.inl ⟨rfl, rfl⟩)
    rw [← AttachFrameDecoder.nextDataMessage_eq hd, AttachFrameDecoder.nextMessage, hd]
    rfl
  | render bytes => exact .dataLike h rfl
  | keystroke keystroke =>
    rw [encodeAttachMessage, encodeKeystrokeMessage] at h
    cases hkey : keystroke.windowsConsoleKey with
    | none =>
      rw [hkey] at h
      exact .structured (f := fun bytes => .keystroke ⟨bytes, none⟩) h (by rw [← hkey])
    | some key =>
      rw [hkey] at h
      exact .structured (f := fun keystroke => .keystroke keystroke.intoKeystroke) h
        (by rw [AttachedWindowsConsoleKeystroke.intoKeystroke, ← hkey])
  | keyDispatched response => exact .structured h rfl
  | resize size =>
    cases h
    exact .resize size
  | resizeGeometry geometry => exact .structured h rfl
  | lock command =>
    exact .dataLike (f := fun bytes => .lock (fromUtf8Lossy bytes)) h
      (by rw [fromUtf8Lossy_textUtf8])
  | lockShellCommand command => exact .structured h rfl
  | unlock =>
    cases h
    exact .singleTag "invalid attach unlock frame"
  | suspend =>
    cases h
    exact .singleTag "invalid attach suspend frame"
  | detachKill =>
    cases h
    exact .singleTag "invalid attach detach-kill frame"
  | detachExec command =>
    exact .dataLike (f := fun bytes => .detachExec (fromUtf8Lossy bytes)) h
      (by rw [fromUtf8Lossy_textUtf8])
  | detachExecShellCommand command => exact .structured h rfl

end Kinds

/-! ## The stream -/

/-- The messages that a read leaves in the buffer when their frame is complete. -/
def AttachRead.passes : AttachRead → AttachMessage → Prop
  | .nextMessage, _ => False
  | .nextDataPayloadInto scratchLen, .data bytes => scratchLen < bytes.length
  | .nextDataPayloadInto _, _ => True

/-- A read of a decoder with the default limit, on a buffer. -/
def readBuffer (codecs : AttachCodecs) (r : AttachRead) (buffer : List UInt8) :
    Option (Except WireError (Option AttachMessage) × List UInt8) :=
  (AttachFrameDecoder.read codecs ⟨defaultMaxFrameLength, buffer⟩ r).map
    fun out => (out.1, out.2.buffer)

theorem head?_of_prefix {b f : List UInt8} (h : b <+: f) (hb : b ≠ []) : b.head? = f.head? := by
  obtain ⟨rest, rfl⟩ := h
  rw [head?_append_of_ne_nil _ hb]

section Stream

variable {codecs : AttachCodecs} {message : AttachMessage} {frame b : List UInt8}

theorem length_lt_of_le {bytes : List UInt8} (h : bytes.length ≤ defaultMaxFrameLength) :
    bytes.length < 256 ^ 4 := by
  rw [defaultMaxFrameLength] at h
  omega

theorem ReadAs.ne_nil (h : ReadAs codecs message frame) : frame ≠ [] := by
  cases h with
  | contents tag bytes k hfr | fixed tag rest hfr => rw [hfr]; exact cons_ne_nil _ _

theorem readBuffer_nil (codecs : AttachCodecs) (r : AttachRead) :
    readBuffer codecs r [] = some (.ok none, []) := by
  cases r <;> rfl

/-- A slice is only filled with data. -/
theorem readBuffer_of_head {scratchLen : ℕ} (h : b.head? ≠ some dataTag) :
    readBuffer codecs (.nextDataPayloadInto scratchLen) b = some (.ok none, b) := by
  rw [readBuffer, AttachFrameDecoder.read, AttachFrameDecoder.nextDataPayloadInto_of_ne h]
  rfl

theorem ReadAs.read_unfinished (h : ReadAs codecs message frame) (r : AttachRead) (hb : b <+: frame)
    (hne : b ≠ frame) : readBuffer codecs r b = some (.ok none, b) := by
  by_cases hnil : b = []
  · rw [hnil, readBuffer_nil]
  have hhd := head?_of_prefix hb hnil
  cases h with
  | contents tag bytes k hfr hbs hrd hwait hdone hdata =>
    rw [hfr] at hb hne hhd
    have h256 := length_lt_of_le hbs
    cases r with
    | nextMessage =>
      rw [readBuffer, AttachFrameDecoder.read, hrd ⟨_, b⟩ hhd,
        AttachFrameDecoder.nextDataLikeMessage_partial hbs h256 hb hne, map_some, hwait]
      rfl
    | nextDataPayloadInto scratchLen =>
      rcases hdata with ⟨rfl, -⟩ | ⟨htag, -⟩
      · rw [readBuffer, AttachFrameDecoder.read,
          AttachFrameDecoder.nextDataPayloadInto_partial hbs h256 hb hne]
        rfl
      · exact readBuffer_of_head (by rw [hhd]; exact fun h => htag (some.inj h))
  | fixed tag rest hfr hpart hdone hdata =>
    have hlen : b.length ≤ rest.length := by
      have hlt : b.length ≠ frame.length := fun h => hne (hb.eq_of_length h)
      have hle := hb.length_le
      rw [hfr, length_cons] at hlt hle
      omega
    rw [hfr] at hhd
    cases r with
    | nextMessage =>
      rw [readBuffer, AttachFrameDecoder.read, hpart ⟨_, b⟩ hhd hlen]
      rfl
    | nextDataPayloadInto scratchLen =>
      exact readBuffer_of_head (by rw [hhd]; exact fun h => hdata.1 (some.inj h))

theorem ReadAs.nextMessage_complete (h : ReadAs codecs message frame) (rest : List UInt8) :
    readBuffer codecs .nextMessage (frame ++ rest) = some (.ok (some message), rest) := by
  cases h with
  | contents tag bytes k hfr hbs hrd hwait hdone hdata =>
    rw [readBuffer, AttachFrameDecoder.read, hrd ⟨_, frame ++ rest⟩ (by rw [hfr]; rfl),
      AttachFrameDecoder.nextDataLikeMessage_complete hbs (length_lt_of_le hbs)
        (by rw [hfr]), map_some, hdone]
    rfl
  | fixed tag tail hfr hpart hdone hdata =>
    rw [readBuffer, AttachFrameDecoder.read, hdone ⟨_, frame ++ rest⟩ rest rfl]
    rfl

theorem passes_of_ne {scratchLen : ℕ} (h : ∀ data, message ≠ .data data) :
    (AttachRead.nextDataPayloadInto scratchLen).passes message := by
  cases message with
  | data bytes => exact absurd rfl (h bytes)
  | _ => trivial

theorem ReadAs.nextDataPayloadInto_complete (h : ReadAs codecs message frame) (scratchLen : ℕ)
    (rest : List UInt8) : (AttachRead.nextDataPayloadInto scratchLen).passes message ∧
        readBuffer codecs (.nextDataPayloadInto scratchLen) (frame ++ rest) =
          some (.ok none, frame ++ rest) ∨
      ¬(AttachRead.nextDataPayloadInto scratchLen).passes message ∧
        readBuffer codecs (.nextDataPayloadInto scratchLen) (frame ++ rest) =
          some (.ok (some message), rest) := by
  cases h with
  | contents tag bytes k hfr hbs hrd hwait hdone hdata =>
    rcases hdata with ⟨rfl, rfl⟩ | ⟨htag, hmsg⟩
    · have hcomplete := AttachFrameDecoder.nextDataPayloadInto_complete scratchLen
        (d := ⟨defaultMaxFrameLength, frame ++ rest⟩) hbs (length_lt_of_le hbs)
        (by rw [hfr])
      rw [readBuffer, AttachFrameDecoder.read, hcomplete]
      by_cases hscr : scratchLen < bytes.length
      · rw [if_pos hscr]
        exact .inl ⟨hscr, rfl⟩
      · rw [if_neg hscr]
        exact .inr ⟨hscr, rfl⟩
    · refine .inl ⟨passes_of_ne hmsg, readBuffer_of_head ?_⟩
      rw [hfr]
      exact fun h => htag (some.inj h)
  | fixed tag tail hfr hpart hdone hdata =>
    refine .inl ⟨passes_of_ne hdata.2, readBuffer_of_head ?_⟩
    rw [hfr]
    exact fun h => hdata.1 (some.inj h)

/-- The frames of an attached client's messages. -/
def attachFraming (codecs : AttachCodecs) : Framing UInt8 AttachMessage WireError AttachRead where
  frame message := (encodeAttachMessage codecs message).toOption
  read := readBuffer codecs
  passes := AttachRead.passes
  frame_ne_nil h := (readAs_of_encode (Except.toOption_eq_some_iff.mp h)).ne_nil
  read_nil := readBuffer_nil codecs
  read_unfinished r h hb hne :=
    (readAs_of_encode (Except.toOption_eq_some_iff.mp h)).read_unfinished r hb hne
  read_passed := by
    intro m f r h hpasses rest
    have hread := readAs_of_encode (Except.toOption_eq_some_iff.mp h)
    cases r with
    | nextMessage => exact hpasses.elim
    | nextDataPayloadInto scratchLen =>
      rcases hread.nextDataPayloadInto_complete scratchLen rest with ⟨-, hpass⟩ | ⟨hnot, -⟩
      · exact hpass
      · exact absurd hpasses hnot
  read_complete := by
    intro m f r h hpasses rest
    have hread := readAs_of_encode (Except.toOption_eq_some_iff.mp h)
    cases r with
    | nextMessage => exact hread.nextMessage_complete rest
    | nextDataPayloadInto scratchLen =>
      rcases hread.nextDataPayloadInto_complete scratchLen rest with ⟨hpass, -⟩ | ⟨-, htaken⟩
      · exact absurd hpass hpasses
      · exact htaken

end Stream

/-! ## Arbitrary bytes -/

/-- The call is carried out. An error leaves an empty buffer, except that of structured contents. -/
def AttachFrameDecoder.Safe {T : Type} (d : AttachFrameDecoder) (call : Option (AttachReturn T)) :
    Prop :=
  ∃ out, call = some out ∧ out.2.maxDataLength = d.maxDataLength ∧
    ∀ error, out.1 = .error error →
      (∃ text, error = .decode ("invalid attach structured frame: " ++ text)) ∨ out.2.buffer = []

namespace AttachFrameDecoder

variable {d : AttachFrameDecoder}

theorem Safe.ok {T : Type} {r : Option T} {buffer : List UInt8} :
    d.Safe (some (.ok r, { d with buffer := buffer })) :=
  ⟨_, rfl, rfl, fun _ h => by cases h⟩

theorem Safe.cleared {T : Type} {error : WireError} :
    d.Safe (T := T) (some (.error error, d.clear)) :=
  ⟨_, rfl, rfl, fun _ _ => .inr rfl⟩

theorem Safe.map {S T : Type} {c : Option (AttachReturn S)} (h : d.Safe c) (f : S → T) :
    d.Safe (c.map (.map f)) := by
  obtain ⟨⟨r, d'⟩, rfl, hmax, herror⟩ := h
  refine ⟨_, rfl, hmax, fun error h => herror error ?_⟩
  cases r with
  | error error' => cases h; rfl
  | ok message => cases h

theorem Safe.ite {T : Type} {p : Prop} [Decidable p] {c c' : Option (AttachReturn T)}
    (h : p → d.Safe c) (h' : d.Safe c') : d.Safe (if p then c else c') := by
  split_ifs with hp
  · exact h hp
  · exact h'

theorem safe_nextDataLikeMessage (tag : UInt8) : d.Safe (d.nextDataLikeMessage tag) := by
  rw [nextDataLikeMessage_eq]
  split_ifs
  · exact .ok
  · exact .cleared
  · exact .ok
  · exact .cleared
  · exact .ok

theorem safe_nextStructuredMessage {T : Type} (codec : Codec T) (tag : UInt8) :
    d.Safe (d.nextStructuredMessage codec tag) := by
  rw [nextStructuredMessage]
  obtain ⟨⟨r, d'⟩, heq, hmax, herror⟩ := safe_nextDataLikeMessage tag
  rw [heq]
  match r with
  | .error error => exact ⟨_, rfl, hmax, fun _ h => herror _ (by cases h; rfl)⟩
  | .ok none => exact ⟨_, rfl, hmax, fun _ h => by cases h⟩
  | .ok (some bytes) =>
    rw [map_some, AttachReturn.decodeStructured]
    cases codec.deserialize bytes with
    | error text => exact ⟨_, rfl, hmax, fun _ h => .inl ⟨text, by cases h; rfl⟩⟩
    | ok message => exact ⟨_, rfl, hmax, fun _ h => by cases h⟩

theorem safe_nextSingleTagMessage (tag : UInt8) (message : AttachMessage) (error : String) :
    d.Safe (d.nextSingleTagMessage tag message error) := by
  rw [nextSingleTagMessage]
  split_ifs with hsh
  · exact .ok
  · rw [drain_of_le (by omega)]
    obtain ⟨first, rest, hbuf⟩ : ∃ first rest, d.buffer = first :: rest :=
      exists_cons_of_length_pos (by rw [singleTagFrameLen] at hsh; omega)
    rw [hbuf, singleTagFrameLen]
    simp only [bind_eq_bind, bind_some, take_succ_cons, getElem?_cons_zero]
    split_ifs
    · exact .cleared
    · exact .ok

theorem safe_nextResizeMessage : d.Safe d.nextResizeMessage := by
  rw [nextResizeMessage]
  split_ifs with hsh
  · exact .ok
  · rw [resizeFrameLen] at hsh ⊢
    have hlen : (d.buffer.take 5).length = 5 := by rw [length_take]; omega
    have hcols : (((d.buffer.take 5).drop 1).take (3 - 1)).length = 2 := by
      rw [length_take, length_drop]
      omega
    have hrw : (((d.buffer.take 5).drop 3).take (5 - 3)).length = 2 := by
      rw [length_take, length_drop]
      omega
    rw [drain_of_le (by omega)]
    simp only [bind_eq_bind, bind_some, slice_of_le (show 1 ≤ 3 by omega)
      (show 3 ≤ (d.buffer.take 5).length by omega), slice_of_le (show 3 ≤ 5 by omega)
      hlen.ge, fromLeArray, hcols, hrw, if_true]
    exact .ok

theorem safe_nextDataPayloadInto (scratchLen : ℕ) : d.Safe (d.nextDataPayloadInto scratchLen) := by
  rw [nextDataPayloadInto_eq]
  split_ifs
  · exact .ok
  · exact .ok
  · exact .cleared
  · exact .ok
  · exact .ok

/-- One case for each tag. -/
theorem safe_nextMessage (codecs : AttachCodecs) : d.Safe (d.nextMessage codecs) := by
  rw [nextMessage]
  cases hhd : d.buffer.head? with
  | none => exact .ok
  | some tag =>
    have hdata : tag = dataTag → d.Safe d.nextDataMessage := fun htag => by
      rw [nextDataMessage_eq (by rw [hhd, htag])]
      exact (safe_nextDataLikeMessage _).map _
    exact .ite hdata <| .ite (fun _ => safe_nextResizeMessage) <|
      .ite (fun _ => (safe_nextDataLikeMessage _).map _) <|
      .ite (fun _ => safe_nextSingleTagMessage _ _ _) <|
      .ite (fun _ => safe_nextSingleTagMessage _ _ _) <|
      .ite (fun _ => safe_nextSingleTagMessage _ _ _) <|
      .ite (fun _ => (safe_nextDataLikeMessage _).map _) <|
      .ite (fun _ => (safe_nextStructuredMessage _ _).map _) <|
      .ite (fun _ => (safe_nextStructuredMessage _ _).map _) <|
      .ite (fun _ => (safe_nextStructuredMessage _ _).map _) <|
      .ite (fun _ => (safe_nextStructuredMessage _ _).map _) <|
      .ite (fun _ => (safe_nextStructuredMessage _ _).map _) <|
      .ite (fun _ => (safe_nextDataLikeMessage _).map _) <|
      .ite (fun _ => (safe_nextStructuredMessage _ _).map _) .cleared

theorem safe_read (codecs : AttachCodecs) (r : AttachRead) : d.Safe (d.read codecs r) := by
  cases r with
  | nextMessage => exact safe_nextMessage codecs
  | nextDataPayloadInto scratchLen => exact (safe_nextDataPayloadInto scratchLen).map _

end AttachFrameDecoder

end Rmux
