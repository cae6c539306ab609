import Rmux.AttachCodec

/-!
# Frames of detached requests

A request or response is sent as a magic byte, the wire version as a varint, the length of its
payload in four bytes and the payload. The decoder clears its buffer on every error but one : an
empty frame is taken off alone. `wire_reassembles` is about both decoders.
-/

namespace Rmux

open MachineInt FrameStream List Option

def defaultMaxDetachedFrameLength : ℕ := 8 * defaultMaxFrameLength

def rmuxFrameMagic : UInt8 := 0x52

def rmuxWireVersion : UInt32 := 8

/-- The supported versions, from the first to the second. -/
def supportedWireVersion : ℕ × ℕ := (rmuxWireVersion.toNat, rmuxWireVersion.toNat)

/-! ## Varints -/

/-- Groups of seven bits, the lowest first. All but the last have the high bit. -/
def varintGroups : ℕ → ℕ → List UInt8
  | 0, _ => []
  | k + 1, value =>
    if value / 128 ≠ 0 then UInt8.ofNat (value % 128 + 128) :: varintGroups k (value / 128)
    else [UInt8.ofNat (value % 128)]

-- 2 ^ 32 is below 128 ^ 5, so that the loop ends within five groups
def encodeVarintU32 (value : UInt32) : List UInt8 := varintGroups 5 value.toNat

/-- The loop of `decodeVarintU32` over at most five bytes, of `total`. -/
def decodeVarintFrom (total : ℕ) : ℕ → ℕ → List UInt8 → Except WireError (Option (ℕ × ℕ))
  | index, value, byte :: bytes =>
    if index = 5 then .error (.decode "wire-version varint exceeds u32 length")
    else
      let payload := (byte &&& 0x7f).toNat
      if index = 4 ∧ payload > 0x0f then .error (.decode "wire-version varint overflows u32")
      else
        let value := value ||| payload <<< (7 * index)
        if byte &&& 0x80 = 0 then
          if index > 0 ∧ payload = 0 then
            .error (.decode "wire-version varint is not minimally encoded")
          else .ok (some (value, index + 1))
        else decodeVarintFrom total (index + 1) value bytes
  | _, _, [] =>
    if total < 5 then .ok none else .error (.decode "wire-version varint exceeds u32 length")

def decodeVarintU32 (bytes : List UInt8) : Except WireError (Option (ℕ × ℕ)) :=
  decodeVarintFrom bytes.length 0 0 bytes

/-! ## Encoding and decoding -/

section Codec

variable {T : Type} (codec : Codec T)

def encodeFrame (value : T) : Except WireError (List UInt8) :=
  match codec.serialize value with
  | .error error => .error (.encode error)
  | .ok payload =>
    if payload.isEmpty then .error .emptyFrame
    else if payload.length > defaultMaxDetachedFrameLength then
      .error (.frameTooLarge payload.length defaultMaxDetachedFrameLength)
    else if payload.length > u32Max then .error (.frameTooLarge payload.length u32Max)
    else .ok (rmuxFrameMagic :: (encodeVarintU32 rmuxWireVersion ++
      (leBytes 4 payload.length ++ payload)))

def ensureSupportedVersion (version : ℕ) : Except WireError Unit :=
  if supportedWireVersion.1 ≤ version ∧ version ≤ supportedWireVersion.2 then .ok ()
  else .error (.unsupportedWireVersion version supportedWireVersion.1 supportedWireVersion.2)

def frameLength (buffer : List UInt8) : Except WireError ℕ :=
  match slice buffer 0 4 with
  | none => .error (.incompleteFrame 4 buffer.length)
  | some header =>
    if header.length = 4 then .ok (ofLeBytes header)
    else .error (.incompleteFrame 4 buffer.length)

def decodePayload (payload : List UInt8) : Except WireError T :=
  match codec.deserialize payload with
  | .error error => .error (.decode error)
  | .ok value => .ok value

/-- What was pushed and not read yet, and the longest payload allowed. -/
structure FrameDecoder where
  maxFrameLength : ℕ
  buffer : List UInt8
deriving DecidableEq

namespace FrameDecoder

variable (d : FrameDecoder)

def clear : FrameDecoder := { d with buffer := [] }

/-- What a call returns, with the decoder after it. -/
abbrev Return (T : Type) : Type := Except WireError (Option T) × FrameDecoder

/-- The payload of `length` bytes after the header. -/
def nextPayload (headerStart length : ℕ) : Option (Return T) :=
  if d.buffer.length < headerStart + 4 + length then some (.ok none, d)
  else do
    match decodePayload codec (← slice d.buffer (headerStart + 4) (headerStart + 4 + length)) with
    | .error (.decode error) => some (.error (.decode error), d.clear)
    | .error error => some (.error error, d)
    | .ok decoded =>
      let (_, buffer) ← drain d.buffer (headerStart + 4 + length)
      some (.ok (some decoded), { d with buffer := buffer })

/-- The length and the payload after the version. -/
def nextVersioned (headerStart : ℕ) : Option (Return T) :=
  if d.buffer.length < headerStart + 4 then some (.ok none, d)
  else do
    match frameLength (← slice d.buffer headerStart d.buffer.length) with
    | .error error => some (.error error, d)
    | .ok length =>
      if length = 0 then do
        let (_, buffer) ← drain d.buffer (headerStart + 4)
        some (.error .emptyFrame, { d with buffer := buffer })
      else if length > d.maxFrameLength then
        some (.error (.frameTooLarge length d.maxFrameLength), d.clear)
      else d.nextPayload codec headerStart length

def nextFrame : Option (Return T) :=
  if d.buffer.isEmpty then some (.ok none, d)
  else do
    let magic ← d.buffer[0]?
    if magic ≠ rmuxFrameMagic then some (.error (.badFrameMagic magic), d.clear)
    else
      match decodeVarintU32 (← slice d.buffer 1 d.buffer.length) with
      | .error error => some (.error error, d.clear)
      | .ok none => some (.ok none, d)
      | .ok (some (version, versionLen)) =>
        match ensureSupportedVersion version with
        | .error error => some (.error error, d.clear)
        | .ok () => d.nextVersioned codec (1 + versionLen)

end FrameDecoder

end Codec

/-! ## Reading a frame -/

section Reading

variable {T : Type} {codec : Codec T} {d : FrameDecoder}

theorem frameLength_eq {b : List UInt8} (h : 4 ≤ b.length) :
    frameLength b = .ok (ofLeBytes (b.take 4)) := by
  rw [frameLength, slice_of_le (Nat.zero_le _) h]
  simp [h]

namespace FrameDecoder

/-- What no error but that of an empty frame leaves in the buffer. -/
def ClearedOnError (out : Return T) : Prop :=
  ∀ error, out.1 = .error error → error = .emptyFrame ∨ out.2.buffer = []

theorem nextPayload_total (codec : Codec T) (d : FrameDecoder) (headerStart length : ℕ) :
    ∃ out, d.nextPayload codec headerStart length = some out ∧
      out.2.maxFrameLength = d.maxFrameLength ∧ ClearedOnError out := by
  rw [nextPayload]
  split_ifs with hsh
  · exact ⟨_, rfl, rfl, fun _ h => by cases h⟩
  · rw [slice_of_le (by omega) (by omega), drain_of_le (by omega)]
    simp only [bind_eq_bind, bind_some, decodePayload]
    cases codec.deserialize ((d.buffer.drop (headerStart + 4)).take
        (headerStart + 4 + length - (headerStart + 4))) with
    | error error => exact ⟨_, rfl, rfl, fun _ _ => .inr rfl⟩
    | ok value => exact ⟨_, rfl, rfl, fun _ h => by cases h⟩

theorem nextVersioned_total (codec : Codec T) (d : FrameDecoder) (headerStart : ℕ) :
    ∃ out, d.nextVersioned codec headerStart = some out ∧
      out.2.maxFrameLength = d.maxFrameLength ∧ ClearedOnError out := by
  rw [nextVersioned]
  split_ifs with hsh
  · exact ⟨_, rfl, rfl, fun _ h => by cases h⟩
  · have hlen : 4 ≤ ((d.buffer.drop headerStart).take (d.buffer.length - headerStart)).length := by
      rw [length_take, length_drop]
      omega
    rw [slice_of_le (by omega) le_rfl, drain_of_le (by omega)]
    simp only [bind_eq_bind, bind_some, frameLength_eq hlen]
    split_ifs with hz hmax
    · exact ⟨_, rfl, rfl, fun _ h => by cases h; exact .inl rfl⟩
    · exact ⟨_, rfl, rfl, fun _ _ => .inr rfl⟩
    · exact nextPayload_total codec d _ _

/-- No slice of `nextFrame` is out of range. -/
theorem nextFrame_total (codec : Codec T) (d : FrameDecoder) : ∃ out, d.nextFrame codec = some out ∧
      out.2.maxFrameLength = d.maxFrameLength ∧ ClearedOnError out := by
  rw [nextFrame]
  cases hbuf : d.buffer with
  | nil => exact ⟨_, rfl, rfl, fun _ h => by cases h⟩
  | cons magic bs =>
    rw [slice_of_le (by rw [length_cons]; omega) le_rfl]
    simp only [isEmpty_cons, Bool.false_eq_true, if_false, getElem?_cons_zero,
      bind_eq_bind, bind_some]
    split_ifs with hmagic
    · exact ⟨_, rfl, rfl, fun _ _ => .inr rfl⟩
    · split
      · exact ⟨_, rfl, rfl, fun _ _ => .inr rfl⟩
      · exact ⟨_, rfl, rfl, fun _ h => by cases h⟩
      · split
        · exact ⟨_, rfl, rfl, fun _ _ => .inr rfl⟩
        · exact nextVersioned_total codec d _

/-- Behind a supported version the length and the payload are read. -/
theorem nextFrame_versioned (hd : d.buffer = rmuxFrameMagic :: 8 :: rest) :
    d.nextFrame codec = d.nextVersioned codec 2 := by
  have hsl : slice d.buffer 1 d.buffer.length = some (8 :: rest) := by
    rw [slice_of_le (by rw [hd, length_cons]; omega) le_rfl, hd]
    simp
  rw [nextFrame, hsl, hd]
  rfl

variable {payload rest : List UInt8}

/-- The frame of a payload. -/
def payloadFrame (payload : List UInt8) : List UInt8 :=
  rmuxFrameMagic :: 8 :: (leBytes 4 payload.length ++ payload)

theorem length_payloadFrame (payload : List UInt8) :
    (payloadFrame payload).length = 6 + payload.length := by
  simp only [payloadFrame, length_cons, length_append, length_leBytes]
  omega

variable {contents : List UInt8}

/-- The length in a buffer that holds it and begins like a frame. -/
theorem frameLength_of_prefix {n : ℕ} (hn : n < 256 ^ 4)
    (h : d.buffer <+: rmuxFrameMagic :: 8 :: (leBytes 4 n ++ contents))
    (hlen : ¬d.buffer.length < 2 + 4) :
    frameLength ((d.buffer.drop 2).take (d.buffer.length - 2)) = .ok n := by
  obtain ⟨rest, hr⟩ := h
  have hdp : d.buffer.drop 2 ++ rest = leBytes 4 n ++ contents := by
    rw [← drop_append_of_le_length (by omega), hr]
    rfl
  have hdlength : 4 ≤ (d.buffer.drop 2).length := by rw [length_drop]; omega
  have htk : (d.buffer.drop 2).take 4 = leBytes 4 n := by
    rw [← take_append_of_le_length hdlength, hdp,
      take_append_of_le_length (by rw [length_leBytes]), take_of_length_le]
    rw [length_leBytes]
  rw [take_of_length_le (by rw [length_drop]), frameLength_eq hdlength, htk, ofLeBytes_leBytes hn]

/-- With a length that is not refused the payload is next. -/
theorem nextVersioned_of_prefix {n : ℕ} (hmax : n ≤ d.maxFrameLength)
    (hpos : n ≠ 0) (hn : n < 256 ^ 4)
    (h : d.buffer <+: rmuxFrameMagic :: 8 :: (leBytes 4 n ++ contents)) : d.nextVersioned codec 2 =
      if d.buffer.length < 2 + 4 then some (.ok none, d) else d.nextPayload codec 2 n := by
  rw [nextVersioned]
  split_ifs with hlen
  · rfl
  · rw [slice_of_le (by omega) le_rfl]
    simp only [bind_eq_bind, bind_some, frameLength_of_prefix hn h hlen]
    rw [if_neg hpos, if_neg (by omega)]

theorem nextFrame_partial (hmax : payload.length ≤ d.maxFrameLength) (hpos : payload.length ≠ 0)
    (hbs : payload.length < 256 ^ 4) (hpart : d.buffer <+: payloadFrame payload)
    (hne : d.buffer ≠ payloadFrame payload) : d.nextFrame codec = some (.ok none, d) := by
  have hlt : d.buffer.length < 6 + payload.length := by
    have hlen : d.buffer.length ≠ (payloadFrame payload).length :=
      fun h => hne (hpart.eq_of_length h)
    have hle := hpart.length_le
    rw [length_payloadFrame] at hle hlen
    omega
  obtain ⟨more, hmore⟩ := hpart
  match hbuf : d.buffer with
  | [] => rw [nextFrame, hbuf]; rfl
  | [magic] =>
    rw [hbuf] at hmore
    obtain ⟨rfl, -⟩ := cons.inj hmore
    rw [nextFrame, hbuf]
    rfl
  | magic :: version :: rest =>
    have hpts := hmore
    rw [hbuf] at hpts
    obtain ⟨rfl, htail⟩ := cons.inj hpts
    obtain ⟨rfl, -⟩ := cons.inj htail
    rw [nextFrame_versioned hbuf, nextVersioned_of_prefix hmax hpos hbs ⟨more, hmore⟩]
    split_ifs with hlen
    · rfl
    · exact if_pos (by omega)

theorem nextFrame_complete {v : T} (hmax : payload.length ≤ d.maxFrameLength)
    (hpos : payload.length ≠ 0) (hbs : payload.length < 256 ^ 4)
    (hval : codec.deserialize payload = .ok v) (hd : d.buffer = payloadFrame payload ++ rest) :
    d.nextFrame codec = some (.ok (some v), { d with buffer := rest }) := by
  have hlen : ¬d.buffer.length < 2 + 4 + payload.length := by
    rw [hd, length_append, length_payloadFrame]
    omega
  have hpre : d.buffer <+:
      rmuxFrameMagic :: 8 :: (leBytes 4 payload.length ++ (payload ++ rest)) := by
    rw [hd, payloadFrame, cons_append, cons_append, append_assoc]
  have hdp : d.buffer.drop (2 + 4) = payload ++ rest := by
    have hhdr : (rmuxFrameMagic :: 8 :: leBytes 4 payload.length).length = 2 + 4 := by
      rw [length_cons, length_cons, length_leBytes]
    rw [hd, payloadFrame, ← cons_append, ← cons_append, append_assoc, ← hhdr, drop_left]
  have hpay : slice d.buffer (2 + 4) (2 + 4 + payload.length) = some payload := by
    rw [slice_of_le (by omega) (by omega), hdp, Nat.add_sub_cancel_left, take_left]
  have hdr : d.buffer.drop (2 + 4 + payload.length) = rest := by
    rw [← drop_drop, hdp, drop_left]
  have hst : d.buffer = rmuxFrameMagic :: 8 :: (leBytes 4 payload.length ++ payload ++ rest) := by
    rw [hd]
    rfl
  rw [nextFrame_versioned hst, nextVersioned_of_prefix hmax hpos hbs hpre,
    if_neg (by omega), nextPayload, if_neg hlen, hpay, drain_of_le (by omega), hdr]
  simp [decodePayload, hval]

end FrameDecoder

theorem encodeFrame_eq_ok {v : T} {f : List UInt8} (h : encodeFrame codec v = .ok f) :
    ∃ payload, codec.serialize v = .ok payload ∧ f = FrameDecoder.payloadFrame payload ∧
      payload.length ≠ 0 ∧ payload.length ≤ defaultMaxDetachedFrameLength := by
  rw [encodeFrame] at h
  cases hpay : codec.serialize v with
  | error error => rw [hpay] at h; cases h
  | ok payload =>
    rw [hpay] at h
    simp only at h
    split_ifs at h with hemp hmax
    cases h
    refine ⟨payload, rfl, rfl, fun hz => hemp ?_, by omega⟩
    rw [length_eq_zero_iff.mp hz]
    rfl

/-- A read of a decoder with the default limit, on a buffer. -/
def readFrame (codec : Codec T) (_ : Unit) (buffer : List UInt8) :
    Option (Except WireError (Option T) × List UInt8) :=
  (FrameDecoder.nextFrame codec ⟨defaultMaxDetachedFrameLength, buffer⟩).map
    fun out => (out.1, out.2.buffer)

theorem detached_lt {payload : List UInt8} (h : payload.length ≤ defaultMaxDetachedFrameLength) :
    payload.length < 256 ^ 4 := by
  rw [defaultMaxDetachedFrameLength, defaultMaxFrameLength] at h
  omega

/-- The frames of detached requests. -/
def detachedFraming (codec : Codec T) : Framing UInt8 T WireError Unit where
  frame value := (encodeFrame codec value).toOption
  read := readFrame codec
  passes _ _ := False
  frame_ne_nil h := by
    obtain ⟨payload, -, rfl, -⟩ := encodeFrame_eq_ok (Except.toOption_eq_some_iff.mp h)
    exact List.cons_ne_nil _ _
  read_nil _ := rfl
  read_unfinished r h hb hne := by
    obtain ⟨payload, -, rfl, hpos, hmax⟩ := encodeFrame_eq_ok (Except.toOption_eq_some_iff.mp h)
    rw [readFrame, FrameDecoder.nextFrame_partial hmax hpos (detached_lt hmax) hb hne]
    rfl
  read_passed _ hpasses := hpasses.elim
  read_complete h _ rest := by
    obtain ⟨payload, hvalue, rfl, hpos, hmax⟩ :=
      encodeFrame_eq_ok (Except.toOption_eq_some_iff.mp h)
    rw [readFrame, FrameDecoder.nextFrame_complete hmax hpos (detached_lt hmax)
      (codec.deserialize_serialize hvalue) rfl]
    rfl

end Reading

/-! ## Both streams -/

/-- Messages that are encoded come back in order, however their frames are cut into pushes and
whenever and with whatever read they are read. For any bytes and any limits every call is carried out,
and an error leaves an empty buffer, except that of structured contents or of an empty frame. -/
theorem wire_reassembles (codecs : AttachCodecs) {T : Type} (codec : Codec T) :
    (∀ (messages : List AttachMessage) (frames : List (List UInt8)) (ops : List (Op UInt8 AttachRead)),
      List.Forall₂ (fun m f => encodeAttachMessage codecs m = .ok f) messages frames →
      pushed ops <+: frames.flatten →
      ∃ st n, (attachFraming codecs).run ⟨[], []⟩ ops = some st ∧
        (attachFraming codecs).Reassembled messages frames ops st n) ∧
    (∀ (values : List T) (frames : List (List UInt8)) (ops : List (Op UInt8 Unit)),
      List.Forall₂ (fun v f => encodeFrame codec v = .ok f) values frames →
      pushed ops <+: frames.flatten →
      ∃ st n, (detachedFraming codec).run ⟨[], []⟩ ops = some st ∧
        (detachedFraming codec).Reassembled values frames ops st n) ∧
    (∀ (d : AttachFrameDecoder) (r : AttachRead), ∃ out, d.read codecs r = some out ∧
      out.2.maxDataLength = d.maxDataLength ∧ ∀ error, out.1 = .error error →
        (∃ text, error = .decode ("invalid attach structured frame: " ++ text)) ∨
          out.2.buffer = []) ∧
    ∀ d : FrameDecoder, ∃ out, d.nextFrame codec = some out ∧
      out.2.maxFrameLength = d.maxFrameLength ∧ ∀ error, out.1 = .error error →
        error = .emptyFrame ∨ out.2.buffer = [] := by
  refine ⟨fun messages frames ops hframes hpushed => ?_, fun values frames ops hframes hpushed => ?_,
    fun d r => AttachFrameDecoder.safe_read codecs r, FrameDecoder.nextFrame_total codec⟩
  · exact Framing.reassembles (hframes.imp fun _ _ h => Except.toOption_eq_some_iff.mpr h) hpushed
  · exact Framing.reassembles (hframes.imp fun _ _ h => Except.toOption_eq_some_iff.mpr h) hpushed

/-- Bytes behind their length. -/
def sizedCodec : Codec (List UInt8) where
  serialize bytes := .ok (leBytes 8 bytes.length ++ bytes)
  deserialize bytes :=
    if bytes.take 8 = leBytes 8 (bytes.drop 8).length then .ok (bytes.drop 8)
    else .error "invalid length"
  deserialize_serialize h := by
    obtain rfl := Except.ok.inj h
    rw [take_left' (length_leBytes ..), drop_left' (length_leBytes ..), if_pos rfl]

/-- Nothing is serialised. -/
def noCodec (T : Type) : Codec T where
  serialize _ := .error "unsupported"
  deserialize _ := .error "unsupported"
  deserialize_serialize h := by cases h

/-- Keystrokes only. -/
def keystrokeCodecs : AttachCodecs :=
  ⟨sizedCodec, noCodec _, noCodec _, noCodec _, noCodec _⟩

/-- A keystroke and data, cut in the length of the first and read into slices that are too small for
the data. -/
theorem wire_reassembles_cut :
    let keystroke := [8, 10, 0, 0, 0, 2, 0, 0, 0, 0, 0, 0, 0, 65, 66]
    let ops := [.push (keystroke.take 3), .read .nextMessage,
      .push (keystroke.drop 3 ++ [1, 1, 0, 0, 0, 67, 4]), .read (.nextDataPayloadInto 0),
      .read .nextMessage, .read (.nextDataPayloadInto 0)]
    ∃ st n, (attachFraming keystrokeCodecs).run ⟨[], []⟩ ops = some st ∧
      (attachFraming keystrokeCodecs).Reassembled
        [.keystroke ⟨[65, 66], none⟩, .data [67], .unlock]
        [keystroke, [1, 1, 0, 0, 0, 67], [4]] ops st n :=
  (wire_reassembles keystrokeCodecs sizedCodec).1 _ _ _
    (.cons rfl (.cons rfl (.cons rfl .nil))) (by decide)

end Rmux
