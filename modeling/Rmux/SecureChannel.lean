import Mathlib.Data.List.Infix
import Mathlib.Data.List.Nodup
import Mathlib.Logic.Function.Basic
import Rmux.ByteOrder
import Rmux.MachineInt
import Rmux.Utf8

/-!
# The encrypted channel

A record is the byte `0xE0`, its sequence number and a ciphertext. The opener takes the record with
the number it expects only, and counts it once it is authenticated.

Both sides and an attacker form an `Exchange`, and `Unforged` is the assumption on the cipher. What
an opener lets through is then the beginning of what was sealed in its direction
(`channel_delivers_prefix`).
-/

namespace Rmux

open MachineInt List Option

/-- Why a record is not sealed or opened. -/
inductive CryptoError
  | decrypt
  | outOfOrder
  | sequenceExhausted
  | malformedFrame
  | emptyPlaintext
  | unknownKind (kind : UInt8)
  | invalidUtf8
deriving DecidableEq

/-- Authenticated encryption with a key, a nonce and a header. Encryption gives a ciphertext and a
tag, decryption takes the one followed by the other. -/
structure Cipher (Key : Type) where
  encrypt : Key → List UInt8 → List UInt8 → List UInt8 → Option (List UInt8 × List UInt8)
  decrypt : Key → List UInt8 → List UInt8 → List UInt8 → Option (List UInt8)
  decrypt_encrypt : ∀ {key nonce header plaintext ciphertext tag},
    encrypt key nonce header plaintext = some (ciphertext, tag) →
    decrypt key nonce header (ciphertext ++ tag) = some plaintext

/-- The cipher was given this key, nonce, header and plaintext, and `output` came out. -/
def Cipher.Encrypts {Key : Type} (cipher : Cipher Key) (key : Key)
    (nonce header plaintext output : List UInt8) : Prop :=
  ∃ ciphertext tag, cipher.encrypt key nonce header plaintext = some (ciphertext, tag) ∧
    output = ciphertext ++ tag

/-! ## Records -/

def encryptedFrame : UInt8 := 0xE0

def headerLen : ℕ := 1 + 8

def tagLen : ℕ := 16

def minFrameLen : ℕ := headerLen + tagLen

def makeNonce (noncePrefix : List UInt8) (seq : ℕ) : List UInt8 := noncePrefix ++ beBytes 8 seq

def makeHeader (seq : ℕ) : List UInt8 := encryptedFrame :: beBytes 8 seq

/-- The key of a direction and the number of the next record. -/
structure RecordSealer (Key : Type) where
  key : Key
  noncePrefix : List UInt8
  nextSeq : ℕ

/-- The key of a direction and the number of the record it takes next. -/
structure RecordOpener (Key : Type) where
  key : Key
  noncePrefix : List UInt8
  nextSeq : ℕ

/-- The length of the parts together, if a `usize` holds it. -/
def plaintextLen (parts : List (List UInt8)) : Option ℕ :=
  parts.foldlM (fun len part => if len + part.length < 2 ^ 64 then some (len + part.length) else none)
    0

section Records

variable {Key : Type} (cipher : Cipher Key)

/-- Append the frame to `dst`. If encryption fails the header and the plaintext are left there. -/
def RecordSealer.sealPartsInto (s : RecordSealer Key) (parts : List (List UInt8))
    (dst : List UInt8) : Except CryptoError Unit × RecordSealer Key × List UInt8 :=
  if s.nextSeq = u64Max then (.error .sequenceExhausted, s, dst)
  else
    match plaintextLen parts with
    | none => (.error .sequenceExhausted, s, dst)
    | some _ =>
      let header := makeHeader s.nextSeq
      let nonce := makeNonce s.noncePrefix s.nextSeq
      match cipher.encrypt s.key nonce header parts.flatten with
      | none => (.error .decrypt, s, dst ++ header ++ parts.flatten)
      | some (ciphertext, tag) =>
        (.ok (), { s with nextSeq := s.nextSeq + 1 }, dst ++ header ++ ciphertext ++ tag)

def RecordOpener.openFrame (o : RecordOpener Key) (frame : List UInt8) :
    Except CryptoError (List UInt8) × RecordOpener Key :=
  if frame.length < minFrameLen ∨ frame.head? ≠ some encryptedFrame then (.error .malformedFrame, o)
  else
    let header := frame.take headerLen
    let seq := ofBeBytes (header.drop 1)
    if seq ≠ o.nextSeq then (.error .outOfOrder, o)
    else if o.nextSeq = u64Max then (.error .sequenceExhausted, o)
    else
      match cipher.decrypt o.key (makeNonce o.noncePrefix seq) header (frame.drop headerLen) with
      | none => (.error .decrypt, o)
      | some plaintext => (.ok plaintext, { o with nextSeq := o.nextSeq + 1 })

/-! ## Messages -/

/-- A message of the channel. -/
inductive Message
  | text (text : String)
  | binary (body : List UInt8)
deriving DecidableEq

def kindText : UInt8 := 0x00

def kindBinary : UInt8 := 0x01

/-- A sealer of messages. -/
structure Sealer (Key : Type) where
  inner : RecordSealer Key

/-- An opener of messages. -/
structure Opener (Key : Type) where
  inner : RecordOpener Key

def Sealer.sealInto (s : Sealer Key) (kind : UInt8) (body dst : List UInt8) :
    Except CryptoError Unit × Sealer Key × List UInt8 :=
  let (result, inner, dst) := s.inner.sealPartsInto cipher [[kind], body] dst
  (result, ⟨inner⟩, dst)

def Sealer.sealText (s : Sealer Key) (text : String) :
    Except CryptoError (List UInt8) × Sealer Key :=
  let (result, s, frame) := s.sealInto cipher kindText (textUtf8 text) []
  (result.map fun _ => frame, s)

def Sealer.sealBinary (s : Sealer Key) (body : List UInt8) :
    Except CryptoError (List UInt8) × Sealer Key :=
  let (result, s, frame) := s.sealInto cipher kindBinary body []
  (result.map fun _ => frame, s)

/-- What the plaintext of a record says. -/
def readMessage : List UInt8 → Except CryptoError Message
  | [] => .error .emptyPlaintext
  | kind :: body =>
    if kind = kindText then
      match fromUtf8 body with
      | none => .error .invalidUtf8
      | some text => .ok (.text text)
    else if kind = kindBinary then .ok (.binary body)
    else .error (.unknownKind kind)

/-- The record counts as received even if its plaintext is no message. -/
def Opener.openFrame (o : Opener Key) (frame : List UInt8) :
    Except CryptoError Message × Opener Key :=
  let (plaintext, inner) := o.inner.openFrame cipher frame
  (plaintext.bind readMessage, ⟨inner⟩)

end Records

/-! ## Sessions -/

/-- The two sides. -/
inductive Side
  | client
  | server
deriving DecidableEq

def Side.peer : Side → Side
  | .client => .server
  | .server => .client

/-- The keys and nonce prefixes of both directions. -/
structure SessionKeys (Key : Type) where
  c2sKey : Key
  s2cKey : Key
  c2sNoncePrefix : List UInt8
  s2cNoncePrefix : List UInt8

def SessionKeys.intoClient {Key : Type} (keys : SessionKeys Key) :
    RecordSealer Key × RecordOpener Key :=
  (⟨keys.c2sKey, keys.c2sNoncePrefix, 0⟩, ⟨keys.s2cKey, keys.s2cNoncePrefix, 0⟩)

def SessionKeys.intoServer {Key : Type} (keys : SessionKeys Key) :
    RecordSealer Key × RecordOpener Key :=
  (⟨keys.s2cKey, keys.s2cNoncePrefix, 0⟩, ⟨keys.c2sKey, keys.c2sNoncePrefix, 0⟩)

/-- The sealer and the opener of a side. -/
structure Endpoint (Key : Type) where
  sealer : Sealer Key
  opener : Opener Key

/-- A message that was sealed, with the key and the nonce of its sealer, and what came out. That the
cipher was given these is part of `channel_delivers_prefix`. -/
structure Sealing (Key : Type) where
  side : Side
  message : Message
  key : Key
  nonce : List UInt8
  header : List UInt8
  ciphertext : List UInt8

def Sealing.frame {Key : Type} (s : Sealing Key) : List UInt8 := s.header ++ s.ciphertext

/-- A frame that was accepted, and the message in it. -/
structure Opening where
  side : Side
  message : Message
  frame : List UInt8

/-- Both sides, everything that was sealed and everything that was opened. -/
structure Exchange (Key : Type) where
  endpoint : Side → Endpoint Key
  sealings : List (Sealing Key)
  openings : List Opening

/-- What the attacker lets happen : a side seals a message, or any frame is presented to a side. -/
inductive ChannelEvent
  | send (side : Side) (message : Message)
  | present (side : Side) (frame : List UInt8)

section Exchange

variable {Key : Type} (cipher : Cipher Key)

def Sealer.sealMessage (s : Sealer Key) : Message → Except CryptoError (List UInt8) × Sealer Key
  | .text text => s.sealText cipher text
  | .binary body => s.sealBinary cipher body

namespace Exchange

def new (keys : SessionKeys Key) : Exchange Key where
  endpoint
    | .client => ⟨⟨keys.intoClient.1⟩, ⟨keys.intoClient.2⟩⟩
    | .server => ⟨⟨keys.intoServer.1⟩, ⟨keys.intoServer.2⟩⟩
  sealings := []
  openings := []

def step (x : Exchange Key) : ChannelEvent → Exchange Key
  | .send side message =>
    let e := x.endpoint side
    let s := e.sealer.inner
    let (result, sealer) := e.sealer.sealMessage cipher message
    { x with
      endpoint := Function.update x.endpoint side { e with sealer := sealer }
      sealings := x.sealings ++
        match result with
        | .ok frame => [⟨side, message, s.key, makeNonce s.noncePrefix s.nextSeq,
            frame.take headerLen, frame.drop headerLen⟩]
        | .error _ => [] }
  | .present side frame =>
    let e := x.endpoint side
    let (result, opener) := e.opener.openFrame cipher frame
    { x with
      endpoint := Function.update x.endpoint side { e with opener := opener }
      openings := x.openings ++
        match result with
        | .ok message => [⟨side, message, frame⟩]
        | .error _ => [] }

def run (x : Exchange Key) (events : List ChannelEvent) : Exchange Key :=
  events.foldl (step cipher) x

/-- What is decrypted in this event was encrypted before, with the same key, nonce and header. -/
def Genuine (x : Exchange Key) : ChannelEvent → Prop
  | .send _ _ => True
  | .present side frame =>
    let o := (x.endpoint side).opener.inner
    (o.openFrame cipher frame).1.toOption.isSome →
      ∃ s ∈ x.sealings, s.key = o.key ∧ s.nonce = makeNonce o.noncePrefix o.nextSeq ∧
        s.header = frame.take headerLen ∧ s.ciphertext = frame.drop headerLen

instance [DecidableEq Key] (x : Exchange Key) (e : ChannelEvent) : Decidable (x.Genuine cipher e) :=
  match e with
  | .send _ _ => .isTrue trivial
  | .present _ frame =>
    inferInstanceAs (Decidable ((RecordOpener.openFrame cipher _ frame).1.toOption.isSome → _))

/-- The cipher is not broken in these events. -/
def Unforged (x : Exchange Key) : List ChannelEvent → Prop
  | [] => True
  | e :: events => x.Genuine cipher e ∧ (x.step cipher e).Unforged events

instance decidableUnforged [DecidableEq Key] : ∀ (events : List ChannelEvent) (x : Exchange Key),
    Decidable (x.Unforged cipher events)
  | [], _ => .isTrue trivial
  | e :: events, x =>
    haveI : Decidable ((x.step cipher e).Unforged cipher events) :=
      decidableUnforged events (x.step cipher e)
    inferInstanceAs (Decidable (x.Genuine cipher e ∧ (x.step cipher e).Unforged cipher events))

def sealingsOf (x : Exchange Key) (side : Side) : List (Sealing Key) :=
  x.sealings.filter fun s => s.side = side

def openingsOf (x : Exchange Key) (side : Side) : List Opening :=
  x.openings.filter fun o => o.side = side

end Exchange

end Exchange

/-! ## What one call does -/

/-- The plaintext of the record of a message. -/
def Message.plaintext : Message → List UInt8
  | .text content => kindText :: textUtf8 content
  | .binary body => kindBinary :: body

theorem readMessage_plaintext (m : Message) : readMessage m.plaintext = .ok m := by
  cases m with
  | text text => simp [Message.plaintext, readMessage, fromUtf8_textUtf8]
  | binary body => simp [Message.plaintext, readMessage, kindText, kindBinary]

section Calls

variable {Key : Type} (cipher : Cipher Key)

/-- What a record that was sealed is. -/
structure RecordSealer.Sealed (s : RecordSealer Key) (plaintext : List UInt8)
    (frame : List UInt8) (s' : RecordSealer Key) : Prop where
  notExhausted : s.nextSeq ≠ u64Max
  next : s' = { s with nextSeq := s.nextSeq + 1 }
  header : frame.take headerLen = makeHeader s.nextSeq
  encrypts : cipher.Encrypts s.key (makeNonce s.noncePrefix s.nextSeq) (makeHeader s.nextSeq)
    plaintext (frame.drop headerLen)

theorem length_makeHeader (seq : ℕ) : (makeHeader seq).length = headerLen := by
  rw [makeHeader, length_cons, length_beBytes]
  rfl

theorem RecordSealer.sealPartsInto_cases (s : RecordSealer Key) (parts : List (List UInt8)) :
    (∃ e dst, s.sealPartsInto cipher parts [] = (.error e, s, dst) ∧
      (s.nextSeq = u64Max → e = .sequenceExhausted)) ∨
    ∃ s' f, s.sealPartsInto cipher parts [] = (.ok (), s', f) ∧
      s.Sealed cipher parts.flatten f s' := by
  unfold RecordSealer.sealPartsInto
  split_ifs with hmax
  · exact .inl ⟨_, _, rfl, fun _ => rfl⟩
  · cases plaintextLen parts with
    | none => exact .inl ⟨_, _, rfl, fun _ => rfl⟩
    | some len =>
      cases hencrypt : cipher.encrypt s.key (makeNonce s.noncePrefix s.nextSeq)
          (makeHeader s.nextSeq) parts.flatten with
      | none =>
        refine .inl ⟨.decrypt, [] ++ makeHeader s.nextSeq ++ parts.flatten, ?_,
          fun h => absurd h hmax⟩
        dsimp only
        rw [hencrypt]
      | some output =>
        obtain ⟨ciphertext, tag⟩ := output
        refine .inr ⟨_, makeHeader s.nextSeq ++ (ciphertext ++ tag), ?_, hmax, rfl, ?_, ?_⟩
        · dsimp only
          rw [hencrypt]
          simp
        · rw [← length_makeHeader s.nextSeq, take_left]
        · rw [← length_makeHeader s.nextSeq, drop_left]
          exact ⟨ciphertext, tag, hencrypt, rfl⟩

theorem Sealer.sealMessage_cases (s : Sealer Key) (m : Message) :
    (∃ e, s.sealMessage cipher m = (.error e, s) ∧
      (s.inner.nextSeq = u64Max → e = .sequenceExhausted)) ∨
    ∃ s' f, s.sealMessage cipher m = (.ok f, s') ∧
      s.inner.Sealed cipher m.plaintext f s'.inner := by
  obtain ⟨kind, body, hpl, hseal⟩ : ∃ kind body, [[kind], body].flatten = m.plaintext ∧
      s.sealMessage cipher m =
        let (result, s, f) := s.sealInto cipher kind body []
        (result.map fun _ => f, s) := by
    cases m with
    | text text => exact ⟨kindText, textUtf8 text, by simp [Message.plaintext], rfl⟩
    | binary body => exact ⟨kindBinary, body, by simp [Message.plaintext], rfl⟩
  rcases s.inner.sealPartsInto_cases cipher [[kind], body] with
    ⟨e, dst, h, he⟩ | ⟨s', f, h, hsealed⟩
  · exact .inl ⟨e, by simp [hseal, sealInto, h, Except.map], he⟩
  · rw [hpl] at hsealed
    exact .inr ⟨⟨s'⟩, f, by simp [hseal, sealInto, h, Except.map], hsealed⟩

/-- A record is counted if and only if it has the expected number and is decrypted. -/
theorem RecordOpener.openFrame_cases (o : RecordOpener Key) (f : List UInt8) :
    (∃ e, o.openFrame cipher f = (.error e, o)) ∨
    ∃ plaintext, o.openFrame cipher f = (.ok plaintext, { o with nextSeq := o.nextSeq + 1 }) ∧
      cipher.decrypt o.key (makeNonce o.noncePrefix o.nextSeq) (f.take headerLen)
        (f.drop headerLen) = some plaintext := by
  unfold RecordOpener.openFrame
  dsimp only
  split_ifs with hmalformed horder hmax
  · exact .inl ⟨_, rfl⟩
  · exact .inl ⟨_, rfl⟩
  · exact .inl ⟨_, rfl⟩
  · rw [not_not] at horder
    rw [horder]
    cases hdecr : cipher.decrypt o.key (makeNonce o.noncePrefix o.nextSeq)
        (f.take headerLen) (f.drop headerLen) with
    | none => exact .inl ⟨_, rfl⟩
    | some plaintext => exact .inr ⟨plaintext, rfl, rfl⟩

theorem Opener.openFrame_cases (o : Opener Key) (f : List UInt8) :
    (∃ e, o.openFrame cipher f = (.error e, o)) ∨
    ∃ plaintext, o.openFrame cipher f =
        (readMessage plaintext, ⟨{ o.inner with nextSeq := o.inner.nextSeq + 1 }⟩) ∧
      (o.inner.openFrame cipher f).1 = .ok plaintext ∧
      cipher.decrypt o.inner.key (makeNonce o.inner.noncePrefix o.inner.nextSeq)
        (f.take headerLen) (f.drop headerLen) = some plaintext := by
  rcases o.inner.openFrame_cases cipher f with ⟨e, h⟩ | ⟨plaintext, h, hdecr⟩
  · exact .inl ⟨e, by simp [Opener.openFrame, h, Except.bind]⟩
  · exact .inr ⟨plaintext, by simp [Opener.openFrame, h, Except.bind], by rw [h], hdecr⟩

end Calls

/-! ## The invariant -/

def SessionKeys.key {Key : Type} (keys : SessionKeys Key) : Side → Key
  | .client => keys.c2sKey
  | .server => keys.s2cKey

def SessionKeys.noncePrefix {Key : Type} (keys : SessionKeys Key) : Side → List UInt8
  | .client => keys.c2sNoncePrefix
  | .server => keys.s2cNoncePrefix

namespace Exchange

variable {Key : Type} (cipher : Cipher Key) (keys : SessionKeys Key)

/-- The `i`-th record of a direction. -/
structure IsRecord (side : Side) (i : ℕ) (s : Sealing Key) : Prop where
  key : s.key = keys.key side
  nonce : s.nonce = makeNonce (keys.noncePrefix side) i
  header : s.header = makeHeader i
  encrypts : cipher.Encrypts s.key s.nonce s.header s.message.plaintext s.ciphertext

/-- The counters of a direction, and what they count. -/
structure Tied (x : Exchange Key) : Prop where
  sealer : ∀ side, (x.endpoint side).sealer.inner =
    ⟨keys.key side, keys.noncePrefix side, (x.sealingsOf side).length⟩
  opener : ∀ side, (x.endpoint side).opener.inner =
    ⟨keys.key side.peer, keys.noncePrefix side.peer, (x.openingsOf side).length⟩
  bounded : ∀ side, (x.sealingsOf side).length ≤ u64Max
  records : ∀ side i s, (x.sealingsOf side)[i]? = some s → IsRecord cipher keys side i s
  opened : ∀ side, (x.openingsOf side).map (fun o => (o.message, o.frame)) <+:
    (x.sealingsOf side.peer).map fun s => (s.message, s.frame)

theorem tied_new : (new keys).Tied cipher keys where
  sealer side := by cases side <;> rfl
  opener side := by cases side <;> rfl
  bounded _ := Nat.zero_le _
  records _ _ _ h := by simp [new, sealingsOf] at h
  opened _ := nil_prefix

/-- A sealing is a record of its side. -/
theorem Tied.record {x : Exchange Key} (h : x.Tied cipher keys) {s : Sealing Key}
    (hs : s ∈ x.sealings) :
    ∃ i, (x.sealingsOf s.side)[i]? = some s ∧ IsRecord cipher keys s.side i s := by
  have hmem : s ∈ x.sealingsOf s.side := mem_filter.mpr ⟨hs, by simp⟩
  obtain ⟨i, hi⟩ := mem_iff_getElem?.mp hmem
  exact ⟨i, hi, h.records _ _ _ hi⟩

omit cipher in
/-- The directions have different keys. -/
theorem key_inj {keys : SessionKeys Key} (hkeys : keys.c2sKey ≠ keys.s2cKey) {side side' : Side}
    (h : keys.key side = keys.key side') : side = side' := by
  revert h
  cases side <;> cases side' <;> simp [SessionKeys.key, hkeys, hkeys.symm]

theorem makeNonce_inj {noncePrefix : List UInt8} {m n : ℕ} (hm : m ≤ u64Max) (hn : n ≤ u64Max)
    (h : makeNonce noncePrefix m = makeNonce noncePrefix n) : m = n := by
  have hmax : u64Max < 256 ^ 8 := by decide
  exact beBytes_inj (by omega) (by omega) (append_cancel_left h)

theorem isPrefix_concat {α : Type} {xs ys : List α} {y : α} (h : xs <+: ys)
    (hy : ys[xs.length]? = some y) : xs ++ [y] <+: ys := by
  obtain ⟨zs, rfl⟩ := h
  cases zs with
  | nil => simp at hy
  | cons z zs =>
    rw [getElem?_append_right le_rfl, Nat.sub_self] at hy
    obtain rfl := some.inj hy
    exact ⟨zs, by simp⟩

/-! ## One event -/

/-- A record more, and the sealer after it. -/
def addSealing (x : Exchange Key) (sealer : Sealer Key) (s : Sealing Key) : Exchange Key where
  endpoint := Function.update x.endpoint s.side { x.endpoint s.side with sealer := sealer }
  sealings := x.sealings ++ [s]
  openings := x.openings

/-- A frame more that was accepted, and the opener after it. -/
def addOpening (x : Exchange Key) (opener : Opener Key) (o : Opening) : Exchange Key where
  endpoint := Function.update x.endpoint o.side { x.endpoint o.side with opener := opener }
  sealings := x.sealings
  openings := x.openings ++ [o]

section Step

variable {cipher keys} {x : Exchange Key} {sealer : Sealer Key} {opener : Opener Key}
  {s : Sealing Key} {o : Opening} {side : Side}

theorem sealingsOf_addSealing_self :
    (x.addSealing sealer s).sealingsOf s.side = x.sealingsOf s.side ++ [s] := by
  simp [addSealing, sealingsOf]

theorem sealingsOf_addSealing_of_ne (h : side ≠ s.side) :
    (x.addSealing sealer s).sealingsOf side = x.sealingsOf side := by
  simp [addSealing, sealingsOf, h.symm]

theorem sealer_addSealing_self : ((x.addSealing sealer s).endpoint s.side).sealer = sealer := by
  simp [addSealing]

theorem sealer_addSealing_of_ne (h : side ≠ s.side) :
    ((x.addSealing sealer s).endpoint side).sealer = (x.endpoint side).sealer := by
  simp [addSealing, h]

theorem opener_addSealing (side : Side) :
    ((x.addSealing sealer s).endpoint side).opener = (x.endpoint side).opener := by
  by_cases h : side = s.side
  · simp [addSealing, h]
  · simp [addSealing, h]

theorem openingsOf_addOpening_self :
    (x.addOpening opener o).openingsOf o.side = x.openingsOf o.side ++ [o] := by
  simp [addOpening, openingsOf]

theorem openingsOf_addOpening_of_ne (h : side ≠ o.side) :
    (x.addOpening opener o).openingsOf side = x.openingsOf side := by
  simp [addOpening, openingsOf, h.symm]

theorem opener_addOpening_self : ((x.addOpening opener o).endpoint o.side).opener = opener := by
  simp [addOpening]

theorem opener_addOpening_of_ne (h : side ≠ o.side) :
    ((x.addOpening opener o).endpoint side).opener = (x.endpoint side).opener := by
  simp [addOpening, h]

theorem sealer_addOpening (side : Side) :
    ((x.addOpening opener o).endpoint side).sealer = (x.endpoint side).sealer := by
  by_cases h : side = o.side
  · simp [addOpening, h]
  · simp [addOpening, h]

/-- The next record of its direction may be added. -/
theorem Tied.addSealing (hx : x.Tied cipher keys) (hmax : (x.sealingsOf s.side).length ≠ u64Max)
    (hsealer : sealer.inner =
      ⟨keys.key s.side, keys.noncePrefix s.side, (x.sealingsOf s.side).length + 1⟩)
    (hs : IsRecord cipher keys s.side (x.sealingsOf s.side).length s) :
    (x.addSealing sealer s).Tied cipher keys := by
  refine ⟨fun side => ?_, fun side => ?_, fun side => ?_, fun side i r hr => ?_, fun side => ?_⟩
  · by_cases hside : side = s.side
    · rw [hside, sealer_addSealing_self, sealingsOf_addSealing_self, hsealer, length_append]
      rfl
    · rw [sealer_addSealing_of_ne hside, sealingsOf_addSealing_of_ne hside, hx.sealer]
  · rw [opener_addSealing]
    exact hx.opener side
  · by_cases hside : side = s.side
    · have := hx.bounded s.side
      rw [hside, sealingsOf_addSealing_self, length_append, length_singleton]
      omega
    · rw [sealingsOf_addSealing_of_ne hside]
      exact hx.bounded side
  · by_cases hside : side = s.side
    · rw [hside, sealingsOf_addSealing_self] at hr
      rw [hside]
      rcases Nat.lt_trichotomy i (x.sealingsOf s.side).length with hi | rfl | hi
      · rw [getElem?_append_left hi] at hr
        exact hx.records s.side i r hr
      · rw [getElem?_concat_length] at hr
        exact some.inj hr ▸ hs
      · rw [getElem?_eq_none (by rw [length_append]; exact hi)] at hr
        cases hr
    · rw [sealingsOf_addSealing_of_ne hside] at hr
      exact hx.records side i r hr
  · refine (hx.opened side).trans ?_
    by_cases hside : side.peer = s.side
    · rw [hside, sealingsOf_addSealing_self, map_append]
      exact prefix_append _ _
    · rw [sealingsOf_addSealing_of_ne hside]

/-- The next record of its direction may be opened. -/
theorem Tied.addOpening (hx : x.Tied cipher keys)
    (hopener : opener.inner = ⟨keys.key o.side.peer, keys.noncePrefix o.side.peer,
      (x.openingsOf o.side).length + 1⟩)
    (hs : (x.sealingsOf o.side.peer)[(x.openingsOf o.side).length]? = some s)
    (ho : (o.message, o.frame) = (s.message, s.frame)) :
    (x.addOpening opener o).Tied cipher keys := by
  refine ⟨fun side => ?_, fun side => ?_, hx.bounded, hx.records, fun side => ?_⟩
  · rw [sealer_addOpening]
    exact hx.sealer side
  · by_cases hside : side = o.side
    · rw [hside, opener_addOpening_self, openingsOf_addOpening_self, hopener, length_append]
      rfl
    · rw [opener_addOpening_of_ne hside, openingsOf_addOpening_of_ne hside, hx.opener]
  · by_cases hside : side = o.side
    · rw [hside, openingsOf_addOpening_self, map_append]
      refine isPrefix_concat (hx.opened o.side) ?_
      rw [length_map]
      change ((x.sealingsOf o.side.peer).map _)[_]? = _
      rw [getElem?_map, hs]
      exact congrArg some ho.symm
    · rw [openingsOf_addOpening_of_ne hside]
      exact hx.opened side

/-- A message that is sealed is the next record of its direction. -/
theorem Tied.step_send (hx : x.Tied cipher keys) (side : Side) (msg : Message) :
    (x.step cipher (.send side msg)).Tied cipher keys := by
  have hinn := hx.sealer side
  rcases (x.endpoint side).sealer.sealMessage_cases cipher msg with
    ⟨e, h, -⟩ | ⟨sealer, frame, h, hseal⟩
  · have hst : x.step cipher (.send side msg) = x := by simp [step, h]
    rwa [hst]
  · obtain ⟨hmax, hnx, hhd, hencrypts⟩ := hinn ▸ hseal
    have hst : x.step cipher (.send side msg) = x.addSealing sealer
        ⟨side, msg, keys.key side, makeNonce (keys.noncePrefix side) (x.sealingsOf side).length,
          frame.take headerLen, frame.drop headerLen⟩ := by
      simp [step, h, hinn, Exchange.addSealing]
    rw [hst]
    refine hx.addSealing hmax hnx ⟨rfl, rfl, hhd, ?_⟩
    rw [hhd]
    exact hencrypts

/-- A frame that is accepted is the next record of its direction, and it is opened as it was
sealed. -/
theorem Tied.step_present (hx : x.Tied cipher keys) (hkeys : keys.c2sKey ≠ keys.s2cKey)
    {frame : List UInt8} (hgenuine : x.Genuine cipher (.present side frame)) :
    (x.step cipher (.present side frame)).Tied cipher keys := by
  have hinn := hx.opener side
  rcases (x.endpoint side).opener.openFrame_cases cipher frame with
    ⟨e, h⟩ | ⟨plaintext, h, ho, hdecrypt⟩
  · have hst : x.step cipher (.present side frame) = x := by simp [step, h]
    rwa [hst]
  · obtain ⟨s, hs, hkey, hnonce, hhd, htext⟩ := hgenuine (by rw [ho]; rfl)
    rw [hinn] at h hdecrypt hkey hnonce
    obtain ⟨i, hi, hrecord⟩ := hx.record cipher keys hs
    -- the keys tell the directions apart, and the nonces the records
    have hside : s.side = side.peer := key_inj hkeys (hrecord.key.symm.trans hkey)
    have hidx : i = (x.openingsOf side).length := by
      have hlen := (hx.opened side).length_le
      rw [length_map, length_map] at hlen
      have hle := hx.bounded side.peer
      have hlt := (List.getElem?_eq_some_iff.mp hi).1
      rw [hside] at hlt hrecord
      exact makeNonce_inj (by omega) (by omega) (hrecord.nonce.symm.trans hnonce)
    rw [hside, hidx] at hi
    have hmsg : readMessage plaintext = .ok s.message := by
      obtain ⟨ciphertext, tag, hencrypt, houtput⟩ := hrecord.encrypts
      have hdecr := cipher.decrypt_encrypt hencrypt
      rw [← houtput, hkey, hnonce, hhd, htext, hdecrypt] at hdecr
      rw [some.inj hdecr, readMessage_plaintext]
    have hfr : s.frame = frame := by
      rw [Sealing.frame, hhd, htext, take_append_drop]
    have hst : x.step cipher (.present side frame) = x.addOpening
        ⟨⟨keys.key side.peer, keys.noncePrefix side.peer, (x.openingsOf side).length + 1⟩⟩
        ⟨side, s.message, frame⟩ := by
      simp [step, h, hmsg, Exchange.addOpening]
    rw [hst]
    exact hx.addOpening rfl hi (by rw [hfr])

/-- A frame of the own direction that comes back is rejected, if the peer did not seal the same
bytes. -/
theorem Tied.step_reflected (hx : x.Tied cipher keys) (hkeys : keys.c2sKey ≠ keys.s2cKey)
    (hgenuine : x.Genuine cipher (.present side s.frame))
    (hother : s.frame ∉ (x.sealingsOf side.peer).map (·.frame)) :
    x.step cipher (.present side s.frame) = x := by
  rcases (x.endpoint side).opener.openFrame_cases cipher s.frame with ⟨e, h⟩ | ⟨plaintext, -, ho, -⟩
  · simp [step, h]
  · obtain ⟨s', hs', hkey, -, hhd, htext⟩ := hgenuine (by rw [ho]; rfl)
    obtain ⟨i, hi, hrecord⟩ := hx.record cipher keys hs'
    rw [hx.opener] at hkey
    rw [key_inj hkeys (hrecord.key.symm.trans hkey)] at hi
    refine absurd (mem_map.mpr ⟨s', mem_of_getElem? hi, ?_⟩) hother
    rw [Sealing.frame, hhd, htext, take_append_drop]

theorem Tied.step (hx : x.Tied cipher keys) (hkeys : keys.c2sKey ≠ keys.s2cKey) {e : ChannelEvent}
    (hgenuine : x.Genuine cipher e) : (x.step cipher e).Tied cipher keys := by
  cases e with
  | send side message => exact hx.step_send side message
  | present side frame => exact hx.step_present hkeys hgenuine

/-- The counters stay tied to the records over a whole exchange. -/
theorem Tied.run (hkeys : keys.c2sKey ≠ keys.s2cKey) {events : List ChannelEvent} :
    ∀ {x : Exchange Key}, x.Tied cipher keys → x.Unforged cipher events →
      (x.run cipher events).Tied cipher keys := by
  induction events with
  | nil => exact fun hx _ => hx
  | cons e events ih => exact fun hx hideal => ih (hx.step hkeys hideal.1) hideal.2

end Step

end Exchange

/-! ## The channel -/

/-- Whatever the attacker does, what an opener lets through is the beginning of what was sealed in
its direction, frame by frame, and a frame that comes back changes nothing. No two records of a
sealer were encrypted with the same nonce : after `u64Max` of them it fails. -/
theorem channel_delivers_prefix {Key : Type} (cipher : Cipher Key) (keys : SessionKeys Key)
    (hkeys : keys.c2sKey ≠ keys.s2cKey) (events : List ChannelEvent)
    (hideal : (Exchange.new keys).Unforged cipher events) (side : Side) :
    let x := (Exchange.new keys).run cipher events
    (x.openingsOf side).map (·.message) <+: (x.sealingsOf side.peer).map (·.message) ∧
      (x.openingsOf side).map (·.frame) <+: (x.sealingsOf side.peer).map (·.frame) ∧
      (∀ s ∈ x.sealingsOf side, s.frame ∉ (x.sealingsOf side.peer).map (·.frame) →
        x.Genuine cipher (.present side s.frame) → x.step cipher (.present side s.frame) = x) ∧
      (∀ s ∈ x.sealingsOf side,
        cipher.Encrypts s.key s.nonce s.header s.message.plaintext s.ciphertext) ∧
      ((x.sealingsOf side).map (·.nonce)).Nodup ∧
      (x.sealingsOf side).length ≤ u64Max ∧
      ((x.sealingsOf side).length = u64Max → ∀ message,
        ((x.endpoint side).sealer.sealMessage cipher message).1 = .error .sequenceExhausted) := by
  intro x
  have hx : x.Tied cipher keys := Exchange.Tied.run hkeys (Exchange.tied_new cipher keys) hideal
  have hmessages := (hx.opened side).map Prod.fst
  have hframes := (hx.opened side).map Prod.snd
  rw [List.map_map, List.map_map] at hmessages hframes
  refine ⟨hmessages, hframes, fun s _ hother hgenuine => hx.step_reflected hkeys hgenuine hother,
    fun s hs => ?_, ?_, hx.bounded side, fun hmax message => ?_⟩
  · obtain ⟨i, hi⟩ := mem_iff_getElem?.mp hs
    exact (hx.records side i s hi).encrypts
  · -- the nonces of the records are those of their positions
    have hnonces : ((x.sealingsOf side).map (·.nonce)) =
        (range (x.sealingsOf side).length).map (makeNonce (keys.noncePrefix side)) := by
      refine ext_getElem? fun i => ?_
      rw [getElem?_map, getElem?_map]
      cases hs : (x.sealingsOf side)[i]? with
      | none =>
        rw [getElem?_eq_none (by simpa using hs)]
        rfl
      | some s =>
        rw [getElem?_range (List.getElem?_eq_some_iff.mp hs).1]
        exact congrArg some (hx.records side i s hs).nonce
    rw [hnonces]
    refine List.Nodup.map_on (fun i hi j hj h => ?_) nodup_range
    have hle := hx.bounded side
    rw [mem_range] at hi hj
    exact Exchange.makeNonce_inj (by omega) (by omega) h
  · rcases (x.endpoint side).sealer.sealMessage_cases cipher message with
      ⟨e, h, he⟩ | ⟨sealer, frame, h, hsealed⟩
    · rw [h, he (by rw [hx.sealer]; exact hmax)]
    · exact absurd (by rw [hx.sealer]; exact hmax) hsealed.notExhausted

/-- A cipher for examples : the tag is the key. -/
def keyTagCipher : Cipher UInt8 where
  encrypt key _ _ plaintext := some (plaintext, List.replicate tagLen key)
  decrypt key _ _ text :=
    if text.drop (text.length - tagLen) = List.replicate tagLen key then
      some (text.take (text.length - tagLen))
    else none
  decrypt_encrypt h := by
    obtain ⟨rfl, rfl⟩ := Prod.mk.inj (Option.some.inj h)
    simp

/-- A forged frame, a frame, the same frame again and a reflected one. -/
theorem channel_delivers_prefix_replay :
    let events : List ChannelEvent := [.present .server [0xE0, 1], .send .client (.text "hi"),
      .present .server (makeHeader 0 ++ [0, 104, 105] ++ replicate tagLen 1),
      .present .server (makeHeader 0 ++ [0, 104, 105] ++ replicate tagLen 1),
      .present .client (makeHeader 0 ++ [0, 104, 105] ++ replicate tagLen 1)]
    let x := (Exchange.new ⟨1, 2, [], []⟩).run keyTagCipher events
    (x.openingsOf .server).map (·.message) = [.text "hi"] ∧
      (x.openingsOf .server).map (·.message) <+: (x.sealingsOf .client).map (·.message) := by
  intro events x
  have hdelivers := channel_delivers_prefix keyTagCipher ⟨1, 2, [], []⟩ (by decide) events
    (by decide +kernel) .server
  exact ⟨by decide +kernel, hdelivers.1⟩

end Rmux
