import Rmux.InputGrowth

/-!
# Which decoder is responsible at a place

The first two bytes say which decoders can take the input at a place (`decodeAt_csi`,
`decodeAt_osc`, `decodeAt_apc`, `decodeAt_other`). Only bracketed paste, the graphics replies and
the answers of the terminal look at how much of the input is new, and two new bytes make no
difference (`decodeAt_of_le`).
-/

namespace Rmux.Input

open List Bool

variable (surface : Surface) (last : Option MouseForwardEvent) (newInputAt : ℕ)

/-- No sequence with this second byte starts here. -/
def Apart (second : UInt8) (slice : List UInt8) : Prop :=
  ∀ start, startsWith (0x1b :: second :: start) slice = false ∧
    startsWith slice (0x1b :: second :: start) = false

section Apart

variable {slice : List UInt8} {newInputAt : ℕ}

theorem apart_of_ne {second byte : UInt8} (h : second ≠ byte) (r : List UInt8) :
    Apart second (0x1b :: byte :: r) := fun start => by
  simp [h, h.symm]

theorem Apart.notPaste (h : Apart 0x5b slice) :
    decodeBracketedPasteAfterAppend slice newInputAt = .notPaste := by
  simp [decodeBracketedPasteAfterAppend, bracketedPasteStart, h _]

theorem Apart.notKitty (h : Apart 0x5f slice) :
    decodeKittyGraphicsApcAfterAppend slice newInputAt = .notKittyGraphics := by
  simp [decodeKittyGraphicsApcAfterAppend, kittyGraphicsApcStart, h _]

theorem Apart.notFocus (h : Apart 0x5b slice) : decodeFocusEvent slice = none := by
  simp [decodeFocusEvent, h _]

theorem Apart.notOsc (h : Apart 0x5d slice) :
    decodeOscSequence slice newInputAt = .notResponse := by
  simp [decodeOscSequence, h _]

theorem Apart.notResponse (h : Apart 0x5b slice) :
    decodeTerminalResponseAfterAppend slice newInputAt = .notResponse := by
  simp [decodeTerminalResponseAfterAppend, h _]

end Apart

theorem decodeAt_csi (third : UInt8) (r : List UInt8) :
    decodeAt surface last newInputAt (0x1b :: 0x5b :: third :: r) =
      match decodeBracketedPasteAfterAppend (0x1b :: 0x5b :: third :: r) newInputAt with
      | .matched size bodyStart bodyEnd =>
        .item (.paste (((0x1b :: 0x5b :: third :: r).take bodyEnd).drop bodyStart)) size false
      | .incomplete => .retain .bracketedPaste
      | .notPaste =>
        match decodeFocusEvent (0x1b :: 0x5b :: third :: r) with
        | some event => .item (.focus event) 3 true
        | none =>
          ofResponse (0x1b :: 0x5b :: third :: r)
            (decodeKeyboard surface last (0x1b :: 0x5b :: third :: r))
            (decodeTerminalResponseAfterAppend (0x1b :: 0x5b :: third :: r) newInputAt) := by
  unfold decodeAt decodeKitty decodeFocus decodeControl decodeString
    decodeAttachedTerminalControlAfterAppend decodeFocusResponse
  cases decodeFocusEvent (0x1b :: 0x5b :: third :: r) with
  | some event => rfl
  | none =>
    rewrite [ite_self]
    rfl

theorem Apart.decodeAt_eq {slice : List UInt8} (h : Apart 0x5b slice) :
    decodeAt surface last newInputAt slice =
      match decodeKittyGraphicsApcAfterAppend slice newInputAt with
      | .matched size => .item (.kittyGraphics (slice.take size)) size false
      | .incomplete => .retain .kittyGraphicsApc
      | .notKittyGraphics =>
        ofResponse slice (decodeString surface last slice) (decodeOscSequence slice newInputAt) := by
  unfold decodeAt decodeKitty decodeFocus decodeControl decodeAttachedTerminalControlAfterAppend
    decodeFocusResponse
  rw [h.notPaste, h.notFocus, h.notResponse]
  cases decodeOscSequence slice newInputAt with
  | notResponse =>
    rewrite [ite_self]
    rfl
  | _ => rfl

theorem decodeAt_osc (r : List UInt8) : decodeAt surface last newInputAt (0x1b :: 0x5d :: r) =
      ofResponse (0x1b :: 0x5d :: r) (decodeString surface last (0x1b :: 0x5d :: r))
        (decodeOscSequence (0x1b :: 0x5d :: r) newInputAt) := by
  rw [(apart_of_ne (by decide) r).decodeAt_eq, (apart_of_ne (by decide) r).notKitty]

theorem decodeAt_apc (r : List UInt8) : decodeAt surface last newInputAt (0x1b :: 0x5f :: r) =
      match decodeKittyGraphicsApcAfterAppend (0x1b :: 0x5f :: r) newInputAt with
      | .matched size => .item (.kittyGraphics ((0x1b :: 0x5f :: r).take size)) size false
      | .incomplete => .retain .kittyGraphicsApc
      | .notKittyGraphics => decodeString surface last (0x1b :: 0x5f :: r) := by
  rw [(apart_of_ne (by decide) r).decodeAt_eq, (apart_of_ne (by decide) r).notOsc]
  rfl

/-- The places where only strings and the keyboard are possible. -/
def isOther : List UInt8 → Bool
  | [] => false
  | first :: rest =>
    first != 0x1b || rest.head?.any fun second => second != 0x5b && second != 0x5d && second != 0x5f

/-- At such a place none of the other sequences starts. -/
theorem apart_of_isOther {slice : List UInt8} (h : isOther slice = true) {second : UInt8}
    (hsnd : second = 0x5b ∨ second = 0x5d ∨ second = 0x5f) : Apart second slice := by
  intro start
  match slice, h with
  | [first], h =>
    have hne : first ≠ 0x1b := by simpa [isOther] using h
    simp [hne]
  | first :: byte :: rest, h =>
    simp only [isOther, head?_cons, Option.any_some, or_eq_true, bne_iff_ne, and_eq_true] at h
    have hne : ¬(first = 0x1b ∧ byte = second) := by
      rintro ⟨rfl, rfl⟩
      rcases hsnd with rfl | rfl | rfl <;> simp at h
    constructor
    · simp only [startsWith_cons_cons, and_eq_false_iff, beq_eq_false_iff_ne]
      by_contra hboth
      push Not at hboth
      exact hne ⟨hboth.1.symm, hboth.2.1.symm⟩
    · simp only [startsWith_cons_cons, and_eq_false_iff, beq_eq_false_iff_ne]
      by_contra hboth
      push Not at hboth
      exact hne ⟨hboth.1, hboth.2.1⟩

theorem decodeAt_other {slice : List UInt8} (h : isOther slice = true) :
    decodeAt surface last newInputAt slice = decodeString surface last slice := by
  rw [(apart_of_isOther h (.inl rfl)).decodeAt_eq,
    (apart_of_isOther h (.inr (.inr rfl))).notKitty, (apart_of_isOther h (.inr (.inl rfl))).notOsc]
  rfl

/-- A lone `ESC` may become anything. -/
theorem decodeAt_lone_escape :
    decodeAt surface last newInputAt [0x1b] = .retain .kittyGraphicsApc := by
  simp [decodeAt, decodeBracketedPasteAfterAppend, bracketedPasteStart, decodeKitty,
    decodeKittyGraphicsApcAfterAppend, kittyGraphicsApcStart]

theorem decodeAt_open_csi :
    decodeAt surface last newInputAt [0x1b, 0x5b] = .retain .attachedKey := by
  simp [decodeAt, decodeBracketedPasteAfterAppend, bracketedPasteStart, decodeKitty,
    decodeKittyGraphicsApcAfterAppend, kittyGraphicsApcStart, decodeFocus, decodeFocusEvent,
    decodeControl, decodeAttachedTerminalControlAfterAppend, decodeOscSequence, decodeFocusResponse,
    decodeTerminalResponseAfterAppend, isPlausibleTerminalResponsePrefix, scanFrom, scan,
    ofResponse, decodeString, decodePaneBoundTerminalString, stringBody, decodeKeyboard, isMousePrefix,
    isExtendedKeyPrefix, decodeTyped, isAsciiControl, decodeKeystroke, decodeLiveAttachedKey,
    decodeAttachedKey, decodeEscapeKey, decodeExtendedKey]

/-! ## New bytes -/

variable {newInputAt}

section

variable (h : newInputAt ≤ 2) (slice : List UInt8)

include h

theorem decodeBracketedPaste_of_le :
    decodeBracketedPasteAfterAppend slice newInputAt = decodeBracketedPasteAfterAppend slice 0 := by
  have hsrch : newInputAt - (bracketedPasteEnd.length - 1) = 0 - (bracketedPasteEnd.length - 1) := by
    simp only [bracketedPasteEnd, length_cons, length_nil]
    omega
  unfold decodeBracketedPasteAfterAppend
  rw [hsrch]

theorem decodeKittyGraphicsApc_of_le :
    decodeKittyGraphicsApcAfterAppend slice newInputAt =
      decodeKittyGraphicsApcAfterAppend slice 0 := by
  have hsrch : max (newInputAt - (stringTerminator.length - 1)) kittyGraphicsApcStart.length =
      max (0 - (stringTerminator.length - 1)) kittyGraphicsApcStart.length := by
    simp only [stringTerminator, kittyGraphicsApcStart, length_cons, length_nil]
    omega
  unfold decodeKittyGraphicsApcAfterAppend
  rw [hsrch]

theorem decodeOscSequence_of_le :
    decodeOscSequence slice newInputAt = decodeOscSequence slice 0 := by
  have hsrch : max (newInputAt - 1) 2 = max (0 - 1) 2 := by omega
  unfold decodeOscSequence
  rw [hsrch]

theorem decodeTerminalResponse_of_le :
    decodeTerminalResponseAfterAppend slice newInputAt =
      decodeTerminalResponseAfterAppend slice 0 := by
  have hsrch : max newInputAt 2 = max 0 2 := by omega
  unfold decodeTerminalResponseAfterAppend
  rw [hsrch]

/-- Two bytes that were there before are looked at again by every decoder. -/
theorem decodeAt_of_le :
    decodeAt surface last newInputAt slice = decodeAt surface last 0 slice := by
  unfold decodeAt decodeKitty decodeFocus decodeControl decodeAttachedTerminalControlAfterAppend
  rw [decodeBracketedPaste_of_le h, decodeKittyGraphicsApc_of_le h, decodeOscSequence_of_le h,
    decodeTerminalResponse_of_le h]

end

theorem decodeAt_of_ne {first : UInt8} (h : first ≠ 0x1b) (r : List UInt8) :
    decodeAt surface last newInputAt (first :: r) = decodeAt surface last 0 (first :: r) := by
  have ho : isOther (first :: r) = true := by simp [isOther, h]
  rw [decodeAt_other surface last newInputAt ho, decodeAt_other surface last 0 ho]

/-! ## The keyboard -/

/-- What becomes of a mouse report. -/
def ofMouse (slice : List UInt8) : MouseDecode → Decoded
  | .matched size event => .item (.mouse event) size true
  | .discard size => .item (.discardedMouse (slice.take size)) size false
  | .incomplete | .overlong => .retain .mouse
  | .invalid => .raw 1

/-- What becomes of a key. -/
def ofKey (retention : Retention) : KeyDecode → Decoded
  | .matched size key => .item (.key key) size (surface.handled key)
  | .incomplete => .retain retention
  | .invalid => .raw 1

theorem decodeKeyboard_mouse {third : UInt8} (h : third = 0x4d ∨ third = 0x3c) (r : List UInt8) :
    decodeKeyboard surface last (0x1b :: 0x5b :: third :: r) =
      ofMouse (0x1b :: 0x5b :: third :: r)
        (decodeMouse (0x1b :: 0x5b :: third :: r) last) := by
  have hms : isMousePrefix (0x1b :: 0x5b :: third :: r) = true := by
    rcases h with rfl | rfl <;> simp [isMousePrefix]
  unfold decodeKeyboard
  rw [if_pos hms]
  cases decodeMouse (0x1b :: 0x5b :: third :: r) last <;> rfl

theorem decodeKeystroke_eq (slice : List UInt8) : decodeKeystroke surface slice =
      ofKey surface .attachedKey (decodeLiveAttachedKey slice surface.backspace) := by
  unfold decodeKeystroke
  cases decodeLiveAttachedKey slice surface.backspace <;> rfl

theorem decodeLiveAttachedKey_csi (r : List UInt8) (backspace : Option UInt8) :
    decodeLiveAttachedKey (0x1b :: 0x5b :: r) backspace =
      match decodeExtendedKey (0x1b :: 0x5b :: r) backspace with
      | .invalid => decodeCsiKey (0x1b :: 0x5b :: r)
      | decoded => decoded := by
  rw [decodeLiveAttachedKey_escape]
  unfold decodeEscapeKey
  cases decodeExtendedKey (0x1b :: 0x5b :: r) backspace with
  | matched size key | incomplete => rfl
  | invalid =>
    cases decodeCsiKey (0x1b :: 0x5b :: r) <;> rfl

/-- The keys of a control sequence that is no mouse report. -/
theorem decodeKeyboard_csi {third : UInt8} (hx10 : third ≠ 0x4d) (hsgr : third ≠ 0x3c)
    (r : List UInt8) : decodeKeyboard surface last (0x1b :: 0x5b :: third :: r) =
      match decodeExtendedKey (0x1b :: 0x5b :: third :: r) surface.backspace with
      | .matched size key => .item (.key key) size (surface.handled key)
      | .incomplete => .retain (if isAsciiDigit third then .extendedKey else .attachedKey)
      | .invalid => ofKey surface .attachedKey (decodeCsiKey (0x1b :: 0x5b :: third :: r)) := by
  have hms : isMousePrefix (0x1b :: 0x5b :: third :: r) = false := by
    simp [isMousePrefix, hx10.symm, hsgr.symm]
  have hext : isExtendedKeyPrefix (0x1b :: 0x5b :: third :: r) = isAsciiDigit third := by
    simp [isExtendedKeyPrefix]
  have htyped : decodeTyped surface (0x1b :: 0x5b :: third :: r) =
      decodeKeystroke surface (0x1b :: 0x5b :: third :: r) := by
    simp [decodeTyped, isAsciiControl]
  unfold decodeKeyboard
  rw [hms, hext, htyped, decodeKeystroke_eq, decodeLiveAttachedKey_csi]
  cases decodeExtendedKey (0x1b :: 0x5b :: third :: r) surface.backspace with
  | matched size key | incomplete | invalid => cases isAsciiDigit third <;> rfl

theorem decodeKeyboard_of_ne {first : UInt8} (h : first ≠ 0x1b) (r : List UInt8) :
    decodeKeyboard surface last (first :: r) = decodeTyped surface (first :: r) := by
  simp [decodeKeyboard, isMousePrefix, isExtendedKeyPrefix, h.symm]

theorem decodeKeyboard_escape {second : UInt8} (h : second ≠ 0x5b) (r : List UInt8) :
    decodeKeyboard surface last (0x1b :: second :: r) =
      decodeKeystroke surface (0x1b :: second :: r) := by
  simp [decodeKeyboard, isMousePrefix, isExtendedKeyPrefix, h.symm, decodeTyped, isAsciiControl]

end Rmux.Input
