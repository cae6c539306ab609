import Rmux.Text
import Rmux.Utf8

/-!
# Keys and mouse events in a client's input

A client sends a key as a byte, as a character of UTF-8 or as an escape sequence, and a mouse event
as three bytes after `ESC [ M` or as three numbers after `ESC [ <`. Each decoder answers with what it
has read, with `incomplete` when the bytes may still become a key, or with `invalid`.
-/

namespace Rmux.Input

open List Option Nat

variable (input : List UInt8) (backspace : Option UInt8) (last : Option MouseForwardEvent)

/-! ## Bytes -/

variable (byte : UInt8) (key : KeyCode)

def isAsciiDigit : Bool := 0x30 ≤ byte && byte ≤ 0x39

def isAscii : Bool := byte < 0x80

def isAsciiControl : Bool := byte < 0x20 || byte == 0x7f

def startsWith (start input : List UInt8) : Bool := start.isPrefixOf input

/-- The number that ASCII bytes spell, up to `max`. Bytes that are no ASCII spell no number. -/
def parseNumber (max : ℕ) (bytes : List UInt8) : Option ℕ :=
  parseUnsigned max (bytes.map fun byte => Char.ofNat byte.toNat)

/-! ## Key codes -/

abbrev KeyCode := UInt64

def keycMeta : KeyCode := 0x100000000000
def keycCtrl : KeyCode := 0x200000000000
def keycShift : KeyCode := 0x400000000000
def keycCursor : KeyCode := 0x4000000000000
def keycImpliedMeta : KeyCode := 0x8000000000000
def keycMaskType : KeyCode := 0xff00000000
def keycMaskModifiers : KeyCode := 0xff0000000000
def keycMaskKey : KeyCode := 0xffffffffff
def keycNone : KeyCode := 0x200000000
def keycAny : KeyCode := keycNone + 4
def keycBspace : KeyCode := keycNone + 7

/-- The keys that have a name. -/
inductive NamedKey
  | up | down | left | right | home | end | btab | ic | dc | pageUp | pageDown
  | f (n : ℕ)
  deriving DecidableEq

/-- The code of a named key. The arrows are cursor keys. -/
def NamedKey.code : NamedKey → KeyCode
  | up => (keycNone + 27) ||| keycCursor
  | down => (keycNone + 28) ||| keycCursor
  | left => (keycNone + 29) ||| keycCursor
  | right => (keycNone + 30) ||| keycCursor
  | home => keycNone + 22
  | «end» => keycNone + 23
  | btab => keycNone + 26
  | ic => keycNone + 20
  | dc => keycNone + 21
  | pageUp => keycNone + 25
  | pageDown => keycNone + 24
  | f n => keycNone + 7 + UInt64.ofNat n

def keyCodeLookupBits : KeyCode := key &&& (keycMaskKey ||| keycMaskModifiers)

def matchesPrefixKey (first second : Option KeyCode) : Bool :=
  let masked := key &&& (keycMaskKey ||| keycMaskModifiers)
  (first.toList ++ second.toList).any fun candidate => keyCodeLookupBits candidate == masked

def isUnicodeKey : Bool := key &&& keycMaskType == 0 && 0x7f < key &&& keycMaskKey

def isTab : Bool := key &&& keycMaskKey == 0x09

def shouldStripShift : Bool :=
  let onlykey := key &&& keycMaskKey
  ((0x21 ≤ onlykey && onlykey < 0x7f) || isUnicodeKey key) &&
    key &&& keycMaskModifiers == keycShift

/-- What a decoder of keys answers. -/
inductive KeyDecode
  | matched (size : ℕ) (key : KeyCode)
  | incomplete
  | invalid
  deriving DecidableEq

/-- A key that is read from `length` bytes takes some of them. -/
def KeyDecode.Fits (length : ℕ) : KeyDecode → Prop
  | matched size _ => 0 < size ∧ size ≤ length
  | incomplete | invalid => True

theorem KeyDecode.Fits.ite {length : ℕ} {c : Prop} [Decidable c] {a b : KeyDecode}
    (ha : c → a.Fits length) (hb : ¬c → b.Fits length) : (if c then a else b).Fits length := by
  split_ifs with h
  exacts [ha h, hb h]

/-! ## Keys with modifiers -/

/-- A tilde, `u`, the arrows, End and Home. -/
def isExtendedKeyTerminator : Bool :=
  byte ∈ [0x7e, 0x75, 0x41, 0x42, 0x43, 0x44, 0x46, 0x48]

def keyFromExtendedNumber (number : ℕ) (backspace : Option UInt8) : Option KeyCode :=
  if backspace.any fun value => value.toNat == number then some keycBspace
  else if number ≤ 0x7f then some (UInt64.ofNat number)
  else if number.isValidChar then some (UInt64.ofNat number)
  else none

def keyFromModifiedCursorTerminator (terminator : UInt8) : Option KeyCode :=
  if terminator = 0x41 then some NamedKey.up.code
  else if terminator = 0x42 then some NamedKey.down.code
  else if terminator = 0x43 then some NamedKey.right.code
  else if terminator = 0x44 then some NamedKey.left.code
  else if terminator = 0x46 then some NamedKey.end.code
  else if terminator = 0x48 then some NamedKey.home.code
  else none

/-- The key and the modifiers that stand between `ESC [` and a terminator. -/
def extendedKeyParts (backspace : Option UInt8) (payload : List UInt8) (terminator : UInt8) :
    Option (KeyCode × ℕ) :=
  if terminator = 0x7e then
    match payload.splitOn 0x3b with
    | [start, modifiers, number] =>
      if start = [0x32, 0x37] then do
        let modifiers ← parseNumber 65535 modifiers
        let number ← parseNumber 4294967295 number
        let key ← keyFromExtendedNumber number backspace
        return (key, modifiers)
      else none
    | _ => none
  else if terminator = 0x75 then
    match payload.splitOn 0x3b with
    | [number, modifiers] => do
      let modifiers ← parseNumber 65535 modifiers
      let number ← parseNumber 4294967295 number
      let key ← keyFromExtendedNumber number backspace
      return (key, modifiers)
    | _ => none
  else
    match payload.splitOn 0x3b with
    | [start, modifiers] => do
      let _ ← parseNumber 65535 start
      let modifiers ← parseNumber 65535 modifiers
      let key ← keyFromModifiedCursorTerminator terminator
      return (key, modifiers)
    | _ => none

/-- A key with the modifiers of a parameter. A tab with shift is a back tab, and a character is its own
shifted one. -/
def withModifiers (modifiers : ℕ) : KeyCode :=
  let held (bit : ℕ) : Bool := 0 < modifiers && (modifiers - 1).testBit bit
  let key := if held 0 then key ||| keycShift else key
  let key := if held 1 then key ||| keycMeta ||| keycImpliedMeta else key
  let key := if held 2 then key ||| keycCtrl else key
  let key := if held 3 then key ||| keycMeta ||| keycImpliedMeta else key
  let key :=
    if isTab key && key &&& keycShift != 0 then
      NamedKey.btab.code ||| (key &&& ~~~keycMaskKey &&& ~~~keycShift)
    else key
  if shouldStripShift key then key &&& ~~~keycShift else key

/-- Where the numbers after `ESC [` end. No more than 64 bytes are looked at. -/
def extendedKeyEnd (input : List UInt8) : ℕ :=
  2 + (((input.drop 2).take 62).takeWhile fun byte =>
    !isExtendedKeyTerminator byte && (isAsciiDigit byte || byte == 0x3b)).length

def decodeExtendedKey (input : List UInt8) (backspace : Option UInt8) : KeyDecode :=
  if input.head? ≠ some 0x1b then .invalid
  else if input.length = 1 then .incomplete
  else if input[1]? ≠ some 0x5b then .invalid
  else if input.length = 2 then .incomplete
  else if extendedKeyEnd input = input.length then .incomplete
  else if extendedKeyEnd input = 64 then .invalid
  else
    match input[extendedKeyEnd input]? with
    | none => .invalid
    | some terminator =>
      if !isExtendedKeyTerminator terminator then .invalid
      else
        match extendedKeyParts backspace ((input.take (extendedKeyEnd input)).drop 2) terminator with
        | none => .invalid
        | some (key, modifiers) =>
          .matched (extendedKeyEnd input + 1) (withModifiers key modifiers)

theorem decodeExtendedKey_fits : (decodeExtendedKey input backspace).Fits input.length := by
  iterate 6 refine .ite (fun _ => trivial) fun _ => ?_
  cases hterm : input[extendedKeyEnd input]? with
  | none => trivial
  | some terminator =>
    have hlt := (List.getElem?_eq_some_iff.mp hterm).1
    refine .ite (fun _ => trivial) fun _ => ?_
    cases extendedKeyParts backspace ((input.take (extendedKeyEnd input)).drop 2) terminator with
    | none => trivial
    | some parts => exact ⟨succ_pos _, hlt⟩

def isExtendedKeyPrefix (input : List UInt8) : Bool :=
  startsWith [0x1b, 0x5b] input && input[2]?.any isAsciiDigit

/-! ## Keys -/

/-- The key that a control byte stands for : a letter held with control, or a key of its own. -/
def controlByteKey : Option KeyCode :=
  if byte = 0x00 then some (0x20 ||| keycCtrl)
  else if byte = 0x0d then some 0x0d
  else if byte = 0x09 then some 0x09
  else if byte ≤ 0x1a then some (UInt64.ofNat (0x61 + (byte.toNat - 1)) ||| keycCtrl)
  else if byte = 0x1b then none
  else if byte = 0x1c then some (0x5c ||| keycCtrl)
  else if byte = 0x1d then some (0x5d ||| keycCtrl)
  else if byte = 0x1e then some (0x5e ||| keycCtrl)
  else if byte = 0x1f then some (0x5f ||| keycCtrl)
  else if byte = 0x7f then some keycBspace
  else none

/-- The key that a letter right after `ESC [` stands for. -/
def csiLetterKey (third : UInt8) : Option KeyCode :=
  if third = 0x41 then some NamedKey.up.code
  else if third = 0x42 then some NamedKey.down.code
  else if third = 0x43 then some NamedKey.right.code
  else if third = 0x44 then some NamedKey.left.code
  else if third = 0x48 then some NamedKey.home.code
  else if third = 0x46 then some NamedKey.end.code
  else if third = 0x5a then some NamedKey.btab.code
  else none

/-- The key that a number before a tilde stands for. -/
def csiNumberKey (number : ℕ) : Option KeyCode :=
  match number with
  | 1 | 7 => some NamedKey.home.code
  | 2 => some NamedKey.ic.code
  | 3 => some NamedKey.dc.code
  | 4 | 8 => some NamedKey.end.code
  | 5 => some NamedKey.pageUp.code
  | 6 => some NamedKey.pageDown.code
  | 15 => some (NamedKey.f 5).code
  | 17 => some (NamedKey.f 6).code
  | 18 => some (NamedKey.f 7).code
  | 19 => some (NamedKey.f 8).code
  | 20 => some (NamedKey.f 9).code
  | 21 => some (NamedKey.f 10).code
  | 23 => some (NamedKey.f 11).code
  | 24 => some (NamedKey.f 12).code
  | _ => none

def decodeCsiKey (input : List UInt8) : KeyDecode :=
  match input[2]? with
  | none => .incomplete
  | some third =>
    match csiLetterKey third with
    | some key => .matched 3 key
    | none =>
      match (input.drop 2).findIdx? (· == 0x7e) with
      | none => if (input.drop 2).all isAsciiDigit then .incomplete else .invalid
      | some tilde =>
        match (parseNumber 65535 ((input.drop 2).take tilde)).bind csiNumberKey with
        | none => .invalid
        | some key => .matched (tilde + 3) key

theorem length_of_getElem?_eq_some {input : List UInt8} {i : ℕ} {byte : UInt8}
    (h : input[i]? = some byte) : i < input.length :=
  (List.getElem?_eq_some_iff.mp h).1

theorem decodeCsiKey_fits : (decodeCsiKey input).Fits input.length := by
  unfold decodeCsiKey
  cases h3 : input[2]? with
  | none => trivial
  | some third =>
    have hlen := length_of_getElem?_eq_some h3
    dsimp only
    cases csiLetterKey third with
    | some key => exact ⟨by omega, hlen⟩
    | none =>
      cases htil : (input.drop 2).findIdx? (· == 0x7e) with
      | none => exact .ite (fun _ => trivial) fun _ => trivial
      | some tilde =>
        have hlt := (findIdx?_eq_some_iff_findIdx_eq.mp htil).1
        rw [length_drop] at hlt
        dsimp only
        cases (parseNumber 65535 ((input.drop 2).take tilde)).bind csiNumberKey with
        | none => trivial
        | some key => exact ⟨by omega, by omega⟩

def decodeSs3Key (input : List UInt8) : KeyDecode :=
  match input[2]? with
  | none => .incomplete
  | some third =>
    if third = 0x41 then .matched 3 NamedKey.up.code
    else if third = 0x42 then .matched 3 NamedKey.down.code
    else if third = 0x43 then .matched 3 NamedKey.right.code
    else if third = 0x44 then .matched 3 NamedKey.left.code
    else if third = 0x46 then .matched 3 NamedKey.end.code
    else if third = 0x48 then .matched 3 NamedKey.home.code
    else if third = 0x50 then .matched 3 (NamedKey.f 1).code
    else if third = 0x51 then .matched 3 (NamedKey.f 2).code
    else if third = 0x52 then .matched 3 (NamedKey.f 3).code
    else if third = 0x53 then .matched 3 (NamedKey.f 4).code
    else .invalid

theorem decodeSs3Key_fits : (decodeSs3Key input).Fits input.length := by
  unfold decodeSs3Key
  cases h3 : input[2]? with
  | none => trivial
  | some third =>
    have hft : 0 < 3 ∧ 3 ≤ input.length := ⟨by omega, length_of_getElem?_eq_some h3⟩
    iterate 10 refine .ite (fun _ => hft) fun _ => ?_
    trivial

/-- A byte after `ESC` that is a key by itself. -/
def metaKey : KeyCode := UInt64.ofNat byte.toNat ||| keycMeta ||| keycImpliedMeta

def decodeEscapeKey (input : List UInt8) (backspace : Option UInt8) : KeyDecode :=
  match decodeExtendedKey input backspace with
  | .matched size key => .matched size key
  | .incomplete => .incomplete
  | .invalid =>
    match input[1]? with
    | none => .incomplete
    | some byte =>
      if byte = 0x5b then decodeCsiKey input
      else if byte = 0x4f then decodeSs3Key input
      else if input.length < 3 && isAscii byte && !isAsciiControl byte then .matched 2 (metaKey byte)
      else
        -- A second `ESC` is no key held with meta.
        match if byte = 0x1b then none else controlByteKey byte with
        | some key => .matched 2 (key ||| keycMeta ||| keycImpliedMeta)
        | none =>
          if input.length < 3 then .incomplete
          else if isAscii byte && !isAsciiControl byte then .matched 2 (metaKey byte)
          else .invalid

theorem decodeEscapeKey_fits : (decodeEscapeKey input backspace).Fits input.length := by
  unfold decodeEscapeKey
  have hext := decodeExtendedKey_fits input backspace
  cases hdec : decodeExtendedKey input backspace with
  | matched size key => rwa [hdec] at hext
  | incomplete => trivial
  | invalid =>
    cases hb : input[1]? with
    | none => trivial
    | some byte =>
      have hft : 0 < 2 ∧ 2 ≤ input.length := ⟨by omega, length_of_getElem?_eq_some hb⟩
      refine .ite (fun _ => decodeCsiKey_fits input) fun _ => ?_
      refine .ite (fun _ => decodeSs3Key_fits input) fun _ => ?_
      refine .ite (fun _ => hft) fun _ => ?_
      cases if byte = 0x1b then none else controlByteKey byte with
      | some key => exact hft
      | none => exact .ite (fun _ => trivial) fun _ => .ite (fun _ => hft) fun _ => trivial

def decodeAttachedKey (input : List UInt8) (backspace : Option UInt8) : KeyDecode :=
  match input with
  | [] => .incomplete
  | first :: _ =>
    if first = 0x1b then decodeEscapeKey input backspace
    else if isAscii first && !isAsciiControl first then .matched 1 (UInt64.ofNat first.toNat)
    else
      match controlByteKey first with
      | some key => .matched 1 key
      | none => .invalid

theorem decodeAttachedKey_fits : (decodeAttachedKey input backspace).Fits input.length := by
  cases input with
  | nil => trivial
  | cons first r =>
    have hft : 0 < 1 ∧ 1 ≤ (first :: r).length := ⟨by omega, succ_pos _⟩
    refine .ite (fun _ => decodeEscapeKey_fits _ backspace) fun _ => ?_
    refine .ite (fun _ => hft) fun _ => ?_
    cases controlByteKey first with
    | some key => exact hft
    | none => trivial

/-! ## Characters -/

def isUtf8LeadByte : Bool := 0xc0 ≤ byte && byte ≤ 0xf7

def utf8ExpectedLen (lead : UInt8) : ℕ :=
  if 0xc0 ≤ lead && lead ≤ 0xdf then 2
  else if 0xe0 ≤ lead && lead ≤ 0xef then 3
  else if 0xf0 ≤ lead && lead ≤ 0xf7 then 4
  else 1

/-- The character at the start of bytes and its length. -/
def decodeUtf8Char (bytes : List UInt8) : Option (Char × ℕ) :=
  match bytes with
  | [] => none
  | first :: _ =>
    if !isAscii first && !isUtf8LeadByte first then none
    else if bytes.length < utf8ExpectedLen first then none
    else do
      let text ← fromUtf8 (bytes.take (utf8ExpectedLen first))
      let character ← text.toList.head?
      return (character, utf8ExpectedLen first)

theorem utf8ExpectedLen_pos (lead : UInt8) : 0 < utf8ExpectedLen lead := by
  unfold utf8ExpectedLen
  split_ifs <;> decide

theorem decodeUtf8Char_size {bs : List UInt8} {character : Char} {size : ℕ}
    (h : decodeUtf8Char bs = some (character, size)) : 0 < size ∧ size ≤ bs.length := by
  cases bs with
  | nil => cases h
  | cons first r =>
    simp only [decodeUtf8Char] at h
    split_ifs at h with hlead hsh
    obtain ⟨text, -, h⟩ := bind_eq_some_iff.mp h
    obtain ⟨found, -, h⟩ := bind_eq_some_iff.mp h
    obtain ⟨-, rfl⟩ := Prod.mk.inj (some.inj h)
    exact ⟨utf8ExpectedLen_pos first, not_lt.mp hsh⟩

def charKey (character : Char) : KeyCode := UInt64.ofNat character.toNat

/-- A key of a character outside ASCII, with `taken` bytes before it. -/
def decodeCharKey (utf8 : List UInt8) (taken : ℕ) (modifiers : KeyCode) : KeyDecode :=
  match utf8 with
  | [] => .incomplete
  | first :: _ =>
    match decodeUtf8Char utf8 with
    | some (character, size) => .matched (taken + size) (charKey character ||| modifiers)
    | none =>
      if isUtf8LeadByte first && utf8.length < utf8ExpectedLen first then .incomplete else .invalid

theorem decodeCharKey_fits (utf8 : List UInt8) (taken : ℕ) (modifiers : KeyCode) :
    (decodeCharKey utf8 taken modifiers).Fits (taken + utf8.length) := by
  cases utf8 with
  | nil => trivial
  | cons first r =>
    unfold decodeCharKey
    cases hdec : decodeUtf8Char (first :: r) with
    | some decoded =>
      obtain ⟨hpos, hle⟩ := decodeUtf8Char_size (by rw [hdec])
      exact ⟨Nat.add_pos_right _ hpos, Nat.add_le_add_left hle _⟩
    | none => exact .ite (fun _ => trivial) fun _ => trivial

def decodeLiveAttachedKey (input : List UInt8) (backspace : Option UInt8) : KeyDecode :=
  match decodeAttachedKey input backspace with
  | .invalid =>
    match input with
    | [] => .incomplete
    | first :: rest =>
      if first = 0x1b then
        match rest with
        | [] => .incomplete
        | second :: _ =>
          if isAscii second then .invalid
          else decodeCharKey rest 1 (keycMeta ||| keycImpliedMeta)
      else decodeCharKey input 0 0
  | decoded => decoded

theorem decodeLiveAttachedKey_fits : (decodeLiveAttachedKey input backspace).Fits input.length := by
  unfold decodeLiveAttachedKey
  have hkey := decodeAttachedKey_fits input backspace
  cases hdec : decodeAttachedKey input backspace with
  | matched size key => rwa [hdec] at hkey
  | incomplete => trivial
  | invalid =>
    cases input with
    | nil => trivial
    | cons first r =>
      refine .ite (fun _ => ?_) fun _ => ?_
      · cases r with
        | nil => trivial
        | cons second r =>
          refine .ite (fun _ => trivial) fun _ => ?_
          have hchar := decodeCharKey_fits (second :: r) 1 (keycMeta ||| keycImpliedMeta)
          rwa [add_comm] at hchar
      · have hchar := decodeCharKey_fits (first :: r) 0 0
        rwa [zero_add] at hchar

/-! ## The mouse -/

/-- A mouse event with the one before it. -/
structure MouseForwardEvent where
  b : ℕ
  lb : ℕ
  x : ℕ
  y : ℕ
  lx : ℕ
  ly : ℕ
  sgrB : ℕ
  sgrType : UInt8
  ignore : Bool
  deriving DecidableEq

/-- The event before the first one. -/
def MouseForwardEvent.before : MouseForwardEvent := ⟨0, 0, 0, 0, 0, 0, 0, 0x20, false⟩

/-- What a mouse decoder answers. -/
inductive MouseDecode
  | matched (size : ℕ) (event : MouseForwardEvent)
  | discard (size : ℕ)
  | incomplete
  | overlong
  | invalid
  deriving DecidableEq

/-- A report that is read from `length` bytes takes some of them. -/
def MouseDecode.Fits (length : ℕ) : MouseDecode → Prop
  | matched size _ | discard size => 0 < size ∧ size ≤ length
  | incomplete | overlong | invalid => True

/-- A number of a mouse report and where it stops. -/
inductive MouseDecimalDecode
  | incomplete
  | overlong
  | invalid
  | matched (value stop : ℕ) (overflowed : Bool)
  deriving DecidableEq

/-- One decimal of a report, from the byte at `index` on. A decimal that does not fit keeps the value it
had and is marked. -/
def parseMouseDecimal (terminators : List UInt8) :
    List UInt8 → ℕ → ℕ → Bool → Bool → MouseDecimalDecode
  | [], _, _, _, overflowed => if overflowed then .overlong else .incomplete
  | byte :: rest, index, value, hasDigit, overflowed =>
    if terminators.contains byte then
      if hasDigit then .matched value index overflowed else .invalid
    else if !isAsciiDigit byte then .invalid
    else
      let next := value * 10 + (byte.toNat - 0x30)
      if overflowed || 65535 < next then
        parseMouseDecimal terminators rest (index + 1) value true true
      else parseMouseDecimal terminators rest (index + 1) next true false

theorem parseMouseDecimal_stop {terminators : List UInt8} :
    ∀ {l : List UInt8} {i v stop v' : ℕ} {hasDigit overflowed overflowed' : Bool},
      parseMouseDecimal terminators l i v hasDigit overflowed =
        .matched v' stop overflowed' → i ≤ stop ∧ stop < i + l.length
  | [], i, v, stop, v', hasDigit, overflowed, overflowed', h => by
    unfold parseMouseDecimal at h
    split_ifs at h
  | byte :: rest, i, v, stop, v', hasDigit, overflowed, overflowed', h => by
    unfold parseMouseDecimal at h
    dsimp only at h
    split_ifs at h
    · obtain ⟨-, rfl, -⟩ := MouseDecimalDecode.matched.inj h
      exact ⟨le_refl _, Nat.lt_add_of_pos_right (succ_pos _)⟩
    all_goals
      obtain ⟨hle, hlt⟩ := parseMouseDecimal_stop h
      rw [length_cons]
      omega

/-- What the three decimals of a report are. -/
inductive SgrMouseDecode
  | incomplete (overflowed : Bool)
  | invalid
  | matched (b x y stop : ℕ) (overflowed : Bool)
  deriving DecidableEq

def parseSgrMouse (sgrInput : List UInt8) : SgrMouseDecode :=
  match parseMouseDecimal [0x3b] (sgrInput.drop 3) 3 0 false false with
  | .incomplete => .incomplete false
  | .overlong => .incomplete true
  | .invalid => .invalid
  | .matched b afterB overflowed =>
    match parseMouseDecimal [0x3b] (sgrInput.drop (afterB + 1)) (afterB + 1) 0 false false with
    | .incomplete => .incomplete overflowed
    | .overlong => .incomplete true
    | .invalid => .invalid
    | .matched x afterX xOverflowed =>
      match parseMouseDecimal [0x4d, 0x6d] (sgrInput.drop (afterX + 1)) (afterX + 1) 0 false false with
      | .incomplete => .incomplete (overflowed || xOverflowed)
      | .overlong => .incomplete true
      | .invalid => .invalid
      | .matched y afterY yOverflowed =>
        .matched b x y afterY (overflowed || xOverflowed || yOverflowed)

theorem parseSgrMouse_stop {sgrInput : List UInt8} {b x y stop : ℕ} {overflowed : Bool}
    (h : parseSgrMouse sgrInput = .matched b x y stop overflowed) : stop < sgrInput.length := by
  unfold parseSgrMouse at h
  split at h <;> try cases h
  split at h <;> try cases h
  split at h <;> try cases h
  rename_i hy
  have hsp := parseMouseDecimal_stop hy
  rw [length_drop] at hsp
  omega

def maxSgrMouseFrameBytes : ℕ := 32

def incompleteSgrMouse (inputLen : ℕ) (overflowed : Bool) : MouseDecode :=
  if maxSgrMouseFrameBytes ≤ inputLen then .discard inputLen
  else if overflowed then .overlong
  else .incomplete

def mouseWheel (button : ℕ) : Bool := button &&& 195 == 64 || button &&& 195 == 65

def isMousePrefix (input : List UInt8) : Bool :=
  startsWith [0x1b, 0x5b, 0x4d] input || startsWith [0x1b, 0x5b, 0x3c] input

/-- A report as three bytes. -/
def decodeX10Mouse (input : List UInt8) (last : Option MouseForwardEvent) : MouseDecode :=
  match input.drop 3 with
  | b :: x :: y :: _ =>
    if b < 0x20 || x < 0x21 || y < 0x21 then .discard 6
    else
      let previous := last.getD .before
      .matched 6
        { lx := previous.x, ly := previous.y, lb := previous.b, b := b.toNat - 0x20,
          x := x.toNat - 0x21, y := y.toNat - 0x21, sgrB := 0, sgrType := 0x20, ignore := false }
  | _ => .incomplete

/-- A report as three decimals. -/
def decodeSgrMouse (input : List UInt8) (last : Option MouseForwardEvent) : MouseDecode :=
  match parseSgrMouse (input.take maxSgrMouseFrameBytes) with
  | .incomplete overflowed => incompleteSgrMouse input.length overflowed
  | .invalid => .invalid
  | .matched b x y afterY overflowed =>
    let terminator := input.getD afterY 0
    if overflowed then .discard (afterY + 1)
    else if x < 1 || y < 1 then .discard (afterY + 1)
    else if terminator == 0x6d && mouseWheel b then .discard (afterY + 1)
    else
      let previous := last.getD .before
      .matched (afterY + 1)
        { lx := previous.x, ly := previous.y, lb := previous.b,
          b := if terminator == 0x6d then 3 else b, x := x - 1, y := y - 1, sgrB := b,
          sgrType := terminator, ignore := false }

def decodeMouse (input : List UInt8) (last : Option MouseForwardEvent) : MouseDecode :=
  if input.head? ≠ some 0x1b then .invalid
  else if input.length = 1 then .incomplete
  else if input[1]? ≠ some 0x5b then .invalid
  else if input.length = 2 then .incomplete
  else if input[2]? = some 0x4d then decodeX10Mouse input last
  else if input[2]? ≠ some 0x3c then .invalid
  else decodeSgrMouse input last

theorem decodeX10Mouse_fits : (decodeX10Mouse input last).Fits input.length := by
  unfold decodeX10Mouse
  split
  · rename_i b x y rest hdp
    have hlen : input.length - 3 = rest.length + 3 := by
      rw [← length_drop, hdp]
      rfl
    split <;> exact ⟨by omega, by omega⟩
  · trivial

theorem decodeSgrMouse_fits : (decodeSgrMouse input last).Fits input.length := by
  unfold decodeSgrMouse
  split
  · unfold incompleteSgrMouse
    split_ifs with hlg
    · exact ⟨lt_of_lt_of_le (by decide) hlg, le_refl _⟩
    all_goals trivial
  · trivial
  · rename_i afterY _ hm
    have hsp := parseSgrMouse_stop hm
    have hft : 0 < afterY + 1 ∧ afterY + 1 ≤ input.length :=
      ⟨succ_pos _, hsp.trans_le (length_take_le' _ _)⟩
    dsimp only
    split_ifs <;> exact hft

theorem decodeMouse_fits : (decodeMouse input last).Fits input.length := by
  unfold decodeMouse
  split_ifs
  exacts [trivial, trivial, trivial, trivial, decodeX10Mouse_fits input last, trivial,
    decodeSgrMouse_fits input last]

end Rmux.Input
