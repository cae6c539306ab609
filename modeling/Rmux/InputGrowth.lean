import Rmux.AttachedInput

/-!
# Decoders on longer input

What a decoder has decided does not change when more bytes follow (`decodeLiveAttachedKey_append`,
`decodeMouse_append`), and every end marker that was found stays the first one (`looks_marker`).
There are two exceptions : a mouse report that is cut off after 32 bytes takes whatever follows, and
a key that ends with a tilde is refused until the tilde is there.
-/

namespace Rmux.Input

open List Option Nat Bool

variable {l m : List UInt8} {r start : List UInt8} {byte first third : UInt8}
  {backspace : Option UInt8} {size : ℕ} {last : Option MouseForwardEvent}

/-! ## Markers -/

theorem startsWith_append_of_le (h : start.length ≤ l.length) :
    startsWith start (l ++ m) = startsWith start l := by
  rw [Bool.eq_iff_iff, startsWith_iff, startsWith_iff]
  exact ⟨fun hpre => prefix_of_prefix_length_le hpre (prefix_append l m) h,
    fun hpre => hpre.trans (prefix_append l m)⟩

theorem startsWith_append (h : startsWith start l = true) : startsWith start (l ++ m) = true :=
  (startsWith_append_of_le (length_le_of_startsWith h)).trans h

/-- Bytes that are no beginning of a marker have it at their start already, or never will. -/
theorem startsWith_append_of_not (h : startsWith l start = false) :
    startsWith start (l ++ m) = startsWith start l ∧ startsWith (l ++ m) start = false := by
  have hpre : ¬l <+: start := fun hpre => by
    rw [startsWith_iff.mpr hpre] at h
    cases h
  constructor
  · rw [Bool.eq_iff_iff]
    refine ⟨fun hgr => ?_, startsWith_append⟩
    have hcases := prefix_or_prefix_of_prefix (prefix_append l m) (startsWith_iff.mp hgr)
    exact startsWith_iff.mpr (hcases.resolve_left hpre)
  · rw [eq_false_iff]
    exact fun hgr => hpre ((prefix_append l m).trans (startsWith_iff.mp hgr))

@[simp]
theorem startsWith_nil (l : List UInt8) : startsWith [] l = true := by
  cases l <;> rfl

@[simp]
theorem startsWith_cons_nil (a : UInt8) (start : List UInt8) : startsWith (a :: start) [] = false :=
  rfl

@[simp]
theorem startsWith_cons_cons (a b : UInt8) (start l : List UInt8) :
    startsWith (a :: start) (b :: l) = (a == b && startsWith start l) :=
  rfl

theorem looks_marker {needle : List UInt8} (h : 0 < needle.length) :
    List.Looks (marker needle) needle.length where
  pos := h
  grow m hl := by
    unfold marker at hl ⊢
    split_ifs at hl with hst
    exact if_pos (startsWith_append hst)
  far m hl := by
    unfold marker
    rw [startsWith_append_of_le hl]
  size hl := le_succ_of_le (marker_size hl)

theorem looks_stringEnd (bell single : Bool) : List.Looks (stringEnd bell single) 2 where
  pos := by omega
  grow {l b} m hl := by
    cases l with
    | nil => simp [stringEnd, stringTerminator] at hl
    | cons byte l =>
      unfold stringEnd at hl ⊢
      rw [cons_append, head?_cons] at *
      split_ifs at hl with hbell hsingle hst
      · rwa [if_pos hbell]
      · rwa [if_neg hbell, if_pos hsingle]
      · have hlg : startsWith stringTerminator (byte :: (l ++ m)) = true := startsWith_append hst
        rwa [if_neg hbell, if_neg hsingle, if_pos hlg]
  far {l} m hl := by
    unfold stringEnd
    have hhd : (l ++ m).head? = l.head? := by
      rw [head?_append_of_ne_nil _ (ne_nil_of_length_pos (by omega))]
    have hst : startsWith stringTerminator (l ++ m) = startsWith stringTerminator l :=
      startsWith_append_of_le hl
    rw [hhd, hst]
  size {l b} hl := by
    have := stringEnd_size hl
    omega

theorem looks_csiStop : List.Looks csiStop 1 where
  pos := by omega
  grow {l b} m hl := by
    cases l with
    | nil => cases hl
    | cons byte l => exact hl
  far {l} m hl := by
    cases l with
    | nil => cases hl
    | cons byte l => rfl
  size _ := le_add_left _ _

/-! ## Keys with modifiers -/

theorem getElem?_append_of_eq_some {i : ℕ} (h : l[i]? = some byte) : (l ++ m)[i]? = some byte := by
  rw [getElem?_append_left (length_of_getElem?_eq_some h), h]

theorem extendedKeyEnd_append (h : 2 ≤ l.length) (hend : extendedKeyEnd l ≠ l.length) :
    extendedKeyEnd (l ++ m) = extendedKeyEnd l := by
  unfold extendedKeyEnd at hend ⊢
  rw [drop_append_of_le_length h]
  by_cases hlg : 62 ≤ (l.drop 2).length
  · rw [take_append_of_le_length hlg]
  · have htk : (l.drop 2).take 62 = l.drop 2 := take_of_length_le (by omega)
    rw [take_append, htk, takeWhile_append, if_neg]
    rw [htk] at hend
    intro hall
    rw [hall, length_drop] at hend
    omega

theorem extendedKeyEnd_le (h : 2 ≤ l.length) : extendedKeyEnd l ≤ l.length := by
  have hle := (takeWhile_sublist (fun byte => !isExtendedKeyTerminator byte &&
    (isAsciiDigit byte || byte == 0x3b)) (l := (l.drop 2).take 62)).length_le.trans
      (length_take_le' _ _)
  rw [length_drop] at hle
  unfold extendedKeyEnd
  omega

theorem decodeExtendedKey_append (hl : l ≠ []) (h : decodeExtendedKey l backspace ≠ .incomplete) :
    decodeExtendedKey (l ++ m) backspace = decodeExtendedKey l backspace := by
  have hhd : (l ++ m).head? = l.head? := head?_append_of_ne_nil _ hl
  unfold decodeExtendedKey at h ⊢
  rw [hhd]
  by_cases hesc : l.head? ≠ some 0x1b
  · rw [if_pos hesc, if_pos hesc]
  rw [if_neg hesc] at h
  rw [if_neg hesc, if_neg hesc]
  have hone : l.length ≠ 1 := fun hone => h (if_pos hone)
  have htwo : 2 ≤ l.length := by
    have := length_pos_iff.mpr hl
    omega
  have hsnd : (l ++ m)[1]? = l[1]? := getElem?_append_left htwo
  rw [if_neg hone] at h
  rw [if_neg hone, if_neg (by rw [length_append]; omega), hsnd]
  by_cases hbr : l[1]? ≠ some 0x5b
  · rw [if_pos hbr, if_pos hbr]
  rw [if_neg hbr] at h
  have hlen : l.length ≠ 2 := fun hlen => h (if_pos hlen)
  rw [if_neg hlen] at h
  have hend : extendedKeyEnd l ≠ l.length := fun hend => h (if_pos hend)
  have hlt : extendedKeyEnd l < l.length := lt_of_le_of_ne (extendedKeyEnd_le htwo) hend
  have hlg : extendedKeyEnd l ≠ (l ++ m).length := by
    rw [length_append]
    omega
  rw [if_neg hbr, if_neg hbr, if_neg hlen, if_neg (by rw [length_append]; omega),
    extendedKeyEnd_append htwo hend, if_neg hend, if_neg hlg, getElem?_append_left hlt,
    take_append_of_le_length hlt.le]

/-! ## Keys -/

/-- A byte that no number is spelled with. -/
def isForeign (byte : UInt8) : Bool := !isAsciiDigit byte && byte != 0x2b

theorem forall_byte {P : UInt8 → Prop} (h : ∀ n : Fin 256, P (UInt8.ofFin n)) (byte : UInt8) :
    P byte :=
  h byte.toFin

theorem parseNumber_of_isForeign {max : ℕ} (h : byte ∈ l) (hb : isForeign byte) :
    parseNumber max l = none := by
  have hd : ∀ byte : UInt8, (Char.ofNat byte.toNat).isDigit = isAsciiDigit byte :=
    forall_byte (by decide +kernel)
  have hplus : ∀ byte : UInt8, Char.ofNat byte.toNat = '+' → byte = 0x2b :=
    forall_byte (by decide +kernel)
  simp only [isForeign, and_eq_true, not_eq_true', bne_iff_ne] at hb
  have hmem : Char.ofNat byte.toNat ∈ l.map fun byte => Char.ofNat byte.toNat :=
    mem_map.mpr ⟨byte, h, rfl⟩
  have hnot : Char.ofNat byte.toNat ∉ (['+'] : List Char) := fun hmem =>
    hb.2 (hplus byte (mem_singleton.mp hmem))
  refine if_pos (Or.inr fun hall => ?_)
  have hr : Char.ofNat byte.toNat ∈
      if (l.map fun byte => Char.ofNat byte.toNat).head? = some '+' then
        (l.map fun byte => Char.ofNat byte.toNat).tail
      else l.map fun byte => Char.ofNat byte.toNat := by
    split_ifs with hsign
    · cases hl : l.map fun byte => Char.ofNat byte.toNat with
      | nil => rw [hl] at hmem; cases hmem
      | cons c cs =>
        rw [hl] at hmem hsign
        obtain rfl := some.inj hsign
        exact (mem_cons.mp hmem).resolve_left fun heq => hnot (heq ▸ mem_singleton_self _)
    · exact hmem
  have hfalse := all_eq_true.mp hall _ hr
  rw [hd, hb.1] at hfalse
  cases hfalse

theorem decodeCsiKey_append (h : decodeCsiKey l ≠ .incomplete)
    (hfor : decodeCsiKey l = .invalid → ∃ byte ∈ l.drop 2, isForeign byte) :
    decodeCsiKey (l ++ m) = decodeCsiKey l := by
  unfold decodeCsiKey at h hfor ⊢
  cases h3 : l[2]? with
  | none => simp only [h3] at h; cases h rfl
  | some third =>
    have hlen := length_of_getElem?_eq_some h3
    rw [h3] at h hfor
    rw [getElem?_append_of_eq_some h3]
    dsimp only at h hfor ⊢
    cases hletter : csiLetterKey third with
    | some key => rfl
    | none =>
      rw [hletter] at h hfor
      rw [drop_append_of_le_length hlen.le, findIdx?_append]
      cases htil : (l.drop 2).findIdx? (· == 0x7e) with
      | some tilde =>
        have hlt := (findIdx?_eq_some_iff_findIdx_eq.mp htil).1
        rw [some_or]
        dsimp only
        rw [take_append_of_le_length hlt.le]
      | none =>
        rw [htil] at h hfor
        rw [none_or]
        have hdigs := fun hdigs => h (if_pos hdigs)
        obtain ⟨byte, hmem, hb⟩ := hfor (if_neg hdigs)
        rw [if_neg hdigs]
        -- A tilde that comes later has the foreign byte before it.
        cases hlater : m.findIdx? (· == 0x7e) with
        | none =>
          refine if_neg fun hall => ?_
          have hd := all_eq_true.mp hall byte (mem_append_left _ hmem)
          simp [isForeign, hd] at hb
        | some tilde =>
          have hmem' : byte ∈ (l.drop 2 ++ m).take (tilde + (l.drop 2).length) := by
            rw [take_append]
            refine mem_append_left _ ?_
            rwa [take_of_length_le (le_add_left _ _)]
          rw [map_some]
          dsimp only
          rw [parseNumber_of_isForeign hmem' hb]
          rfl

theorem decodeSs3Key_append (h : 3 ≤ l.length) : decodeSs3Key (l ++ m) = decodeSs3Key l := by
  unfold decodeSs3Key
  rw [getElem?_append_left h]

/-! ## Characters -/

theorem utf8ExpectedLen_of_not_lead {lead : UInt8} (h : isUtf8LeadByte lead = false) :
    utf8ExpectedLen lead = 1 := by
  grind [isUtf8LeadByte, utf8ExpectedLen]

theorem utf8ExpectedLen_le (lead : UInt8) : utf8ExpectedLen lead ≤ 4 := by
  unfold utf8ExpectedLen
  split_ifs <;> decide

theorem decodeUtf8Char_append (hl : l ≠ []) (h : isUnfinishedUtf8 l = false) :
    decodeUtf8Char (l ++ m) = decodeUtf8Char l := by
  cases l with
  | nil => exact absurd rfl hl
  | cons first r =>
    have hlen : utf8ExpectedLen first ≤ (first :: r).length := by
      cases hlead : isUtf8LeadByte first with
      | true => simpa [isUnfinishedUtf8, hlead] using h
      | false =>
        rw [utf8ExpectedLen_of_not_lead hlead]
        exact succ_pos _
    have hlg : utf8ExpectedLen first ≤ (first :: (r ++ m)).length :=
      hlen.trans (by simp)
    have htk : (first :: (r ++ m)).take (utf8ExpectedLen first) =
        (first :: r).take (utf8ExpectedLen first) :=
      take_append_of_le_length hlen
    unfold decodeUtf8Char
    rw [cons_append]
    dsimp only
    rw [if_neg (not_lt.mpr hlen), if_neg (not_lt.mpr hlg), htk]

theorem isUnfinishedUtf8_append (hl : l ≠ []) (h : isUnfinishedUtf8 l = false) :
    isUnfinishedUtf8 (l ++ m) = false := by
  cases l with
  | nil => exact absurd rfl hl
  | cons first r =>
    simp only [isUnfinishedUtf8, cons_append, head?_cons, any_some,
      and_eq_false_iff, decide_eq_false_iff_not, not_lt] at h ⊢
    refine h.imp_right fun hle => hle.trans ?_
    simp

theorem isUnfinishedUtf8_of_decodeUtf8Char {decoded : Char × ℕ}
    (h : decodeUtf8Char l = some decoded) : isUnfinishedUtf8 l = false := by
  cases l with
  | nil => cases h
  | cons first r =>
    simp only [decodeUtf8Char] at h
    split_ifs at h with hlead hsh
    simp only [isUnfinishedUtf8, head?_cons, any_some, and_eq_false_iff, decide_eq_false_iff_not]
    exact Or.inr hsh

theorem decodeCharKey_eq (hl : l ≠ []) (taken : ℕ) (modifiers : KeyCode) :
    decodeCharKey l taken modifiers =
      match decodeUtf8Char l with
      | some (character, size) => .matched (taken + size) (charKey character ||| modifiers)
      | none => if isUnfinishedUtf8 l then .incomplete else .invalid := by
  cases l with
  | nil => exact absurd rfl hl
  | cons first r => rfl

theorem decodeCharKey_append {taken : ℕ} {modifiers : KeyCode} (hl : l ≠ [])
    (h : decodeCharKey l taken modifiers ≠ .incomplete) :
    decodeCharKey (l ++ m) taken modifiers = decodeCharKey l taken modifiers := by
  have hfin : isUnfinishedUtf8 l = false := by
    rw [decodeCharKey_eq hl] at h
    cases hdec : decodeUtf8Char l with
    | some decoded => exact isUnfinishedUtf8_of_decodeUtf8Char hdec
    | none =>
      rw [hdec] at h
      by_contra hunf
      exact h (if_pos (not_eq_false _ ▸ hunf))
  rw [decodeCharKey_eq hl, decodeCharKey_eq (append_ne_nil_of_left_ne_nil hl m),
    decodeUtf8Char_append hl hfin, isUnfinishedUtf8_append hl hfin, hfin]

/-! ## Keys of the live loop -/

/-- What stands after a byte that is not `ESC` plays no part. -/
theorem decodeAttachedKey_of_ne (h : first ≠ 0x1b) (r r' : List UInt8) :
    decodeAttachedKey (first :: r) backspace = decodeAttachedKey (first :: r') backspace := by
  simp only [decodeAttachedKey, if_neg h]

/-- A key after `ESC` that is neither `[` nor `O` is decided by that byte, once another one follows. -/
def metaKeyDecode (byte : UInt8) : KeyDecode :=
  if isAscii byte && !isAsciiControl byte then .matched 2 (metaKey byte)
  else
    match if byte = 0x1b then none else controlByteKey byte with
    | some key => .matched 2 (key ||| keycMeta ||| keycImpliedMeta)
    | none => .invalid

theorem decodeExtendedKey_of_ne (h : byte ≠ 0x5b) :
    decodeExtendedKey (0x1b :: byte :: r) backspace = .invalid := by
  simp [decodeExtendedKey, h]

theorem decodeEscapeKey_of_ne (h : byte ≠ 0x5b) : decodeEscapeKey (0x1b :: byte :: r) backspace =
      if byte = 0x4f then decodeSs3Key (0x1b :: byte :: r)
      else if r = [] ∧ metaKeyDecode byte = .invalid then .incomplete
      else metaKeyDecode byte := by
  unfold decodeEscapeKey
  rw [decodeExtendedKey_of_ne h]
  rw [getElem?_cons_succ, getElem?_cons_zero]
  dsimp only
  rw [if_neg h]
  split
  · rfl
  have hprintable : (isAscii byte && !isAsciiControl byte) = true → controlByteKey byte = none := by
    grind [isAscii, isAsciiControl, controlByteKey]
  unfold metaKeyDecode
  by_cases hasc : (isAscii byte && !isAsciiControl byte) = true
  · cases r with
    | nil => simp [hasc]
    | cons x r => simp [hasc, hprintable hasc]
  · rw [Bool.not_eq_true] at hasc
    simp only [Bool.and_assoc, hasc, Bool.and_false, Bool.false_eq_true, if_false]
    cases hkey : if byte = 0x1b then none else controlByteKey byte with
    | some key => simp
    | none =>
      cases r with
      | nil => simp
      | cons x r =>
        have hlen : ¬(0x1b :: byte :: x :: r).length < 3 := by simp
        rw [if_neg hlen, if_neg (by simp)]

theorem decodeEscapeKey_append (hb : byte ≠ 0x5b)
    (h : decodeEscapeKey (0x1b :: byte :: r) backspace ≠ .incomplete) :
    decodeEscapeKey (0x1b :: byte :: (r ++ m)) backspace =
      decodeEscapeKey (0x1b :: byte :: r) backspace := by
  rw [decodeEscapeKey_of_ne hb] at h
  rw [decodeEscapeKey_of_ne hb, decodeEscapeKey_of_ne hb]
  split_ifs at h ⊢ with hss3 hlg hsh hsh
  · cases r with
    | nil => exact absurd rfl h
    | cons x r => exact decodeSs3Key_append (l := 0x1b :: byte :: x :: r) (by simp)
  · exact absurd rfl h
  · exact absurd ⟨(append_eq_nil_iff.mp hlg.1).1, hlg.2⟩ hsh
  · exact absurd rfl h
  · rfl

theorem decodeLiveAttachedKey_escape (byte : UInt8) (r : List UInt8) (backspace : Option UInt8) :
    decodeLiveAttachedKey (0x1b :: byte :: r) backspace =
      match decodeEscapeKey (0x1b :: byte :: r) backspace with
      | .invalid =>
        if isAscii byte then .invalid
        else decodeCharKey (byte :: r) 1 (keycMeta ||| keycImpliedMeta)
      | decoded => decoded :=
  rfl

/-- A key after `ESC`, other than a control sequence, stays what it is. -/
theorem decodeLiveAttachedKey_append (hb : byte ≠ 0x5b)
    (h : decodeLiveAttachedKey (0x1b :: byte :: r) backspace ≠ .incomplete) :
    decodeLiveAttachedKey (0x1b :: byte :: (r ++ m)) backspace =
      decodeLiveAttachedKey (0x1b :: byte :: r) backspace := by
  rw [decodeLiveAttachedKey_escape] at h
  rw [decodeLiveAttachedKey_escape, decodeLiveAttachedKey_escape]
  cases hkey : decodeEscapeKey (0x1b :: byte :: r) backspace with
  | incomplete => exact absurd (by rw [hkey]) h
  | matched size key =>
    have hgr := decodeEscapeKey_append (m := m) hb (by rw [hkey]; nofun)
    rw [hgr, hkey]
  | invalid =>
    have hgr := decodeEscapeKey_append (m := m) hb (by rw [hkey]; nofun)
    rw [hkey] at h
    rw [hgr, hkey]
    split_ifs at h ⊢
    · rfl
    · exact decodeCharKey_append (cons_ne_nil _ _) h

theorem decodeLiveAttachedKey_of_ne (h : first ≠ 0x1b) (r : List UInt8)
    (backspace : Option UInt8) : decodeLiveAttachedKey (first :: r) backspace =
      match decodeAttachedKey [first] backspace with
      | .invalid => decodeCharKey (first :: r) 0 0
      | decoded => decoded := by
  rw [decodeAttachedKey_of_ne h [] r]
  unfold decodeLiveAttachedKey
  cases decodeAttachedKey (first :: r) backspace with
  | invalid => exact if_neg h
  | matched size key | incomplete => rfl

/-- A key that does not start with `ESC` stays what it is. -/
theorem decodeLiveAttachedKey_append_of_ne (hfst : first ≠ 0x1b)
    (h : decodeLiveAttachedKey (first :: r) backspace ≠ .incomplete) :
    decodeLiveAttachedKey (first :: (r ++ m)) backspace =
      decodeLiveAttachedKey (first :: r) backspace := by
  rw [decodeLiveAttachedKey_of_ne hfst] at h
  rw [decodeLiveAttachedKey_of_ne hfst, decodeLiveAttachedKey_of_ne hfst]
  cases hkey : decodeAttachedKey [first] backspace with
  | incomplete | matched size key => rfl
  | invalid =>
    rw [hkey] at h
    exact decodeCharKey_append (cons_ne_nil _ _) h

/-! ## The mouse -/

variable {terminators : List UInt8}

theorem parseMouseDecimal_append : ∀ {l : List UInt8} {i v : ℕ} {hasDigit overflowed : Bool},
      parseMouseDecimal terminators l i v hasDigit overflowed ≠ .incomplete →
      parseMouseDecimal terminators l i v hasDigit overflowed ≠ .overlong →
      parseMouseDecimal terminators (l ++ m) i v hasDigit overflowed =
        parseMouseDecimal terminators l i v hasDigit overflowed
  | [], i, v, hasDigit, overflowed, hinc, hover => by
    cases overflowed
    exacts [absurd rfl hinc, absurd rfl hover]
  | byte :: l, i, v, hasDigit, overflowed, hinc, hover => by
    rw [List.cons_append]
    unfold parseMouseDecimal at hinc hover ⊢
    dsimp only at hinc hover ⊢
    split_ifs at hinc hover ⊢
    · rfl
    · rfl
    · rfl
    · exact parseMouseDecimal_append hinc hover
    · exact parseMouseDecimal_append hinc hover

theorem decimal_append {start : ℕ} {decoded : MouseDecimalDecode} (hst : start ≤ l.length)
    (h : parseMouseDecimal terminators (l.drop start) start 0 false false = decoded)
    (hinc : decoded ≠ .incomplete) (hover : decoded ≠ .overlong) :
    parseMouseDecimal terminators ((l ++ m).drop start) start 0 false false = decoded := by
  subst h
  rw [drop_append_of_le_length hst]
  exact parseMouseDecimal_append hinc hover

/-- What the decimals of a report are does not change when more bytes follow, unless they are not there
yet. -/
theorem parseSgrMouse_append (h : ∀ overflowed, parseSgrMouse l ≠ .incomplete overflowed)
    (hl : 3 ≤ l.length) : parseSgrMouse (l ++ m) = parseSgrMouse l := by
  unfold parseSgrMouse at h ⊢
  cases hb : parseMouseDecimal [0x3b] (l.drop 3) 3 0 false false with
  | incomplete => exact absurd (by rw [hb]) (h false)
  | overlong => exact absurd (by rw [hb]) (h true)
  | invalid => rw [decimal_append hl hb nofun nofun]
  | matched b afterB overflowed =>
    have hsp := parseMouseDecimal_stop hb
    rw [length_drop] at hsp
    rw [hb] at h
    rw [decimal_append hl hb nofun nofun]
    dsimp only at h ⊢
    have hafterB : afterB + 1 ≤ l.length := by omega
    cases hx : parseMouseDecimal [0x3b] (l.drop (afterB + 1)) (afterB + 1) 0 false false with
    | incomplete => exact absurd (by rw [hx]) (h overflowed)
    | overlong => exact absurd (by rw [hx]) (h true)
    | invalid => rw [decimal_append hafterB hx nofun nofun]
    | matched x afterX xOverflowed =>
      have hsp := parseMouseDecimal_stop hx
      rw [length_drop] at hsp
      rw [hx] at h
      rw [decimal_append hafterB hx nofun nofun]
      dsimp only at h ⊢
      have hafterX : afterX + 1 ≤ l.length := by omega
      cases hy : parseMouseDecimal [0x4d, 0x6d] (l.drop (afterX + 1)) (afterX + 1) 0 false false with
      | incomplete => exact absurd (by rw [hy]) (h (overflowed || xOverflowed))
      | overlong => exact absurd (by rw [hy]) (h true)
      | invalid | matched => rw [decimal_append hafterX hy nofun nofun]

/-- The bytes start with a report that its first 32 bytes do not finish. -/
def unfinishedSgrMouse (input : List UInt8) : Bool :=
  startsWith [0x1b, 0x5b, 0x3c] input && maxSgrMouseFrameBytes ≤ input.length &&
    (parseSgrMouse (input.take maxSgrMouseFrameBytes) == .incomplete false ||
      parseSgrMouse (input.take maxSgrMouseFrameBytes) == .incomplete true)

theorem decodeSgrMouse_append (hl : startsWith [0x1b, 0x5b, 0x3c] l = true)
    (hbd : unfinishedSgrMouse (l ++ m) = false) (hinc : decodeSgrMouse l last ≠ .incomplete)
    (hover : decodeSgrMouse l last ≠ .overlong) :
    decodeSgrMouse (l ++ m) last = decodeSgrMouse l last := by
  have hlen : 3 ≤ l.length := length_le_of_startsWith hl
  have hp : ∀ overflowed,
      parseSgrMouse (l.take maxSgrMouseFrameBytes) ≠ .incomplete overflowed := by
    intro overflowed hp
    simp only [decodeSgrMouse, hp, incompleteSgrMouse] at hinc hover
    have hlg : maxSgrMouseFrameBytes ≤ l.length := by
      by_contra hsh
      rw [if_neg hsh] at hinc hover
      cases overflowed
      exacts [hinc rfl, hover rfl]
    simp only [unfinishedSgrMouse, startsWith_append hl, take_append_of_le_length hlg, hp,
      length_append] at hbd
    cases overflowed <;> simp [le_add_right_of_le hlg] at hbd
  have htk : 3 ≤ (l.take maxSgrMouseFrameBytes).length := by
    rw [length_take]
    exact le_min (by decide) hlen
  have hgr : parseSgrMouse ((l ++ m).take maxSgrMouseFrameBytes) =
      parseSgrMouse (l.take maxSgrMouseFrameBytes) := by
    rw [take_append, parseSgrMouse_append hp htk]
  unfold decodeSgrMouse
  rw [hgr]
  cases hdec : parseSgrMouse (l.take maxSgrMouseFrameBytes) with
  | incomplete overflowed => exact absurd hdec (hp overflowed)
  | invalid => rfl
  | matched b x y afterY overflowed =>
    have hsp : afterY < l.length :=
      (parseSgrMouse_stop hdec).trans_le (length_take_le' _ _)
    dsimp only
    rw [getD_eq_getElem?_getD, getD_eq_getElem?_getD, getElem?_append_left hsp]

theorem decodeMouse_csi (third : UInt8) (r : List UInt8) (last : Option MouseForwardEvent) :
    decodeMouse (0x1b :: 0x5b :: third :: r) last =
      if third = 0x4d then decodeX10Mouse (0x1b :: 0x5b :: third :: r) last
      else if third = 0x3c then decodeSgrMouse (0x1b :: 0x5b :: third :: r) last
      else .invalid := by
  simp [decodeMouse]

/-- A report stays what it is, unless it is one that takes whatever follows. -/
theorem decodeMouse_append (hbd : unfinishedSgrMouse (0x1b :: 0x5b :: third :: (r ++ m)) = false)
    (hinc : decodeMouse (0x1b :: 0x5b :: third :: r) last ≠ .incomplete)
    (hover : decodeMouse (0x1b :: 0x5b :: third :: r) last ≠ .overlong) :
    decodeMouse (0x1b :: 0x5b :: third :: (r ++ m)) last =
      decodeMouse (0x1b :: 0x5b :: third :: r) last := by
  rw [decodeMouse_csi] at hinc hover
  rw [decodeMouse_csi, decodeMouse_csi]
  split_ifs at hinc hover ⊢ with hx10 hsgr
  · match r with
    | [] | [_] | [_, _] => exact absurd rfl hinc
    | _ :: _ :: _ :: _ => rfl
  · exact decodeSgrMouse_append (by simp [hsgr]) hbd hinc hover
  · rfl

/-! ## Controls -/

theorem decodeBracketedPaste_zero (input : List UInt8) : decodeBracketedPasteAfterAppend input 0 =
      if startsWith bracketedPasteStart input then
        match input.scanFrom (marker bracketedPasteEnd) 6 with
        | some (bodyEnd, _) => .matched (bodyEnd + 6) 6 bodyEnd
        | none => .incomplete
      else if 3 ≤ input.length && startsWith input bracketedPasteStart then .incomplete
      else .notPaste := by
  unfold decodeBracketedPasteAfterAppend
  split_ifs with hst
  · have hlen : 6 ≤ input.length := length_le_of_startsWith hst
    have hsrch : min (max (0 - (bracketedPasteEnd.length - 1)) bracketedPasteStart.length)
        input.length = 6 := by
      simp only [bracketedPasteEnd, bracketedPasteStart, length_cons, length_nil]
      omega
    rw [hsrch]
    rfl
  · rfl
  · rfl

theorem decodeBracketedPaste_append (hl : 3 ≤ l.length)
    (h : decodeBracketedPasteAfterAppend l 0 ≠ .incomplete) :
    decodeBracketedPasteAfterAppend (l ++ m) 0 = decodeBracketedPasteAfterAppend l 0 := by
  rw [decodeBracketedPaste_zero] at h
  rw [decodeBracketedPaste_zero, decodeBracketedPaste_zero]
  by_cases hst : startsWith bracketedPasteStart l = true
  · rw [if_pos hst] at h
    rw [if_pos hst, if_pos (startsWith_append hst)]
    cases hf : l.scanFrom (marker bracketedPasteEnd) 6 with
    | none => exact absurd (by rw [hf]) h
    | some found => rw [(looks_marker (by decide)).scanFrom_append m hf]
  · rw [Bool.not_eq_true] at hst
    have hsh : startsWith l bracketedPasteStart = false := by
      rw [eq_false_iff]
      intro hsh
      simp [hst, hl, hsh] at h
    obtain ⟨hgr, hsh'⟩ := startsWith_append_of_not (m := m) hsh
    simp only [hgr, hst, hsh, hsh', Bool.and_false, Bool.false_eq_true, if_false]

theorem decodeKittyGraphicsApc_apc (third : UInt8) (r : List UInt8) :
    decodeKittyGraphicsApcAfterAppend (0x1b :: 0x5f :: third :: r) 0 =
      if third = 0x47 then
        match (0x1b :: 0x5f :: third :: r).scanFrom (marker stringTerminator) 3 with
        | some (bodyEnd, _) => .matched (bodyEnd + 2)
        | none => .incomplete
      else .notKittyGraphics := by
  have hsrch : min (max (0 - (stringTerminator.length - 1)) kittyGraphicsApcStart.length)
      (0x1b :: 0x5f :: third :: r).length = 3 := by
    simp only [stringTerminator, kittyGraphicsApcStart, length_cons, length_nil]
    omega
  unfold decodeKittyGraphicsApcAfterAppend
  rw [if_neg (by simp [kittyGraphicsApcStart]), hsrch]
  by_cases h3 : third = 0x47
  · rw [if_pos h3, if_pos (by simp [kittyGraphicsApcStart, h3])]
    rfl
  · rw [if_neg h3, if_neg (by simp [kittyGraphicsApcStart, Ne.symm h3])]

theorem decodeKittyGraphicsApc_append
    (h : decodeKittyGraphicsApcAfterAppend (0x1b :: 0x5f :: third :: r) 0 ≠ .incomplete) :
    decodeKittyGraphicsApcAfterAppend (0x1b :: 0x5f :: third :: (r ++ m)) 0 =
      decodeKittyGraphicsApcAfterAppend (0x1b :: 0x5f :: third :: r) 0 := by
  rw [decodeKittyGraphicsApc_apc] at h
  rw [decodeKittyGraphicsApc_apc, decodeKittyGraphicsApc_apc]
  split_ifs at h ⊢
  · cases hf : (0x1b :: 0x5f :: third :: r).scanFrom (marker stringTerminator) 3 with
    | none => exact absurd (by rw [hf]) h
    | some found =>
      have hgr := (looks_marker (by decide)).scanFrom_append m hf
      rw [cons_append, cons_append, cons_append] at hgr
      rw [hgr]
  · rfl

theorem decodeCompleteOscSequence_append {bodyEnd : ℕ} (hb : bodyEnd ≤ l.length)
    (hpalette : startsWith [0x1b, 0x5d, 0x34, 0x3b] (l ++ m) = startsWith [0x1b, 0x5d, 0x34, 0x3b] l)
    (hclipboard : startsWith [0x1b, 0x5d, 0x35, 0x32, 0x3b] (l ++ m) =
      startsWith [0x1b, 0x5d, 0x35, 0x32, 0x3b] l) :
    decodeCompleteOscSequence (l ++ m) bodyEnd size = decodeCompleteOscSequence l bodyEnd size := by
  unfold decodeCompleteOscSequence
  rw [hpalette, hclipboard, take_append_of_le_length hb]
  by_cases hst : startsWith [0x1b, 0x5d, 0x35, 0x32, 0x3b] l = true
  · have hlen : 5 ≤ l.length := length_le_of_startsWith hst
    have hlg : bodyEnd - 5 ≤ (l.drop 5).length := by
      rw [length_drop]
      omega
    rw [drop_append_of_le_length hlen, take_append_of_le_length hlg]
  · simp only [if_neg hst]

/-- The bytes may still become the beginning of an answer. -/
def isOscBeginning (input : List UInt8) : Bool :=
  consumedOscPrefixes.any fun start => input.length < start.length && startsWith input start

theorem startsWith_osc_append (hst : start ∈ consumedOscPrefixes) (h : isOscBeginning l = false) :
    startsWith start (l ++ m) = startsWith start l := by
  have hnot := any_eq_false.mp h start hst
  by_cases hlen : start.length ≤ l.length
  · exact startsWith_append_of_le hlen
  · refine (startsWith_append_of_not ?_).1
    simpa [not_le.mp hlen] using hnot

theorem isOscBeginning_append (h : isOscBeginning l = false) : isOscBeginning (l ++ m) = false := by
  refine any_eq_false.mpr fun start hst hgr => ?_
  obtain ⟨hlen, hpre⟩ := and_eq_true_iff.mp hgr
  refine any_eq_false.mp h start hst (and_eq_true_iff.mpr ⟨?_, ?_⟩)
  · rw [decide_eq_true_iff, length_append] at hlen
    exact decide_eq_true (by omega)
  · exact startsWith_iff.mpr ((prefix_append l m).trans (startsWith_iff.mp hpre))

theorem decodeOscSequence_eq (hl : startsWith [0x1b, 0x5d] l = true) (newInputAt : ℕ) :
    decodeOscSequence l newInputAt =
      if isOscBeginning l then .incomplete
      else if consumedOscPrefixes.any fun start => startsWith start l then
        match l.scanFrom (stringEnd true false) (min (max (newInputAt - 1) 2) l.length) with
        | some (bodyEnd, width) => decodeCompleteOscSequence l bodyEnd (bodyEnd + width)
        | none => .incomplete
      else .notResponse := by
  unfold decodeOscSequence isOscBeginning
  rw [hl]
  cases consumedOscPrefixes.any fun start => startsWith start l <;> rfl

theorem decodeOscSequence_zero (hl : startsWith [0x1b, 0x5d] l = true) : decodeOscSequence l 0 =
      if isOscBeginning l then .incomplete
      else if consumedOscPrefixes.any fun start => startsWith start l then
        match l.scanFrom (stringEnd true false) 2 with
        | some (bodyEnd, width) => decodeCompleteOscSequence l bodyEnd (bodyEnd + width)
        | none => .incomplete
      else .notResponse := by
  have hlen : 2 ≤ l.length := length_le_of_startsWith hl
  have hidx : min (max (0 - 1) 2) l.length = 2 := by omega
  rw [decodeOscSequence_eq hl, hidx]

theorem decodeOscSequence_append (hl : startsWith [0x1b, 0x5d] l = true)
    (h : decodeOscSequence l 0 ≠ .incomplete) :
    decodeOscSequence (l ++ m) 0 = decodeOscSequence l 0 := by
  rw [decodeOscSequence_zero hl] at h
  rw [decodeOscSequence_zero hl, decodeOscSequence_zero (startsWith_append hl)]
  have hbeg : isOscBeginning l = false := by
    rw [eq_false_iff]
    exact fun hbeg => h (if_pos hbeg)
  have hany : (consumedOscPrefixes.any fun start => startsWith start (l ++ m)) =
      consumedOscPrefixes.any fun start => startsWith start l := by
    rw [Bool.eq_iff_iff, List.any_eq_true, List.any_eq_true]
    refine exists_congr fun start => and_congr_right fun hst => ?_
    rw [startsWith_osc_append hst hbeg]
  rw [hbeg] at h
  rw [hbeg, isOscBeginning_append hbeg, hany]
  simp only [false_eq_true, if_false] at h ⊢
  split_ifs at h ⊢
  · cases hf : l.scanFrom (stringEnd true false) 2 with
    | none => exact absurd (by rw [hf]) h
    | some found =>
      rw [(looks_stringEnd true false).scanFrom_append m hf]
      exact decodeCompleteOscSequence_append (scanFrom_eq_some hf).2.1.le
        (startsWith_osc_append (by decide) hbeg) (startsWith_osc_append (by decide) hbeg)
  · rfl

/-! ## Control sequences -/

theorem decodeFinal_append {finalIndex : ℕ} (h : finalIndex < l.length) :
    decodeFinal (l ++ m) finalIndex = decodeFinal l finalIndex := by
  unfold decodeFinal decodeThemeReport isDecrpmResponse
  rw [getElem?_append_left h, take_append_of_le_length h,
    getElem?_append_left (lt_of_le_of_lt (sub_le _ _) h)]

theorem decodeTerminalResponse_eq (hl : startsWith [0x1b, 0x5b] l = true) (newInputAt : ℕ) :
    decodeTerminalResponseAfterAppend l newInputAt =
      match l.scanFrom csiStop (min (max newInputAt 2) l.length) with
      | some (finalIndex, true) => decodeFinal l finalIndex
      | some (_, false) => .notResponse
      | none => if isPlausibleTerminalResponsePrefix l then .incomplete else .notResponse := by
  unfold decodeTerminalResponseAfterAppend
  rw [hl]
  rfl

theorem decodeTerminalResponse_zero (hl : startsWith [0x1b, 0x5b] l = true) :
    decodeTerminalResponseAfterAppend l 0 =
      match l.scanFrom csiStop 2 with
      | some (finalIndex, true) => decodeFinal l finalIndex
      | some (_, false) => .notResponse
      | none => if isPlausibleTerminalResponsePrefix l then .incomplete else .notResponse := by
  have hlen : 2 ≤ l.length := length_le_of_startsWith hl
  have hsrch : min (max 0 2) l.length = 2 := by omega
  rw [decodeTerminalResponse_eq hl, hsrch]

/-- An answer that was found stays what it is, and so does a sequence that is none. -/
theorem decodeTerminalResponse_append {found : ℕ × Bool} (hl : startsWith [0x1b, 0x5b] l = true)
    (h : l.scanFrom csiStop 2 = some found) :
    decodeTerminalResponseAfterAppend (l ++ m) 0 = decodeTerminalResponseAfterAppend l 0 := by
  rw [decodeTerminalResponse_zero hl, decodeTerminalResponse_zero (startsWith_append hl), h,
    looks_csiStop.scanFrom_append m h]
  obtain ⟨finalIndex, final⟩ := found
  cases final with
  | false => rfl
  | true => exact decodeFinal_append (scanFrom_eq_some h).2.1

/-! ## Strings -/

theorem findOpaqueTerminator_append {offset : ℕ} {bell : Bool}
    (h : findOpaqueTerminator l offset bell = some size) :
    findOpaqueTerminator (l ++ m) offset bell = some size := by
  obtain ⟨found, hf, rfl⟩ := map_eq_some_iff.mp h
  rw [findOpaqueTerminator, (looks_stringEnd bell true).scanFrom_append m hf, map_some]

end Rmux.Input
