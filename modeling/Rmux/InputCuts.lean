import Rmux.InputPlaces

/-!
# Cutting a client's input into reads

What the loop has decided at a place stays decided when more bytes follow (`decodeAt_append`), with
two exceptions. A control sequence that no decoder waits for is handed over byte by byte although
its end would have made it an answer of the terminal or a key (`isOpenCsi`), and in a mouse report
of three bytes that is cut a byte of the report is taken for the end of an answer (`answers`).
`cleanCut` says that a read is not cut there.
-/

namespace Rmux.Input

open List Option

variable {surface : Surface} {last : Option MouseForwardEvent} {l m : List UInt8}
  {rest : List UInt8} {first : UInt8}

/-! ## Where a cut makes a difference -/

/-- The first byte of `rest` that is no parameter makes an answer of the terminal of the control sequence
`seen`. -/
def answers (seen rest : List UInt8) : Bool :=
  match rest.scan csiStop with
  | some (offset, true) => decodeFinal (seen ++ rest) (seen.length + offset) != .notResponse
  | _ => false

/-- The unfinished control sequence may still become a mouse report or a key with modifiers. -/
def isHeld (seen : List UInt8) : Bool :=
  (startsWith [0x1b, 0x5b, 0x3c] seen && seen.length < maxSgrMouseFrameBytes &&
    (parseSgrMouse seen == .incomplete false || parseSgrMouse seen == .incomplete true)) ||
  extendedKeyEnd seen == seen.length

/-- An unfinished control sequence with a parameter that no decoder waits for. -/
def isOpenCsi (seen : List UInt8) : Bool :=
  startsWith [0x1b, 0x5b] seen && 3 ≤ seen.length && (seen.drop 2).all isCsiBody &&
    !isPlausibleTerminalResponsePrefix seen && !isHeld seen

/-- A read may end between `chunk` and what comes `later`, when `kept` was kept from the reads before. -/
def cleanCut (kept chunk later : List UInt8) : Bool :=
  !(startsWith [0x1b, 0x5b, 0x4d] kept && answers kept chunk) &&
    (kept ++ chunk).tails.all fun seen =>
      !isOpenCsi seen || (!answers seen later && decodeCsiKey (seen ++ later) == .invalid)

/-! ## Control sequences on longer input -/

theorem csiStop_cons_eq_none {byte : UInt8} :
    csiStop (byte :: l) = none ↔ isCsiBody byte = true := by
  have hdisjoint : isCsiFinal byte = true → isCsiBody byte = false := by
    grind [isCsiFinal, isCsiBody]
  simp only [csiStop]
  split_ifs with hfinal hb
  · simp [hdisjoint hfinal]
  · simpa using hb
  · simpa using hb

theorem scan_csiStop_eq_none : ∀ {l : List UInt8}, l.scan csiStop = none ↔ l.all isCsiBody = true
  | [] => by simp [List.scan]
  | byte :: l => by
    rw [List.scan_cons_eq_none_iff, csiStop_cons_eq_none, scan_csiStop_eq_none, List.all_cons,
      Bool.and_eq_true_iff]

theorem isForeign_of_isCsiBody {byte : UInt8} : isCsiBody byte = false → isForeign byte = true := by
  grind [isCsiBody, isForeign, isAsciiDigit]

theorem exists_isForeign {found : ℕ × Bool} (h : l.scanFrom csiStop 2 = some found) :
    ∃ byte ∈ l.drop 2, isForeign byte = true := by
  obtain ⟨hle, hlt, hat⟩ := scanFrom_eq_some h
  cases hdp : l.drop found.1 with
  | nil => rw [hdp] at hat; cases hat
  | cons byte tail =>
    have hmem : byte ∈ l.drop found.1 := hdp ▸ mem_cons_self
    refine ⟨byte, (drop_suffix_drop_left l hle).mem hmem, isForeign_of_isCsiBody ?_⟩
    rw [Bool.eq_false_iff]
    intro hb
    rw [hdp, csiStop_cons_eq_none.mpr hb] at hat
    cases hat

/-- What follows decides about a control sequence that has only parameters. -/
theorem scanFrom_csiStop_append (hl : 2 ≤ l.length) (h : l.scanFrom csiStop 2 = none) :
    (l ++ m).scanFrom csiStop 2 = (m.scan csiStop).map fun found => (l.length + found.1, found.2) := by
  rw [← looks_csiStop.scanFrom_resume m h hl (le_refl _), scanFrom, drop_left]

theorem isPlausible_append (hl : 3 ≤ l.length) :
    isPlausibleTerminalResponsePrefix (l ++ m) = isPlausibleTerminalResponsePrefix l := by
  unfold isPlausibleTerminalResponsePrefix
  rw [getElem?_append_left hl]

/-- What follows makes no answer of the terminal of a sequence that has only parameters. -/
theorem decodeTerminalResponse_unanswered (hl : startsWith [0x1b, 0x5b] l = true)
    (hlen : 3 ≤ l.length)
    (h : l.scanFrom csiStop 2 = none) (hanswer : isPlausibleTerminalResponsePrefix l = false)
    (hans : answers l m = false) : decodeTerminalResponseAfterAppend (l ++ m) 0 = .notResponse := by
  rw [decodeTerminalResponse_zero (startsWith_append hl), scanFrom_csiStop_append (by omega) h,
    isPlausible_append hlen, hanswer]
  unfold answers at hans
  match hsc : m.scan csiStop with
  | none => rfl
  | some (offset, false) => rfl
  | some (offset, true) =>
    rw [hsc] at hans
    simpa using hans

theorem decodeFocusEvent_append (h : 3 ≤ l.length) :
    decodeFocusEvent (l ++ m) = decodeFocusEvent l := by
  have hst (third : UInt8) : startsWith [0x1b, 0x5b, third] (l ++ m) =
      startsWith [0x1b, 0x5b, third] l :=
    startsWith_append_of_le h
  unfold decodeFocusEvent
  rw [hst, hst]

theorem ofResponse_append {other other' : Decoded} {decoded : TerminalResponseDecode}
    (hft : decoded.Fits l.length) (ho : decoded = .notResponse → other' = other) :
    ofResponse (l ++ m) other' decoded = ofResponse l other decoded := by
  match decoded with
  | .matched size (some event) => rfl
  | .matched size none => simp only [ofResponse, take_append_of_le_length hft.2]
  | .paneBound size => simp only [ofResponse, take_append_of_le_length hft.2]
  | .paletteResponse size index => simp only [ofResponse, take_append_of_le_length hft.2]
  | .clipboardResponse size selection content => rfl
  | .incomplete => rfl
  | .notResponse => exact ho rfl

theorem ofMouse_append {decoded : MouseDecode} (hft : decoded.Fits l.length) :
    ofMouse (l ++ m) decoded = ofMouse l decoded := by
  match decoded with
  | .discard size => simp only [ofMouse, take_append_of_le_length hft.2]
  | .matched size event => rfl
  | .incomplete | .overlong | .invalid => rfl

/-- The decoder does not wait for more. -/
def Decided (decoded : Decoded) : Prop := ∀ retention, decoded ≠ .retain retention

section Csi

variable {third : UInt8} {rest : List UInt8}

theorem decodeKeyboard_append
    (hdec : Decided (decodeKeyboard surface last (0x1b :: 0x5b :: third :: rest)))
    (hbd : unfinishedSgrMouse (0x1b :: 0x5b :: third :: (rest ++ m)) = false)
    (hkey : decodeCsiKey (0x1b :: 0x5b :: third :: rest) = .invalid →
      decodeCsiKey (0x1b :: 0x5b :: third :: (rest ++ m)) = .invalid) :
    decodeKeyboard surface last (0x1b :: 0x5b :: third :: (rest ++ m)) =
      decodeKeyboard surface last (0x1b :: 0x5b :: third :: rest) := by
  by_cases hms : third = 0x4d ∨ third = 0x3c
  · rw [decodeKeyboard_mouse surface last hms] at hdec
    rw [decodeKeyboard_mouse surface last hms, decodeKeyboard_mouse surface last hms,
      decodeMouse_append hbd (fun h => hdec .mouse (by rw [h]; rfl))
        (fun h => hdec .mouse (by rw [h]; rfl))]
    exact ofMouse_append (decodeMouse_fits _ last)
  · obtain ⟨hx10, hsgr⟩ := not_or.mp hms
    rw [decodeKeyboard_csi surface last hx10 hsgr] at hdec
    rw [decodeKeyboard_csi surface last hx10 hsgr, decodeKeyboard_csi surface last hx10 hsgr]
    have hext : decodeExtendedKey (0x1b :: 0x5b :: third :: rest) surface.backspace ≠
        .incomplete := by
      intro hinc
      rw [hinc] at hdec
      exact hdec _ rfl
    have hgr := decodeExtendedKey_append (m := m) (cons_ne_nil _ _) hext
    rw [cons_append, cons_append, cons_append] at hgr
    rw [hgr]
    cases hdecoded : decodeExtendedKey (0x1b :: 0x5b :: third :: rest) surface.backspace with
    | matched size key => rfl
    | incomplete => exact absurd hdecoded hext
    | invalid =>
      rw [hdecoded] at hdec
      cases hcsi : decodeCsiKey (0x1b :: 0x5b :: third :: rest) with
      | incomplete =>
        rw [hcsi] at hdec
        exact absurd rfl (hdec .attachedKey)
      | invalid => rw [hkey hcsi]
      | matched size key =>
        have hsm := decodeCsiKey_append (m := m) (by rw [hcsi]; nofun) (by rw [hcsi]; nofun)
        rw [cons_append, cons_append, cons_append] at hsm
        rw [hsm, hcsi]

/-- A sequence that no decoder waits for is not held. -/
theorem isHeld_eq_false
    (hdec : Decided (decodeKeyboard surface last (0x1b :: 0x5b :: third :: rest))) :
    isHeld (0x1b :: 0x5b :: third :: rest) = false := by
  rw [Bool.eq_false_iff]
  intro hheld
  rw [isHeld, Bool.or_eq_true_iff] at hheld
  rcases hheld with hsgr | hext
  · simp only [Bool.and_eq_true, startsWith_cons_cons, startsWith_nil, and_true, Bool.or_eq_true,
      beq_iff_eq, decide_eq_true_eq] at hsgr
    obtain ⟨⟨⟨-, -, rfl⟩, hlen⟩, hp⟩ := hsgr
    have htk : (0x1b :: 0x5b :: 0x3c :: rest).take maxSgrMouseFrameBytes =
        0x1b :: 0x5b :: 0x3c :: rest :=
      take_of_length_le hlen.le
    refine hdec .mouse ?_
    rw [decodeKeyboard_mouse surface last (Or.inr rfl), decodeMouse_csi, if_neg (by decide),
      if_pos rfl, decodeSgrMouse, htk]
    rcases hp with hp | hp <;>
      simp only [hp, incompleteSgrMouse, if_neg (not_le.mpr hlen), ofMouse] <;> rfl
  · have hend := beq_iff_eq.mp hext
    have hms : third ≠ 0x4d ∧ third ≠ 0x3c := by
      constructor <;> rintro rfl <;>
        simp [extendedKeyEnd, isExtendedKeyTerminator, isAsciiDigit] at hend
    have hinc : decodeExtendedKey (0x1b :: 0x5b :: third :: rest) surface.backspace =
        .incomplete := by
      simp [decodeExtendedKey, hend]
    refine hdec (if isAsciiDigit third then .extendedKey else .attachedKey) ?_
    rw [decodeKeyboard_csi surface last hms.1 hms.2, hinc]

theorem decodeBracketedPaste_bodyEnd {size bodyStart bodyEnd : ℕ}
    (h : decodeBracketedPasteAfterAppend l 0 = .matched size bodyStart bodyEnd) :
    bodyEnd ≤ l.length := by
  rw [decodeBracketedPaste_zero] at h
  split_ifs at h
  split at h
  · rename_i hf
    obtain ⟨-, -, rfl⟩ := BracketedPasteDecode.matched.inj h
    exact (scanFrom_eq_some hf).2.1.le
  · cases h

/-- Whatever is decided after `ESC [` stays decided. -/
theorem decodeAt_append_csi
    (hdec : Decided (decodeAt surface last 0 (0x1b :: 0x5b :: third :: rest)))
    (hbd : unfinishedSgrMouse (0x1b :: 0x5b :: third :: (rest ++ m)) = false)
    (ho : isOpenCsi (0x1b :: 0x5b :: third :: rest) = true →
      answers (0x1b :: 0x5b :: third :: rest) m = false ∧
        decodeCsiKey (0x1b :: 0x5b :: third :: (rest ++ m)) = .invalid) :
    decodeAt surface last 0 (0x1b :: 0x5b :: third :: (rest ++ m)) =
      decodeAt surface last 0 (0x1b :: 0x5b :: third :: rest) := by
  have hlen : 3 ≤ (0x1b :: 0x5b :: third :: rest).length := by simp
  have hcsi : startsWith [0x1b, 0x5b] (0x1b :: 0x5b :: third :: rest) = true := by simp
  have happ : 0x1b :: 0x5b :: third :: (rest ++ m) = 0x1b :: 0x5b :: third :: rest ++ m := rfl
  rw [decodeAt_csi] at hdec
  rw [decodeAt_csi, decodeAt_csi]
  have hpst : decodeBracketedPasteAfterAppend (0x1b :: 0x5b :: third :: rest) 0 ≠ .incomplete := by
    intro hpst
    rw [hpst] at hdec
    exact hdec _ rfl
  rw [happ, decodeBracketedPaste_append hlen hpst, decodeFocusEvent_append hlen]
  cases hdecoded : decodeBracketedPasteAfterAppend (0x1b :: 0x5b :: third :: rest) 0 with
  | matched size bodyStart bodyEnd =>
    dsimp only
    rw [take_append_of_le_length (decodeBracketedPaste_bodyEnd hdecoded)]
  | incomplete => exact absurd hdecoded hpst
  | notPaste =>
    rw [hdecoded] at hdec
    cases hfocus : decodeFocusEvent (0x1b :: 0x5b :: third :: rest) with
    | some event => rfl
    | none =>
      rw [hfocus] at hdec
      cases hsc : (0x1b :: 0x5b :: third :: rest).scanFrom csiStop 2 with
      | some found =>
        -- The byte that stops the sequence belongs to no number, so that no later tilde makes a key.
        rw [decodeTerminalResponse_append hcsi hsc]
        refine ofResponse_append (decodeTerminalResponse_fits _ 0) fun hnot => ?_
        rw [hnot] at hdec
        refine decodeKeyboard_append hdec hbd fun hinvalid => ?_
        rw [← hinvalid]
        exact decodeCsiKey_append (by rw [hinvalid]; nofun) fun _ => exists_isForeign hsc
      | none =>
        have hanswer : isPlausibleTerminalResponsePrefix (0x1b :: 0x5b :: third :: rest) = false := by
          rw [Bool.eq_false_iff]
          intro hanswer
          rw [decodeTerminalResponse_zero hcsi, hsc] at hdec
          rw [if_pos hanswer] at hdec
          exact hdec _ rfl
        have hresp : decodeTerminalResponseAfterAppend (0x1b :: 0x5b :: third :: rest) 0 =
            .notResponse := by
          rw [decodeTerminalResponse_zero hcsi, hsc]
          rw [hanswer, if_neg (by decide)]
        rw [hresp] at hdec
        have hb := scan_csiStop_eq_none.mp (scanFrom_eq_none.mp hsc)
        obtain ⟨hans, hkey⟩ := ho (by
          rw [isOpenCsi, hcsi, hb, hanswer, isHeld_eq_false hdec]
          simp)
        rw [hresp, decodeTerminalResponse_unanswered hcsi hlen hsc hanswer hans]
        exact decodeKeyboard_append hdec hbd fun _ => hkey

end Csi

/-! ## Other input on longer input -/

theorem decodeKeystroke_append (h : first ≠ 0x1b)
    (hdec : Decided (decodeKeystroke surface (first :: rest))) :
    decodeKeystroke surface (first :: (rest ++ m)) = decodeKeystroke surface (first :: rest) := by
  rw [decodeKeystroke_eq] at hdec
  rw [decodeKeystroke_eq, decodeKeystroke_eq, decodeLiveAttachedKey_append_of_ne h]
  intro hinc
  rw [hinc] at hdec
  exact hdec _ rfl

theorem decodeTyped_append (h : first ≠ 0x1b)
    (hdec : Decided (decodeTyped surface (first :: rest))) :
    decodeTyped surface (first :: (rest ++ m)) = decodeTyped surface (first :: rest) := by
  unfold decodeTyped at hdec ⊢
  rw [head?_cons] at hdec
  rw [head?_cons, head?_cons]
  by_cases hctl : (some first).all isAsciiControl = true
  · rw [if_pos hctl] at hdec
    rw [if_pos hctl, if_pos hctl]
    exact decodeKeystroke_append h hdec
  rw [if_neg hctl] at hdec
  rw [if_neg hctl, if_neg hctl]
  by_cases hasc : isAscii first = true
  · have hpl (rest : List UInt8) :
        plainKey (first :: rest) = some (UInt64.ofNat first.toNat, 1) := if_pos hasc
    rw [hpl] at hdec
    rw [hpl, hpl]
    dsimp only at hdec ⊢
    split_ifs at hdec ⊢
    · exact decodeKeystroke_append h hdec
    · rfl
  · have hpl (rest : List UInt8) : plainKey (first :: rest) =
        (decodeUtf8Char (first :: rest)).map fun decoded => (charKey decoded.1, decoded.2) :=
      if_neg hasc
    have hfin : isUnfinishedUtf8 (first :: rest) = false := by
      cases hchar : decodeUtf8Char (first :: rest) with
      | some decoded => exact isUnfinishedUtf8_of_decodeUtf8Char hchar
      | none =>
        rw [Bool.eq_false_iff]
        intro hunf
        rw [hpl, hchar] at hdec
        exact hdec .utf8 (if_pos hunf)
    have hgr := decodeUtf8Char_append (m := m) (cons_ne_nil _ _) hfin
    have hfin' := isUnfinishedUtf8_append (m := m) (cons_ne_nil _ _) hfin
    rw [cons_append] at hgr hfin'
    rw [hpl] at hdec
    rw [hpl, hpl, hgr, hfin, hfin']
    cases hchar : decodeUtf8Char (first :: rest) with
    | none => rfl
    | some decoded =>
      rw [hchar, map_some] at hdec
      rw [map_some]
      dsimp only at hdec ⊢
      split_ifs at hdec ⊢
      · exact decodeKeystroke_append h hdec
      · rfl

theorem decodeString_append (hb : stringBody (l ++ m) = stringBody l)
    (hdec : Decided (decodeString surface last l)) (hkbd : Decided (decodeKeyboard surface last l) →
      decodeKeyboard surface last (l ++ m) = decodeKeyboard surface last l) :
    decodeString surface last (l ++ m) = decodeString surface last l := by
  unfold decodeString decodePaneBoundTerminalString at hdec ⊢
  rw [hb]
  cases hstr : stringBody l with
  | none =>
    rw [hstr] at hdec
    exact hkbd hdec
  | some body =>
    rw [hstr] at hdec
    dsimp only at hdec ⊢
    cases hf : findOpaqueTerminator l body.1 body.2 with
    | none =>
      rw [hf] at hdec
      exact absurd rfl (hdec .paneBoundString)
    | some size =>
      have hle : size ≤ l.length := by
        obtain ⟨found, hsc, rfl⟩ := map_eq_some_iff.mp hf
        exact (scanFrom_stringEnd_size hsc).2
      rw [findOpaqueTerminator_append hf]
      dsimp only
      rw [take_append_of_le_length hle]

theorem stringBody_escape (second : UInt8) (rest rest' : List UInt8) :
    stringBody (0x1b :: second :: rest) = stringBody (0x1b :: second :: rest') := by
  simp [stringBody]

theorem stringBody_of_ne (h : first ≠ 0x1b) (rest rest' : List UInt8) :
    stringBody (first :: rest) = stringBody (first :: rest') := by
  simp [stringBody, h.symm]

theorem decodeString_append_of_ne (h : first ≠ 0x1b)
    (hdec : Decided (decodeString surface last (first :: rest))) :
    decodeString surface last (first :: (rest ++ m)) = decodeString surface last (first :: rest) := by
  refine decodeString_append (stringBody_of_ne h _ _) hdec fun hkbd => ?_
  rw [decodeKeyboard_of_ne surface last h] at hkbd
  rw [cons_append, decodeKeyboard_of_ne surface last h, decodeKeyboard_of_ne surface last h]
  exact decodeTyped_append h hkbd

theorem decodeString_append_escape {second : UInt8} (h : second ≠ 0x5b)
    (hdec : Decided (decodeString surface last (0x1b :: second :: rest))) :
    decodeString surface last (0x1b :: second :: (rest ++ m)) =
      decodeString surface last (0x1b :: second :: rest) := by
  refine decodeString_append (stringBody_escape _ _ _) hdec fun hkbd => ?_
  rw [decodeKeyboard_escape surface last h, decodeKeystroke_eq] at hkbd
  rw [cons_append, cons_append, decodeKeyboard_escape surface last h,
    decodeKeyboard_escape surface last h, decodeKeystroke_eq, decodeKeystroke_eq,
    decodeLiveAttachedKey_append h]
  intro hinc
  rw [hinc] at hkbd
  exact hkbd _ rfl

/-! ## A place on longer input -/

theorem decodeAt_append_of_ne (h : first ≠ 0x1b)
    (hdec : Decided (decodeAt surface last 0 (first :: rest))) :
    decodeAt surface last 0 (first :: rest ++ m) = decodeAt surface last 0 (first :: rest) := by
  have ho (rest : List UInt8) : isOther (first :: rest) = true := by simp [isOther, h]
  rw [decodeAt_other surface last 0 (ho _)] at hdec
  rw [cons_append, decodeAt_other surface last 0 (ho _), decodeAt_other surface last 0 (ho _)]
  exact decodeString_append_of_ne h hdec

theorem decodeAt_append_osc (hdec : Decided (decodeAt surface last 0 (0x1b :: 0x5d :: rest))) :
    decodeAt surface last 0 (0x1b :: 0x5d :: rest ++ m) =
      decodeAt surface last 0 (0x1b :: 0x5d :: rest) := by
  have hl : startsWith [0x1b, 0x5d] (0x1b :: 0x5d :: rest) = true := by simp
  rw [decodeAt_osc] at hdec
  rw [cons_append, cons_append, decodeAt_osc, decodeAt_osc]
  have hgr : decodeOscSequence (0x1b :: 0x5d :: (rest ++ m)) 0 =
      decodeOscSequence (0x1b :: 0x5d :: rest) 0 := by
    refine decodeOscSequence_append hl fun hinc => ?_
    rw [hinc] at hdec
    exact hdec _ rfl
  rw [hgr]
  refine ofResponse_append (decodeOscSequence_fits _ 0) fun hnot => ?_
  rw [hnot] at hdec
  exact decodeString_append_escape (by decide) hdec

theorem decodeAt_append_apc (hdec : Decided (decodeAt surface last 0 (0x1b :: 0x5f :: rest))) :
    decodeAt surface last 0 (0x1b :: 0x5f :: rest ++ m) =
      decodeAt surface last 0 (0x1b :: 0x5f :: rest) := by
  rw [decodeAt_apc] at hdec
  match rest with
  | [] =>
    refine absurd ?_ (hdec .kittyGraphicsApc)
    simp [decodeKittyGraphicsApcAfterAppend, kittyGraphicsApcStart]
  | third :: rest =>
    have hgr : decodeKittyGraphicsApcAfterAppend (0x1b :: 0x5f :: third :: (rest ++ m)) 0 =
        decodeKittyGraphicsApcAfterAppend (0x1b :: 0x5f :: third :: rest) 0 := by
      refine decodeKittyGraphicsApc_append fun hinc => ?_
      rw [hinc] at hdec
      exact hdec _ rfl
    rw [cons_append, cons_append, cons_append, decodeAt_apc, decodeAt_apc, hgr]
    cases hdecoded : decodeKittyGraphicsApcAfterAppend (0x1b :: 0x5f :: third :: rest) 0 with
    | matched size =>
      have htk : (0x1b :: 0x5f :: third :: (rest ++ m)).take size =
          (0x1b :: 0x5f :: third :: rest).take size :=
        take_append_of_le_length (decodeKittyGraphicsApc_size hdecoded).2
      dsimp only
      rw [htk]
    | incomplete => rfl
    | notKittyGraphics =>
      rw [hdecoded] at hdec
      exact decodeString_append_escape (by decide) hdec

/-- Whatever is decided at a place stays decided when more bytes follow. -/
theorem decodeAt_append (hl : l ≠ []) (hdec : Decided (decodeAt surface last 0 l))
    (hbd : unfinishedSgrMouse (l ++ m) = false)
    (hopen : isOpenCsi l = true → answers l m = false ∧ decodeCsiKey (l ++ m) = .invalid) :
    decodeAt surface last 0 (l ++ m) = decodeAt surface last 0 l := by
  match l with
  | [] => exact absurd rfl hl
  | [first] =>
    by_cases hfst : first = 0x1b
    · subst hfst
      exact absurd (decodeAt_lone_escape surface last 0) (hdec _)
    · exact decodeAt_append_of_ne hfst hdec
  | first :: second :: rest =>
    by_cases hfst : first = 0x1b
    · subst hfst
      by_cases hcsi : second = 0x5b
      · subst hcsi
        match rest with
        | [] => exact absurd (decodeAt_open_csi surface last 0) (hdec _)
        | third :: rest => exact decodeAt_append_csi hdec hbd hopen
      by_cases hosc : second = 0x5d
      · subst hosc
        exact decodeAt_append_osc hdec
      by_cases hapc : second = 0x5f
      · subst hapc
        exact decodeAt_append_apc hdec
      have ho (rest : List UInt8) : isOther (0x1b :: second :: rest) = true := by
        simp [isOther, hcsi, hosc, hapc]
      rw [decodeAt_other surface last 0 (ho _)] at hdec
      rw [cons_append, cons_append, decodeAt_other surface last 0 (ho _),
        decodeAt_other surface last 0 (ho _)]
      exact decodeString_append_escape hcsi hdec
    · exact decodeAt_append_of_ne hfst hdec

end Rmux.Input
