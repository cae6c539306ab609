import Rmux.InputCuts

/-!
# What is kept between two reads

A place that is undecided is looked at again in the next read, with the length of what was kept. The
decoders that then search from there on find what a search from the start would find (`decodeAt_resume`).
-/

namespace Rmux.Input

open List Option Bool

variable {surface : Surface} {last : Option MouseForwardEvent} {p c : List UInt8}
  {retention : Retention} {r l q : List UInt8} {third : UInt8} {size : ℕ}

/-! ## Unfinished control sequences -/

theorem isCsiBody_of_isAsciiDigit {byte : UInt8} :
    isAsciiDigit byte = true → isCsiBody byte = true := by
  grind [isAsciiDigit, isCsiBody]

/-- A decimal that is not finished has digits only. -/
theorem all_isCsiBody_of_unfinished {terminators : List UInt8} :
    ∀ {l : List UInt8} {i v : ℕ} {hasDigit overflowed : Bool},
      (parseMouseDecimal terminators l i v hasDigit overflowed = .incomplete ∨
        parseMouseDecimal terminators l i v hasDigit overflowed = .overlong) →
      l.all isCsiBody = true
  | [], _, _, _, _, _ => rfl
  | byte :: l, i, v, hasDigit, overflowed, h => by
    unfold parseMouseDecimal at h
    dsimp only at h
    rw [List.all_cons, Bool.and_eq_true_iff]
    split_ifs at h with hterm hd hb hnx
    · rcases h with h | h <;> cases h
    · rcases h with h | h <;> cases h
    · rcases h with h | h <;> cases h
    · exact ⟨isCsiBody_of_isAsciiDigit (by simpa using hb), all_isCsiBody_of_unfinished h⟩
    · exact ⟨isCsiBody_of_isAsciiDigit (by simpa using hb), all_isCsiBody_of_unfinished h⟩

/-- A decimal that is finished has digits and its terminator only. -/
theorem parseMouseDecimal_body :
    ∀ {l : List UInt8} {i v stop v' : ℕ} {hasDigit overflowed overflowed' : Bool},
      parseMouseDecimal [0x3b] l i v hasDigit overflowed = .matched v' stop overflowed' →
      (l.take (stop - i + 1)).all isCsiBody = true
  | [], i, v, stop, v', hasDigit, overflowed, overflowed', h => rfl
  | byte :: l, i, v, stop, v', hasDigit, overflowed, overflowed', h => by
    unfold parseMouseDecimal at h
    dsimp only at h
    split_ifs at h with hterm hd hb hnx
    · obtain ⟨-, rfl, -⟩ := MouseDecimalDecode.matched.inj h
      obtain rfl : byte = 0x3b := by simpa using hterm
      simp [isCsiBody]
    all_goals
      have hlt := (parseMouseDecimal_stop h).1
      have hsub : stop - i + 1 = stop - (i + 1) + 1 + 1 := by omega
      rw [hsub, take_succ_cons, all_cons, parseMouseDecimal_body h, Bool.and_true]
      exact isCsiBody_of_isAsciiDigit (by simpa using hb)

variable {overflowed : Bool}

theorem all_isCsiBody_of_matched {start v stop : ℕ}
    (h : parseMouseDecimal [0x3b] (l.drop start) start 0 false false = .matched v stop overflowed)
    (hr : (l.drop (stop + 1)).all isCsiBody = true) : (l.drop start).all isCsiBody = true := by
  have hle := (parseMouseDecimal_stop h).1
  have hsub : start + (stop - start + 1) = stop + 1 := by omega
  rw [← take_append_drop (stop - start + 1) (l.drop start), all_append,
    parseMouseDecimal_body h, drop_drop, hsub, hr]
  rfl

/-- A report that is not finished has parameters only. -/
theorem all_isCsiBody_of_parseSgrMouse
    (h : parseSgrMouse l = .incomplete overflowed) : (l.drop 3).all isCsiBody = true := by
  unfold parseSgrMouse at h
  cases hb : parseMouseDecimal [0x3b] (l.drop 3) 3 0 false false with
  | incomplete => exact all_isCsiBody_of_unfinished (Or.inl hb)
  | overlong => exact all_isCsiBody_of_unfinished (Or.inr hb)
  | invalid => rw [hb] at h; cases h
  | matched b afterB bOverflowed =>
    refine all_isCsiBody_of_matched hb ?_
    rw [hb] at h
    dsimp only at h
    cases hx : parseMouseDecimal [0x3b] (l.drop (afterB + 1)) (afterB + 1) 0 false false with
    | incomplete => exact all_isCsiBody_of_unfinished (Or.inl hx)
    | overlong => exact all_isCsiBody_of_unfinished (Or.inr hx)
    | invalid => rw [hx] at h; cases h
    | matched x afterX xOverflowed =>
      refine all_isCsiBody_of_matched hx ?_
      rw [hx] at h
      dsimp only at h
      cases hy : parseMouseDecimal [0x4d, 0x6d] (l.drop (afterX + 1)) (afterX + 1) 0 false false with
      | incomplete => exact all_isCsiBody_of_unfinished (Or.inl hy)
      | overlong => exact all_isCsiBody_of_unfinished (Or.inr hy)
      | invalid | matched y afterY yOverflowed => rw [hy] at h; cases h

theorem all_isCsiBody_of_extendedKeyEnd (hl : 2 ≤ l.length) (h : extendedKeyEnd l = l.length) :
    (l.drop 2).all isCsiBody = true := by
  unfold extendedKeyEnd at h
  have hdp : (l.drop 2).length = l.length - 2 := length_drop
  have hall : ((l.drop 2).take 62).takeWhile (fun byte =>
      !isExtendedKeyTerminator byte && (isAsciiDigit byte || byte == 0x3b)) = l.drop 2 :=
    ((takeWhile_sublist _).trans (take_sublist 62 _)).eq_of_length (by omega)
  refine all_eq_true.mpr fun byte hb => ?_
  rw [← hall] at hb
  have hk := mem_takeWhile_imp hb
  rw [and_eq_true_iff, or_eq_true_iff, beq_iff_eq] at hk
  rcases hk.2 with hd | rfl
  · exact isCsiBody_of_isAsciiDigit hd
  · decide

theorem extendedKeyEnd_of_incomplete {backspace : Option UInt8}
    (h : decodeExtendedKey (0x1b :: 0x5b :: third :: r) backspace = .incomplete) :
    extendedKeyEnd (0x1b :: 0x5b :: third :: r) = (0x1b :: 0x5b :: third :: r).length := by
  by_contra hend
  unfold decodeExtendedKey at h
  rw [if_neg (by simp), if_neg (by simp), if_neg (by simp), if_neg (by simp), if_neg hend] at h
  split_ifs at h
  split at h
  · cases h
  · split_ifs at h
    split at h <;> cases h

theorem all_isCsiBody_of_decodeCsiKey
    (h : decodeCsiKey (0x1b :: 0x5b :: third :: r) = .incomplete) :
    (third :: r).all isCsiBody = true := by
  unfold decodeCsiKey at h
  simp only [getElem?_cons_succ, getElem?_cons_zero, drop_succ_cons, drop_zero] at h
  split at h
  · cases h
  · split at h
    · split_ifs at h with hdigs
      exact all_eq_true.mpr fun byte hb =>
        isCsiBody_of_isAsciiDigit (all_eq_true.mp hdigs byte hb)
    · split at h <;> cases h

/-- What the keyboard waits for after `ESC [` is a mouse report of three bytes or has parameters only. -/
theorem csi_of_retained
    (h : decodeKeyboard surface last (0x1b :: 0x5b :: third :: r) = .retain retention) :
    (third = 0x4d ∧ r.length ≤ 2) ∨ (third :: r).all isCsiBody = true := by
  by_cases hx10 : third = 0x4d
  · subst hx10
    refine Or.inl ⟨rfl, ?_⟩
    rw [decodeKeyboard_mouse surface last (Or.inl rfl), decodeMouse_csi, if_pos rfl] at h
    match r with
    | [] | [_] | [_, _] => simp
    | b :: x :: y :: r =>
      simp only [decodeX10Mouse, drop_succ_cons, drop_zero] at h
      split_ifs at h <;> cases h
  by_cases hsgr : third = 0x3c
  · subst hsgr
    refine Or.inr ?_
    rw [decodeKeyboard_mouse surface last (Or.inr rfl), decodeMouse_csi, if_neg hx10, if_pos rfl] at h
    unfold decodeSgrMouse at h
    cases hp : parseSgrMouse ((0x1b :: 0x5b :: 0x3c :: r).take maxSgrMouseFrameBytes) with
    | invalid => rw [hp] at h; cases h
    | matched b x y afterY overflowed =>
      rw [hp] at h
      dsimp only at h
      split_ifs at h <;> cases h
    | incomplete overflowed =>
      rw [hp] at h
      have hsh : (0x1b :: 0x5b :: 0x3c :: r).length ≤ maxSgrMouseFrameBytes := by
        by_contra hlg
        simp only [incompleteSgrMouse, if_pos (not_le.mp hlg).le, ofMouse] at h
        cases h
      rw [take_of_length_le hsh] at hp
      have hb := all_isCsiBody_of_parseSgrMouse hp
      rw [all_cons, and_eq_true_iff]
      exact ⟨by decide, hb⟩
  · refine Or.inr ?_
    rw [decodeKeyboard_csi surface last hx10 hsgr] at h
    cases hext : decodeExtendedKey (0x1b :: 0x5b :: third :: r) surface.backspace with
    | matched size key => rw [hext] at h; cases h
    | incomplete =>
      exact all_isCsiBody_of_extendedKeyEnd (by simp) (extendedKeyEnd_of_incomplete hext)
    | invalid =>
      rw [hext] at h
      cases hkey : decodeCsiKey (0x1b :: 0x5b :: third :: r) with
      | matched size key | invalid => rw [hkey] at h; cases h
      | incomplete => exact all_isCsiBody_of_decodeCsiKey hkey

/-! ## Searches that are resumed -/

theorem decodeBracketedPaste_resume (h : ∀ size bodyStart bodyEnd,
      decodeBracketedPasteAfterAppend p 0 ≠ .matched size bodyStart bodyEnd) :
    decodeBracketedPasteAfterAppend (p ++ c) p.length = decodeBracketedPasteAfterAppend (p ++ c) 0 := by
  rw [decodeBracketedPaste_zero]
  unfold decodeBracketedPasteAfterAppend
  split_ifs with hst
  · have hn (ho : bracketedPasteStart.length ≤ p.length) :
        p.scanFrom (marker bracketedPasteEnd) bracketedPasteStart.length = none := by
      rw [startsWith_append_of_le ho] at hst
      rw [decodeBracketedPaste_zero, if_pos hst] at h
      change p.scanFrom (marker bracketedPasteEnd) 6 = none
      cases hf : p.scanFrom (marker bracketedPasteEnd) 6 with
      | none => rfl
      | some found =>
        rw [hf] at h
        exact absurd rfl (h _ _ _)
    have hlooks : Looks (marker bracketedPasteEnd) bracketedPasteEnd.length := looks_marker (by decide)
    dsimp only
    rw [hlooks.scanFrom_clamped hn (length_le_of_startsWith hst)]
    rfl
  · rfl
  · rfl

theorem decodeKittyGraphicsApc_resume
    (h : ∀ size, decodeKittyGraphicsApcAfterAppend (0x1b :: 0x5f :: third :: r) 0 ≠ .matched size) :
    decodeKittyGraphicsApcAfterAppend (0x1b :: 0x5f :: third :: (r ++ c)) (r.length + 3) =
      decodeKittyGraphicsApcAfterAppend (0x1b :: 0x5f :: third :: (r ++ c)) 0 := by
  rw [decodeKittyGraphicsApc_apc] at h ⊢
  unfold decodeKittyGraphicsApcAfterAppend
  rw [if_neg (by simp [kittyGraphicsApcStart])]
  by_cases h3 : third = 0x47
  · rw [if_pos h3] at h
    rw [if_pos h3, if_pos (by simp [kittyGraphicsApcStart, h3])]
    have hn : (0x1b :: 0x5f :: third :: r).scanFrom (marker stringTerminator) 3 = none := by
      cases hf : (0x1b :: 0x5f :: third :: r).scanFrom (marker stringTerminator) 3 with
      | none => rfl
      | some found =>
        rw [hf] at h
        exact absurd rfl (h _)
    have hsrch : (0x1b :: 0x5f :: third :: (r ++ c)).scanFrom (marker stringTerminator)
        (min (max (r.length + 3 - (stringTerminator.length - 1)) kittyGraphicsApcStart.length)
          (0x1b :: 0x5f :: third :: (r ++ c)).length) = _ :=
      (looks_marker (by decide)).scanFrom_clamped (fun _ => hn) (by simp)
    dsimp only
    rw [hsrch]
    rfl
  · rw [if_neg h3, if_neg (by simp [kittyGraphicsApcStart, Ne.symm h3])]

theorem scanFrom_of_isOscBeginning (h : isOscBeginning p = true) :
    p.scanFrom (stringEnd true false) 2 = none ∧ ∀ byte ∈ p.tail, byte ≠ 0x1b := by
  obtain ⟨start, hst, hpre⟩ := any_eq_true.mp h
  obtain ⟨hlen, hpre⟩ := and_eq_true_iff.mp hpre
  have htk : p = start.take p.length := prefix_iff_eq_take.mp (startsWith_iff.mp hpre)
  have hall : ∀ start ∈ consumedOscPrefixes, ∀ n < start.length,
      (start.take n).scanFrom (stringEnd true false) 2 = none ∧
        ∀ byte ∈ (start.take n).tail, byte ≠ 0x1b := by
    decide +kernel
  rw [htk]
  exact hall start hst p.length (of_decide_eq_true hlen)

theorem decodeCompleteOscSequence_ne (input : List UInt8) (bodyEnd size : ℕ) :
    decodeCompleteOscSequence input bodyEnd size ≠ .incomplete ∧
      decodeCompleteOscSequence input bodyEnd size ≠ .notResponse := by
  unfold decodeCompleteOscSequence
  dsimp only
  split
  · exact ⟨nofun, nofun⟩
  · split <;> exact ⟨nofun, nofun⟩

theorem decodeOscSequence_resume (hp : startsWith [0x1b, 0x5d] p = true)
    (h : decodeOscSequence p 0 = .incomplete ∨ decodeOscSequence p 0 = .notResponse) :
    decodeOscSequence (p ++ c) p.length = decodeOscSequence (p ++ c) 0 := by
  rw [decodeOscSequence_eq (startsWith_append hp), decodeOscSequence_zero (startsWith_append hp)]
  split_ifs with hbeg hany
  · rfl
  · have hn : p.scanFrom (stringEnd true false) 2 = none := by
      cases hsh : isOscBeginning p with
      | true => exact (scanFrom_of_isOscBeginning hsh).1
      | false =>
        obtain ⟨start, hst, hpre⟩ := any_eq_true.mp hany
        rw [startsWith_osc_append hst hsh] at hpre
        rw [decodeOscSequence_zero hp, if_neg (by simp [hsh]),
          if_pos (any_eq_true.mpr ⟨start, hst, hpre⟩)] at h
        cases hf : p.scanFrom (stringEnd true false) 2 with
        | none => rfl
        | some found =>
          rw [hf] at h
          exact absurd h (not_or.mpr (decodeCompleteOscSequence_ne _ _ _))
    rw [(looks_stringEnd true false).scanFrom_clamped (fun _ => hn)
      (length_le_of_startsWith (startsWith_append hp))]
  · rfl

/-- A search for the end of a control sequence that has parameters only so far. -/
theorem decodeTerminalResponse_resume (hp : startsWith [0x1b, 0x5b] p = true)
    (h : (p.drop 2).all isCsiBody = true) : decodeTerminalResponseAfterAppend (p ++ c) p.length =
      decodeTerminalResponseAfterAppend (p ++ c) 0 := by
  have hlen : 2 ≤ p.length := length_le_of_startsWith hp
  have hmin : min (max p.length 2) (p ++ c).length = p.length := by
    rw [length_append]
    omega
  have hn : p.scanFrom csiStop 2 = none :=
    scanFrom_eq_none.mpr (scan_csiStop_eq_none.mpr h)
  rw [decodeTerminalResponse_zero (startsWith_append hp),
    decodeTerminalResponse_eq (startsWith_append hp), hmin,
    looks_csiStop.scanFrom_resume c hn hlen (le_refl _)]

/-- A search for the end of a control sequence in a mouse report of three bytes. -/
theorem decodeTerminalResponse_mouse (h : answers (0x1b :: 0x5b :: 0x4d :: r) c = false) :
    decodeTerminalResponseAfterAppend (0x1b :: 0x5b :: 0x4d :: r ++ c) (r.length + 3) =
      decodeTerminalResponseAfterAppend (0x1b :: 0x5b :: 0x4d :: r ++ c) 0 := by
  have hst : startsWith [0x1b, 0x5b] (0x1b :: 0x5b :: 0x4d :: r ++ c) = true := by simp
  have hz : decodeTerminalResponseAfterAppend (0x1b :: 0x5b :: 0x4d :: r ++ c) 0 =
      .notResponse := by
    rw [decodeTerminalResponse_zero hst]
    simp [scanFrom, scan, csiStop, isCsiFinal, decodeFinal]
  have hmin : min (max (r.length + 3) 2) (0x1b :: 0x5b :: 0x4d :: r ++ c).length =
      (0x1b :: 0x5b :: 0x4d :: r).length := by
    simp only [length_append, length_cons]
    omega
  have hans : isPlausibleTerminalResponsePrefix (0x1b :: 0x5b :: 0x4d :: r ++ c) = false := by
    simp [isPlausibleTerminalResponsePrefix, isAsciiDigit]
  rw [hz, decodeTerminalResponse_eq hst, hmin, scanFrom, drop_left, hans]
  unfold answers at h
  cases hsc : c.scan csiStop with
  | none => rfl
  | some found =>
    obtain ⟨offset, _ | _⟩ := found
    · rfl
    · rw [hsc] at h
      simpa using h

/-! ## A place that is looked at again -/

theorem ofResponse_eq_retain {slice : List UInt8} {other : Decoded}
    {decoded : TerminalResponseDecode} (h : ofResponse slice other decoded = .retain retention) :
    decoded = .incomplete ∨ (decoded = .notResponse ∧ other = .retain retention) := by
  match decoded, h with
  | .incomplete, _ => exact Or.inl rfl
  | .notResponse, h => exact Or.inr ⟨rfl, h⟩

theorem decodeFinal_ne_incomplete (input : List UInt8) (finalIndex : ℕ) :
    decodeFinal input finalIndex ≠ .incomplete := by
  unfold decodeFinal
  dsimp only
  split_ifs <;> nofun

/-- What is waited for after `ESC [`, in a paste or not. -/
theorem csi_cases_of_retained
    (h : decodeAt surface last 0 (0x1b :: 0x5b :: third :: r) = .retain retention) :
    decodeBracketedPasteAfterAppend (0x1b :: 0x5b :: third :: r) 0 = .incomplete ∨
      (third = 0x4d ∧ r.length ≤ 2) ∨ (third :: r).all isCsiBody = true := by
  rw [decodeAt_csi] at h
  cases hpst : decodeBracketedPasteAfterAppend (0x1b :: 0x5b :: third :: r) 0 with
  | matched size bodyStart bodyEnd => rw [hpst] at h; cases h
  | incomplete => exact Or.inl rfl
  | notPaste =>
    refine Or.inr ?_
    rw [hpst] at h
    cases hfocus : decodeFocusEvent (0x1b :: 0x5b :: third :: r) with
    | some event => rw [hfocus] at h; cases h
    | none =>
      rw [hfocus] at h
      rcases ofResponse_eq_retain h with hresp | ⟨-, hkbd⟩
      · have hsc : (0x1b :: 0x5b :: third :: r).scanFrom csiStop 2 = none := by
          rw [decodeTerminalResponse_zero (by simp)] at hresp
          match hsc : (0x1b :: 0x5b :: third :: r).scanFrom csiStop 2 with
          | none => rfl
          | some (finalIndex, true) =>
            rw [hsc] at hresp
            exact absurd hresp (decodeFinal_ne_incomplete _ _)
          | some (finalIndex, false) => rw [hsc] at hresp; cases hresp
        exact Or.inr (scan_csiStop_eq_none.mp (scanFrom_eq_none.mp hsc))
      · exact csi_of_retained hkbd

/-- The beginning of a paste that is not there in full. -/
theorem pasteBeginning (h : decodeBracketedPasteAfterAppend p 0 = .incomplete)
    (hst : startsWith bracketedPasteStart p = false) :
    (p.drop 2).all isCsiBody = true ∧ ∀ byte ∈ p.tail, byte ≠ 0x1b := by
  rw [decodeBracketedPaste_zero, if_neg (by simp [hst])] at h
  split_ifs at h with hbeg
  obtain ⟨-, hpre⟩ := and_eq_true_iff.mp hbeg
  replace hpre := startsWith_iff.mp hpre
  have htk : p = bracketedPasteStart.take p.length := prefix_iff_eq_take.mp hpre
  have hlen : p.length < 6 := by
    refine lt_of_le_of_ne hpre.length_le fun hlen => ?_
    rw [hpre.eq_of_length hlen] at hst
    revert hst
    decide
  have hall : ∀ n < 6, ((bracketedPasteStart.take n).drop 2).all isCsiBody = true ∧
      ∀ byte ∈ (bracketedPasteStart.take n).tail, byte ≠ 0x1b := by
    decide +kernel
  rw [htk]
  exact hall p.length hlen

theorem decodeAt_resume_csi
    (hret : decodeAt surface last 0 (0x1b :: 0x5b :: third :: r) = .retain retention)
    (hms : third = 0x4d → answers (0x1b :: 0x5b :: third :: r) c = false) :
    decodeAt surface last (r.length + 3) (0x1b :: 0x5b :: third :: (r ++ c)) =
      decodeAt surface last 0 (0x1b :: 0x5b :: third :: (r ++ c)) := by
  have hpst : decodeBracketedPasteAfterAppend (0x1b :: 0x5b :: third :: (r ++ c))
      (r.length + 3) = decodeBracketedPasteAfterAppend (0x1b :: 0x5b :: third :: (r ++ c)) 0 := by
    refine decodeBracketedPaste_resume (p := 0x1b :: 0x5b :: third :: r) fun _ _ _ hm => ?_
    rw [decodeAt_csi, hm] at hret
    cases hret
  rw [decodeAt_csi, decodeAt_csi, hpst]
  have hresp (hb : (third :: r).all isCsiBody = true) :
      decodeTerminalResponseAfterAppend (0x1b :: 0x5b :: third :: (r ++ c)) (r.length + 3) =
        decodeTerminalResponseAfterAppend (0x1b :: 0x5b :: third :: (r ++ c)) 0 :=
    decodeTerminalResponse_resume (p := 0x1b :: 0x5b :: third :: r) (by simp) hb
  rcases csi_cases_of_retained hret with hinc | ⟨rfl, -⟩ | hb
  · cases hst : startsWith bracketedPasteStart (0x1b :: 0x5b :: third :: r) with
    | true =>
      -- The paste is open, and the other decoders are not asked.
      have hgr : startsWith bracketedPasteStart (0x1b :: 0x5b :: third :: (r ++ c)) = true :=
        startsWith_append hst
      rw [decodeBracketedPaste_zero, if_pos hgr]
      cases (0x1b :: 0x5b :: third :: (r ++ c)).scanFrom (marker bracketedPasteEnd) 6 <;> rfl
    | false => rw [hresp (pasteBeginning hinc hst).1]
  · have hans : decodeTerminalResponseAfterAppend (0x1b :: 0x5b :: 0x4d :: (r ++ c))
        (r.length + 3) =
        decodeTerminalResponseAfterAppend (0x1b :: 0x5b :: 0x4d :: (r ++ c)) 0 :=
      decodeTerminalResponse_mouse (hms rfl)
    rw [hans]
  · rw [hresp hb]

/-- A place that is looked at again is decided as if all the bytes had come at once. -/
theorem decodeAt_resume (hret : decodeAt surface last 0 p = .retain retention)
    (hms : startsWith [0x1b, 0x5b, 0x4d] p = true → answers p c = false) :
    decodeAt surface last p.length (p ++ c) = decodeAt surface last 0 (p ++ c) := by
  match p with
  | [] => rfl
  | [_] => exact decodeAt_of_le surface last (by simp) _
  | [_, _] => exact decodeAt_of_le surface last (by simp) _
  | first :: second :: third :: r =>
    by_cases hfst : first = 0x1b
    · subst hfst
      by_cases hcsi : second = 0x5b
      · subst hcsi
        exact decodeAt_resume_csi hret fun h3 => hms (by simp [h3])
      by_cases hosc : second = 0x5d
      · subst hosc
        rw [decodeAt_osc] at hret
        have hresume : decodeOscSequence (0x1b :: 0x5d :: third :: (r ++ c))
            (0x1b :: 0x5d :: third :: r).length =
            decodeOscSequence (0x1b :: 0x5d :: third :: (r ++ c)) 0 :=
          decodeOscSequence_resume (by simp)
            ((ofResponse_eq_retain hret).imp_right And.left)
        rw [cons_append, cons_append, cons_append, decodeAt_osc, decodeAt_osc, hresume]
      by_cases hapc : second = 0x5f
      · subst hapc
        have hresume : decodeKittyGraphicsApcAfterAppend (0x1b :: 0x5f :: third :: (r ++ c))
            (0x1b :: 0x5f :: third :: r).length =
            decodeKittyGraphicsApcAfterAppend (0x1b :: 0x5f :: third :: (r ++ c)) 0 := by
          refine decodeKittyGraphicsApc_resume fun _ hm => ?_
          rw [decodeAt_apc, hm] at hret
          cases hret
        rw [cons_append, cons_append, cons_append, decodeAt_apc, decodeAt_apc, hresume]
      have ho : isOther (0x1b :: second :: third :: r ++ c) = true := by
        simp [isOther, hcsi, hosc, hapc]
      rw [decodeAt_other surface last _ ho, decodeAt_other surface last _ ho]
    · exact decodeAt_of_ne surface last hfst _

/-! ## The rest of what was kept

When a place that was waited for is decided, it takes everything that was kept, or the rest has no `ESC`
with two bytes after it that were kept as well. -/

/-- Every `ESC` stands among the last two bytes. -/
def Calm (q : List UInt8) : Prop :=
  ∀ s, s <:+ q → s.head? = some 0x1b → s.length ≤ 2

theorem Calm.suffix {q' : List UInt8} (h : Calm q) (hsuf : q' <:+ q) : Calm q' :=
  fun s hs => h s (hs.trans hsuf)

theorem Calm.drop (h : Calm q) (n : ℕ) : Calm (q.drop n) :=
  h.suffix (drop_suffix n q)

theorem calm_of_length (h : q.length ≤ 2) : Calm q :=
  fun _ hs _ => hs.length_le.trans h

theorem calm_of_not_mem (h : ∀ byte ∈ q, byte ≠ 0x1b) : Calm q := by
  intro s hs hhd
  exact absurd rfl (h 0x1b (hs.mem (mem_of_mem_head? hhd)))

theorem calm_cons {byte : UInt8} (hb : byte ≠ 0x1b) (h : Calm q) : Calm (byte :: q) := by
  intro s hs hhd
  rcases suffix_cons_iff.mp hs with rfl | hs
  · exact absurd (some.inj hhd) hb
  · exact h s hs hhd

theorem calm_of_all_isCsiBody (h : q.all isCsiBody = true) : Calm q :=
  calm_of_not_mem fun byte hb => by
    rintro rfl
    have hbody := all_eq_true.mp h _ hb
    revert hbody
    decide

theorem calm_drop_of_tail (hsz : 0 < size) (h : Calm p.tail) : Calm (p.drop size) := by
  refine h.suffix ?_
  rw [← drop_one]
  exact drop_suffix_drop_left p hsz

/-- How many bytes are taken, when it is decided. -/
def Decoded.size? : Decoded → Option ℕ
  | item _ size _ | raw size => some size
  | retain _ => none

theorem calm_drop_of_le (h : p.length ≤ size) : Calm (p.drop size) := by
  rw [drop_of_length_le h]
  exact calm_of_length (Nat.zero_le _)

/-- A string that is finished by new bytes takes all that was kept. -/
theorem calm_of_string (hb : stringBody (p ++ c) = stringBody p) (hstr : stringBody p ≠ none)
    (hret : decodeString surface last p = .retain retention)
    (hsz : (decodeString surface last (p ++ c)).size? = some size) : Calm (p.drop size) := by
  refine calm_drop_of_le ?_
  unfold decodeString decodePaneBoundTerminalString at hret hsz
  rw [hb] at hsz
  cases hst : stringBody p with
  | none => exact absurd hst hstr
  | some body =>
    rw [hst] at hret hsz
    dsimp only at hret hsz
    cases hk : findOpaqueTerminator p body.1 body.2 with
    | some size => rw [hk] at hret; cases hret
    | none =>
      cases hgr : findOpaqueTerminator (p ++ c) body.1 body.2 with
      | none => rw [hgr] at hsz; cases hsz
      | some size' =>
        rw [hgr] at hsz
        obtain rfl := some.inj hsz
        obtain ⟨⟨i, width⟩, hf, rfl⟩ := map_eq_some_iff.mp hgr
        have hbeyond := (looks_stringEnd body.2 true).scanFrom_beyond (map_eq_none_iff.mp hk) hf
        have hwid := (stringEnd_size (scanFrom_eq_some hf).2.2).1
        omega

theorem calm_csi (hret : decodeAt surface last 0 (0x1b :: 0x5b :: third :: r) = .retain retention)
    (hsz : (decodeAt surface last 0 (0x1b :: 0x5b :: third :: (r ++ c))).size? = some size)
    (hpos : 0 < size) : Calm ((0x1b :: 0x5b :: third :: r).drop size) := by
  rcases csi_cases_of_retained hret with hinc | ⟨rfl, hlen⟩ | hb
  · cases hst : startsWith bracketedPasteStart (0x1b :: 0x5b :: third :: r) with
    | false => exact calm_drop_of_tail hpos (calm_of_not_mem (pasteBeginning hinc hst).2)
    | true =>
      refine calm_drop_of_le ?_
      have hgr : startsWith bracketedPasteStart (0x1b :: 0x5b :: third :: (r ++ c)) = true :=
        startsWith_append hst
      have hn : (0x1b :: 0x5b :: third :: r).scanFrom (marker bracketedPasteEnd) 6 = none := by
        rw [decodeBracketedPaste_zero, if_pos hst] at hinc
        cases hf : (0x1b :: 0x5b :: third :: r).scanFrom (marker bracketedPasteEnd) 6 with
        | none => rfl
        | some found => rw [hf] at hinc; cases hinc
      rw [decodeAt_csi, decodeBracketedPaste_zero, if_pos hgr] at hsz
      cases hf : (0x1b :: 0x5b :: third :: (r ++ c)).scanFrom (marker bracketedPasteEnd) 6 with
      | none => rw [hf] at hsz; cases hsz
      | some found =>
        rw [hf] at hsz
        obtain rfl := some.inj hsz
        exact ((looks_marker (by decide)).scanFrom_beyond hn hf).le
  · exact calm_drop_of_tail hpos (calm_cons (by decide) (calm_cons (by decide) (calm_of_length hlen)))
  · exact calm_drop_of_tail hpos (calm_cons (by decide) (calm_of_all_isCsiBody hb))

theorem size?_ofResponse_complete (slice input : List UInt8) (other : Decoded) (bodyEnd size : ℕ) :
    (ofResponse slice other (decodeCompleteOscSequence input bodyEnd size)).size? = some size := by
  unfold decodeCompleteOscSequence
  dsimp only
  split
  · rfl
  · split <;> rfl

theorem calm_osc (hret : decodeAt surface last 0 (0x1b :: 0x5d :: r) = .retain retention)
    (hsz : (decodeAt surface last 0 (0x1b :: 0x5d :: (r ++ c))).size? = some size)
    (hpos : 0 < size) : Calm ((0x1b :: 0x5d :: r).drop size) := by
  have hp : startsWith [0x1b, 0x5d] (0x1b :: 0x5d :: r) = true := by simp
  rw [decodeAt_osc] at hret hsz
  rcases ofResponse_eq_retain hret with hinc | ⟨hnot, hstr⟩
  · cases hbeg : isOscBeginning (0x1b :: 0x5d :: r) with
    | true => exact calm_drop_of_tail hpos (calm_of_not_mem (scanFrom_of_isOscBeginning hbeg).2)
    | false =>
      refine calm_drop_of_le ?_
      have hbeg' : isOscBeginning (0x1b :: 0x5d :: (r ++ c)) = false :=
        isOscBeginning_append hbeg
      rw [decodeOscSequence_zero hp, hbeg, if_neg (by simp)] at hinc
      rw [decodeOscSequence_zero (by simp), hbeg', if_neg (by simp)] at hsz
      split_ifs at hinc with hany
      obtain ⟨start, hst, hpre⟩ := any_eq_true.mp hany
      rw [if_pos (any_eq_true.mpr ⟨start, hst, startsWith_append hpre⟩)] at hsz
      cases hk : (0x1b :: 0x5d :: r).scanFrom (stringEnd true false) 2 with
      | some found =>
        rw [hk] at hinc
        exact absurd hinc (decodeCompleteOscSequence_ne _ _ _).1
      | none =>
        cases hf : (0x1b :: 0x5d :: (r ++ c)).scanFrom (stringEnd true false) 2 with
        | none => rw [hf] at hsz; cases hsz
        | some found =>
          rw [hf] at hsz
          obtain rfl := some.inj ((size?_ofResponse_complete _ _ _ _ _).symm.trans hsz)
          have hbeyond := (looks_stringEnd true false).scanFrom_beyond hk hf
          have hwid := (stringEnd_size (scanFrom_eq_some hf).2.2).1
          omega
  · have hgr : decodeOscSequence (0x1b :: 0x5d :: (r ++ c)) 0 = .notResponse := by
      have happ := decodeOscSequence_append (m := c) hp (by rw [hnot]; nofun)
      exact happ.trans hnot
    rw [hgr] at hsz
    exact calm_of_string (stringBody_escape _ _ _) (by simp [stringBody]) hstr hsz

theorem calm_apc (hret : decodeAt surface last 0 (0x1b :: 0x5f :: third :: r) = .retain retention)
    (hsz : (decodeAt surface last 0 (0x1b :: 0x5f :: third :: (r ++ c))).size? = some size) :
    Calm ((0x1b :: 0x5f :: third :: r).drop size) := by
  rw [decodeAt_apc, decodeKittyGraphicsApc_apc] at hret hsz
  by_cases h3 : third = 0x47
  · refine calm_drop_of_le ?_
    rw [if_pos h3] at hret hsz
    cases hk : (0x1b :: 0x5f :: third :: r).scanFrom (marker stringTerminator) 3 with
    | some found => rw [hk] at hret; cases hret
    | none =>
      cases hf : (0x1b :: 0x5f :: third :: (r ++ c)).scanFrom (marker stringTerminator) 3 with
      | none => rw [hf] at hsz; cases hsz
      | some found =>
        rw [hf] at hsz
        obtain rfl := some.inj hsz
        exact ((looks_marker (by decide)).scanFrom_beyond hk hf).le
  · rw [if_neg h3] at hret hsz
    exact calm_of_string (stringBody_escape _ _ _) (by simp [stringBody]) hret hsz

theorem length_le_of_isUnfinishedUtf8 (h : isUnfinishedUtf8 l = true) : l.length ≤ 3 := by
  cases l with
  | nil => simp
  | cons first r =>
    simp only [isUnfinishedUtf8, head?_cons, any_some, and_eq_true, decide_eq_true_eq] at h
    have hle := utf8ExpectedLen_le first
    omega

theorem isUnfinishedUtf8_of_decodeCharKey (hl : l ≠ []) {taken : ℕ} {modifiers : KeyCode}
    (h : decodeCharKey l taken modifiers = .incomplete) : isUnfinishedUtf8 l = true := by
  rw [decodeCharKey_eq hl] at h
  cases hchar : decodeUtf8Char l with
  | some decoded => rw [hchar] at h; cases h
  | none =>
    rw [hchar] at h
    by_contra hfin
    rw [if_neg hfin] at h
    cases h

theorem metaKeyDecode_ne_incomplete (byte : UInt8) : metaKeyDecode byte ≠ .incomplete := by
  unfold metaKeyDecode
  split
  · nofun
  · split <;> nofun

theorem decodeSs3Key_ne_incomplete (h : 3 ≤ l.length) : decodeSs3Key l ≠ .incomplete := by
  unfold decodeSs3Key
  rw [getElem?_eq_getElem (by omega)]
  dsimp only
  split_ifs <;> nofun

theorem ofKey_eq_retain {waiting : Retention} {decoded : KeyDecode}
    (h : ofKey surface waiting decoded = .retain retention) : decoded = .incomplete := by
  match decoded, h with
  | .incomplete, _ => rfl

/-- A key after `ESC` that is waited for, from the third byte on, is a character. -/
theorem calm_escape {second : UInt8} (hcsi : second ≠ 0x5b)
    (h : decodeLiveAttachedKey (0x1b :: second :: third :: r) surface.backspace = .incomplete) :
    Calm (second :: third :: r) := by
  rw [decodeLiveAttachedKey_escape] at h
  cases hkey : decodeEscapeKey (0x1b :: second :: third :: r) surface.backspace with
  | matched size key => rw [hkey] at h; cases h
  | incomplete =>
    rw [decodeEscapeKey_of_ne hcsi] at hkey
    rw [if_neg (c := _ ∧ _) fun hemp => cons_ne_nil _ _ hemp.1] at hkey
    split_ifs at hkey with hss3
    · exact absurd hkey (decodeSs3Key_ne_incomplete (by simp))
    · exact absurd hkey (metaKeyDecode_ne_incomplete second)
  | invalid =>
    rw [hkey] at h
    split_ifs at h with hasc
    have hlen := length_le_of_isUnfinishedUtf8
      (isUnfinishedUtf8_of_decodeCharKey (cons_ne_nil _ _) h)
    refine calm_cons ?_ (calm_of_length (by simp only [length_cons] at hlen ⊢; omega))
    rintro rfl
    exact hasc (by decide)

/-- A character that is waited for has at most three bytes. -/
theorem length_le_of_typed {first : UInt8} (hfst : first ≠ 0x1b)
    (h : decodeTyped surface (first :: r) = .retain retention) : (first :: r).length ≤ 3 := by
  have hkeystroke : decodeKeystroke surface (first :: r) = .retain retention →
      isUnfinishedUtf8 (first :: r) = true := by
    intro hkey
    rw [decodeKeystroke_eq, decodeLiveAttachedKey_of_ne hfst] at hkey
    have hattached : decodeAttachedKey [first] surface.backspace ≠ .incomplete := by
      simp only [decodeAttachedKey, if_neg hfst]
      intro hinc
      split_ifs at hinc
      split at hinc <;> cases hinc
    cases hdec : decodeAttachedKey [first] surface.backspace with
    | matched size key => rw [hdec] at hkey; cases hkey
    | incomplete => exact absurd hdec hattached
    | invalid =>
      rw [hdec] at hkey
      cases hchar : decodeCharKey (first :: r) 0 0 with
      | matched size key | invalid => rw [hchar] at hkey; cases hkey
      | incomplete => exact isUnfinishedUtf8_of_decodeCharKey (cons_ne_nil _ _) hchar
  refine length_le_of_isUnfinishedUtf8 ?_
  unfold decodeTyped at h
  split at h
  · exact hkeystroke h
  · split at h
    · split at h
      · exact hkeystroke h
      · cases h
    · split at h
      · assumption
      · cases h

/-- When a place that was waited for is decided, what it leaves of the bytes that were kept is calm. -/
theorem calm_of_retained (hret : decodeAt surface last 0 p = .retain retention)
    (hsz : (decodeAt surface last 0 (p ++ c)).size? = some size) (hpos : 0 < size) :
    Calm (p.drop size) := by
  match p with
  | [] | [_] | [_, _] | [_, _, _] => exact calm_drop_of_tail hpos (calm_of_length (by simp))
  | first :: second :: third :: fourth :: r =>
    by_cases hfst : first = 0x1b
    · subst hfst
      by_cases hcsi : second = 0x5b
      · subst hcsi
        exact calm_csi hret hsz hpos
      by_cases hosc : second = 0x5d
      · subst hosc
        exact calm_osc hret hsz hpos
      by_cases hapc : second = 0x5f
      · subst hapc
        exact calm_apc hret hsz
      have ho (r : List UInt8) : isOther (0x1b :: second :: r) = true := by
        simp [isOther, hcsi, hosc, hapc]
      rw [decodeAt_other surface last 0 (ho _)] at hret
      rw [cons_append, cons_append, decodeAt_other surface last 0 (ho _)] at hsz
      by_cases hstr : stringBody (0x1b :: second :: third :: fourth :: r) = none
      · rw [decodeString, decodePaneBoundTerminalString, hstr] at hret
        rw [decodeKeyboard_escape surface last hcsi, decodeKeystroke_eq] at hret
        exact calm_drop_of_tail hpos (calm_escape hcsi (ofKey_eq_retain hret))
      · exact calm_of_string (stringBody_escape _ _ _) hstr hret hsz
    · have ho (r : List UInt8) : isOther (first :: r) = true := by simp [isOther, hfst]
      rw [decodeAt_other surface last 0 (ho _)] at hret
      rw [cons_append, decodeAt_other surface last 0 (ho _)] at hsz
      by_cases hstr : stringBody (first :: second :: third :: fourth :: r) = none
      · rw [decodeString, decodePaneBoundTerminalString, hstr] at hret
        rw [decodeKeyboard_of_ne surface last hfst] at hret
        have hlen := length_le_of_typed hfst hret
        simp only [length_cons] at hlen
        omega
      · exact calm_of_string (stringBody_of_ne hfst _ _) hstr hret hsz

end Rmux.Input
