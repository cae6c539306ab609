import Rmux.CopyModeBounds

/-!
# No command of copy mode leaves the buffer

A motion that starts in the buffer returns and ends in the buffer (`Stays`), so does every command
(`dispatch_inBuffer`). A resize and a refresh replace the screen under the state but keep the mark
as it is, so that they need the mark to lie on the new screen (`Step.KeepsMark`). Under this
condition a run returns, stays in the buffer and can be shown at any time
(`run_stays_within_buffer`).
-/

namespace Rmux

open Option List Nat

namespace CopyModeState

variable {s : CopyModeState} {y x endY : ℕ} {stop start : CopyPosition} {lib : CopyModeLibraries}

/-- From a state in its buffer, a motion returns and ends in the buffer. -/
def Stays (motion : CopyModeState → Option CopyModeState) : Prop :=
  ∀ s : CopyModeState, s.InBuffer → (motion s).Returns InBuffer

/-! ## Motions -/

@[simp] theorem cmdCursorDown_stays : Stays cmdCursorDown := by
  intro s h
  refine returns_ite ?_ fun _ => returns_some h.syncSelectionWithCursor
  intro hnx
  refine (owningOrZero_returns hnx _).bind fun x hx => returns_some (h.moveAndSync ?_)
  rintro _ ⟨⟩
  exact contains_of hnx hx

@[simp] theorem cmdCursorUp_stays : Stays cmdCursorUp := by
  intro s h
  refine returns_ite ?_ fun _ => returns_some h.syncSelectionWithCursor
  intro _
  have hy : s.cursor.y - 1 < s.totalLines := (sub_le _ _).trans_lt h.1.cursor_lt
  refine (owningOrZero_returns hy _).bind fun x hx => returns_some (h.moveAndSync ?_)
  rintro _ ⟨⟩
  exact contains_of hy hx

@[simp] theorem cmdCursorLeft_stays : Stays cmdCursorLeft := fun _ h =>
  (previousCellPosition_returns h.1.cursor).bind fun _ hf => returns_some (h.moveAndSync hf)

@[simp] theorem cmdCursorRight_stays : Stays cmdCursorRight := fun _ h =>
  (nextCellPosition_returns h.1.cursor).bind fun _ hf => returns_some (h.moveAndSync hf)

theorem scrollCursorTo_inBuffer (h : s.InBuffer) (above : ℕ) : (s.scrollCursorTo above).InBuffer :=
  (h.move h.1.cursor (min_le_right _ _)).syncSelectionWithCursor

@[simp] theorem cmdCursorCentreVertical_stays : Stays cmdCursorCentreVertical := fun _ h =>
  returns_some (scrollCursorTo_inBuffer h _)

@[simp] theorem cmdScrollTop_stays : Stays cmdScrollTop := fun _ h =>
  returns_some (scrollCursorTo_inBuffer h _)

@[simp] theorem cmdScrollBottom_stays : Stays cmdScrollBottom := fun _ h =>
  returns_some (scrollCursorTo_inBuffer h _)

@[simp] theorem cmdScrollMiddle_stays : Stays cmdScrollMiddle := fun _ h =>
  returns_some (scrollCursorTo_inBuffer h _)

@[simp] theorem cmdRecentreTopBottom_stays : Stays cmdRecentreTopBottom := by
  intro s h
  refine Returns.bind (P := InBuffer) ?_ fun scrolled hscrolled => returns_some hscrolled
  split
  · exact cmdScrollMiddle_stays s h
  · exact cmdScrollTop_stays s h
  · exact cmdScrollBottom_stays s h

/-- The cursor goes to a place on the screen, the viewport stays. -/
theorem InBuffer.moveCursor (h : s.InBuffer) (hy : y < s.totalLines) (hx : x ≤ s.cols) :
    { s with cursor := ⟨x, y⟩ }.syncSelectionWithCursor.InBuffer :=
  (h.move (contains_of hy hx) h.2).syncSelectionWithCursor

@[simp] theorem cmdCursorCentreHorizontal_stays : Stays cmdCursorCentreHorizontal := fun _ h =>
  (owningOrZero_returns h.1.cursor_lt _).bind fun _ hx =>
    returns_some (h.moveCursor h.1.cursor_lt hx)

@[simp] theorem cmdStartOfLine_stays : Stays cmdStartOfLine := fun _ h =>
  returns_some (h.moveCursor h.1.cursor_lt (zero_le _))

@[simp] theorem cmdEndOfLine_stays : Stays cmdEndOfLine := fun _ h =>
  (logicalLineEndY_returns h.1.cursor_lt).bind fun _ hy =>
    (lineEndX_returns hy.2).bind fun _ hx => returns_some (h.moveCursor hy.2 hx)

@[simp] theorem cmdTopLine_stays : Stays cmdTopLine := fun s h =>
  returns_some (h.moveCursor (h.2.trans_lt s.bottomTopLine_lt) (zero_le _))

theorem min_last_lt (s : CopyModeState) (y : ℕ) : min y (s.totalLines - 1) < s.totalLines := by
  have := s.totalLines_pos
  omega

@[simp] theorem cmdBottomLine_stays : Stays cmdBottomLine := fun s h =>
  returns_some (h.moveCursor (s.min_last_lt _) (zero_le _))

@[simp] theorem cmdMiddleLine_stays : Stays cmdMiddleLine := fun s h =>
  returns_some (h.moveCursor (s.min_last_lt _) (zero_le _))

/-- The cursor goes to a place on the screen, the viewport somewhere and then after the cursor. -/
theorem InBuffer.moveBoth (h : s.InBuffer) (hy : y < s.totalLines) (hx : x ≤ s.cols) (top : ℕ) :
    { s with topLine := top, cursor := ⟨x, y⟩
      }.ensureCursorVisible.syncSelectionWithCursor.InBuffer :=
  (h.1.move (contains_of hy hx) top).ensureCursorVisible.syncSelectionWithCursor

theorem pageUpBy_inBuffer (h : s.InBuffer) (step : ℕ) : (s.pageUpBy step).InBuffer :=
  h.moveBoth ((sub_le _ _).trans_lt h.1.cursor_lt) h.1.cursor_le _

theorem pageDownBy_inBuffer (h : s.InBuffer) (step : ℕ) : (s.pageDownBy step).InBuffer :=
  h.moveBoth (s.min_last_lt _) h.1.cursor_le _

@[simp] theorem cmdPageUp_stays : Stays cmdPageUp := fun _ h => returns_some (pageUpBy_inBuffer h _)

@[simp] theorem cmdPageDown_stays : Stays cmdPageDown := fun _ h =>
  returns_some (pageDownBy_inBuffer h _)

@[simp] theorem cmdHalfpageUp_stays : Stays cmdHalfpageUp := fun _ h =>
  returns_some (pageUpBy_inBuffer h _)

@[simp] theorem cmdHalfpageDown_stays : Stays cmdHalfpageDown := fun _ h =>
  returns_some (pageDownBy_inBuffer h _)

@[simp] theorem cmdHistoryTop_stays : Stays cmdHistoryTop := fun s h =>
  returns_some
    (h.move (contains_of s.totalLines_pos (zero_le _)) (zero_le _)).syncSelectionWithCursor

@[simp] theorem cmdHistoryBottom_stays : Stays cmdHistoryBottom := fun s h =>
  returns_some (h.1.move s.backing.contains_cursor _).ensureCursorVisible.syncSelectionWithCursor

@[simp] theorem cmdScrollUp_stays : Stays cmdScrollUp := by
  intro s h
  refine returns_some (h.moveBoth ?_ h.1.cursor_le _)
  have := h.1.cursor_lt
  split
  · omega
  · exact this

@[simp] theorem cmdScrollDown_stays : Stays cmdScrollDown := by
  intro s h
  refine returns_some (h.moveBoth ?_ h.1.cursor_le _)
  split
  · exact s.min_last_lt _
  · exact h.1.cursor_lt

@[simp] theorem cmdBackToIndentation_stays : Stays cmdBackToIndentation := fun _ h =>
  (line_returns h.1.cursor_lt).bind fun _ hl =>
    returns_some
      (h.moveCursor h.1.cursor_lt (find_ownerPositions_getD_le hl (zero_le _)))

theorem cmdGotoLine_stays (line : Text) (absolute : Bool) :
    Stays fun s => s.cmdGotoLine line absolute := by
  intro s h
  dsimp only [cmdGotoLine]
  split
  · exact returns_some h
  refine returns_ite (fun _ => returns_some h) fun _ => ?_
  refine returns_ite (fun hemp => by omega) fun _ => ?_
  refine (owningOrZero_returns (s.min_last_lt _) _).bind fun x hx => ?_
  exact returns_some (h.moveBoth (s.min_last_lt _) hx _)

/-- A motion to the start of a line it has found. -/
theorem InBuffer.syncIfMoved_line (h : s.InBuffer) {found : Option ℕ}
    (hf : ∀ y ∈ found, y < s.totalLines) :
    (s.syncIfMoved (found.map fun y => ⟨0, y⟩)).InBuffer := by
  refine h.syncIfMoved fun p hp => ?_
  obtain ⟨y, hy, rfl⟩ := map_eq_some_iff.mp hp
  exact contains_of (hf y hy) (zero_le _)

theorem lt_of_mem_range' {start : ℕ} (h : y ∈ List.range' start (s.totalLines - start)) :
    start ≤ y ∧ y < s.totalLines := by
  have := mem_range'_1.mp h
  omega

theorem cmdNextPrompt_stays (onlyAfter : Bool) : Stays fun s => s.cmdNextPrompt onlyAfter :=
  fun _ h => returns_some <| h.syncIfMoved_line fun _ hy =>
    (lt_of_mem_range' (mem_of_find?_eq_some hy)).2

theorem cmdPreviousPrompt_stays (onlyBefore : Bool) :
    Stays fun s => s.cmdPreviousPrompt onlyBefore := by
  intro s h
  refine returns_some (h.syncIfMoved_line fun y hy => ?_)
  have hy := mem_range.mp (mem_reverse.mp (mem_of_find?_eq_some hy))
  have := h.1.cursor_lt
  split at hy
  · omega
  · omega

@[simp] theorem cmdNextMatchingBracket_stays : Stays cmdNextMatchingBracket := fun _ h =>
  (findMatchingBracket_returns h.1 true).bind fun _ hf => returns_some (h.syncIfMoved hf)

@[simp] theorem cmdPreviousMatchingBracket_stays : Stays cmdPreviousMatchingBracket := fun _ h =>
  (findMatchingBracket_returns h.1 false).bind fun _ hf => returns_some (h.syncIfMoved hf)

theorem paragraphStarts_returns {other : ℕ} (hy : y < s.totalLines) (ho : other < s.totalLines) :
    (s.paragraphStarts y other).Returns fun _ => True :=
  (lineBlank_returns hy).bind fun _ _ =>
    (lineBlank_returns ho).done

@[simp] theorem cmdNextParagraph_stays : Stays cmdNextParagraph := by
  intro s h
  refine (returns_findM? fun y hy => ?_).bind fun found hf => ?_
  · obtain ⟨-, hlt⟩ := lt_of_mem_range' hy
    exact paragraphStarts_returns hlt ((sub_le _ _).trans_lt hlt)
  · exact returns_some (h.syncIfMoved_line fun y hy => (lt_of_mem_range' (hf y hy)).2)

@[simp] theorem cmdPreviousParagraph_stays : Stays cmdPreviousParagraph := by
  intro s h
  have hlt {y : ℕ} (hy : y ∈ (range s.cursor.y).reverse) : y + 1 < s.totalLines := by
    have := mem_range.mp (mem_reverse.mp hy)
    have := h.1.cursor_lt
    omega
  refine (returns_findM? fun y hy => ?_).bind fun found hf => ?_
  · exact paragraphStarts_returns (lt_of_succ_lt (hlt hy)) (hlt hy)
  · exact returns_some (h.syncIfMoved_line fun y hy => lt_of_succ_lt (hlt (hf y hy)))

theorem boundaryMotion_stays (boundary : WordBoundary) (spacesOnly : Bool) :
    Stays fun s => s.findBoundary s.cursor boundary spacesOnly >>= fun found =>
      some (s.moveAndSync found) := fun _ h =>
  (findBoundary_returns h.1.cursor boundary spacesOnly).bind fun _ hf =>
    returns_some (h.moveAndSync hf)

@[simp] theorem cmdSetMark_stays : Stays cmdSetMark := by
  intro s h
  refine returns_some ⟨⟨h.1.cursor, h.1.selection, ?_, h.1.searchResults, h.1.searched⟩, h.2⟩
  rintro _ ⟨⟩
  exact h.1.cursor

@[simp] theorem cmdJumpToMark_stays : Stays cmdJumpToMark := fun _ h =>
  returns_some (h.syncIfMoved h.1.mark)

theorem repositionCursorToMouse_stays (x y : ℕ) : Stays fun s => s.repositionCursorToMouse x y := by
  intro s h
  refine returns_ite (fun _ => returns_some h) fun _ => ?_
  refine (owningOrZero_returns (s.min_last_lt _) _).bind fun x hx => ?_
  exact returns_some (h.showCursorAt (contains_of (s.min_last_lt _) hx))

theorem moveCursorToMouse_stays (x y : ℕ) : Stays fun s => s.moveCursorToMouse x y := fun s h =>
  (repositionCursorToMouse_stays x y s h).bind fun _ hmove =>
    returns_some hmove.syncSelectionWithCursor

theorem scrollToMouse_stays (lib : CopyModeLibraries) (sliderMpos : ℤ) (mouseY : ℕ) :
    Stays fun s => s.scrollToMouse lib sliderMpos mouseY := by
  intro s h
  have htop := h.2
  refine returns_ite (fun _ => returns_some h) fun _ => ?_
  refine returns_ite (fun _ => returns_some h) fun _ => ?_
  refine returns_ite (fun _ => ?_) fun _ => ?_
  · refine returns_ite (fun hneg => by omega) fun _ => returns_some ?_
    have hy : ∀ n, s.cursor.y - n < s.totalLines :=
      fun n => (sub_le _ _).trans_lt h.1.cursor_lt
    refine (h.move (contains_of (hy _) h.1.cursor_le) ?_).syncSelectionWithCursor
    omega
  · refine returns_some (h.move (contains_of (s.min_last_lt _) h.1.cursor_le)
      ?_).syncSelectionWithCursor
    omega

/-! ## Selection -/

theorem selectLine_stays : Stays selectLine := by
  intro s h
  have hcursor := h.1.cursor_lt
  refine (logicalLineStartY_returns hcursor).bind fun startY hst => ?_
  refine (logicalLineEndY_returns hcursor).bind fun endY hend => ?_
  refine (lineEndX_returns hend.2).bind fun x hx => returns_some ?_
  have hanc := contains_of (hst.trans_lt hcursor) (zero_le s.cols)
  have hsp := contains_of hend.2 hx
  exact ((h.1.move hsp s.topLine).select hanc hsp _ _).ensureCursorVisible

theorem selectWord_stays : Stays selectWord := fun s h =>
  (wordSelectionRange_returns h.1.cursor).bind fun _ hrange => returns_some
    ((h.1.move hrange.2 s.topLine).select hrange.1 hrange.2 _ _).ensureCursorVisible

/-! ## Search -/

theorem lineMatches_contains {plainText caseInsensitive : Bool} {find : Text → List ByteRange}
    {line : ScreenLineView} (hy : y < s.totalLines) (hl : line.width = s.cols) :
    ∀ found ∈ s.lineMatches lib plainText caseInsensitive find line y,
      s.backing.Contains found.start ∧ s.backing.Contains found.stop := by
  intro found hf
  have hmatch : ∃ range, (LineTextMap.new line).matchRange y range = some found := by
    unfold lineMatches at hf
    dsimp only at hf
    split at hf
    · cases hf
    · split at hf
      · split at hf
        · obtain ⟨range, -, hrange⟩ := mem_filterMap.mp hf
          obtain ⟨original, -, hmatch⟩ := bind_eq_some_iff.mp hrange
          exact ⟨original, hmatch⟩
        · obtain ⟨range, -, hmatch⟩ := mem_filterMap.mp hf
          exact ⟨range, hmatch⟩
      · obtain ⟨range, -, hmatch⟩ := mem_filterMap.mp hf
        exact ⟨range, hmatch⟩
  obtain ⟨range, hmatch⟩ := hmatch
  obtain ⟨hstartY, hstartX, hstopY, hstopX⟩ := LineTextMap.of_matchRange hmatch
  exact ⟨contains_iff.mpr ⟨by omega, by omega⟩, contains_iff.mpr ⟨by omega, by omega⟩⟩

/-- Matches are taken anew, whatever they were before. -/
theorem rebuildSearchResults_returns (lib : CopyModeLibraries) (plainText : Bool)
    (h : { s with searchResults := [] }.InBuffer) :
    (s.rebuildSearchResults lib plainText).Returns InBuffer := by
  refine returns_ite (fun _ => returns_some h) fun hpat => ?_
  have hresults {results : List SearchMatch}
      (hr : ∀ found ∈ results, s.backing.Contains found.start ∧ s.backing.Contains found.stop) :
      { s with searchResults := results }.InBuffer :=
    ⟨⟨h.1.cursor, h.1.selection, h.1.mark, hr,
      fun hnil => absurd (isEmpty_iff.mpr hnil) hpat⟩, h.2⟩
  dsimp only
  split
  · exact returns_some h
  · rename_i find _
    refine (returns_mapM (Q := fun results => ∀ found ∈ results,
      s.backing.Contains found.start ∧ s.backing.Contains found.stop) fun y hy => ?_).bind ?_
    · have hy := mem_range.mp hy
      exact (line_returns hy).bind fun line hl => returns_some (lineMatches_contains hy hl)
    · intro results hrw
      refine returns_some (hresults fun found hf => ?_)
      obtain ⟨row, hrow, hf⟩ := mem_flatten.mp hf
      exact hrw row hrow found hf

theorem InBuffer.withoutResults (h : s.InBuffer) (pattern : Text) :
    { s with searchPattern := pattern, searchResults := [] }.InBuffer :=
  ⟨⟨h.1.cursor, h.1.selection, h.1.mark, by simp, by simp⟩, h.2⟩

theorem InBuffer.showMatch (h : s.InBuffer) (index : Option ℕ) : (s.showMatch index).InBuffer := by
  refine h.syncIfMoved fun p hp => ?_
  obtain ⟨found, hf, rfl⟩ := map_eq_some_iff.mp hp
  obtain ⟨i, -, hi⟩ := bind_eq_some_iff.mp hf
  obtain ⟨hst, hsp⟩ := h.1.searchResults found (mem_of_getElem? hi)
  split
  · exact hst
  · exact hsp

/-- The current match is set and shown. -/
theorem InBuffer.showCurrent (h : s.InBuffer) (current : Option ℕ) :
    ({ s with searchCurrent := current }.showMatch current).InBuffer :=
  InBuffer.showMatch (s := { s with searchCurrent := current }) h current

theorem performSearch_stays (lib : CopyModeLibraries) (pattern : Text) (d : SearchDirection)
    (plainText : Bool) : Stays fun s => s.performSearch lib pattern d plainText := by
  intro s h
  refine Returns.bind (rebuildSearchResults_returns lib plainText ?_) fun rebuilt hrebuilt => ?_
  · exact h.withoutResults pattern
  · exact returns_some
      (InBuffer.showCurrent (s := { rebuilt with searchHighlighted := true }) hrebuilt _)

theorem InBuffer.advanceSearchMatch (h : s.InBuffer) (d : SearchDirection) :
    (s.advanceSearchMatch d).InBuffer := by
  unfold CopyModeState.advanceSearchMatch
  split
  · exact h
  · dsimp only
    split
    · exact h
    · exact h.showCurrent _

theorem executeJump_stays (kind : JumpKind) (ch : Char) : Stays fun s => s.executeJump kind ch := by
  intro s h
  refine (line_returns h.1.cursor_lt).bind fun line hl => ?_
  refine returns_ite (fun _ => returns_some h) fun _ => ?_
  refine returns_some (h.syncIfMoved fun p hp => ?_)
  obtain ⟨x, hx, rfl⟩ := map_eq_some_iff.mp hp
  obtain ⟨found, hf, rfl⟩ := map_eq_some_iff.mp hx
  refine contains_of h.1.cursor_lt ?_
  have hmem : found ∈ ownerPositions line := by
    split at hf
    · exact mem_of_find?_eq_some hf
    · exact mem_of_find?_eq_some hf
    · exact mem_reverse.mp (mem_of_find?_eq_some hf)
    · exact mem_reverse.mp (mem_of_find?_eq_some hf)
  have hle := mem_ownerPositions_le hl hmem
  split
  · exact hle
  · exact hle
  · cases hbef : (ownerPositions line).reverse.find? (· < found) with
    | none => exact hle
    | some before =>
      exact mem_ownerPositions_le hl (mem_reverse.mp (mem_of_find?_eq_some hbef))
  · exact find_ownerPositions_getD_le hl hle

/-! ## Copied text -/

theorem logicalLineTextRange_returns {startY : ℕ} (hend : endY < s.totalLines) (trimSpaces : Bool) :
    (s.logicalLineTextRange startY endY trimSpaces).Returns fun _ => True :=
  (returns_mapM fun _ hy => fullLineText_returns (lt_of_mem_linesBetween hy hend) _).done

theorem lineSpans_returns (hend : endY < s.totalLines) :
    ∀ {n y : ℕ}, (s.lineSpans endY n y).Returns fun _ => True
  | 0, _ => returns_some trivial
  | n + 1, y => by
    refine returns_ite (fun hy => ?_) fun _ => returns_some trivial
    refine (logicalLineEndY_returns (hy.trans_lt hend)).bind fun last _ => ?_
    have hspan : min last endY < s.totalLines := (min_le_right _ _).trans_lt hend
    refine (logicalLineTextRange_returns hspan true).bind fun _ _ => ?_
    exact (lineSpans_returns hend).done

theorem extractLineSpan_returns {startY : ℕ} (hend : endY < s.totalLines) :
    (s.extractLineSpan startY endY).Returns fun _ => True :=
  (lineSpans_returns hend).done

theorem countedPhysicalLineEndY_returns (y n : ℕ) :
    (s.countedPhysicalLineEndY y n).Returns (· < s.totalLines) :=
  (logicalLineEndY_returns (s.min_last_lt _)).mono fun _ h => h.2

theorem currentLineTransferBytes_returns (h : s.InBuffer) (n : ℕ) :
    (s.currentLineTransferBytes n).Returns fun _ => True :=
  (logicalLineStartY_returns h.1.cursor_lt).bind fun _ _ =>
    (countedPhysicalLineEndY_returns _ n).bind fun _ hend => extractLineSpan_returns hend

theorem currentEndOfLineTransferBytes_returns (n : ℕ) :
    (s.currentEndOfLineTransferBytes n).Returns fun _ => True := by
  refine (countedPhysicalLineEndY_returns s.cursor.y n).bind fun endY hend => ?_
  refine (returns_mapM (Q := fun _ => True) fun y hy => ?_).done
  have hy := lt_of_mem_linesBetween hy hend
  exact (line_returns hy).bind fun _ _ => (lineEndX_returns hy).done

/-- The rows of a range are read one by one. -/
theorem rows_returns {first last : ℕ} (hl : last < s.totalLines)
    {row : ScreenLineView → ℕ → Option Text}
    (hrow : ∀ line, ∀ y ≤ last, y < s.totalLines → (row line y).Returns fun _ => True) :
    ((linesBetween first last).mapM fun y => do
      let line ← s.line y
      row line y).Returns fun texts => ∀ text ∈ texts, True :=
  returns_mapM fun _ hy =>
    have hlt := lt_of_mem_linesBetween hy hl
    (line_returns hlt).bind fun line _ => hrow line _ (mem_linesBetween hy) hlt

theorem rowEnd_returns {last : ℕ} (hy : y < s.totalLines) :
    (if y = last then some x else s.lineEndX y).Returns fun _ => True :=
  returns_ite (fun _ => returns_some trivial) fun _ => (lineEndX_returns hy).mono fun _ _ => trivial

theorem extractCharSelectionExclusive_returns (hsp : s.backing.Contains stop) :
    (s.extractCharSelectionExclusive start stop).Returns fun _ => True := by
  refine returns_ite (fun _ => returns_some trivial) fun _ => ?_
  refine (rows_returns (contains_iff.mp hsp).1 fun line y _ hy => ?_).done
  refine Returns.bind (P := fun _ => True) ?_ fun _ _ => returns_some trivial
  refine returns_ite (fun _ => ((line_returns (contains_iff.mp hsp).1).done)) fun _ => ?_
  exact (lineEndX_returns hy).map fun _ _ => trivial

theorem extractCharSelectionInclusive_returns (hsp : s.backing.Contains stop) :
    (s.extractCharSelectionInclusive start stop).Returns fun _ => True :=
  (rows_returns (contains_iff.mp hsp).1 fun _ _ _ hy =>
    (rowEnd_returns hy).done).done

theorem extractSelection_returns (h : s.InBuffer) : s.extractSelection.Returns fun _ => True := by
  unfold extractSelection
  split
  · exact returns_some trivial
  rename_i selection hsel
  obtain ⟨hanc, hsp⟩ := h.1.selection selection hsel
  have hl := (ScreenView.contains_normalizePositions hanc hsp).2
  have hlastY := (contains_iff.mp hl).1
  refine returns_ite ?_ fun _ => returns_ite ?_ ?_
  · exact fun _ => (extractLineSpan_returns hlastY).done
  · intro _
    split
    · exact (extractCharSelectionInclusive_returns hl).map fun _ _ => trivial
    · exact (extractCharSelectionExclusive_returns hl).map fun _ _ => trivial
  · intro _
    refine (rows_returns hlastY fun line y _ hy => ?_).done
    refine returns_ite (fun _ => returns_some trivial) fun _ => ?_
    exact (rowEnd_returns hy).done

theorem currentSelectionBytes_returns (h : s.InBuffer) :
    s.currentSelectionBytes.Returns fun _ => True :=
  (extractSelection_returns h).map fun _ _ => trivial

/-! ## Commands -/

/-- A command returns and leaves the state in its buffer. -/
abbrev EndsInBuffer (result : CommandResult) : Prop := result.Returns fun r => r.2.InBuffer

theorem fails_inBuffer {error : RmuxError} (h : s.InBuffer) : EndsInBuffer (s.fails error) :=
  returns_some h

theorem finishPolicy_inBuffer {outcome : CopyModeCommandOutcome} {policy : ClearPolicy}
    (h : s.InBuffer) : EndsInBuffer (s.finishPolicy outcome policy) :=
  returns_some (h.clearFor policy)

section Motions

variable {motion : CopyModeState → Option CopyModeState} (hm : Stays motion) (h : s.InBuffer)

include hm h

theorem readonly_inBuffer (policy : ClearPolicy) : EndsInBuffer (s.readonly motion policy) :=
  (hm s h).bind fun _ => finishPolicy_inBuffer

theorem readonlyExitOnScroll_inBuffer (policy : ClearPolicy) :
    EndsInBuffer (s.readonlyExitOnScroll motion policy) :=
  (hm s h).bind fun _ => finishPolicy_inBuffer

theorem cancelAtBottom_inBuffer : EndsInBuffer (s.cancelAtBottom motion) :=
  (hm s h).bind fun _ => finishPolicy_inBuffer

end Motions

section Commands

variable (h : s.InBuffer) (args : List Text) (policy : ClearPolicy)

include h

theorem beginSelectionCommand_inBuffer (mouse : Option CopyModeMouseContext) :
    EndsInBuffer (s.beginSelectionCommand mouse) := by
  unfold beginSelectionCommand
  split
  · exact finishPolicy_inBuffer h.beginSelection
  rename_i mouse
  have hms {s : CopyModeState} (h : s.InBuffer) :=
    moveCursorToMouse_stays mouse.contentX mouse.contentY s h
  refine returns_ite ?_ fun _ => ?_
  · exact fun _ => (hms h).bind fun _ => finishPolicy_inBuffer
  split
  · refine (moveCursorToMouse_stays _ _ s h).bind fun _ hmove => ?_
    exact (hms hmove.beginSelection).bind fun _ => finishPolicy_inBuffer
  · exact (hms h).bind fun _ hmove => finishPolicy_inBuffer hmove.beginSelection

theorem moveToMouse_inBuffer (mouse : Option CopyModeMouseContext) :
    (s.moveToMouse mouse).Returns InBuffer := by
  cases mouse with
  | none => exact returns_some h
  | some mouse => exact moveCursorToMouse_stays _ _ s h

theorem otherEnd_inBuffer : EndsInBuffer s.otherEnd := by
  refine returns_ite (fun _ => finishPolicy_inBuffer h) fun _ => ?_
  split
  · exact finishPolicy_inBuffer h
  rename_i selection hsel
  obtain ⟨hanc, -⟩ := h.1.selection selection hsel
  refine finishPolicy_inBuffer ?_
  exact ((h.1.move hanc s.topLine).select h.1.cursor hanc _ _).ensureCursorVisible

theorem selectionMode_inBuffer : EndsInBuffer (s.selectionMode args) := by
  unfold selectionMode
  split
  · exact fails_inBuffer h
  split
  · exact fails_inBuffer h
  refine finishPolicy_inBuffer ⟨h.1.select ?_ h.1.cursor _ _, h.2⟩
  cases hsel : s.selection with
  | none => exact h.1.cursor
  | some selection => exact (h.1.selection selection hsel).1

theorem stopSelection_inBuffer : EndsInBuffer s.stopSelection := by
  refine finishPolicy_inBuffer ?_
  refine ⟨⟨h.1.cursor, ?_, h.1.mark, h.1.searchResults, h.1.searched⟩, h.2⟩
  intro state hst
  obtain ⟨selection, hsel, rfl⟩ := map_eq_some_iff.mp hst
  exact ⟨(h.1.selection selection hsel).1, h.1.cursor⟩

theorem unselect_inBuffer : { s with selection := none }.InBuffer := ⟨
  ⟨h.1.cursor, by simp, h.1.mark, h.1.searchResults, h.1.searched⟩, h.2⟩

theorem dropSelection_inBuffer : (s.dropSelection policy).InBuffer := by
  unfold dropSelection
  split
  · exact unselect_inBuffer h
  · exact h

theorem finishSearch_inBuffer : EndsInBuffer s.finishSearch := returns_some (h.clearFor .always)

theorem searchWithArg_inBuffer (lib : CopyModeLibraries) (args : List Text)
    (d : SearchDirection) (plainText : Bool) :
    EndsInBuffer (s.searchWithArg lib args d plainText) := by
  unfold searchWithArg
  split
  · exact fails_inBuffer h
  · exact (performSearch_stays lib _ d plainText s h).bind fun _ => finishSearch_inBuffer

theorem searchAgain_inBuffer : EndsInBuffer s.searchAgain :=
  returns_ite (fun _ => finishPolicy_inBuffer h)
    fun _ => finishPolicy_inBuffer (h.advanceSearchMatch _)

theorem searchReverse_inBuffer : EndsInBuffer s.searchReverse :=
  returns_ite (fun _ => finishPolicy_inBuffer h)
    fun _ => finishPolicy_inBuffer (h.advanceSearchMatch _)

theorem incrementalSearch_inBuffer (lib : CopyModeLibraries) (args : List Text)
    (d : SearchDirection) : EndsInBuffer (s.incrementalSearch lib args d) := by
  unfold incrementalSearch
  split
  · exact fails_inBuffer h
  refine returns_ite (fun _ => finishPolicy_inBuffer h) fun _ => returns_ite ?_ ?_
  · intro _
    refine finishPolicy_inBuffer ?_
    exact h.withoutResults []
  · exact fun _ => (performSearch_stays lib _ _ _ s h).bind fun _ => finishSearch_inBuffer

theorem jumpWithArg_inBuffer (kind : JumpKind) : EndsInBuffer (s.jumpWithArg args kind) := by
  unfold jumpWithArg
  split
  · exact fails_inBuffer h
  · exact fails_inBuffer h
  · refine Returns.bind (executeJump_stays kind _ _ ?_) fun _ hmove => ?_
    · exact h
    · exact finishPolicy_inBuffer hmove

theorem jumpAgain_inBuffer (reverse : Bool) : EndsInBuffer (s.jumpAgain reverse) := by
  unfold jumpAgain
  split
  · exact finishPolicy_inBuffer h
  · exact (executeJump_stays _ _ s h).bind fun _ => finishPolicy_inBuffer

theorem gotoLineCommand_inBuffer (absolute : Bool) :
    EndsInBuffer (s.gotoLineCommand args absolute) := by
  unfold gotoLineCommand
  split
  · exact fails_inBuffer h
  · exact readonly_inBuffer (cmdGotoLine_stays _ absolute) h _

theorem transferSelection_inBuffer (append cancel clearSelection : Bool) :
    EndsInBuffer (s.transferSelection args append cancel clearSelection) := by
  refine (currentSelectionBytes_returns h).bind fun data _ => ?_
  have hclr : (if clearSelection then { s with selection := none } else s).InBuffer := by
    split
    · exact unselect_inBuffer h
    · exact h
  dsimp only
  split
  · exact fails_inBuffer hclr
  · exact finishPolicy_inBuffer hclr

theorem transferText_inBuffer {extract : CopyModeState → Option Text}
    (hextract : (extract s).Returns fun _ => True) (command : String) (args : List Text)
    (pipe cancel : Bool) : EndsInBuffer (s.transferText command extract args pipe cancel) := by
  unfold transferText
  dsimp only
  split
  · exact fails_inBuffer h
  · exact hextract.bind fun _ _ => finishPolicy_inBuffer h

theorem transferLine_inBuffer (pipe cancel : Bool) (n : ℕ) :
    EndsInBuffer (s.transferLine args pipe cancel n) :=
  transferText_inBuffer h (currentLineTransferBytes_returns h n) _ _ _ _

theorem transferEndOfLine_inBuffer (pipe cancel : Bool) (n : ℕ) :
    EndsInBuffer (s.transferEndOfLine args pipe cancel n) :=
  transferText_inBuffer h (currentEndOfLineTransferBytes_returns n) _ _ _ _

end Commands

/-! ## A new screen under the state -/

theorem searchAnew_returns (lib : CopyModeLibraries) (h : { s with searchResults := [] }.InBuffer)
    (hresults : s.searchPattern = [] → s.searchResults = []) :
    (s.searchAnew lib).Returns InBuffer := by
  refine returns_ite ?_ fun _ => rebuildSearchResults_returns lib _ h
  intro hpat
  have hnil := hresults (isEmpty_iff.mp hpat)
  exact returns_some ⟨⟨h.1.cursor, h.1.selection, h.1.mark, by simp [hnil], fun _ => hnil⟩, h.2⟩

theorem refreshFromScreen_returns (lib : CopyModeLibraries) (h : s.InBuffer) {screen : ScreenView}
    (hmark : ∀ p ∈ s.mark, screen.Contains p) :
    (s.refreshFromScreen lib screen).Returns InBuffer := by
  refine searchAnew_returns lib ⟨⟨?_, by simp, hmark, by simp, by simp⟩, le_rfl⟩ h.1.searched
  exact screen.contains_cursor

theorem clampCursor_returns : s.clampCursor.Returns fun clamped =>
      ∃ p, s.backing.Contains p ∧ clamped = { s with cursor := p } := by
  refine returns_ite (fun h => absurd h s.totalLines_pos.ne') fun _ => ?_
  refine (owningOrZero_returns (s.min_last_lt _) _).bind fun x hx => ?_
  exact returns_some ⟨_, contains_of (s.min_last_lt _) hx, rfl⟩

theorem resize_returns (lib : CopyModeLibraries) (h : s.InBuffer) {resized : ScreenView}
    (hmark : ∀ p ∈ s.mark, resized.Contains p) : (s.resize lib resized).Returns InBuffer := by
  refine clampCursor_returns.bind fun clamped hclamped => ?_
  obtain ⟨p, hp, rfl⟩ := hclamped
  refine searchAnew_returns lib ?_ h.1.searched
  exact ⟨⟨hp, nofun, hmark, nofun, fun _ => rfl⟩, min_le_right _ _⟩

/-! ## Every command -/

theorem dispatch_inBuffer (lib : CopyModeLibraries) (h : s.InBuffer) (command : CopyModeCommand)
    (args : List Text) (ctx : CopyModeCommandContext) (n : ℕ)
    (hmark : command = .refreshFromPane → ∀ screen ∈ ctx.refreshScreen,
      ∀ p ∈ s.mark, screen.Contains p) : EndsInBuffer (s.dispatch lib command args ctx n) := by
  cases command with
  | backToIndentation | bottomLine | cursorDown | cursorLeft | cursorRight | cursorUp
  | cursorCentreVertical | cursorCentreHorizontal | endOfLine | halfpageUp | endOfBuffer
  | historyBottom | historyTop | startOfBuffer | jumpToMark | middleLine | nextMatchingBracket
  | nextParagraph | pageUp | previousMatchingBracket | previousParagraph | recentreTopBottom
  | scrollBottom | scrollMiddle | scrollTop | scrollUp | setMark | startOfLine | topLine =>
    exact readonly_inBuffer (by simp) h _
  | nextSpace | nextSpaceEnd | nextWord | nextWordEnd | previousSpace | previousWord =>
    exact readonly_inBuffer (boundaryMotion_stays _ _) h _
  | nextPrompt => exact readonly_inBuffer (cmdNextPrompt_stays _) h _
  | previousPrompt => exact readonly_inBuffer (cmdPreviousPrompt_stays _) h _
  | halfpageDown | pageDown | scrollDown => exact readonlyExitOnScroll_inBuffer (by simp) h _
  | halfpageDownAndCancel | pageDownAndCancel | scrollDownAndCancel =>
    exact cancelAtBottom_inBuffer (by simp) h
  | rectangleOn | rectangleOff | rectangleToggle | scrollExitOn | scrollExitOff | scrollExitToggle
  | togglePosition => exact returns_some h
  | appendSelection | appendSelectionAndCancel => exact transferSelection_inBuffer h _ _ _ _
  | beginSelection => exact beginSelectionCommand_inBuffer h _
  | cancel => exact finishPolicy_inBuffer h
  | cancelOrClearSelection =>
    refine returns_ite (fun _ => ?_) fun _ => finishPolicy_inBuffer h
    exact finishPolicy_inBuffer (unselect_inBuffer h)
  | clearSelection => exact finishPolicy_inBuffer (unselect_inBuffer h)
  | copyEndOfLine | copyEndOfLineAndCancel | copyPipeEndOfLine | copyPipeEndOfLineAndCancel =>
    exact transferEndOfLine_inBuffer h _ _ _ _
  | copyLine | copyLineAndCancel | copyPipeLine | copyPipeLineAndCancel =>
    exact transferLine_inBuffer h _ _ _ _
  | copyPipeNoClear | copyPipe | copyPipeAndCancel | copySelectionNoClear | copySelection
  | copySelectionAndCancel | pipeNoClear | pipe | pipeAndCancel =>
    dsimp only [dispatch, transferCopyPipe, transferCopySelection, transferPipe]
    split
    · exact fails_inBuffer h
    · exact (currentSelectionBytes_returns h).bind
        fun _ _ => finishPolicy_inBuffer (dropSelection_inBuffer h _)
  | cursorDownAndCancel => exact
    (cmdCursorDown_stays s h).bind fun _ => finishPolicy_inBuffer
  | gotoLine => exact gotoLineCommand_inBuffer h _ _
  | jumpAgain | jumpReverse => exact jumpAgain_inBuffer h _
  | jumpBackward | jumpForward | jumpToBackward | jumpToForward =>
    exact jumpWithArg_inBuffer h _ _
  | otherEnd => exact otherEnd_inBuffer h
  | refreshFromPane =>
    cases hscreen : ctx.refreshScreen with
    | none =>
      simp only [dispatch, hscreen]
      exact finishPolicy_inBuffer h
    | some screen =>
      simp only [dispatch, hscreen]
      refine (refreshFromScreen_returns lib h (hmark rfl screen hscreen)).bind ?_
      exact fun _ => finishPolicy_inBuffer
  | scrollToMouse =>
    cases hms : ctx.mouse with
    | none =>
      simp only [dispatch, hms]
      exact finishPolicy_inBuffer h
    | some mouse =>
      simp only [dispatch, hms]
      exact readonly_inBuffer (scrollToMouse_stays lib _ _) h _
  | searchAgain => exact searchAgain_inBuffer h
  | searchBackward | searchBackwardText | searchForward | searchForwardText =>
    exact searchWithArg_inBuffer h lib _ _ _
  | searchBackwardIncremental | searchForwardIncremental =>
    exact incrementalSearch_inBuffer h lib _ _
  | searchReverse => exact searchReverse_inBuffer h
  | selectLine =>
    exact (moveToMouse_inBuffer h _).bind fun _ hmove =>
      readonly_inBuffer selectLine_stays hmove _
  | selectWord =>
    exact (moveToMouse_inBuffer h _).bind fun _ hmove =>
      readonly_inBuffer selectWord_stays hmove _
  | selectionMode => exact selectionMode_inBuffer h _
  | stopSelection => exact stopSelection_inBuffer h

/-- Before a command the cursor may move, the mark does not. -/
theorem beforeCommand_returns (h : s.InBuffer) (ctx : CopyModeCommandContext) :
    (s.beforeCommand ctx).Returns fun ready => ready.InBuffer ∧ ready.mark = s.mark := by
  unfold beforeCommand
  split
  · refine returns_ite (fun _ => ?_) fun _ => returns_some ⟨h, rfl⟩
    refine returns_ite (fun _ => returns_some ⟨h, rfl⟩) fun _ => ?_
    refine (owningOrZero_returns (min_last_lt _ _) _).bind fun x hx => returns_some ⟨?_, rfl⟩
    exact InBuffer.showCursorAt h (contains_of (s.min_last_lt _) hx)
  · exact returns_some ⟨h, rfl⟩

theorem executeCommandWithPrefix_inBuffer (lib : CopyModeLibraries) (h : s.InBuffer)
    (name : String) (args : List Text) (ctx : CopyModeCommandContext) (n : ℕ)
    (hmark : CopyModeCommand.ofName name = some .refreshFromPane →
      ∀ screen ∈ ctx.refreshScreen, ∀ p ∈ s.mark, screen.Contains p) :
    EndsInBuffer (s.executeCommandWithPrefix lib name args ctx n) := by
  refine (beforeCommand_returns h ctx).bind fun ready hready => ?_
  obtain ⟨hready, hsm⟩ := hready
  split
  · exact returns_ite (fun _ => returns_some hready) fun _ => fails_inBuffer hready
  · rename_i command hcmd
    refine returns_ite (fun _ => returns_some hready) fun _ => ?_
    refine dispatch_inBuffer lib hready command _ ctx n ?_
    rintro rfl
    rw [hsm]
    exact hmark hcmd

/-! ## Runs -/

/-- The step does not put a screen under the state that the mark does not lie on. -/
def Step.KeepsMark (s : CopyModeState) : Step → Prop
  | .command name _ context _ =>
    CopyModeCommand.ofName name = some .refreshFromPane →
      ∀ screen ∈ context.refreshScreen, ∀ p ∈ s.mark, screen.Contains p
  | .resize resized => ∀ p ∈ s.mark, resized.Contains p
  | .refresh screen => ∀ p ∈ s.mark, screen.Contains p

/-- Every step of a run keeps the mark. -/
def KeepsMark (lib : CopyModeLibraries) : CopyModeState → List Step → Prop
  | _, [] => True
  | s, step :: steps =>
    step.KeepsMark s ∧ ∀ s', s.step lib step = some s' → KeepsMark lib s' steps

theorem step_inBuffer (lib : CopyModeLibraries) (h : s.InBuffer) {step : Step}
    (hst : step.KeepsMark s) : (s.step lib step).Returns InBuffer := by
  cases step with
  | command name args context count =>
    exact (executeCommandWithPrefix_inBuffer lib h name args context count hst).map fun _ h => h
  | resize resized => exact resize_returns lib h hst
  | refresh screen => exact refreshFromScreen_returns lib h hst

theorem run_inBuffer (lib : CopyModeLibraries) :
    ∀ {steps : List Step} {s : CopyModeState}, s.InBuffer → KeepsMark lib s steps →
      (s.run lib steps).Returns InBuffer
  | [], _, h, _ => returns_some h
  | step :: steps, s, h, hsts => by
    obtain ⟨s', hs', h'⟩ := step_inBuffer lib h hsts.1
    rw [run, foldlM_cons, hs']
    exact run_inBuffer lib h' (hsts.2 s' hs')

theorem new_inBuffer (screen : ScreenView) (viewMode : Bool) (ctx : CopyModeCommandContext)
    (exitOnScroll showPosition : Bool) :
    (new screen viewMode ctx exitOnScroll showPosition).InBuffer := by
  refine Positioned.ensureCursorVisible ⟨?_, nofun, nofun, nofun, fun _ => rfl⟩
  exact screen.contains_cursor

theorem KeepsMark.earlier :
    ∀ {steps earlier : List Step} {s : CopyModeState}, KeepsMark lib s steps → earlier <+: steps →
      KeepsMark lib s earlier
  | _, [], _, _, _ => trivial
  | [], _ :: _, _, _, hpre => absurd (List.prefix_nil.mp hpre) (List.cons_ne_nil _ _)
  | step :: steps, step' :: earlier, s, h, hpre => by
    obtain ⟨rfl, hr⟩ := cons_prefix_cons.mp hpre
    exact ⟨h.1, fun s' hs' => (h.2 s' hs').earlier hr⟩

theorem KeepsMark.cons {step : Step} {steps : List Step} {s' : CopyModeState} (h : step.KeepsMark s)
    (hs : s.step lib step = some s') (hsts : KeepsMark lib s' steps) :
    KeepsMark lib s (step :: steps) := by
  refine ⟨h, fun s'' hs'' => ?_⟩
  rw [hs] at hs''
  obtain rfl := some.inj hs''
  exact hsts

/-! ## Showing the state -/

theorem currentWord_returns (h : s.InBuffer) : s.currentWord.Returns fun _ => True := by
  refine (wordSelectionRange_returns h.1.cursor).bind fun range hrange => ?_
  refine (line_returns (contains_iff.mp hrange.1).1).bind fun line _ => ?_
  exact returns_ite (fun _ => returns_some trivial) fun _ => returns_some trivial

theorem currentHyperlink_returns (h : s.InBuffer) : s.currentHyperlink.Returns fun _ => True := by
  refine (line_returns h.1.cursor_lt).bind fun line _ => ?_
  dsimp only
  split
  · exact returns_some trivial
  · exact returns_ite (fun _ => returns_some trivial) fun _ => returns_some trivial

theorem summary_returns (h : s.InBuffer) : s.summary.Returns fun _ => True :=
  (currentWord_returns h).bind fun _ _ => (fullLineText_returns h.1.cursor_lt true).bind fun _ _ =>
    (currentHyperlink_returns h).done

theorem selectedColumns_returns {selection : SelectionState} (hy : y < s.totalLines) :
    (s.selectedColumns selection start stop y).Returns fun _ => True :=
  returns_ite (fun _ => (lineEndX_returns hy).map fun _ _ => trivial) fun _ =>
    returns_ite (fun _ => returns_some trivial) fun _ =>
      (rowEnd_returns hy).done

theorem renderScreen_returns (h : s.InBuffer) : s.renderScreen.Returns fun _ => True := by
  unfold renderScreen
  split
  · rename_i selection hsel
    obtain ⟨hanc, hsp⟩ := h.1.selection selection hsel
    have hl := (contains_iff.mp (ScreenView.contains_normalizePositions hanc hsp).2).1
    refine (returns_mapM (Q := fun _ => True) fun y hy => ?_).done
    have hy := lt_of_mem_linesBetween (mem_of_mem_filter hy) hl
    exact (selectedColumns_returns hy).done
  · exact returns_some trivial

theorem renderSnapshot_returns (h : s.InBuffer) : s.renderSnapshot.Returns fun _ => True :=
  (renderScreen_returns h).done

/-- The cursor, both ends of the selection and the mark are on lines of the screen, the viewport does
not go past the last line, and the cursor is at most one column past the last. -/
structure WithinBuffer (s : CopyModeState) : Prop where
  cursor_line : s.cursor.y < s.totalLines
  selection_lines : ∀ selection ∈ s.selection,
    selection.anchor.y < s.totalLines ∧ selection.stop.y < s.totalLines
  mark_line : ∀ mark ∈ s.mark, mark.y < s.totalLines
  top_line : s.topLine ≤ s.bottomTopLine
  cursor_column : s.cursor.x ≤ s.cols

theorem InBuffer.withinBuffer (h : s.InBuffer) : s.WithinBuffer where
  cursor_line := h.1.cursor_lt
  selection_lines selection hsel :=
    have ⟨hanc, hsp⟩ := h.1.selection selection hsel
    ⟨(contains_iff.mp hanc).1, (contains_iff.mp hsp).1⟩
  mark_line mark hmark := (contains_iff.mp (h.1.mark mark hmark)).1
  top_line := h.2
  cursor_column := h.1.cursor_le

/-- A run whose steps keep the mark returns at every step, in a state within its buffer that can be
summarised and shown. -/
theorem run_stays_within_buffer (lib : CopyModeLibraries) (screen : ScreenView) (viewMode : Bool)
    (context : CopyModeCommandContext) (exitOnScroll showPosition : Bool) (steps : List Step)
    (hsteps : KeepsMark lib (new screen viewMode context exitOnScroll showPosition) steps) :
    ∀ earlier, earlier <+: steps → ∃ s : CopyModeState,
      (new screen viewMode context exitOnScroll showPosition).run lib earlier = some s ∧
        s.WithinBuffer ∧ s.summary.isSome ∧ s.renderScreen.isSome ∧ s.renderSnapshot.isSome := by
  intro earlier hearlier
  obtain ⟨s, hs, h⟩ := run_inBuffer lib (new_inBuffer screen viewMode context exitOnScroll
    showPosition) (hsteps.earlier hearlier)
  obtain ⟨_, hsummary, -⟩ := summary_returns h
  obtain ⟨_, hscreen, -⟩ := renderScreen_returns h
  obtain ⟨_, hsnapshot, -⟩ := renderSnapshot_returns h
  exact ⟨s, hs, h.withinBuffer, by simp [hsummary], by simp [hscreen], by simp [hsnapshot]⟩

/-! ## A mark left behind -/

/-- A blank screen of one column, the cursor on its last row. -/
def blankColumn (rows : ℕ) (hrows : 0 < rows) : ScreenView where
  cols := 1
  rows := rows
  history := []
  visible := List.replicate rows ⟨.cells [], false, false, 0⟩
  cursorX := 0
  cursorY := rows - 1
  hyperlinks := []
  alternate := false
  cols_pos := Nat.one_pos
  rows_pos := hrows
  visible_length := List.length_replicate
  cursorX_le := Nat.zero_le _
  cursorY_lt := Nat.sub_lt hrows Nat.one_pos

/-- Libraries that find and change nothing. -/
def plainLibraries : CopyModeLibraries := ⟨id, fun c => [c], fun _ _ => none, fun a n d => a * n / d⟩

def emacsContext : CopyModeCommandContext := ⟨.emacs, .off, true, [], none, none⟩

def emacsCommand (name : String) : Step := .command name [] emacsContext 1

/-- The mark is set on the second line, the screen shrinks to one line, and the jump to the mark goes
to a line that does not exist : the summary looks that line up. -/
theorem jump_to_lost_mark :
    ∃ s, (new (blankColumn 2 Nat.two_pos) false emacsContext false true).run plainLibraries
        [emacsCommand "set-mark", .refresh (blankColumn 1 Nat.one_pos),
          emacsCommand "jump-to-mark"] = some s ∧
      s.cursor.y = 1 ∧ s.mark = some ⟨0, 1⟩ ∧ s.totalLines = 1 ∧ s.summary = none := by
  refine ⟨_, rfl, ?_⟩
  decide +kernel

/-- A mark on the first line outlives the same refresh. -/
theorem jump_to_kept_mark :
    ∃ s : CopyModeState,
      (new (blankColumn 2 Nat.two_pos) false emacsContext false true).run plainLibraries
          [emacsCommand "history-top", emacsCommand "set-mark",
            .refresh (blankColumn 1 Nat.one_pos), emacsCommand "jump-to-mark"] =
        some s ∧ s.WithinBuffer ∧ s.summary.isSome ∧ s.renderScreen.isSome ∧
          s.renderSnapshot.isSome := by
  refine run_stays_within_buffer plainLibraries (blankColumn 2 Nat.two_pos) false emacsContext false
    true _ ?_ _ List.prefix_rfl
  refine .cons (fun h => absurd h (by decide)) rfl (.cons (fun h => absurd h (by decide)) rfl ?_)
  refine .cons ?_ rfl (.cons (fun h => absurd h (by decide)) rfl trivial)
  rintro _ ⟨⟩
  decide +kernel

end CopyModeState

end Rmux
