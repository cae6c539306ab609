import Rmux.CopyModeRender

/-!
# Copy mode in its buffer

A state is in its buffer (`CopyModeState.InBuffer`) when the cursor, both ends of the selection, the
mark and the matches of the last search lie on lines of the screen, and the viewport ends at the last
line at the latest. Every reading of such a state returns : no line is looked up that does not exist,
and every place that is found lies on the screen again.
-/

namespace Rmux

open Option List Nat

namespace CopyModeState

/-! ## The invariant -/

/-- The remembered positions lie on the screen. -/
structure OnScreen (screen : ScreenView) (cursor : CopyPosition)
    (selection : Option SelectionState) (mark : Option CopyPosition) (searchPattern : Text)
    (results : List SearchMatch) : Prop where
  cursor : screen.Contains cursor
  selection : ∀ state ∈ selection, screen.Contains state.anchor ∧ screen.Contains state.stop
  mark : ∀ position ∈ mark, screen.Contains position
  searchResults : ∀ found ∈ results,
    screen.Contains found.start ∧ screen.Contains found.stop
  /-- Without a pattern there are no matches. -/
  searched : searchPattern = [] → results = []

def Positioned (s : CopyModeState) : Prop :=
  OnScreen s.backing s.cursor s.selection s.mark s.searchPattern s.searchResults

def InBuffer (s : CopyModeState) : Prop := s.Positioned ∧ s.topLine ≤ s.bottomTopLine

variable {s : CopyModeState}

theorem totalLines_eq (s : CopyModeState) : s.totalLines = s.backing.absoluteLineCount :=
  max_eq_left ScreenView.absoluteLineCount_pos

theorem cols_eq (s : CopyModeState) : s.cols = s.backing.cols := max_eq_left s.backing.cols_pos

theorem totalLines_pos (s : CopyModeState) : 0 < s.totalLines := by
  rw [totalLines_eq]
  exact ScreenView.absoluteLineCount_pos

theorem contains_iff {p : CopyPosition} :
    s.backing.Contains p ↔ p.y < s.totalLines ∧ p.x ≤ s.cols := by
  rw [totalLines_eq, cols_eq]
  rfl

theorem contains_of {x y : ℕ} (hy : y < s.totalLines) (hx : x ≤ s.cols) :
    s.backing.Contains ⟨x, y⟩ :=
  contains_iff.mpr ⟨hy, hx⟩

theorem bottomTopLine_lt (s : CopyModeState) : s.bottomTopLine < s.totalLines := by
  have := s.totalLines_pos
  unfold bottomTopLine
  omega

namespace Positioned

variable (h : s.Positioned)

include h

theorem cursor_lt : s.cursor.y < s.totalLines := (contains_iff.mp h.cursor).1

theorem cursor_le : s.cursor.x ≤ s.cols := (contains_iff.mp h.cursor).2

theorem move {p : CopyPosition} (hp : s.backing.Contains p) (top : ℕ) :
    { s with cursor := p, topLine := top }.Positioned :=
  ⟨hp, h.selection, h.mark, h.searchResults, h.searched⟩

theorem ensureCursorVisible : s.ensureCursorVisible.InBuffer := ⟨h, min_le_right _ _⟩

theorem select {anchor stop : CopyPosition} (ha : s.backing.Contains anchor)
    (hs : s.backing.Contains stop) (mode : SelectionMode) (active : Bool) :
    { s with selection := some ⟨anchor, stop, mode, active⟩ }.Positioned := by
  refine ⟨h.cursor, ?_, h.mark, h.searchResults, h.searched⟩
  rintro _ ⟨⟩
  exact ⟨ha, hs⟩

end Positioned

namespace InBuffer

variable (h : s.InBuffer)

include h

theorem move {p : CopyPosition} (hp : s.backing.Contains p) {top : ℕ}
    (htop : top ≤ s.bottomTopLine) : { s with cursor := p, topLine := top }.InBuffer :=
  ⟨h.1.move hp top, htop⟩

theorem showCursorAt {p : CopyPosition} (hp : s.backing.Contains p) : (s.showCursorAt p).InBuffer :=
  (h.1.move hp s.topLine).ensureCursorVisible

theorem syncSelectionWithCursor : s.syncSelectionWithCursor.InBuffer := by
  refine ⟨⟨h.1.cursor, ?_, h.1.mark, h.1.searchResults, h.1.searched⟩, h.2⟩
  intro state hst
  obtain ⟨selection, hsel, rfl⟩ := map_eq_some_iff.mp hst
  obtain ⟨hanc, hsp⟩ := h.1.selection selection hsel
  split
  · exact ⟨hanc, h.1.cursor⟩
  · exact ⟨hanc, hsp⟩

theorem moveAndSync {pos : Option CopyPosition}
    (hp : ∀ p ∈ pos, s.backing.Contains p) : (s.moveAndSync pos).InBuffer := by
  cases pos with
  | none => exact h.syncSelectionWithCursor
  | some p => exact (h.showCursorAt (hp p rfl)).syncSelectionWithCursor

theorem syncIfMoved {pos : Option CopyPosition}
    (hp : ∀ p ∈ pos, s.backing.Contains p) : (s.syncIfMoved pos).InBuffer := by
  cases pos with
  | none => exact h
  | some p => exact (h.showCursorAt (hp p rfl)).syncSelectionWithCursor

theorem clearFor (policy : ClearPolicy) : (s.clearFor policy).InBuffer := by
  cases policy with
  | always | never => exact h
  | emacsOnly =>
    unfold CopyModeState.clearFor
    dsimp only
    split
    · exact h
    · exact h

theorem beginSelection : s.beginSelection.InBuffer := ⟨h.1.select h.1.cursor h.1.cursor _ _, h.2⟩

end InBuffer

/-! ## Reading lines -/

section Reading

variable {x : ℕ} {y : ℕ} {line : ScreenLineView}

theorem line_returns (hy : y < s.totalLines) :
    (s.line y).Returns fun line => line.width = s.cols := by
  rw [totalLines_eq] at hy
  obtain ⟨line, hl, hwid⟩ := ScreenView.exists_absoluteLineView hy
  exact ⟨line, hl, hwid.trans s.cols_eq.symm⟩

theorem owningCellX_getD_le (hl : line.width = s.cols) {d : ℕ} (hd : d ≤ s.cols) :
    (line.owningCellX x).getD d ≤ s.cols := by
  cases h : line.owningCellX x with
  | none => exact hd
  | some o => exact (hl ▸ ScreenLineView.owningCellX_lt h).le

theorem mem_ownerPositions_le (hl : line.width = s.cols) (hx : x ∈ ownerPositions line) :
    x ≤ s.cols :=
  (hl ▸ lt_of_mem_ownerPositions hx).le

theorem find_ownerPositions_getD_le (hl : line.width = s.cols) {p : ℕ → Bool} {d : ℕ}
    (hd : d ≤ s.cols) : ((ownerPositions line).find? p).getD d ≤ s.cols := by
  cases h : (ownerPositions line).find? p with
  | none => exact hd
  | some x => exact mem_ownerPositions_le hl (mem_of_find?_eq_some h)

theorem owningOrZero_returns (hy : y < s.totalLines) (x : ℕ) :
    (s.owningOrZero y x).Returns (· ≤ s.cols) :=
  (line_returns hy).bind fun _ hl => returns_some (owningCellX_getD_le hl (zero_le _))

theorem lineEndX_returns (hy : y < s.totalLines) : (s.lineEndX y).Returns (· ≤ s.cols) := by
  refine (line_returns hy).bind fun line hl => ?_
  split
  · exact returns_some (zero_le _)
  · rename_i x hx
    exact returns_some (find_ownerPositions_getD_le hl (
      (mem_ownerPositions_le hl (mem_reverse.mp (mem_of_find?_eq_some hx)))))

theorem previousCellPosition_returns {p : CopyPosition} (hp : s.backing.Contains p) :
    (s.previousCellPosition p).Returns fun found => ∀ q ∈ found, s.backing.Contains q := by
  have hy := (contains_iff.mp hp).1
  refine (line_returns hy).bind fun line hl => ?_
  dsimp only
  split
  · rename_i previous hprevious
    have hmem := (takeWhile_sublist _).mem (mem_of_getLast? hprevious)
    refine returns_some ?_
    rintro _ ⟨⟩
    exact contains_of hy (mem_ownerPositions_le hl hmem)
  · split
    · exact returns_some (by simp)
    · have hpred : p.y - 1 < s.totalLines := by omega
      refine (lineEndX_returns hpred).bind fun x hx => returns_some ?_
      rintro _ ⟨⟩
      exact contains_of hpred hx

theorem nextCellPosition_returns {p : CopyPosition} (hp : s.backing.Contains p) :
    (s.nextCellPosition p).Returns fun found => ∀ q ∈ found, s.backing.Contains q := by
  have hy := (contains_iff.mp hp).1
  refine (line_returns hy).bind fun line hl => ?_
  refine (lineEndX_returns hy).bind fun lineEnd hend => ?_
  dsimp only
  split
  · rename_i next hnx
    have hle : next ≤ lineEnd := by
      split at hnx
      · simpa using (filter_eq_some_iff.mp hnx).2
      · cases hnx
    refine returns_some ?_
    rintro _ ⟨⟩
    exact contains_of hy (hle.trans hend)
  · split
    · exact returns_some (by simp)
    · refine returns_some ?_
      rintro _ ⟨⟩
      exact contains_of (by omega) (zero_le _)

theorem logicalLineStartY_returns :
    ∀ {y : ℕ}, y < s.totalLines → (s.logicalLineStartY y).Returns (· ≤ y)
  | 0, _ => returns_some le_rfl
  | y + 1, hy => by
    refine (line_returns (Nat.lt_of_succ_lt hy)).bind fun line _ => returns_ite ?_ ?_
    · intro _
      exact (logicalLineStartY_returns (Nat.lt_of_succ_lt hy)).mono fun _ h => h.trans y.le_succ
    · intro _
      exact returns_some le_rfl

theorem logicalLineEndY_returns {y : ℕ} (hy : y < s.totalLines) :
    (s.logicalLineEndY y).Returns fun last => y ≤ last ∧ last < s.totalLines := by
  rw [logicalLineEndY]
  refine returns_ite ?_ ?_
  · intro hnx
    refine (line_returns hy).bind fun line _ => returns_ite ?_ ?_
    · intro _
      refine (logicalLineEndY_returns hnx).mono ?_
      rintro last ⟨hle, hlt⟩
      exact ⟨by omega, hlt⟩
    · intro _
      exact returns_some ⟨le_rfl, hy⟩
  · intro _
    exact returns_some ⟨le_rfl, hy⟩
termination_by s.totalLines - y

theorem fullLineText_returns (hy : y < s.totalLines) (trimSpaces : Bool) :
    (s.fullLineText y trimSpaces).Returns fun _ => True :=
  (line_returns hy).done

theorem lineBlank_returns (hy : y < s.totalLines) : (s.lineBlank y).Returns fun _ => True :=
  (fullLineText_returns hy true).done

theorem mem_linesBetween {first last : ℕ} (h : y ∈ linesBetween first last) : y ≤ last := by
  have := mem_range'_1.mp h
  omega

theorem lt_of_mem_linesBetween {first last : ℕ} (h : y ∈ linesBetween first last)
    (hl : last < s.totalLines) : y < s.totalLines :=
  (mem_linesBetween h).trans_lt hl

end Reading

/-! ## Brackets and words -/

section Searching

theorem goOn_ne_found {visited depth : ℕ} : BracketScan.goOn visited depth ≠ .stopped (some p) := by
  unfold BracketScan.goOn
  split
  · simp
  · simp

/-- What a scan has found lies on the screen. -/
def ScanOnScreen (screen : ScreenView) (scan : BracketScan) : Prop :=
  ∀ p, scan = .stopped (some p) → screen.Contains p

theorem scanOnScreen_goOn (screen : ScreenView) (visited depth : ℕ) :
    ScanOnScreen screen (.goOn visited depth) :=
  fun _ hp => absurd hp goOn_ne_found

variable {line : ScreenLineView} {y : ℕ}

theorem bracketVisit_onScreen {screen : ScreenView} {deeper shallower : Char} {x : ℕ}
    {scan : BracketScan} (hsc : ScanOnScreen screen scan) (hx : screen.Contains ⟨x, y⟩) :
    ScanOnScreen screen (bracketVisit line deeper shallower y scan x) := by
  unfold bracketVisit
  split
  · exact hsc
  · split
    · exact scanOnScreen_goOn _ _ _
    · split
      · exact scanOnScreen_goOn _ _ _
      · split
        · split
          · rintro p ⟨⟩
            exact hx
          · exact scanOnScreen_goOn _ _ _
        · exact scanOnScreen_goOn _ _ _

theorem foldl_bracketVisit_onScreen {screen : ScreenView} {line : ScreenLineView}
    {deeper shallower : Char} {y : ℕ} :
    ∀ {xs : List ℕ} {scan : BracketScan}, ScanOnScreen screen scan →
      (∀ x ∈ xs, screen.Contains ⟨x, y⟩) →
      ScanOnScreen screen (xs.foldl (bracketVisit line deeper shallower y) scan)
  | [], _, hsc, _ => hsc
  | x :: xs, _, hsc, hxs =>
    @foldl_bracketVisit_onScreen screen line deeper shallower y xs _
      (bracketVisit_onScreen hsc (hxs x List.mem_cons_self))
      fun x' hx' => hxs x' (List.mem_cons_of_mem x hx')

theorem mem_bracketColumns {x : ℕ} (hx : x ∈ s.bracketColumns scanForward line y) :
    x ∈ ownerPositions line := by
  unfold bracketColumns at hx
  split at hx
  · exact mem_of_mem_filter hx
  · exact mem_of_mem_filter (mem_reverse.mp hx)

theorem bracketVisitLine_returns {deeper shallower : Char} {scan : BracketScan}
    (hy : y < s.totalLines) (hsc : ScanOnScreen s.backing scan) :
    (s.bracketVisitLine scanForward deeper shallower scan y).Returns (ScanOnScreen s.backing) := by
  unfold bracketVisitLine
  split
  · exact returns_some hsc
  · refine (line_returns hy).bind fun line hl => returns_some ?_
    refine foldl_bracketVisit_onScreen (by simp [ScanOnScreen]) fun x hx => ?_
    exact contains_of hy (mem_ownerPositions_le hl (mem_bracketColumns hx))

theorem lt_of_mem_bracketRows (hcursor : s.cursor.y < s.totalLines)
    (hy : y ∈ s.bracketRows scanForward) : y < s.totalLines := by
  unfold bracketRows at hy
  split at hy
  · have := mem_range'_1.mp hy
    omega
  · have := mem_range.mp (mem_reverse.mp hy)
    omega

theorem findMatchingBracket_returns (hs : s.Positioned) (forward : Bool) :
    (s.findMatchingBracket forward).Returns fun found => ∀ p ∈ found, s.backing.Contains p := by
  refine (line_returns hs.cursor_lt).bind fun line _ => returns_ite ?_ ?_
  · intro _
    exact returns_some (by simp)
  · intro _
    split
    · exact returns_some (by simp)
    · refine (returns_foldlM (I := ScanOnScreen s.backing) ?_ (by simp [ScanOnScreen])).bind ?_
      · intro scan y hy hsc
        refine bracketVisitLine_returns ?_ hsc
        exact lt_of_mem_bracketRows hs.cursor_lt hy
      · intro scan hsc
        split
        · exact returns_some (by simp)
        · refine returns_some ?_
          rintro p ⟨⟩
          exact hsc p rfl

theorem flattenOwnerPositions_returns :
    s.flattenOwnerPositions.Returns fun positions => ∀ p ∈ positions, s.backing.Contains p := by
  refine (returns_mapM (Q := fun row => ∀ p ∈ row, s.backing.Contains p) ?_).bind ?_
  · intro y hy
    have hy := mem_range.mp hy
    refine (line_returns hy).bind fun line hl => returns_some ?_
    intro p hp
    obtain ⟨x, hx, rfl⟩ := mem_map.mp hp
    exact contains_of hy (mem_ownerPositions_le hl hx)
  · intro rows hrw
    refine returns_some fun p hp => ?_
    obtain ⟨row, hrow, hp⟩ := mem_flatten.mp hp
    exact hrw row hrow p hp

theorem classAt_returns (spacesOnly : Bool) (hp : s.backing.Contains p) :
    (s.classAt spacesOnly p).Returns fun _ => True :=
  (line_returns (contains_iff.mp hp).1).done

theorem endOfBufferNextX_returns (hy : y < s.totalLines) :
    (s.endOfBufferNextX y).Returns fun found => ∀ x ∈ found, x ≤ s.cols := by
  refine (line_returns hy).bind fun line hl => returns_some ?_
  intro x hx
  obtain ⟨last, -, rfl⟩ := map_eq_some_iff.mp hx
  exact find_ownerPositions_getD_le hl hl.le

theorem endOfBufferWordBoundary_returns (boundary : WordBoundary) :
    (s.endOfBufferWordBoundary boundary).Returns s.backing.Contains := by
  have hpos := s.totalLines_pos
  have hl : s.totalLines - 1 < s.totalLines := by omega
  have hgetD {d : ℕ} (hd : d ≤ s.cols) :
      ((s.endOfBufferNextX (s.totalLines - 1)).map (·.getD d)).Returns (· ≤ s.cols) := by
    refine (endOfBufferNextX_returns hl).map fun found hf => ?_
    cases found with
    | none => exact hd
    | some x => exact hf x rfl
  refine Returns.bind ?_ fun x hx => returns_some (contains_of hl hx)
  cases boundary with
  | nextStart => exact hgetD (by omega)
  | nextEnd => exact hgetD (zero_le _)
  | previousStart => exact returns_some (zero_le _)

variable {classAt : CopyPosition → Option WordClass} {candidates : List CopyPosition}
  {p : CopyPosition} {scanForward : Bool}

/-- Positions with a property that have a class. -/
def Classed (classAt : CopyPosition → Option WordClass) (P : CopyPosition → Prop)
    (candidates : List CopyPosition) : Prop :=
  ∀ p ∈ candidates, P p ∧ (classAt p).Returns fun _ => True

section Tokens

variable {P : CopyPosition → Prop}

theorem nextTokenStart_returns {token : Option WordClass} :
    ∀ {candidates : List CopyPosition} {sawSpace : Bool}, Classed classAt P candidates →
      (nextTokenStart classAt token sawSpace candidates).Returns fun found => ∀ p ∈ found, P p
  | [], _, _ => returns_some (by simp)
  | candidate :: rest, sawSpace, h => by
    obtain ⟨⟨hp, hcls⟩, hr⟩ := forall_mem_cons.mp h
    refine hcls.bind fun cls _ => returns_ite ?_ ?_
    · exact fun _ => nextTokenStart_returns hr
    · exact fun _ => returns_ite (fun _ => returns_some (by simpa)) fun _ =>
        nextTokenStart_returns hr

theorem nextTokenEnd_returns :
    ∀ {candidates : List CopyPosition} {token : Option WordClass}, Classed classAt P candidates →
      (nextTokenEnd classAt token candidates).Returns fun found => ∀ p ∈ found, P p
  | [], _, _ => returns_some (by simp)
  | candidate :: rest, token, h => by
    obtain ⟨⟨hp, hcls⟩, hr⟩ := forall_mem_cons.mp h
    have hf : (some (some candidate)).Returns fun found => ∀ p ∈ found, P p :=
      returns_some (by simpa)
    refine hcls.bind fun cls _ => returns_ite ?_ ?_
    · exact fun _ => returns_ite (fun _ => hf) fun _ => nextTokenEnd_returns hr
    · intro _
      split
      · exact returns_ite (fun _ => nextTokenEnd_returns hr) fun _ => hf
      · exact nextTokenEnd_returns hr

theorem extendToken_returns {cls : WordClass} :
    ∀ {candidates : List CopyPosition} {start : Option CopyPosition}, (∀ p ∈ start, P p) →
      Classed classAt P candidates →
      (extendToken classAt cls start candidates).Returns fun found => ∀ p ∈ found, P p
  | [], _, hst, _ => returns_some hst
  | candidate :: rest, start, hst, h => by
    obtain ⟨⟨hp, hcls⟩, hr⟩ := forall_mem_cons.mp h
    refine hcls.bind fun found _ => returns_ite ?_ fun _ => returns_some hst
    exact fun _ => extendToken_returns (by simpa) hr

theorem previousTokenStart_returns :
    ∀ {candidates : List CopyPosition} {token : Option (WordClass × CopyPosition)},
      (∀ p ∈ token.map Prod.snd, P p) → Classed classAt P candidates →
      (previousTokenStart classAt token candidates).Returns fun found => ∀ p ∈ found, P p
  | [], _, htok, _ => returns_some htok
  | candidate :: r, token, htok, h => by
    obtain ⟨⟨hp, hcls⟩, hr⟩ := forall_mem_cons.mp h
    have hfrom (cls : WordClass) :
        (previousTokenStart classAt (some (cls, candidate)) r).Returns fun found =>
          ∀ p ∈ found, P p :=
      previousTokenStart_returns (by simpa) hr
    refine hcls.bind fun cls _ => ?_
    cases token with
    | none => exact returns_ite (fun _ => previousTokenStart_returns htok hr) fun _ => hfrom cls
    | some token => exact returns_ite (fun _ => hfrom _) fun _ => returns_some htok

end Tokens

theorem findBoundary_returns (hp : s.backing.Contains p) (boundary : WordBoundary)
    (spacesOnly : Bool) : (s.findBoundary p boundary spacesOnly).Returns fun found =>
      ∀ q ∈ found, s.backing.Contains q := by
  refine flattenOwnerPositions_returns.bind fun positions hpos => ?_
  split
  · exact returns_some (by simp)
  rename_i i _
  have hcls {l : List CopyPosition} (hl : ∀ q ∈ l, s.backing.Contains q) :
      Classed (s.classAt spacesOnly) s.backing.Contains l :=
    fun q hq => ⟨hl q hq, classAt_returns spacesOnly (hl q hq)⟩
  have haft : ∀ q ∈ positions.drop (i + 1), s.backing.Contains q :=
    fun q hq => hpos q (mem_of_mem_drop hq)
  have hbef : ∀ q ∈ (positions.take i).reverse, s.backing.Contains q :=
    fun q hq => hpos q (mem_of_mem_take (mem_reverse.mp hq))
  have hend (boundary : WordBoundary) :
      ((s.endOfBufferWordBoundary boundary).map some).Returns fun found =>
        ∀ q ∈ found, s.backing.Contains q :=
    (endOfBufferWordBoundary_returns boundary).map fun a ha q hq => some.inj hq ▸ ha
  cases boundary with
  | nextStart =>
    refine (classAt_returns spacesOnly hp).bind fun current _ => ?_
    refine (nextTokenStart_returns (hcls haft)).bind fun found hf => ?_
    cases found with
    | none => exact hend _
    | some q => exact returns_some hf
  | nextEnd =>
    refine (classAt_returns spacesOnly hp).bind fun current _ => ?_
    refine Returns.bind (P := fun found => ∀ q ∈ found, s.backing.Contains q) ?_ ?_
    · refine returns_ite (fun _ => nextTokenEnd_returns (hcls haft)) fun _ => ?_
      refine (returns_findM? fun q hq => ?_).mono fun _ hf q hq => haft q (hf q hq)
      exact (hcls haft q hq).2.map fun _ _ => trivial
    · intro found hf
      cases found with
      | none => exact hend _
      | some q => exact returns_some hf
  | previousStart =>
    refine (classAt_returns spacesOnly hp).bind fun current _ => ?_
    refine Returns.bind (P := fun found => ∀ q ∈ found, s.backing.Contains q) ?_ ?_
    · refine returns_ite (fun _ => returns_some (by simp)) fun _ => ?_
      exact extendToken_returns (by simp) (hcls hbef)
    · intro moved hmove
      cases moved with
      | some q => exact returns_some hmove
      | none => exact previousTokenStart_returns (by simp) (hcls hbef)

theorem takeWhile_getLastD_le {l : List ℕ} {p : ℕ → Bool} {d n : ℕ} (hd : d ≤ n)
    (hl : ∀ x ∈ l, x ≤ n) : (l.takeWhile p).getLastD d ≤ n := by
  have hmem : (l.takeWhile p).getLastD d ∈ d :: l.takeWhile p := getLastD_mem_cons
  rcases mem_cons.mp hmem with h | h
  · exact h.trans_le hd
  · exact hl _ ((takeWhile_sublist _).mem h)

theorem wordOwner_le (hl : line.width = s.cols) {owner : ℕ} (hown : owner ≤ s.cols) :
    s.wordOwner line owner ≤ s.cols := by
  unfold wordOwner
  split
  · exact hown
  · cases h : ((ownerPositions line).filter (owner < ·)).find? fun x =>
        decide (s.wordClassAt line x = .word) with
    | none => exact hown
    | some x =>
      exact mem_ownerPositions_le hl (mem_of_mem_filter (mem_of_find?_eq_some h))

theorem wordSelectionRange_returns (hp : s.backing.Contains p) :
    (s.wordSelectionRange p).Returns fun range =>
      s.backing.Contains range.start ∧ s.backing.Contains range.stop := by
  obtain ⟨hy, hx⟩ := contains_iff.mp hp
  refine (line_returns hy).bind fun line hline => returns_ite ?_ ?_
  · exact fun _ => returns_some ⟨hp, hp⟩
  intro _
  have hmem {l : List ℕ} (hl : ∀ x ∈ l, x ∈ ownerPositions line) : ∀ x ∈ l, x ≤ s.cols :=
    fun x hx => mem_ownerPositions_le hline (hl x hx)
  have hown := owningCellX_getD_le hline hx (x := p.x)
  have hle := wordOwner_le hline hown
  refine returns_some ⟨contains_of hy ?_, contains_of hy ?_⟩
  · exact takeWhile_getLastD_le hle (hmem fun x hx => mem_reverse.mp (mem_of_mem_filter hx))
  · exact takeWhile_getLastD_le hle (hmem fun x hx => mem_of_mem_filter hx)

end Searching

end CopyModeState

end Rmux
