import Mathlib.Data.List.Range
import Rmux.Text

/-!
# The lines copy mode reads

Copy mode works on a copy of a screen, the rows of the history and the visible rows under one
numbering (`ScreenView`). The columns of a row belong to the cells that own them (`owningCellX`) : a
wide character owns the padding columns on its right. The text of a line is searched through maps
between its bytes and its columns (`LineTextMap`, `LowercaseTextMap`).
-/

namespace Rmux

open List Option

/-! ## Cells and lines -/

/-- A cell of a row. -/
structure ScreenCellView where
  text : Text
  width : ℕ
  padding : Bool
  link : ℕ
deriving DecidableEq

/-- A row of the screen. -/
structure ScreenLineView where
  cells : List ScreenCellView
  width : ℕ
  wrapped : Bool
  startPrompt : Bool
  time : ℤ
deriving DecidableEq

namespace ScreenLineView

def cell (line : ScreenLineView) (x : ℕ) : Option ScreenCellView := line.cells[x]?

/-- The nearest cell on the left that is no padding, if it reaches column `x`. -/
def ownerBelow (line : ScreenLineView) (x : ℕ) : ℕ → Option ℕ
  | 0 => none
  | owner + 1 => do
    let candidate ← line.cell owner
    if candidate.padding then line.ownerBelow x owner
    else if x < owner + max candidate.width 1 then some owner
    else none

def owningCellX (line : ScreenLineView) (x : ℕ) : Option ℕ :=
  if line.width ≤ x then none
  else match line.cell x with
    | none => some x
    | some cell => if cell.padding then line.ownerBelow x x else some x

theorem ownerBelow_le {line : ScreenLineView} {x o : ℕ} :
    ∀ {n : ℕ}, line.ownerBelow x n = some o → o ≤ n
  | 0, h => by cases h
  | n + 1, h => by
    obtain ⟨candidate, -, h⟩ := bind_eq_some_iff.mp h
    split at h
    · exact (ownerBelow_le h).trans n.le_succ
    · split at h
      · obtain rfl := some.inj h
        exact n.le_succ
      · cases h

theorem owningCellX_lt {line : ScreenLineView} {x o : ℕ} (h : line.owningCellX x = some o) :
    o < line.width := by
  unfold owningCellX at h
  split at h
  · cases h
  · have hx : o ≤ x := by
      split at h
      · exact (some.inj h).ge
      · split at h
        · exact ownerBelow_le h
        · exact (some.inj h).ge
    omega

end ScreenLineView

def isOwnerPosition (line : ScreenLineView) (x : ℕ) : Bool :=
  x < line.width && (line.cell x).all fun cell => !cell.padding

def ownerPositions (line : ScreenLineView) : List ℕ :=
  (List.range line.width).filter (isOwnerPosition line)

theorem lt_of_mem_ownerPositions {line : ScreenLineView} {x : ℕ} (h : x ∈ ownerPositions line) :
    x < line.width :=
  mem_range.mp (mem_of_mem_filter h)

def lineChar (line : ScreenLineView) (x : ℕ) : Option Char :=
  let owner := (line.owningCellX x).getD x
  match line.cell owner with
  | some cell => cell.text.head?
  | none => if owner < line.width then some ' ' else none

/-! ## Positions -/

/-- A column and a line, counted from the first line of the history. -/
structure CopyPosition where
  x : ℕ
  y : ℕ
deriving DecidableEq

def positionLe (left right : CopyPosition) : Bool :=
  left.y < right.y || (left.y = right.y && left.x ≤ right.x)

def positionGe (left right : CopyPosition) : Bool :=
  right.y < left.y || (left.y = right.y && right.x ≤ left.x)

def normalizePositions (left right : CopyPosition) : CopyPosition × CopyPosition :=
  if positionLe left right then (left, right) else (right, left)

/-! ## The screen -/

/-- The cells of a stored row. A row of plain ASCII is kept as its bytes. -/
inductive GridLineCells
  | plain (bytes : List UInt8)
  | cells (cells : List ScreenCellView)
deriving DecidableEq

/-- A row of the grid. -/
structure GridLineView where
  content : GridLineCells
  wrapped : Bool
  startPrompt : Bool
  time : ℤ
deriving DecidableEq

/-- What copy mode reads of a screen. -/
structure ScreenView where
  cols : ℕ
  rows : ℕ
  history : List GridLineView
  visible : List GridLineView
  cursorX : ℕ
  cursorY : ℕ
  hyperlinks : List (ℕ × Text)
  alternate : Bool
  cols_pos : 0 < cols
  rows_pos : 0 < rows
  visible_length : visible.length = rows
  cursorX_le : cursorX ≤ cols
  cursorY_lt : cursorY < rows

namespace ScreenView

variable (screen : ScreenView)

def historySize : ℕ := screen.history.length

def cursorAbsoluteY : ℕ := screen.historySize + screen.cursorY

def absoluteLineCount : ℕ := screen.historySize + screen.rows

def blankCell : ScreenCellView := ⟨[' '], 1, false, 0⟩

def cellsOf (width : ℕ) : GridLineCells → List ScreenCellView
  | .cells cells => cells
  | .plain bytes =>
    let cells := bytes.map fun byte => ⟨[Char.ofNat byte.toNat], 1, false, 0⟩
    cells.take width ++ List.replicate (width - cells.length) blankCell

def absoluteLineView (y : ℕ) : Option ScreenLineView :=
  let width := max screen.cols 1
  (screen.history ++ screen.visible)[y]?.map fun line =>
    ⟨cellsOf width line.content, width, line.wrapped, line.startPrompt, line.time⟩

def hyperlinkUri (link : ℕ) : Option Text := screen.hyperlinks.lookup link

/-- The position is on a line of the screen, at most one column past its last. -/
def Contains (p : CopyPosition) : Prop := p.y < screen.absoluteLineCount ∧ p.x ≤ screen.cols

instance (p : CopyPosition) : Decidable (screen.Contains p) :=
  inferInstanceAs (Decidable (_ ∧ _))

variable {screen}

theorem absoluteLineCount_pos : 0 < screen.absoluteLineCount :=
  Nat.add_pos_right _ screen.rows_pos

theorem exists_absoluteLineView {y : ℕ} (h : y < screen.absoluteLineCount) :
    ∃ line, screen.absoluteLineView y = some line ∧ line.width = screen.cols := by
  have hlen : y < (screen.history ++ screen.visible).length := by
    rw [length_append, screen.visible_length]
    exact h
  have hcols : max screen.cols 1 = screen.cols := max_eq_left screen.cols_pos
  simp only [absoluteLineView, getElem?_eq_getElem hlen, hcols]
  exact ⟨_, rfl, rfl⟩

theorem contains_cursor (screen : ScreenView) :
    screen.Contains ⟨screen.cursorX, screen.cursorAbsoluteY⟩ :=
  ⟨Nat.add_lt_add_left screen.cursorY_lt _, screen.cursorX_le⟩

theorem contains_normalizePositions {left right : CopyPosition} (hl : screen.Contains left)
    (hr : screen.Contains right) : screen.Contains (normalizePositions left right).1 ∧
      screen.Contains (normalizePositions left right).2 := by
  unfold normalizePositions
  split
  · exact ⟨hl, hr⟩
  · exact ⟨hr, hl⟩

end ScreenView

/-! ## Words and regular expressions -/

/-- The class of a character in the motions over words. -/
inductive WordClass
  | word
  | separator
  | space
deriving DecidableEq

def classifyWordChar (ch : Char) (separators : Text) (spacesOnly : Bool) : WordClass :=
  if isWhitespace ch then .space
  else if !spacesOnly && separators.contains ch then .separator
  else .word

def regexMetachars : Text :=
  ['.', '^', '$', '*', '+', '?', '(', ')', '[', ']', '{', '}', '|', '\\']

def patternLooksLikeRegex (pattern : Text) : Bool := pattern.any regexMetachars.contains

/-! ## Text and columns -/

/-- The number of bytes of a text. -/
def utf8Len (text : Text) : ℕ := (text.map Char.utf8Size).sum

/-- The text after its first `n` bytes, if a character starts there. -/
def dropBytes : ℕ → Text → Option Text
  | 0, text => some text
  | _ + 1, [] => none
  | n + 1, c :: text => if c.utf8Size ≤ n + 1 then dropBytes (n + 1 - c.utf8Size) text else none

/-- The first `n` bytes of a text, if a character ends there. -/
def takeBytes : ℕ → Text → Option Text
  | 0, _ => some []
  | _ + 1, [] => none
  | n + 1, c :: text =>
    if c.utf8Size ≤ n + 1 then (takeBytes (n + 1 - c.utf8Size) text).map (c :: ·) else none

/-- A range of bytes. -/
structure ByteRange where
  start : ℕ
  stop : ℕ
deriving DecidableEq

/-- The characters of a range of bytes. -/
def textRange (text : Text) (range : ByteRange) : Option Text :=
  if range.start ≤ range.stop then
    (dropBytes range.start text).bind (takeBytes (range.stop - range.start))
  else none

/-- A match of a search. -/
structure SearchMatch where
  start : CopyPosition
  stop : CopyPosition
  text : Text
deriving DecidableEq

/-- The text of a line, with the column that each piece of it comes from. -/
structure LineTextMap where
  text : Text
  spans : List (ByteRange × ℕ)

namespace LineTextMap

variable {line : ScreenLineView}

def push (line : ScreenLineView) (map : LineTextMap) (x : ℕ) : LineTextMap :=
  let start := utf8Len map.text
  let text := map.text ++ match line.cell x with
    | some cell => cell.text
    | none => [' ']
  ⟨text, map.spans ++ [(⟨start, utf8Len text⟩, x)]⟩

def new (line : ScreenLineView) : LineTextMap :=
  (ownerPositions line).foldl (push line) ⟨[], []⟩

def matchRange (map : LineTextMap) (y : ℕ) (range : ByteRange) : Option SearchMatch := do
  let (_, startX) ← map.spans.find? fun (span, _) =>
    span.start ≤ range.start && range.start < span.stop
  let (_, endX) ← (map.spans.reverse.find? fun (span, _) =>
      span.start < range.stop && range.stop ≤ span.stop).or
    (map.spans.reverse.find? fun (span, _) => span.start < range.stop)
  let text ← textRange map.text range
  some ⟨⟨startX, y⟩, ⟨endX, y⟩, text⟩

theorem mem_spans_foldl {xs : List ℕ} {map : LineTextMap} {span : ByteRange × ℕ}
    (h : span ∈ (xs.foldl (push line) map).spans) : span ∈ map.spans ∨ span.2 ∈ xs := by
  induction xs generalizing map with
  | nil => exact Or.inl h
  | cons x xs ih =>
    rcases ih h with h | h
    · rcases mem_append.mp h with h | h
      · exact Or.inl h
      · right
        rw [mem_singleton.mp h]
        exact mem_cons_self
    · exact Or.inr (mem_cons_of_mem x h)

theorem lt_width_of_mem_spans {span : ByteRange × ℕ} (h : span ∈ (new line).spans) :
    span.2 < line.width := by
  rcases mem_spans_foldl h with h | h
  · cases h
  · exact lt_of_mem_ownerPositions h

/-- A match lies on the line it was found in, at columns of the line. -/
theorem of_matchRange {y : ℕ} {range : ByteRange} {found : SearchMatch}
    (h : (new line).matchRange y range = some found) :
    found.start.y = y ∧ found.start.x < line.width ∧ found.stop.y = y ∧
      found.stop.x < line.width := by
  obtain ⟨⟨startSpan, startX⟩, hst, h⟩ := bind_eq_some_iff.mp h
  obtain ⟨⟨endSpan, endX⟩, hend, h⟩ := bind_eq_some_iff.mp h
  obtain ⟨text, -, h⟩ := bind_eq_some_iff.mp h
  obtain rfl := some.inj h
  have hmem : (endSpan, endX) ∈ (new line).spans := by
    rcases or_eq_some_iff.mp hend with hend | ⟨-, hend⟩
    · exact mem_reverse.mp (mem_of_find?_eq_some hend)
    · exact mem_reverse.mp (mem_of_find?_eq_some hend)
  exact ⟨rfl, lt_width_of_mem_spans (mem_of_find?_eq_some hst), rfl, lt_width_of_mem_spans hmem⟩

end LineTextMap

/-- A text in lower case, with the bytes of the original that each piece of it comes from. -/
structure LowercaseTextMap where
  text : Text
  spans : List (ByteRange × ByteRange)

namespace LowercaseTextMap

/-- The pieces of a text from its byte `originalStart` on. -/
def build (lowercaseChar : Char → Text) (originalStart : ℕ) (map : LowercaseTextMap) :
    Text → LowercaseTextMap
  | [] => map
  | ch :: rest =>
    let foldedStart := utf8Len map.text
    let text := map.text ++ lowercaseChar ch
    let originalEnd := originalStart + ch.utf8Size
    build lowercaseChar originalEnd
      ⟨text, map.spans ++ [(⟨foldedStart, utf8Len text⟩, ⟨originalStart, originalEnd⟩)]⟩ rest

def new (lowercaseChar : Char → Text) (original : Text) : LowercaseTextMap :=
  build lowercaseChar 0 ⟨[], []⟩ original

def originalRange (map : LowercaseTextMap) (range : ByteRange) : Option ByteRange := do
  let (_, startSpan) ← map.spans.find? fun (folded, _) =>
    folded.start ≤ range.start && range.start < folded.stop
  let (_, endSpan) ← map.spans.reverse.find? fun (folded, _) =>
    folded.start < range.stop && range.stop ≤ folded.stop
  some ⟨startSpan.start, endSpan.stop⟩

end LowercaseTextMap

/-- The first occurrence of `needle`, as the number of bytes before it and the text from it on. -/
def findNeedle (needle : Text) : Text → Option (ℕ × Text)
  | [] => if needle.isEmpty then some (0, []) else none
  | c :: text =>
    if needle.isPrefixOf (c :: text) then some (0, c :: text)
    else (findNeedle needle text).map fun (before, rest) => (c.utf8Size + before, rest)

/-- The ranges of the occurrences of `needle` in `text`, which starts at byte `offset`. Every round
takes at least one character off. -/
def needleRanges (needle : Text) : ℕ → ℕ → Text → List ByteRange
  | 0, _, _ => []
  | fuel + 1, offset, text =>
    match findNeedle needle text with
    | none => []
    | some (found, rest) =>
      let start := offset + found
      let rest := rest.drop (max needle.length 1)
      ⟨start, start + utf8Len needle⟩ ::
        if rest.isEmpty then []
        else needleRanges needle fuel (start + max (utf8Len needle) 1) rest

end Rmux
