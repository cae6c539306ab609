import Mathlib.Data.List.MinMax
import Mathlib.Data.Prod.Lex
import Rmux.Identity
import Rmux.Window

/-!
# The text of a target

A part of a target is an id, a name, an offset, a token or a pattern, and a pane part can also name
a place in the window. What is here does not need the other sessions.
-/

namespace Rmux

open MachineInt List Option

/-- What is looked for. -/
inductive TargetFindType
  | session
  | window
  | pane
deriving DecidableEq

/-- How it is looked for, as bits. -/
structure TargetFindFlags where
  bits : BitVec 8
deriving DecidableEq

namespace TargetFindFlags

def none : TargetFindFlags := ⟨0⟩
def preferUnattached : TargetFindFlags := ⟨1⟩
def windowIndex : TargetFindFlags := ⟨4⟩
def defaultMarked : TargetFindFlags := ⟨8⟩
def exactSession : TargetFindFlags := ⟨16⟩
def exactWindow : TargetFindFlags := ⟨32⟩

def contains (flags other : TargetFindFlags) : Bool := flags.bits &&& other.bits = other.bits

def insert (flags other : TargetFindFlags) : TargetFindFlags := ⟨flags.bits ||| other.bits⟩

/-- Flags put in do not show among flags without bits in common. -/
theorem contains_insert (flags : TargetFindFlags) {other wanted : TargetFindFlags}
    (h : other.bits &&& wanted.bits = 0#8) :
    (flags.insert other).contains wanted = flags.contains wanted := by
  have hbits : (flags.bits ||| other.bits) &&& wanted.bits = flags.bits &&& wanted.bits := by
    rw [BitVec.and_comm, BitVec.and_or_distrib_left, BitVec.and_comm wanted.bits other.bits, h,
      BitVec.and_comm]
    exact BitVec.or_zero
  rw [contains, contains, insert, hbits]

end TargetFindFlags

/-! ## Parts -/

/-- Before and after the first occurrence of a character. -/
def splitOnce (c : Char) (text : Text) : Option (Text × Text) :=
  match text.span (· ≠ c) with
  | (before, _ :: after) => some (before, after)
  | (_, []) => none

theorem splitOnce_append {c : Char} {before : Text} (h : c ∉ before) (after : Text) :
    splitOnce c (before ++ c :: after) = some (before, after) := by
  have hpos : ∀ d ∈ before, decide (d ≠ c) = true := fun d hd =>
    decide_eq_true fun heq => h (heq ▸ hd)
  rw [splitOnce, span_eq_takeWhile_dropWhile, takeWhile_append_of_pos hpos,
    dropWhile_append_of_pos hpos, takeWhile_cons_of_neg (by simp),
    dropWhile_cons_of_neg (by simp), append_nil]

theorem splitOnce_eq_none {c : Char} {text : Text} (h : c ∉ text) : splitOnce c text = none := by
  have hpos : ∀ d ∈ text, decide (d ≠ c) = true := fun d hd =>
    decide_eq_true fun heq => h (heq ▸ hd)
  rw [splitOnce, span_eq_takeWhile_dropWhile, dropWhile_eq_nil_iff.mpr hpos]

/-- The session, window and pane part of a text, and whether it can only be a window or a pane. -/
structure TargetParts where
  session : Option Text
  window : Option Text
  pane : Option Text
  windowOnly : Bool
  paneOnly : Bool
deriving DecidableEq

namespace TargetParts

def parse (raw : Text) (findType : TargetFindType) : TargetParts :=
  match splitOnce ':' raw with
  | some (session, rest) =>
    match splitOnce '.' rest with
    | some (window, pane) => ⟨some session, some window, some pane, true, true⟩
    | none => ⟨some session, some rest, none, true, false⟩
  | none =>
    if raw.head? = some '$' then ⟨some raw, none, none, false, false⟩
    else if raw.head? = some '@' then
      match splitOnce '.' raw with
      | some (window, pane) => ⟨none, some window, some pane, false, true⟩
      | none => ⟨none, some raw, none, false, false⟩
    else if raw.head? = some '%' then ⟨none, none, some raw, false, false⟩
    else
      match findType with
      | .session => ⟨some raw, none, none, false, false⟩
      | .window => ⟨none, some raw, none, false, false⟩
      | .pane =>
        match splitOnce '.' raw with
        | some (window, pane) => ⟨none, some window, some pane, false, true⟩
        | none => ⟨none, none, some raw, false, false⟩

/-- The text after a leading `=`. -/
def stripExact : Option Text → Option Text
  | some ('=' :: rest) => some rest
  | _ => none

def applyExactPrefixes (parts : TargetParts) (flags : TargetFindFlags) :
    TargetParts × TargetFindFlags :=
  let (parts, flags) := match stripExact parts.session with
    | some session => ({ parts with session := some session }, flags.insert .exactSession)
    | none => (parts, flags)
  match stripExact parts.window with
  | some window => ({ parts with window := some window }, flags.insert .exactWindow)
  | none => (parts, flags)

def dropEmpty (parts : TargetParts) : TargetParts :=
  { parts with
    session := parts.session.filter (· ≠ [])
    window := parts.window.filter (· ≠ [])
    pane := parts.pane.filter (· ≠ []) }

def mapWindowToken (value : Text) : Text :=
  if value = "{start}".toList then "^".toList
  else if value = "{last}".toList then "!".toList
  else if value = "{end}".toList then "$".toList
  else if value = "{next}".toList then "+".toList
  else if value = "{previous}".toList then "-".toList
  else value

def mapPaneToken (value : Text) : Text :=
  if value = "{last}".toList then "!".toList
  else if value = "{next}".toList then "+".toList
  else if value = "{previous}".toList then "-".toList
  else if value = "{top}".toList then "top".toList
  else if value = "{bottom}".toList then "bottom".toList
  else if value = "{left}".toList then "left".toList
  else if value = "{right}".toList then "right".toList
  else if value = "{top-left}".toList then "top-left".toList
  else if value = "{top-right}".toList then "top-right".toList
  else if value = "{bottom-left}".toList then "bottom-left".toList
  else if value = "{bottom-right}".toList then "bottom-right".toList
  else value

def mapTokens (parts : TargetParts) : TargetParts :=
  { parts with
    window := parts.window.map mapWindowToken
    pane := parts.pane.map mapPaneToken }

theorem applyExactPrefixes_contains_windowIndex (parts : TargetParts) (flags : TargetFindFlags) :
    (parts.applyExactPrefixes flags).2.contains .windowIndex = flags.contains .windowIndex := by
  have hsess : (flags.insert .exactSession).contains .windowIndex =
      flags.contains .windowIndex := flags.contains_insert (by decide)
  rw [applyExactPrefixes]
  cases stripExact parts.session with
  | none =>
    dsimp only
    cases stripExact parts.window with
    | none => rfl
    | some window => exact flags.contains_insert (by decide)
  | some s =>
    dsimp only
    cases stripExact parts.window with
    | none => exact hsess
    | some window => exact ((flags.insert _).contains_insert (by decide)).trans hsess

end TargetParts

/-! ## Errors -/

def invalidTargetText (value : Text) (reason : String) : RmuxError :=
  .invalidTarget (String.ofList value) reason

def targetNotFound (value : Text) (kind : String) : RmuxError :=
  invalidTargetText value ("can't find " ++ kind ++ ": " ++ String.ofList value)

/-! ## Ids and offsets -/

def parseRequiredPrefixedId (value : Text) (sign : Char) : Except RmuxError UInt32 :=
  match value with
  | [] => .error (notAnId value)
  | c :: rest =>
    if c ≠ sign then .error (notAnId value)
    else if rest = [] ∨ ¬rest.all Char.isDigit then
      .error (invalidTargetText value (String.singleton sign ++
        " id target must be followed by an unsigned integer"))
    else
      match parseUnsigned u32Max rest with
      | some id => .ok (UInt32.ofNat id)
      | none => .error (invalidTargetText value (String.singleton sign ++
          " id target must fit in an unsigned integer"))
where
  notAnId (value : Text) : RmuxError :=
    invalidTargetText value
      (String.singleton sign ++ " id target must start with " ++ String.singleton sign)

def parsePrefixedId (value : Text) (sign : Char) : Except RmuxError (Option UInt32) :=
  if value.head? = some sign then (parseRequiredPrefixedId value sign).map some else .ok none

def i32Max : ℕ := 2147483647

def parseOffset (value : Text) : Except RmuxError (Option ℤ) :=
  match value with
  | [] => .ok none
  | sign :: rest =>
    if sign ≠ '+' ∧ sign ≠ '-' then .ok none
    else
      let signed (magnitude : ℕ) : ℤ := if sign = '+' then magnitude else -magnitude
      if rest = [] then .ok (some (signed 1))
      else if rest.all Char.isDigit then
        match parseUnsigned i32Max rest with
        | some magnitude => .ok (some (signed magnitude))
        | none => .error (invalidTargetText value "offset must fit in a signed integer")
      else .ok none

def offsetIndex (index : ℕ) (offset : ℤ) : Option ℕ :=
  let next := (index : ℤ) + offset
  if 0 ≤ next ∧ next ≤ u32Max then some next.toNat else none

/-- A sum of signed numbers of 32 bits wraps around in a release build. -/
def wrapI32 (n : ℤ) : ℤ := n.bmod (2 ^ 32)

def cyclicOffset (indices : List ℕ) (current : ℕ) (offset : ℤ) : Option ℕ := do
  let position ← indices.findIdx? (· = current)
  indices[(wrapI32 (position + offset) % indices.length).toNat]?

theorem mem_of_cyclicOffset {indices : List ℕ} {current : ℕ} {offset : ℤ} {index : ℕ}
    (h : cyclicOffset indices current offset = some index) : index ∈ indices := by
  rw [cyclicOffset, bind_eq_bind, bind_eq_some_iff] at h
  obtain ⟨p, -, h⟩ := h
  exact mem_of_getElem? h

/-! ## Patterns -/

/-- The rest of a bracket expression : whether the character is in it and what follows it. -/
def bracketEntries (value : Char) : Text → Bool → Bool → Option (Bool × Text)
  | [], _, _ => none
  | first :: '-' :: last :: rest, sawEntry, matched =>
    if first = ']' ∧ sawEntry then some (matched, '-' :: last :: rest)
    else if last ≠ ']' then
      bracketEntries value rest true (matched || (first ≤ value && value ≤ last))
    else bracketEntries value ('-' :: last :: rest) true (matched || first = value)
  | first :: rest, sawEntry, matched =>
    if first = ']' ∧ sawEntry then some (matched, rest)
    else bracketEntries value rest true (matched || first = value)

/-- A bracket expression after its `[`. -/
def bracketMatch (value : Char) (pattern : Text) : Option (Bool × Text) :=
  match pattern with
  | [] => none
  | c :: rest =>
    if c = '!' ∨ c = '^' then
      (bracketEntries value rest false false).map fun found => (!found.1, found.2)
    else bracketEntries value pattern false false

variable {found : Bool × Text}

theorem length_of_bracketEntries {v : Char} {pattern : Text} {sawEntry matched : Bool}
    (h : bracketEntries v pattern sawEntry matched = some found) :
    found.2.length ≤ pattern.length := by
  fun_induction bracketEntries v pattern sawEntry matched with
  | case1 => cases h
  | case2 => cases h; simp
  | case3 => rename_i ih; have := ih h; simp only [length_cons]; omega
  | case4 => rename_i ih; have := ih h; simp only [length_cons] at this ⊢; omega
  | case5 => cases h; simp
  | case6 => rename_i ih; have := ih h; simp only [length_cons]; omega

theorem length_of_bracketMatch {v : Char} {pattern : Text}
    (h : bracketMatch v pattern = some found) : found.2.length ≤ pattern.length := by
  cases pattern with
  | nil => cases h
  | cons c r =>
    rw [bracketMatch] at h
    split_ifs at h
    · obtain ⟨found', hf, rfl⟩ := map_eq_some_iff.mp h
      exact (length_of_bracketEntries hf).trans (Nat.le_succ _)
    · exact length_of_bracketEntries h

def fnmatch (pattern text : Text) : Bool :=
  match pattern, text with
  | [], text => text.isEmpty
  | '*' :: rest, text => text.tails.any fun suffix => fnmatch (rest.dropWhile (· = '*')) suffix
  | '?' :: rest, _ :: text => fnmatch rest text
  | '[' :: rest, c :: text =>
    match _h : bracketMatch c rest with
    | some (matched, next) => matched && fnmatch next text
    | none => c = '[' && fnmatch rest text
  | ['\\'], c :: text => c = '\\' && fnmatch [] text
  | '\\' :: literal :: rest, c :: text => c = literal && fnmatch rest text
  | literal :: rest, c :: text => c = literal && fnmatch rest text
  | _ :: _, [] => false
termination_by pattern.length
decreasing_by
  all_goals simp only [List.length_cons, List.length_nil]
  · have := (List.dropWhile_suffix (l := rest) (· = '*')).length_le
    omega
  all_goals first
    | omega
    | (have hshort := length_of_bracketMatch _h; simp only at hshort; omega)

example : fnmatch "foo[!0-9]*".toList "foox7".toList = true := by
  decide +kernel

/-! ## Places in a window -/

/-- Where a neighbour is. -/
inductive TargetDirection
  | up
  | down
  | left
  | right

/-- A corner of a window. -/
inductive Corner
  | topLeft
  | topRight
  | bottomLeft
  | bottomRight

namespace PaneGeometry

def rightEdge (g : PaneGeometry) : ℕ := g.x.toNat + g.cols.toNat

def bottomEdge (g : PaneGeometry) : ℕ := g.y.toNat + g.rows.toNat

def rangesOverlap (leftStart leftEnd rightStart rightEnd : ℕ) : Bool :=
  leftStart < rightEnd && rightStart < leftEnd

def horizontalOverlap (g g' : PaneGeometry) : Bool :=
  rangesOverlap g.x.toNat g.rightEdge g'.x.toNat g'.rightEdge

def verticalOverlap (g g' : PaneGeometry) : Bool :=
  rangesOverlap g.y.toNat g.bottomEdge g'.y.toNat g'.bottomEdge

end PaneGeometry

def neighborMatches (active candidate : PaneGeometry) (direction : TargetDirection)
    (windowCols windowRows : ℕ) : Bool :=
  match direction with
  | .up =>
    let edge := if active.y.toNat = 0 then windowRows + 1 else active.y.toNat
    candidate.bottomEdge + 1 = edge && active.horizontalOverlap candidate
  | .down =>
    let edge := if windowRows ≤ active.bottomEdge + 1 then 0 else active.bottomEdge + 1
    candidate.y.toNat = edge && active.horizontalOverlap candidate
  | .left =>
    let edge := if active.x.toNat = 0 then windowCols + 1 else active.x.toNat
    candidate.rightEdge + 1 = edge && active.verticalOverlap candidate
  | .right =>
    let edge := if windowCols ≤ active.rightEdge + 1 then 0 else active.rightEdge + 1
    candidate.x.toNat = edge && active.verticalOverlap candidate

namespace Window

variable (w : Window)

/-- The neighbour that was active last. Of equals the first. -/
def findNeighbor (direction : TargetDirection) : Option ℕ := do
  let active ← w.activePane?
  let neighbors := w.panes.filter fun pane => pane.index ≠ active.index &&
    neighborMatches active.geometry pane.geometry direction w.size.cols.toNat w.size.rows.toNat
  (neighbors.argmax Pane.activePoint).map Pane.index

def directionalPane (value : Text) : Option ℕ :=
  if value = "{up-of}".toList then w.findNeighbor .up
  else if value = "{down-of}".toList then w.findNeighbor .down
  else if value = "{left-of}".toList then w.findNeighbor .left
  else if value = "{right-of}".toList then w.findNeighbor .right
  else none

def paneWithMinimum (value : PaneGeometry → ℕ) : Option ℕ :=
  (w.panes.argmin fun pane => toLex (value pane.geometry, pane.index)).map Pane.index

-- of several greatest the last is taken
def paneWithMaximum (value : PaneGeometry → ℕ) : Option ℕ :=
  (w.panes.reverse.argmax fun pane =>
    toLex (value pane.geometry, OrderDual.toDual pane.index)).map Pane.index

def cornerScore (g : PaneGeometry) : Corner → ℕ ×ₗ ℕ ×ₗ ℕ
  | .topLeft => toLex (g.y.toNat, toLex (g.x.toNat, 0))
  | .topRight => toLex (g.y.toNat, toLex (u32Max - g.rightEdge, g.x.toNat))
  | .bottomLeft => toLex (u32Max - g.bottomEdge, toLex (g.x.toNat, g.y.toNat))
  | .bottomRight => toLex (u32Max - g.bottomEdge, toLex (u32Max - g.rightEdge, g.x.toNat))

def paneInCorner (corner : Corner) : Option ℕ :=
  (w.panes.argmin fun pane => cornerScore pane.geometry corner).map Pane.index

def paneDescription (value : Text) : Option ℕ :=
  if value = "top".toList then w.paneWithMinimum fun g => g.y.toNat
  else if value = "bottom".toList then w.paneWithMaximum PaneGeometry.bottomEdge
  else if value = "left".toList then w.paneWithMinimum fun g => g.x.toNat
  else if value = "right".toList then w.paneWithMaximum PaneGeometry.rightEdge
  else if value = "top-left".toList then w.paneInCorner .topLeft
  else if value = "top-right".toList then w.paneInCorner .topRight
  else if value = "bottom-left".toList then w.paneInCorner .bottomLeft
  else if value = "bottom-right".toList then w.paneInCorner .bottomRight
  else none

variable {w} {index : ℕ}

/-- The index of a pane of the window. -/
theorem pane_isSome_iff : (w.pane index).isSome ↔ ∃ pane ∈ w.panes, pane.index = index := by
  rw [Window.pane, find?_isSome]
  simp

theorem pane_isSome_of_mem {pane : Pane} (h : pane ∈ w.panes) : (w.pane pane.index).isSome :=
  pane_isSome_iff.mpr ⟨pane, h, rfl⟩

theorem pane_isSome_of_map {found : Option Pane} (hmem : ∀ pane ∈ found, pane ∈ w.panes)
    (h : found.map Pane.index = some index) : (w.pane index).isSome := by
  obtain ⟨pane, rfl, rfl⟩ := map_eq_some_iff.mp h
  exact pane_isSome_of_mem (hmem pane rfl)

theorem pane_of_findNeighbor {d : TargetDirection}
    (h : w.findNeighbor d = some index) : (w.pane index).isSome := by
  rw [findNeighbor, bind_eq_bind, bind_eq_some_iff] at h
  obtain ⟨active, -, h⟩ := h
  exact pane_isSome_of_map (fun pane hp => mem_of_mem_filter (argmax_mem hp)) h

theorem pane_of_paneDescription {v : Text} (h : w.paneDescription v = some index) :
    (w.pane index).isSome := by
  rw [paneDescription] at h
  split_ifs at h
  all_goals
    refine pane_isSome_of_map (fun pane hp => ?_) h
    first
    | exact argmin_mem hp
    | exact mem_reverse.mp (argmax_mem hp)

end Window

end Rmux
