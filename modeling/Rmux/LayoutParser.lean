import Rmux.ExceptLemmas
import Rmux.Pane

/-!
# Layout strings

A layout is written as text in tmux's form : a checksum, then the tree, each cell with its extent
and offset, a pane with its id and a split with its children between brackets (`LayoutTree::dump`).
Reading it back (`layout/parser.rs`) has to tell the pane id after a `,` from the next sibling;
drops leaves from the end when there are fewer panes; and fits the root to its children.

The parser's offset is the rest of the input. A cell is read with the nesting still allowed, so that
the recursion is structural.
-/

namespace Rmux

open MachineInt LayoutCell List Except Nat

namespace LayoutParser

def maxLayoutParseDepth : ℕ := 128

def invalidLayout : RmuxError := .server "invalid layout"

/-- A run of decimal digits that fits 32 bits. -/
def parseNumber (input : List Char) : Except RmuxError (ℕ × List Char) :=
  let digits := input.takeWhile Char.isDigit
  if digits = [] then .error invalidLayout
  else
    let value := Nat.ofDigitChars 10 digits 0
    if value ≤ u32Max then .ok (value, input.dropWhile Char.isDigit) else .error invalidLayout

def expect (expected : Char) : List Char → Except RmuxError (List Char)
  | c :: rest => if c = expected then .ok rest else .error invalidLayout
  | [] => .error invalidLayout

/-- Skip a pane id. A number followed by `x` is the width of the next sibling and stays. -/
def skipPaneId (input : List Char) : Except RmuxError (List Char) :=
  match input with
  | ',' :: rest =>
    match parseNumber rest with
    | .error e => .error e
    | .ok (_, after) => if after.head? = some 'x' then .ok input else .ok after
  | _ => .ok input

/-- The extent and the offset of a cell, and the id of a pane. -/
def parseGeometry (input : List Char) : Except RmuxError (LayoutGeometry × List Char) := do
  let (width, rest) ← parseNumber input
  let rest ← expect 'x' rest
  let (height, rest) ← parseNumber rest
  let rest ← expect ',' rest
  let (x, rest) ← parseNumber rest
  let rest ← expect ',' rest
  let (y, rest) ← parseNumber rest
  let rest ← skipPaneId rest
  return (⟨width, height, x, y⟩, rest)

def openBracket : LayoutDirection → Char
  | .leftRight => '\x7b'
  | .topBottom => '['

def closeBracket : LayoutDirection → Char
  | .leftRight => '\x7d'
  | .topBottom => ']'

/-- The children of a split, up to its closing bracket. Every child takes a character, so more
`fuel` than the input is long is enough (`parseChildren_fuel`). -/
def parseChildren (cell : List Char → Except RmuxError (LayoutCell × List Char)) (close : Char) :
    ℕ → List Char → Except RmuxError (List LayoutCell × List Char)
  | 0, _ => .error invalidLayout
  | fuel + 1, input => do
    let (child, rest) ← cell input
    match rest with
    | [] => .error invalidLayout
    | c :: rest =>
      if c = ',' then
        let (children, rest) ← parseChildren cell close fuel rest
        return (child :: children, rest)
      else if c = close then return ([child], rest)
      else .error invalidLayout

/-- A cell, with `room` levels of nesting left for it. -/
def parseCellAtDepth : ℕ → List Char → Except RmuxError (LayoutCell × List Char)
  | 0, _ => .error (.server "layout is too deeply nested")
  | room + 1, input => do
    let (g, rest) ← parseGeometry input
    match rest with
    | [] => return (.pane g, [])
    | c :: rest =>
      if c = openBracket .leftRight then
        let (children, rest) ← parseChildren (parseCellAtDepth room) (closeBracket .leftRight)
          (rest.length + 1) rest
        return (.split .leftRight g children, rest)
      else if c = openBracket .topBottom then
        let (children, rest) ← parseChildren (parseCellAtDepth room) (closeBracket .topBottom)
          (rest.length + 1) rest
        return (.split .topBottom g children, rest)
      else if c = ',' ∨ c = closeBracket .leftRight ∨ c = closeBracket .topBottom then
        return (.pane g, c :: rest)
      else .error invalidLayout

/-- The root is read at depth 0, and depth `maxLayoutParseDepth` is still allowed. -/
def parseCell (input : List Char) : Except RmuxError (LayoutCell × List Char) :=
  parseCellAtDepth (maxLayoutParseDepth + 1) input

end LayoutParser

open LayoutParser

/-! ## Writing -/

def dumpGeometry (g : LayoutGeometry) : List Char :=
  Nat.toDigits 10 g.width ++ 'x' :: Nat.toDigits 10 g.height ++
    ',' :: Nat.toDigits 10 g.x ++ ',' :: Nat.toDigits 10 g.y

mutual
/-- A cell as text, and the pane ids that are left for the cells after it. -/
def LayoutCell.dumpBody : LayoutCell → List PaneId → List Char × List PaneId
  | .pane g, [] => (dumpGeometry g, [])
  | .pane g, id :: ids => (dumpGeometry g ++ ',' :: Nat.toDigits 10 id.toNat, ids)
  | .split d g cs, ids =>
    let (body, ids) := dumpBodies cs ids
    (dumpGeometry g ++ openBracket d :: body ++ [closeBracket d], ids)

def LayoutCell.dumpBodies : List LayoutCell → List PaneId → List Char × List PaneId
  | [], ids => ([], ids)
  | c :: cs, ids =>
    let (body, ids) := c.dumpBody ids
    let (bodies, ids) := dumpBodies cs ids
    (if cs.isEmpty then body else body ++ ',' :: bodies, ids)
end

/-- The bytes of a text. -/
def utf8Bytes (text : List Char) : List UInt8 := text.flatMap String.utf8EncodeChar

/-- tmux's rotating 16-bit checksum. -/
def layoutChecksum (text : List Char) : UInt16 :=
  (utf8Bytes text).foldl
    (fun checksum byte => (checksum >>> 1) + ((checksum &&& 1) <<< 15) + byte.toUInt16) 0

/-- Four lower-case hexadecimal digits. -/
def dumpChecksum (checksum : UInt16) : List Char :=
  (Nat.toDigits 16 checksum.toNat).leftpad 4 '0'

/-- The ids in leaf order; a leaf without a pane is written as 0. -/
def LayoutTree.reorderedIds (t : LayoutTree) (ids : List PaneId) : List PaneId :=
  match t.leafMap with
  | none => ids
  | some map =>
    map.zipIdx.foldl
      (fun reordered (leaf, position) =>
        match ids[position]? with
        | none => reordered
        | some id => reordered.set leaf id)
      (List.replicate ids.length 0)

def LayoutTree.dump (t : LayoutTree) (panes : List Pane) : String :=
  let body := (t.root.dumpBody (t.reorderedIds (panes.map Pane.id))).1
  String.ofList (dumpChecksum (layoutChecksum body) ++ ',' :: body)

/-! ## Reading -/

def hexDigit (c : Char) : Option ℕ :=
  if c.isDigit then some (c.toNat - '0'.toNat)
  else if 'a' ≤ c ∧ c ≤ 'f' then some (c.toNat - 'a'.toNat + 10)
  else if 'A' ≤ c ∧ c ≤ 'F' then some (c.toNat - 'A'.toNat + 10)
  else none

def hexStep (value : ℕ) (c : Char) : Option ℕ :=
  (hexDigit c).bind fun digit =>
    if value * 16 + digit ≤ u16Max then some (value * 16 + digit) else none

/-- `u16::from_str_radix` with base 16 : a leading `+` is allowed. -/
def fromHex (text : List Char) : Option ℕ :=
  let digits := if text.head? = some '+' then text.tail else text
  if digits = [] then none else digits.foldlM hexStep 0

/-- Drop leaves from the end until no more than `paneCount` are left. Every round drops one, so
as many rounds as there are leaves are enough. -/
def LayoutTree.dropLeaves (paneCount : ℕ) : ℕ → LayoutTree → Option LayoutTree
  | 0, t => some t
  | fuel + 1, t =>
    if paneCount < t.leafCount then
      (t.removeLeaf (t.leafCount - 1)).bind (dropLeaves paneCount fuel)
    else some t

/-- The body of `parse` once the checksum is accepted. -/
def LayoutTree.parseBody (body : List Char) (paneCount : ℕ) : Except RmuxError LayoutTree := do
  let (root, rest) ← parseCell body
  if rest ≠ [] then .error invalidLayout
  else
    match dropLeaves paneCount root.leafCount ⟨root, none⟩ with
    | none => .error invalidLayout
    | some t =>
      if t.leafCount < paneCount then
        .error (.server s!"have {paneCount} panes but need {t.leafCount}")
      else if t.root.fixRootSizeIfNeeded.check then
        .ok { t with root := t.root.fixRootSizeIfNeeded.fixOffsets 0 0 }
      else .error (.server "size mismatch after applying layout")

def LayoutTree.parse (layout : String) (paneCount : ℕ) : Except RmuxError LayoutTree :=
  let checksum := layout.toList.takeWhile (· ≠ ',')
  match layout.toList.dropWhile (· ≠ ',') with
  | [] => .error invalidLayout
  | _ :: body =>
    if (utf8Bytes checksum).length ≠ 4 then .error invalidLayout
    else if fromHex checksum ≠ some (layoutChecksum body).toNat then .error invalidLayout
    else parseBody body paneCount

/-! ## Numbers -/

namespace LayoutParser

variable {rest input : List Char} {n k : ℕ} {g : LayoutGeometry} {c : LayoutCell} {t : LayoutTree}
  (checksum : UInt16)

theorem takeWhile_eq_nil {p : Char → Bool} (h : ∀ c ∈ rest.head?, p c = false) :
    rest.takeWhile p = [] ∧ rest.dropWhile p = rest := by
  cases rest with
  | nil => exact ⟨rfl, rfl⟩
  | cons c rest =>
    have hc := h c rfl
    exact ⟨by simp [hc], by simp [hc]⟩

/-- A number is read back up to the first character that is not a digit. -/
theorem parseNumber_append (hn : n ≤ u32Max) (hr : ∀ c ∈ rest.head?, c.isDigit = false) :
    parseNumber (Nat.toDigits 10 n ++ rest) = .ok (n, rest) := by
  have hdigs : ∀ c ∈ toDigits 10 n, c.isDigit = true := fun c hc =>
    isDigit_of_mem_toDigits (by omega) (by omega) hc
  obtain ⟨htk, hdp⟩ := takeWhile_eq_nil hr
  rw [parseNumber, takeWhile_append_of_pos hdigs, dropWhile_append_of_pos hdigs,
    htk, hdp, append_nil, if_neg toDigits_ne_nil,
    ofDigitChars_toDigits (by omega) (by omega)]
  exact if_pos hn

theorem parseNumber_le (h : parseNumber input = .ok (n, rest)) :
    n ≤ u32Max ∧ rest.length < input.length := by
  unfold parseNumber at h
  dsimp only at h
  split at h
  · simp at h
  next hne =>
    split at h
    next hle =>
      cases h
      have hlen := congrArg length (takeWhile_append_dropWhile (p := Char.isDigit) (l := input))
      have hpos := length_pos_iff.mpr hne
      rw [length_append] at hlen
      omega
    · simp at h

/-! ## Cells -/

/-- The numbers of a cell fit 32 bits. -/
def GeometryFits (g : LayoutGeometry) : Prop :=
  (g.width ≤ u32Max ∧ g.height ≤ u32Max) ∧ g.x ≤ u32Max ∧ g.y ≤ u32Max

theorem parseGeometry_append (hg : GeometryFits g) {after : List Char}
    (hr : ∀ c ∈ rest.head?, c.isDigit = false) (hskip : skipPaneId rest = .ok after) :
    parseGeometry (dumpGeometry g ++ rest) = .ok (g, after) := by
  obtain ⟨⟨hw, hh⟩, hx, hy⟩ := hg
  have hsep : ∀ {c : Char} {l : List Char}, c.isDigit = false →
      ∀ c' ∈ (c :: l).head?, c'.isDigit = false := by simp
  rw [parseGeometry, dumpGeometry]
  simp only [append_assoc, cons_append]
  rw [parseNumber_append hw (hsep rfl)]
  simp only [bind, Except.bind, expect, if_true]
  rw [parseNumber_append hh (hsep rfl)]
  simp only [if_true]
  rw [parseNumber_append hx (hsep rfl)]
  simp only [if_true]
  rw [parseNumber_append hy hr]
  simp only [hskip]
  rfl

theorem skipPaneId_append {id : PaneId} (hr : ∀ c ∈ rest.head?, c.isDigit = false ∧ c ≠ 'x') :
    skipPaneId (',' :: Nat.toDigits 10 id.toNat ++ rest) = .ok rest := by
  have hid : id.toNat ≤ u32Max := le_of_lt_succ id.toNat_lt
  have hx : rest.head? ≠ some 'x' := fun h => (hr 'x' h).2 rfl
  simp only [cons_append, skipPaneId, parseNumber_append hid fun c hc => (hr c hc).1]
  exact if_neg hx

theorem skipPaneId_of_ne {c : Char} (hc : c ≠ ',') (rest : List Char) :
    skipPaneId (c :: rest) = .ok (c :: rest) := by
  unfold skipPaneId
  split
  next h => exact absurd (cons.inj h).1 hc
  · rfl

/-- A cell that reads back : its numbers fit, no split is empty, and `k` levels are enough. -/
inductive Readable : ℕ → LayoutCell → Prop
  | pane {k : ℕ} {g : LayoutGeometry} (fits : GeometryFits g) : Readable (k + 1) (.pane g)
  | split {k : ℕ} {d : LayoutDirection} {g : LayoutGeometry} {cs : List LayoutCell}
      (fits : GeometryFits g) (ne : cs ≠ []) (children : ∀ c ∈ cs, Readable k c) :
      Readable (k + 1) (.split d g cs)

/-- What can follow a cell. -/
def EndsCell (rest : List Char) : Prop :=
  ∀ c ∈ rest.head?, c = ',' ∨ c = closeBracket .leftRight ∨ c = closeBracket .topBottom

theorem EndsCell.notDigit (h : EndsCell rest) : ∀ c ∈ rest.head?, c.isDigit = false ∧ c ≠ 'x' := by
  intro c hc
  rcases h c hc with rfl | rfl | rfl <;> decide

theorem endsCell_comma (rest : List Char) : EndsCell (',' :: rest) := by
  rintro c ⟨⟩
  exact .inl rfl

theorem endsCell_closeBracket (d : LayoutDirection) (rest : List Char) :
    EndsCell (closeBracket d :: rest) := by
  rintro c ⟨⟩
  cases d
  · exact .inr (.inl rfl)
  · exact .inr (.inr rfl)

mutual
/-- A cell takes one id for each of its leaves. -/
theorem dumpBody_ids : ∀ (c : LayoutCell) (ids : List PaneId),
    (c.dumpBody ids).2 = ids.drop c.leafCount
  | .pane _, [] => rfl
  | .pane _, _ :: _ => rfl
  | .split _ _ cs, ids => by
    rw [leafCount_split]
    exact dumpBodies_ids cs ids

theorem dumpBodies_ids : ∀ (cs : List LayoutCell) (ids : List PaneId),
    (dumpBodies cs ids).2 = ids.drop (cs.map leafCount).sum
  | [], _ => rfl
  | c :: cs, ids => by
    rw [dumpBodies, dumpBodies_ids cs, dumpBody_ids c, List.drop_drop, List.map_cons, List.sum_cons]
end

theorem dumpBody_ne_nil (c : LayoutCell) (ids : List PaneId) : 0 < (c.dumpBody ids).1.length := by
  have hg : ∀ g, 0 < (dumpGeometry g).length := fun g => by
    simp [dumpGeometry]
  cases c with
  | pane g =>
    cases ids with
    | nil => exact hg g
    | cons id ids =>
      rw [dumpBody, length_append]
      exact Nat.add_pos_left (hg g) _
  | split d g cs =>
    rw [dumpBody]
    simp [dumpGeometry]

theorem length_le_dumpBodies (cs : List LayoutCell) (ids : List PaneId) :
    cs.length ≤ (dumpBodies cs ids).1.length := by
  induction cs generalizing ids with
  | nil => exact zero_le _
  | cons c cs ih =>
    have hc := dumpBody_ne_nil c ids
    have hcs := ih (c.dumpBody ids).2
    rw [dumpBodies]
    cases cs with
    | nil => exact hc
    | cons c' cs =>
      simp only [isEmpty_cons, Bool.false_eq_true, if_false, length_append, length_cons] at hcs ⊢
      omega

/-- Children are read back, if each of them is. -/
theorem parseChildren_append {cell : List Char → Except RmuxError (LayoutCell × List Char)}
    (d : LayoutDirection) {cs : List LayoutCell} (hne : cs ≠ [])
    (hcs : ∀ c ∈ cs, ∀ ids rest, c.leafCount ≤ ids.length → EndsCell rest →
      cell ((c.dumpBody ids).1 ++ rest) = .ok (c, rest))
    {ids : List PaneId} (hids : (cs.map leafCount).sum ≤ ids.length) {fuel : ℕ}
    (hfu : cs.length ≤ fuel) (rest : List Char) :
    parseChildren cell (closeBracket d) fuel ((dumpBodies cs ids).1 ++ closeBracket d :: rest) =
      .ok (cs, rest) := by
  have hclose : closeBracket d ≠ ',' := by cases d <;> decide
  induction cs generalizing ids fuel with
  | nil => exact absurd rfl hne
  | cons c cs ih =>
    obtain ⟨fuel, rfl⟩ : ∃ k, fuel = k + 1 := ⟨fuel - 1, by
      rw [length_cons] at hfu
      omega⟩
    rw [map_cons, sum_cons] at hids
    have hc := fun rest => hcs c mem_cons_self ids rest (by omega)
    rw [dumpBodies]
    cases cs with
    | nil =>
      simp only [isEmpty_nil, if_true, parseChildren]
      rw [hc _ (endsCell_closeBracket d rest)]
      simp only [bind, Except.bind, if_neg hclose, if_true]
      rfl
    | cons c' cs =>
      simp only [isEmpty_cons, Bool.false_eq_true, if_false, parseChildren,
        append_assoc, cons_append]
      rw [hc _ (endsCell_comma _)]
      have hids' : ((c' :: cs).map leafCount).sum ≤ (c.dumpBody ids).2.length := by
        rw [dumpBody_ids, length_drop]
        omega
      have hfu' : (c' :: cs).length ≤ fuel := by simpa using hfu
      have hrec := ih (by simp) (fun c hc => hcs c (mem_cons_of_mem _ hc)) hids' hfu'
      simp only [bind, Except.bind, if_true, hrec]
      rfl

/-- A readable cell is read back from what is written for it. -/
theorem parseCellAtDepth_append (h : Readable k c) {ids : List PaneId}
    (hids : c.leafCount ≤ ids.length) (hr : EndsCell rest) :
    parseCellAtDepth k ((c.dumpBody ids).1 ++ rest) = .ok (c, rest) := by
  induction h generalizing ids rest with
  | @pane k g fits =>
    obtain _ | ⟨id, ids⟩ := ids
    · simp at hids
    rw [dumpBody, parseCellAtDepth, append_assoc, cons_append, ← cons_append,
      parseGeometry_append fits (by simp) (skipPaneId_append hr.notDigit)]
    cases rest with
    | nil => rfl
    | cons e rest =>
      simp only [bind, Except.bind]
      rcases hr e rfl with rfl | rfl | rfl <;> rfl
  | @split k d g cs fits ne children ih =>
    rw [leafCount_split] at hids
    have ho : ∀ l, ∀ c ∈ (openBracket d :: l).head?, c.isDigit = false := by
      cases d <;> simp [openBracket]
    have hfu : cs.length ≤ ((dumpBodies cs ids).1 ++ closeBracket d :: rest).length + 1 := by
      have := length_le_dumpBodies cs ids
      rw [length_append]
      omega
    have hch := parseChildren_append d ne
      (fun c hc ids rest hids hr => ih c hc hids hr) hids hfu rest
    rw [dumpBody, parseCellAtDepth]
    simp only [append_assoc, cons_append, nil_append]
    rw [parseGeometry_append fits (ho _) (skipPaneId_of_ne (by cases d <;> decide) _)]
    simp only [bind, Except.bind]
    cases d
    · rw [if_pos rfl, hch]
      rfl
    · rw [if_neg (by decide), if_pos rfl, hch]
      rfl

/-! ## The checksum -/

theorem hexDigit_digitChar (hn : n < 16) : hexDigit n.digitChar = some n := by
  revert n
  decide

theorem digitChar_ne (hn : n < 16) :
    n.digitChar ≠ ',' ∧ n.digitChar ≠ '+' ∧ (String.utf8EncodeChar n.digitChar).length = 1 := by
  revert n
  decide

/-- The digits of a hexadecimal number. -/
theorem forall_mem_toDigits {P : Char → Prop} (hP : ∀ n < 16, P n.digitChar) (n : ℕ) :
    ∀ c ∈ Nat.toDigits 16 n, P c := by
  induction n using Nat.strong_induction_on with
  | _ n ih =>
    obtain hlt | hle := lt_or_ge n 16
    · rw [toDigits_of_lt_base hlt]
      simpa using hP n hlt
    · rw [toDigits_of_base_le (by omega) hle]
      intro c hc
      rcases mem_append.mp hc with hc | hc
      · exact ih (n / 16) (by omega) c hc
      · obtain rfl := mem_singleton.mp hc
        exact hP _ (mod_lt n (by omega))

theorem foldlM_hexStep_toDigits (hn : n ≤ u16Max) :
    (Nat.toDigits 16 n).foldlM hexStep 0 = some n := by
  induction n using Nat.strong_induction_on with
  | _ n ih =>
    obtain hlt | hle := lt_or_ge n 16
    · rw [toDigits_of_lt_base hlt]
      simp [hexStep, hexDigit_digitChar hlt, hn]
    · rw [toDigits_of_base_le (by omega) hle, foldlM_append, ih (n / 16) (by omega) (by omega)]
      have hmod := mod_lt n (by omega : 0 < 16)
      have hdiv : n / 16 * 16 + n % 16 = n := by omega
      simp [hexStep, hexDigit_digitChar hmod, hdiv, hn]

theorem foldlM_hexStep_zeros (k : ℕ) : (List.replicate k '0').foldlM hexStep 0 = some 0 := by
  induction k with
  | zero => rfl
  | succ k ih =>
    rw [replicate_succ, foldlM_cons]
    exact ih

/-- The four digits of a checksum are none of the characters that end or change it. -/
theorem dumpChecksum_spec : (dumpChecksum checksum).length = 4 ∧
    (∀ c ∈ dumpChecksum checksum, c ≠ ',' ∧ c ≠ '+' ∧ (String.utf8EncodeChar c).length = 1) ∧
    (dumpChecksum checksum).foldlM hexStep 0 = some checksum.toNat := by
  have hlt : checksum.toNat < 16 ^ 4 := checksum.toNat_lt
  have hlen := (length_toDigits_le_iff (b := 16) (by omega) (by omega)).mpr hlt
  refine ⟨?_, ?_, ?_⟩
  · rw [dumpChecksum, length_leftpad]
    omega
  · intro c hc
    rcases mem_append.mp hc with hc | hc
    · obtain rfl := eq_of_mem_replicate hc
      exact digitChar_ne (n := 0) (by omega)
    · exact forall_mem_toDigits
        (P := fun c => c ≠ ',' ∧ c ≠ '+' ∧ (String.utf8EncodeChar c).length = 1)
        (fun n hn => digitChar_ne hn) _ c hc
  · rw [dumpChecksum, leftpad, foldlM_append, foldlM_hexStep_zeros]
    exact foldlM_hexStep_toDigits (le_of_lt_succ hlt)

theorem fromHex_dumpChecksum : fromHex (dumpChecksum checksum) = some checksum.toNat := by
  obtain ⟨hlen, hchars, hval⟩ := dumpChecksum_spec checksum
  have hplus : (dumpChecksum checksum).head? ≠ some '+' := fun h =>
    (hchars '+' (mem_of_mem_head? h)).2.1 rfl
  have hne : dumpChecksum checksum ≠ [] := by
    rw [← length_pos_iff, hlen]
    omega
  rw [fromHex, if_neg hplus]
  exact (if_neg hne).trans hval

theorem length_utf8Bytes_dumpChecksum : (utf8Bytes (dumpChecksum checksum)).length = 4 := by
  obtain ⟨hlen, hchars, -⟩ := dumpChecksum_spec checksum
  rw [utf8Bytes, length_flatMap, map_congr_left fun c hc => (hchars c hc).2.2]
  simp [hlen]

/-- A written layout is split at its checksum and the checksum accepted. -/
theorem parse_checksum (body : List Char) (paneCount : ℕ) :
    LayoutTree.parse (String.ofList (dumpChecksum (layoutChecksum body) ++ ',' :: body)) paneCount =
      LayoutTree.parseBody body paneCount := by
  obtain ⟨-, hchars, -⟩ := dumpChecksum_spec (layoutChecksum body)
  have hcomma : ∀ c ∈ dumpChecksum (layoutChecksum body), (decide (c ≠ ',')) = true := by
    simpa using fun c hc => (hchars c hc).1
  unfold LayoutTree.parse
  rw [String.toList_ofList, takeWhile_append_of_pos hcomma, dropWhile_append_of_pos hcomma]
  simp [length_utf8Bytes_dumpChecksum, fromHex_dumpChecksum]

/-! ## Bounded trees

What the parser builds and what it does to the tree afterwards keeps every extent within 32 bits
and the nesting within its limit. -/

/-- Extents within 32 bits, and nesting less than a depth. -/
inductive Bounded : ℕ → LayoutCell → Prop
  | pane {k : ℕ} {g : LayoutGeometry} (extent : ∀ a, g.axis a ≤ u32Max) : Bounded (k + 1) (.pane g)
  | split {k : ℕ} {d : LayoutDirection} {g : LayoutGeometry} {cs : List LayoutCell}
      (extent : ∀ a, g.axis a ≤ u32Max) (children : ∀ c ∈ cs, Bounded k c) :
      Bounded (k + 1) (.split d g cs)

namespace Bounded

variable {k : ℕ} {c : LayoutCell} {g : LayoutGeometry} {d : LayoutDirection}
  {cs : List LayoutCell}

theorem axisSize_le (h : Bounded k c) (a : LayoutDirection) : c.axisSize a ≤ u32Max := by
  cases h with
  | pane extent | split extent children => exact extent a

theorem child (h : Bounded (k + 1) (.split d g cs)) : ∀ c ∈ cs, Bounded k c := by
  cases h with
  | split extent children => exact children

theorem succ (h : Bounded k c) : Bounded (k + 1) c := by
  induction h with
  | pane extent => exact .pane extent
  | split extent children ih => exact .split extent ih

theorem withGeometry (h : Bounded k c) (hg : ∀ a, g.axis a ≤ u32Max) :
    Bounded k (c.withGeometry g) := by
  cases h with
  | pane extent => exact .pane hg
  | split extent children => exact .split hg children

theorem setAxis (hg : ∀ a, g.axis a ≤ u32Max) {m : ℕ} (hm : m ≤ u32Max) (a : LayoutDirection) :
    (g.setAxis d m).axis a ≤ u32Max := by
  rcases LayoutDirection.eq_or_eq_flip a d with rfl | rfl
  · rwa [LayoutGeometry.axis_setAxis]
  · rw [LayoutGeometry.axis_setAxis_flip]
    exact hg _

theorem resizeAdjust (h : Bounded k c) (a : LayoutDirection) (change : ℤ) :
    Bounded k (c.resizeAdjust a change) := by
  by_cases hk : change = 0
  · rwa [hk, resizeAdjust_zero]
  induction k generalizing c change with
  | zero => cases h
  | succ k ih =>
    have hst : ∀ c' change', Bounded k c' → Bounded k (c'.resizeAdjust a change') :=
      fun c' change' h' => by
        by_cases hk' : change' = 0
        · rwa [hk', resizeAdjust_zero]
        · exact ih h' change' hk'
    cases h with
    | @pane _ g extent =>
      rw [resizeAdjust_pane a g hk]
      exact .pane (setAxis extent (satAddSigned_le _ _))
    | @split _ d g cs extent children =>
      rcases LayoutDirection.eq_or_eq_flip d a with rfl | rfl
      · rw [resizeAdjust_split d g cs hk]
        exact .split (setAxis extent (satAddSigned_le _ _))
          (forall_adjustLoop _ _ (fun _ c => hst c 1) (fun _ c hc _ => hst c (-1) hc) _ children)
      · rw [resizeAdjust_split_flip a g cs hk]
        refine .split (setAxis extent (satAddSigned_le _ _)) ?_
        rw [forall_mem_map]
        exact fun c hc => hst c change (children c hc)

theorem split_iff : Bounded (k + 1) (.split d g cs) ↔
    (∀ a, g.axis a ≤ u32Max) ∧ ∀ c ∈ cs, Bounded k c :=
  ⟨fun h => ⟨h.axisSize_le, h.child⟩, fun h => .split h.1 h.2⟩

theorem fixOffsets_iff (x y : ℕ) : Bounded k (c.fixOffsets x y) ↔ Bounded k c := by
  induction c generalizing k x y with
  | pane g =>
    exact ⟨fun h => by cases h with | pane extent => exact .pane extent,
      fun h => by cases h with | pane extent => exact .pane extent⟩
  | split d g cs ih =>
    cases k with
    | zero => exact ⟨fun h => (nomatch h), fun h => (nomatch h)⟩
    | succ k =>
      rw [LayoutCell.fixOffsets, split_iff, split_iff,
        forall_mem_fixOffsetsFrom d x y 0 fun c hc x y => ih c hc x y]
      simp only [LayoutGeometry.axis_moveTo]

theorem fixOffsets (h : Bounded k c) (x y : ℕ) : Bounded k (c.fixOffsets x y) :=
  (fixOffsets_iff x y).mpr h

theorem collapseSingleChild (h : Bounded k c) : Bounded k (collapseSingleChild c) := by
  induction h with
  | pane extent => exact .pane extent
  | @split k d g cs extent children ih =>
    rcases collapseSingleChild_split d g cs with ⟨c, rfl, heq⟩ | ⟨-, heq⟩
    · rw [heq]
      exact (((ih c (by simp)).succ).withGeometry extent).fixOffsets _ _
    · rw [heq]
      exact .split extent (forall_mem_map.mpr ih)

/-- Replacing a cell by one that is bounded wherever it was keeps the tree bounded. -/
theorem fill {root old new : LayoutCell} {p : List ℕ} {fill : LayoutCell → LayoutCell} {n : ℕ}
    (hf : Focus root p old fill n) (h : Bounded k root)
    (hnew : ∀ j, Bounded j old → Bounded j new) : Bounded k (fill new) := by
  induction hf generalizing k with
  | here c => exact hnew k h
  | @there c old p fill n d g l r hf ih =>
    cases h with
    | split extent children =>
      refine .split extent fun c' hc' => ?_
      rcases mem_append.mp hc' with hl | hc'
      · exact children c' (by simp [hl])
      rcases mem_cons.mp hc' with rfl | hr
      · exact ih (children c (by simp)) hnew
      · exact children c' (by simp [hr])

theorem absorb {growth : ℤ} {l r : List LayoutCell} (hl : ∀ c ∈ l, Bounded k c)
    (hr : ∀ c ∈ r, Bounded k c) : ∀ c ∈ absorb d growth l r, Bounded k c := by
  have hall : ∀ c ∈ l ++ r, Bounded k c := fun c hc => (mem_append.mp hc).elim (hl c) (hr c)
  intro c hc
  unfold Rmux.absorb at hc
  cases hi : (l ++ r)[l.length - 1]? with
  | none =>
    rw [modify_eq_set_getElem?, hi] at hc
    exact hall c (by simpa using hc)
  | some x =>
    exact forall_mem_modify hi _ hall ((hall x (mem_of_getElem? hi)).resizeAdjust d _) c hc

theorem removeLeaf {t t' : LayoutTree} {i : ℕ} (h : Bounded k t.root)
    (ht : t.removeLeaf i = some t') : Bounded k t'.root := by
  obtain ⟨q, d, g, rg, l, r, fill, n, hf, -, -, rfl⟩ := LayoutTree.removeLeaf_cases ht
  refine ((h.fill hf fun j hj => ?_).collapseSingleChild).fixOffsets 0 0
  cases hj with
  | split extent children =>
    exact .split extent (absorb (fun c hc => children c (by simp [hc]))
      fun c hc => children c (by simp [hc]))

theorem fixRootSizeIfNeeded (h : Bounded k c) : Bounded k c.fixRootSizeIfNeeded := by
  cases h with
  | pane extent => exact .pane extent
  | @split k d g cs extent children =>
    cases cs with
    | nil => exact .split extent children
    | cons c cs =>
      refine Bounded.fixOffsets (.split (setAxis (setAxis extent ?_) ?_) children) 0 0
      · exact (sub_le _ _).trans (wrapSum_le _)
      · exact (children c (by simp)).axisSize_le _

/-- Extents below 2 ^ 32 and nesting of at most `k` levels. -/
theorem of_extentsBelow {b : ℕ} (hb : b ≤ u32Max + 1) (h : ExtentsBelow b c)
    (hdep : c.depth ≤ k) : Bounded k c := by
  induction c generalizing k with
  | pane g =>
    obtain ⟨k, rfl⟩ : ∃ m, k = m + 1 := ⟨k - 1, by rw [depth] at hdep; omega⟩
    exact .pane fun a => le_of_lt_succ ((h.axisSize_lt a).trans_le hb)
  | split d g cs ih =>
    obtain ⟨k, rfl⟩ : ∃ m, k = m + 1 := ⟨k - 1, by rw [depth] at hdep; omega⟩
    refine .split (fun a => le_of_lt_succ ((h.axisSize_lt a).trans_le hb)) fun c hc => ?_
    exact ih c hc (h.child hc) ((depth_le_depths hc).trans (le_of_succ_le_succ hdep))

end Bounded

/-! ## Written layouts are readable -/

theorem childOffset_le {d : LayoutDirection} {x y : ℕ} (hx : x ≤ u32Max) (hy : y ≤ u32Max)
    (cursor : ℕ) :
    (childOffset d x y cursor).1 ≤ u32Max ∧ (childOffset d x y cursor).2 ≤ u32Max := by
  cases d
  · exact ⟨wrapAdd_le _ _, hy⟩
  · exact ⟨hx, wrapAdd_le _ _⟩

theorem geometryFits_moveTo {x y : ℕ} (hg : ∀ a, g.axis a ≤ u32Max) (hx : x ≤ u32Max)
    (hy : y ≤ u32Max) : GeometryFits (g.moveTo x y) :=
  ⟨⟨hg .leftRight, hg .topBottom⟩, hx, hy⟩

mutual
/-- Checked bounded cells are readable once their offsets are set. -/
theorem readable_fixOffsets {x y : ℕ} (hx : x ≤ u32Max) (hy : y ≤ u32Max) :
    ∀ {c : LayoutCell} {k : ℕ}, c.check = true → Bounded k c → Readable k (c.fixOffsets x y)
  | .pane g, _, _, .pane extent => .pane (geometryFits_moveTo extent hx hy)
  | .split d g cs, _, hchk, .split extent children => by
    rw [check, Bool.and_eq_true] at hchk
    have hne : cs ≠ [] := by simpa using hchk.1
    refine .split (geometryFits_moveTo extent hx hy) ?_
      (readable_fixOffsetsFrom hx hy hchk.2 children)
    rw [← length_pos_iff, length_fixOffsetsFrom, length_pos_iff]
    exact hne

theorem readable_fixOffsetsFrom {d : LayoutDirection} {g : LayoutGeometry} {x y : ℕ}
    (hx : x ≤ u32Max) (hy : y ≤ u32Max) :
    ∀ {cs : List LayoutCell} {k cursor total : ℕ}, checkChildren d g total cs = true →
      (∀ c ∈ cs, Bounded k c) → ∀ c ∈ fixOffsetsFrom d x y cursor cs, Readable k c
  | [], _, _, _, _, _ => by simp [fixOffsetsFrom]
  | c :: cs, k, cursor, total, hchk, hcs => by
    rw [checkChildren, Bool.and_eq_true, Bool.and_eq_true] at hchk
    rw [List.forall_mem_cons] at hcs
    obtain ⟨hcx, hcy⟩ := childOffset_le hx hy cursor
    rw [fixOffsetsFrom, forall_mem_cons]
    exact ⟨readable_fixOffsets hcx hcy hchk.1.1 hcs.1, readable_fixOffsetsFrom hx hy hchk.2 hcs.2⟩
end

theorem length_reorderedIds (t : LayoutTree) (ids : List PaneId) :
    (t.reorderedIds ids).length = ids.length := by
  unfold LayoutTree.reorderedIds
  cases t.leafMap with
  | none => rfl
  | some map =>
    suffices h : ∀ (l : List (ℕ × ℕ)) (start : List PaneId), (l.foldl (fun reordered x =>
        match ids[x.2]? with
        | none => reordered
        | some id => reordered.set x.1 id) start).length = start.length by
      rw [h, length_replicate]
    intro l
    induction l with
    | nil => exact fun _ => rfl
    | cons x l ih =>
      intro start
      rw [foldl_cons, ih]
      split <;> simp

/-- A checked tree with its root fitted and its offsets set is read back as it was written. -/
theorem parse_dump (hchk : t.root.check = true) (hbd : Bounded (maxLayoutParseDepth + 1) t.root)
    (hrt : t.root.fixRootSizeIfNeeded = t.root) (hoffs : t.root.fixOffsets 0 0 = t.root)
    {ps : List Pane} (hps : ps.length = t.leafCount) :
    LayoutTree.parse (t.dump ps) ps.length = .ok ⟨t.root, none⟩ := by
  have hrd : Readable (maxLayoutParseDepth + 1) t.root :=
    hoffs ▸ readable_fixOffsets (zero_le _) (zero_le _) hchk hbd
  have hids : t.root.leafCount ≤ (t.reorderedIds (ps.map Pane.id)).length := by
    rw [length_reorderedIds, length_map, hps, LayoutTree.leafCount]
  have hend : EndsCell [] := by simp [EndsCell]
  have hcell := parseCellAtDepth_append hrd hids hend
  have hdp : LayoutTree.dropLeaves ps.length t.root.leafCount ⟨t.root, none⟩ =
      some ⟨t.root, none⟩ := by
    cases t.root.leafCount with
    | zero => rfl
    | succ n =>
      rw [LayoutTree.dropLeaves, if_neg]
      rw [hps]
      exact lt_irrefl _
  rw [append_nil] at hcell
  rw [LayoutTree.dump, parse_checksum, LayoutTree.parseBody, parseCell, hcell]
  simp only [bind, Except.bind, ne_eq, not_true_eq_false, if_false, hdp, hrt, hchk, if_true, hoffs]
  rw [if_neg]
  rw [hps]
  exact lt_irrefl _

/-! ## What the parser accepts -/

theorem length_of_expect {expected : Char} (h : expect expected input = .ok rest) :
    rest.length ≤ input.length := by
  cases input with
  | nil => cases h
  | cons c input =>
    rw [expect] at h
    split_ifs at h
    cases h
    exact le_succ _

theorem length_of_skipPaneId (h : skipPaneId input = .ok rest) : rest.length ≤ input.length := by
  unfold skipPaneId at h
  split at h
  next after =>
    cases hnum : parseNumber after with
    | error e => simp [hnum] at h
    | ok v =>
      have hlen := (parseNumber_le hnum).2
      simp only [hnum] at h
      split_ifs at h
      · cases h
        exact le_refl _
      · cases h
        rw [length_cons]
        omega
  · cases h
    exact le_refl _

theorem parseGeometry_spec (h : parseGeometry input = .ok (g, rest)) :
    GeometryFits g ∧ rest.length < input.length := by
  obtain ⟨⟨width, r₁⟩, h₁, h⟩ := bind_eq_ok h
  obtain ⟨r₂, h₂, h⟩ := bind_eq_ok h
  obtain ⟨⟨height, r₃⟩, h₃, h⟩ := bind_eq_ok h
  obtain ⟨r₄, h₄, h⟩ := bind_eq_ok h
  obtain ⟨⟨x, r₅⟩, h₅, h⟩ := bind_eq_ok h
  obtain ⟨r₆, h₆, h⟩ := bind_eq_ok h
  obtain ⟨⟨y, r₇⟩, h₇, h⟩ := bind_eq_ok h
  obtain ⟨r₈, h₈, h⟩ := bind_eq_ok h
  cases h
  have hw := parseNumber_le h₁
  have hh := parseNumber_le h₃
  have hx := parseNumber_le h₅
  have hy := parseNumber_le h₇
  have l₂ := length_of_expect h₂
  have l₄ := length_of_expect h₄
  have l₆ := length_of_expect h₆
  have l₈ := length_of_skipPaneId h₈
  exact ⟨⟨⟨hw.1, hh.1⟩, hx.1, hy.1⟩, by omega⟩

section Children

variable {cell : List Char → Except RmuxError (LayoutCell × List Char)} {close : Char}
  {P : LayoutCell → Prop}

/-- What the cells have, the children of a split have; and they take some of the input. -/
theorem parseChildren_spec
    (hcell : ∀ {input c rest}, cell input = .ok (c, rest) → P c ∧ rest.length < input.length)
    {fuel : ℕ} {input rest : List Char} {cs : List LayoutCell}
    (h : parseChildren cell close fuel input = .ok (cs, rest)) :
    (∀ c ∈ cs, P c) ∧ rest.length < input.length := by
  induction fuel generalizing input cs rest with
  | zero => cases h
  | succ fuel ih =>
    obtain ⟨⟨child, after⟩, hchild, h⟩ := bind_eq_ok h
    obtain ⟨hP, hlen⟩ := hcell hchild
    cases after with
    | nil => cases h
    | cons c after =>
      simp only [length_cons] at hlen
      dsimp only at h
      split_ifs at h
      · obtain ⟨⟨children, after'⟩, hch, h⟩ := bind_eq_ok h
        obtain ⟨hall, hlen'⟩ := ih hch
        cases h
        exact ⟨forall_mem_cons.mpr ⟨hP, hall⟩, hlen'.trans (by omega)⟩
      · cases h
        exact ⟨by simpa using hP, by omega⟩

/-- Fuel beyond the length of the input makes no difference. -/
theorem parseChildren_fuel
    (hcell : ∀ {input c rest}, cell input = .ok (c, rest) → rest.length < input.length)
    {fuel fuel' : ℕ} {input : List Char} (h : input.length < fuel) (h' : input.length < fuel') :
    parseChildren cell close fuel input = parseChildren cell close fuel' input := by
  induction fuel generalizing input fuel' with
  | zero => omega
  | succ fuel ih =>
    obtain ⟨fuel', rfl⟩ : ∃ k, fuel' = k + 1 := ⟨fuel' - 1, by omega⟩
    rw [parseChildren, parseChildren]
    cases hchild : cell input with
    | error e => rfl
    | ok r =>
      obtain ⟨child, after⟩ := r
      have hlen := hcell hchild
      cases after with
      | nil => rfl
      | cons c after =>
        simp only [length_cons] at hlen
        have hrec : parseChildren cell close fuel after = parseChildren cell close fuel' after :=
          ih (by omega) (by omega)
        simp only [bind, Except.bind, hrec]

end Children

/-- An accepted cell is bounded, and takes some of the input. -/
theorem parseCellAtDepth_spec (h : parseCellAtDepth k input = .ok (c, rest)) :
    Bounded k c ∧ rest.length < input.length := by
  induction k generalizing input rest c with
  | zero => cases h
  | succ k ih =>
    obtain ⟨⟨g, after⟩, hg, h⟩ := bind_eq_ok h
    obtain ⟨⟨⟨hw, hh⟩, -⟩, hlen⟩ := parseGeometry_spec hg
    have hext : ∀ a, g.axis a ≤ u32Max := fun a => by
      cases a
      · exact hw
      · exact hh
    have hspl : ∀ {d : LayoutDirection} {e : Char} {after : List Char}, (do
        let (children, rest) ← parseChildren (parseCellAtDepth k) (closeBracket d)
          (after.length + 1) after
        return (LayoutCell.split d g children, rest)) = ok (c, rest) →
        Bounded (k + 1) c ∧ rest.length < (e :: after).length := fun h => by
      obtain ⟨⟨children, after'⟩, hch, h⟩ := bind_eq_ok h
      obtain ⟨hall, hlen'⟩ := parseChildren_spec ih hch
      cases h
      exact ⟨.split hext hall, lt_succ_of_lt hlen'⟩
    cases after with
    | nil =>
      cases h
      exact ⟨.pane hext, hlen⟩
    | cons e after =>
      dsimp only at h hlen
      split_ifs at h
      · exact ⟨(hspl (e := e) h).1, (hspl h).2.trans hlen⟩
      · exact ⟨(hspl (e := e) h).1, (hspl (e := e) h).2.trans hlen⟩
      · cases h
        exact ⟨.pane hext, hlen⟩

/-! ## Fitting the root -/

theorem setAxis_setAxis_flip_self (g : LayoutGeometry) (d : LayoutDirection) :
    (g.setAxis d (g.axis d)).setAxis d.flip (g.axis d.flip) = g := by
  cases d <;> rfl

/-- A root that already fits its children is not changed. -/
theorem fixRootSizeIfNeeded_eq_self {d : LayoutDirection} {cs : List LayoutCell}
    (hmain : wrapSum ((c :: cs).map fun c => wrapAdd (c.axisSize d) paneBorderCells) -
      paneBorderCells = g.axis d) (hcr : c.axisSize d.flip = g.axis d.flip)
    (hoffs : (LayoutCell.split d g (c :: cs)).fixOffsets 0 0 = .split d g (c :: cs)) :
    (LayoutCell.split d g (c :: cs)).fixRootSizeIfNeeded = .split d g (c :: cs) := by
  rw [fixRootSizeIfNeeded, hmain, hcr, setAxis_setAxis_flip_self]
  exact hoffs

theorem fixRootSizeIfNeeded_of_wellSized (h : WellSized c) (hmax : ∀ a, c.axisSize a < u32Max)
    (hoffs : c.fixOffsets 0 0 = c) : c.fixRootSizeIfNeeded = c := by
  cases c with
  | pane g => rfl
  | split d g cs =>
    obtain _ | ⟨c, cs⟩ := cs
    · exact absurd rfl h.ne_nil
    have hsum := h.sum_eq
    have hd : g.axis d < u32Max := hmax d
    refine fixRootSizeIfNeeded_eq_self ?_ (h.cross_eq (by simp)) hoffs
    have hmap : ((c :: cs).map fun c => wrapAdd (c.axisSize d) paneBorderCells) =
        (c :: cs).map fun c => c.axisSize d + 1 := by
      refine map_congr_left fun c' hc' => wrapAdd_eq ?_
      have := h.axisSize_child_le hc' d
      rw [paneBorderCells_eq]
      omega
    have hadd : ((c :: cs).map fun c => c.axisSize d + 1).sum = g.axis d + 1 := by
      rw [sum_map_add, ← hsum, map_const', sum_replicate_nat, mul_one]
    rw [hmap, wrapSum_eq (by omega), hadd, paneBorderCells_eq, Nat.add_sub_cancel]

/-- Fitting the root twice is fitting it once. -/
theorem fixRootSizeIfNeeded_fixOffsets (c : LayoutCell) :
    (c.fixRootSizeIfNeeded.fixOffsets 0 0).fixRootSizeIfNeeded =
      c.fixRootSizeIfNeeded.fixOffsets 0 0 := by
  cases c with
  | pane g => rfl
  | split d g cs =>
    obtain _ | ⟨c, cs⟩ := cs
    · rfl
    rw [fixRootSizeIfNeeded, fixOffsets_fixOffsets]
    have hoff := fixOffsets_fixOffsets (.split d ((g.setAxis d (wrapSum ((c :: cs).map fun c =>
      wrapAdd (c.axisSize d) paneBorderCells) - paneBorderCells)).setAxis d.flip
        (c.axisSize d.flip)) (c :: cs)) 0 0 0 0
    have hmap : ((fixOffsetsFrom d 0 0 0 (c :: cs)).map fun c =>
        wrapAdd (c.axisSize d) paneBorderCells) =
        (c :: cs).map fun c => wrapAdd (c.axisSize d) paneBorderCells :=
      map_fixOffsetsFrom _ d 0 0 0 fun c _ x y => by rw [axisSize_fixOffsets]
    simp only [fixOffsets, fixOffsetsFrom] at hoff hmap ⊢
    refine fixRootSizeIfNeeded_eq_self ?_ ?_ hoff
    · rw [hmap]
      simp
    · simp

theorem skeleton_fixRootSizeIfNeeded (c : LayoutCell) :
    c.fixRootSizeIfNeeded.skeleton = c.skeleton := by
  cases c with
  | pane g => rfl
  | split d g cs =>
    obtain _ | ⟨c, cs⟩ := cs
    · rfl
    · rw [fixRootSizeIfNeeded, skeleton_fixOffsets, skeleton_split, skeleton_split]

/-! ## The round trip -/

theorem dropLeaves_spec {fuel : ℕ} {t' : LayoutTree} (h : LayoutTree.dropLeaves n fuel t = some t')
    (hfu : t.leafCount ≤ n + fuel) (hb : Bounded k t.root) (hmap : t.leafMap = none) :
    t'.leafCount ≤ n ∧ Bounded k t'.root ∧ t'.leafMap = none := by
  induction fuel generalizing t with
  | zero =>
    cases h
    exact ⟨hfu, hb, hmap⟩
  | succ fuel ih =>
    rw [LayoutTree.dropLeaves] at h
    split_ifs at h with hlt
    · obtain ⟨u, hu, h⟩ := Option.bind_eq_some_iff.mp h
      obtain ⟨-, hcnt, hn, -⟩ := LayoutTree.removeLeaf_frame hu
      have hcnt' : u.leafCount + 1 = t.leafCount := hcnt
      exact ih h (by omega) (hb.removeLeaf hu) hn
    · cases h
      exact ⟨not_lt.mp hlt, hb, hmap⟩

/-- What `parse` returns : a bounded checked tree for the panes, its root fitted and its offsets
set. -/
theorem parseBody_spec {body : List Char} (h : LayoutTree.parseBody body n = .ok t) :
    ∃ c : LayoutCell, Bounded (maxLayoutParseDepth + 1) c.fixRootSizeIfNeeded ∧
      c.fixRootSizeIfNeeded.check = true ∧ c.fixRootSizeIfNeeded.leafCount = n ∧
      t = ⟨c.fixRootSizeIfNeeded.fixOffsets 0 0, none⟩ := by
  obtain ⟨⟨root, rest⟩, hcell, h⟩ := bind_eq_ok h
  have hb := (parseCellAtDepth_spec hcell).1
  cases hdp : LayoutTree.dropLeaves n root.leafCount ⟨root, none⟩ with
  | none =>
    simp only [hdp] at h
    split_ifs at h
  | some u =>
    obtain ⟨hle, hbu, hmap⟩ := dropLeaves_spec hdp (le_add_left root.leafCount n) hb rfl
    simp only [hdp] at h
    split_ifs at h with hr hfew hchk
    cases h
    refine ⟨u.root, hbu.fixRootSizeIfNeeded, hchk, ?_, ?_⟩
    · rw [← leafCount_skeleton, skeleton_fixRootSizeIfNeeded, leafCount_skeleton]
      exact le_antisymm hle (not_lt.mp hfew)
    · rw [← hmap]

theorem parse_eq_ok {s : String} (h : LayoutTree.parse s n = .ok t) :
    ∃ body, LayoutTree.parseBody body n = .ok t := by
  unfold LayoutTree.parse at h
  dsimp only at h
  split at h
  · cases h
  next body _ =>
    split_ifs at h
    exact ⟨_, h⟩

end LayoutParser

open LayoutParser in
/-- Writing a layout and reading it back gives the same cells; and whatever text is accepted, the
tree has a leaf for every pane, passes its check and survives being written and read again. -/
theorem LayoutTree.parse_dump_round_trip :
    (∀ (t : LayoutTree) (panes : List Pane), t.root.check = true →
      t.root.fixOffsets 0 0 = t.root → t.root.depth ≤ maxLayoutParseDepth + 1 →
      ExtentsBelow (2 ^ 31) t.root → panes.length = t.leafCount →
      ∃ t', parse (t.dump panes) panes.length = .ok t' ∧ t'.root = t.root) ∧
    (∀ (s : String) (n : ℕ) (t : LayoutTree), parse s n = .ok t →
      t.leafCount = n ∧ t.root.check = true ∧
      ∀ panes : List Pane, panes.length = n → parse (t.dump panes) n = .ok t) := by
  constructor
  · intro t panes hcheck hoffsets hdepth hextents hpanes
    have hu32 : 2 ^ 31 < u32Max - 1 := by decide
    have hwell : WellSized t.root := (check_iff_wellSized_of_below hextents).mp hcheck
    have hroot := fixRootSizeIfNeeded_of_wellSized hwell
      (fun a => (hextents.axisSize_lt a).trans (by omega)) hoffsets
    exact ⟨_, parse_dump hcheck (.of_extentsBelow (by omega) hextents hdepth) hroot hoffsets
      hpanes, rfl⟩
  · intro s n t h
    obtain ⟨body, h⟩ := parse_eq_ok h
    obtain ⟨c, hbounded, hcheck, hcount, rfl⟩ := parseBody_spec h
    have hcount' : (LayoutTree.mk (c.fixRootSizeIfNeeded.fixOffsets 0 0) none).leafCount = n :=
      (leafCount_fixOffsets 0 0 _).trans hcount
    have hcheck' := (check_fixOffsets 0 0 c.fixRootSizeIfNeeded).trans hcheck
    refine ⟨hcount', hcheck', fun panes hpanes => ?_⟩
    rw [← hpanes]
    exact parse_dump hcheck' (hbounded.fixOffsets 0 0) (fixRootSizeIfNeeded_fixOffsets c)
      (fixOffsets_fixOffsets _ 0 0 0 0) (hpanes.trans hcount'.symm)

/-- A pane of 40 columns and one of 39 beside it. -/
def LayoutTree.halves : LayoutTree :=
  ⟨.split .leftRight ⟨80, 24, 0, 0⟩ [.pane ⟨40, 24, 0, 0⟩, .pane ⟨39, 24, 41, 0⟩], none⟩

theorem LayoutTree.parse_dump_round_trip_halves :
    ∃ t', parse (halves.dump [⟨0, 0, ⟨0, 0, 40, 24⟩, 0⟩, ⟨7, 1, ⟨41, 0, 39, 24⟩, 0⟩]) 2 = .ok t' ∧
      t'.root = halves.root ∧ t'.leafCount = 2 ∧ t'.root.check = true := by
  obtain ⟨t', hparse, hroot⟩ := parse_dump_round_trip.1 halves
    [⟨0, 0, ⟨0, 0, 40, 24⟩, 0⟩, ⟨7, 1, ⟨41, 0, 39, 24⟩, 0⟩] (by decide) (by decide) (by decide)
    (by decide) rfl
  obtain ⟨hcount, hcheck, -⟩ := parse_dump_round_trip.2 _ 2 t' hparse
  exact ⟨t', hparse, hroot, hcount, hcheck⟩

end Rmux
