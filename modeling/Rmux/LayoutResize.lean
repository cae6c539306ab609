import Mathlib.Logic.Relation
import Rmux.LayoutMutation

/-!
# Resizing a layout

The operations of `layout/resize.rs`. `resize` fits the tree to a new window size, as far as its
panes allow. `resizePaneTo` and `resizePaneBy` move the border beside a pane : in the innermost
split that runs in the wanted direction they shift cells from some of its children to another. All
of them keep a well-sized tree well sized and its shape (`MovedBy.refits`, `resize_sound`).
-/

namespace Rmux

open MachineInt LayoutCell Relation List Option Nat

variable {a b c : LayoutCell}

/-! ## The operations -/

namespace LayoutTree

/-- Change one axis of the root, shrinking no further than the panes allow. -/
def resizeAxis (d : LayoutDirection) (change : ℤ) (root : LayoutCell) : LayoutCell :=
  let limit := asI32 (root.resizeCheck d)
  let change := if change < 0 ∧ change < wrapI32 (-limit) then wrapI32 (-limit) else change
  let change := if limit = 0 ∧ change < 0 then 0 else change
  if change ≠ 0 then root.resizeAdjust d change else root

/-- Fit the tree to a window size. -/
def resize (t : LayoutTree) (size : TerminalSize) : LayoutTree :=
  let root := resizeAxis .leftRight
    (wrapI32 (size.cols.toNat - asI32 (t.root.axisSize .leftRight))) t.root
  let root := resizeAxis .topBottom
    (wrapI32 (size.rows.toNat - asI32 (root.axisSize .topBottom))) root
  { t with root := root.fixOffsets 0 0 }

/-- Cells child `i` can give up. -/
def roomAt (d : LayoutDirection) (cs : List LayoutCell) (i : ℕ) : ℕ :=
  (cs[i]?.map (resizeCheck d)).getD 0

/-- Move `size` cells from one child to another. -/
def resizeChildren (d : LayoutDirection) (cs : List LayoutCell) (addIndex removeIndex size : ℕ) :
    List LayoutCell :=
  if addIndex = removeIndex ∨ size = 0 then cs
  else
    (cs.modify addIndex (resizeAdjust d (asI32 size))).modify removeIndex
      (resizeAdjust d (-asI32 size))

/-- The next child after `i` with room, or, with `opposite`, the last one before it. -/
def growSource (d : LayoutDirection) (cs : List LayoutCell) (i : ℕ) (opposite : Bool) :
    Option ℕ :=
  let after := ((List.range cs.length).drop (i + 1)).find? fun j => 0 < roomAt d cs j
  if opposite && after.isNone then (List.range i).reverse.find? fun j => 0 < roomAt d cs j
  else after

/-- Grow child `i` of the split at `parentPath` by up to `needed`; returns what it got. -/
def resizePaneGrow (root : LayoutCell) (parentPath : List ℕ) (i : ℕ) (d : LayoutDirection)
    (needed : ℕ) (opposite : Bool) : LayoutCell × ℕ :=
  match cellAtPath parentPath root with
  | some (.split pd g cs) =>
    if pd ≠ d ∨ cs.length ≤ i then (root, 0)
    else
      match growSource d cs i opposite with
      | none => (root, 0)
      | some j =>
        let size := min (roomAt d cs j) needed
        (setAtPath (.split pd g (resizeChildren d cs i j size)) parentPath root, size)
  | _ => (root, 0)

/-- Shrink child `i`, or the nearest one before it with room, in favour of child `i + 1`. -/
def resizePaneShrink (root : LayoutCell) (parentPath : List ℕ) (i : ℕ) (d : LayoutDirection)
    (needed : ℕ) : LayoutCell × ℕ :=
  match cellAtPath parentPath root with
  | some (.split pd g cs) =>
    if pd ≠ d ∨ cs.length ≤ i + 1 then (root, 0)
    else
      match (List.range (i + 1)).reverse.find? fun j => 0 < roomAt d cs j with
      | none => (root, 0)
      | some j =>
        let size := min (roomAt d cs j) needed
        (setAtPath (.split pd g (resizeChildren d cs (i + 1) j size)) parentPath root, size)
  | _ => (root, 0)

/-- The `while` loop of `resize_layout`. Every round moves at least one cell, so fuel of
`needed` rounds is enough. -/
def resizeLayoutLoop (parentPath : List ℕ) (i : ℕ) (d : LayoutDirection) (grow opposite : Bool) :
    ℕ → LayoutCell → ℕ → Bool → LayoutCell × Bool
  | 0, root, _, changed => (root, changed)
  | fuel + 1, root, needed, changed =>
    if needed = 0 then (root, changed)
    else
      let (root', size) :=
        if grow then resizePaneGrow root parentPath i d needed opposite
        else resizePaneShrink root parentPath i d needed
      if size = 0 then (root', changed)
      else resizeLayoutLoop parentPath i d grow opposite fuel root' (needed - size) true

/-- Move the border after child `i` of the split at `parentPath` by `change`. -/
def resizeLayout (t : LayoutTree) (parentPath : List ℕ) (i : ℕ) (d : LayoutDirection)
    (change : ℤ) (opposite : Bool) : Option LayoutTree :=
  let (root, changed) :=
    resizeLayoutLoop parentPath i d (decide (0 < change)) opposite change.natAbs t.root
      change.natAbs false
  if changed then some { t with root := root.fixOffsets 0 0 } else none

/-- Walk up from a leaf, given by its reversed path, to the innermost split along `d` and
resize the child there to `newSize`. -/
def resizeUpTo (t : LayoutTree) (d : LayoutDirection) (newSize : ℕ) :
    List ℕ → Option LayoutTree
  | [] => none
  | childIndex :: up =>
    match cellAtPath up.reverse t.root with
    | some (.split pd _ cs) =>
      if pd = d then
        let current := asI32 (((cs[childIndex]?).map (axisSize · d)).getD 0)
        let wanted : ℤ := min newSize i32Max
        if childIndex + 1 = cs.length then
          if childIndex = 0 then none
          else t.resizeLayout up.reverse (childIndex - 1) d (wrapI32 (current - wanted)) true
        else t.resizeLayout up.reverse childIndex d (wrapI32 (wanted - current)) true
      else resizeUpTo t d newSize up
    | _ => none

/-- The innermost split along `d` around a leaf with a border to move, and the child before
that border. -/
def findResizeHandle (root : LayoutCell) (d : LayoutDirection) :
    List ℕ → Option (List ℕ × ℕ)
  | [] => none
  | childIndex :: up =>
    match cellAtPath up.reverse root with
    | none => none
    | some (.pane _) => findResizeHandle root d up
    | some (.split pd _ cs) =>
      if pd = d then
        if childIndex + 1 = cs.length then
          if childIndex = 0 then findResizeHandle root d up else some (up.reverse, childIndex - 1)
        else some (up.reverse, childIndex)
      else findResizeHandle root d up

/-- The leaf of a pane position. -/
def leafOf (t : LayoutTree) (panePosition : ℕ) : Option ℕ :=
  match t.leafMap with
  | none => some panePosition
  | some map => map[panePosition]?

/-- Resize the pane at a position to `newSize` cells along `d`. -/
def resizePaneTo (t : LayoutTree) (panePosition : ℕ) (d : LayoutDirection) (newSize : ℕ) :
    Option LayoutTree := do
  let leaf ← t.leafOf panePosition
  let path ← t.root.leafPaths[leaf]?
  t.resizeUpTo d newSize path.reverse

/-- Move the border beside the pane at a position by `change` cells. -/
def resizePaneBy (t : LayoutTree) (panePosition : ℕ) (d : LayoutDirection) (change : ℤ) :
    Option LayoutTree :=
  if change = 0 then some t
  else do
    let leaf ← t.leafOf panePosition
    let path ← t.root.leafPaths[leaf]?
    let (parentPath, handle) ← findResizeHandle t.root d path.reverse
    t.resizeLayout parentPath handle d change true

end LayoutTree

/-! ## Moving cells between children -/

/-- A replacement for a cell with the same extent and shape. -/
structure KeepsFrame (c c' : LayoutCell) : Prop where
  axisSize : ∀ a, c'.axisSize a = c.axisSize a
  skeleton : c'.skeleton = c.skeleton

theorem KeepsFrame.refl (c : LayoutCell) : KeepsFrame c c := ⟨fun _ => rfl, rfl⟩

theorem KeepsFrame.trans (h : KeepsFrame a b) (h' : KeepsFrame b c) : KeepsFrame a c :=
  ⟨fun d => (h'.axisSize d).trans (h.axisSize d), h'.skeleton.trans h.skeleton⟩

theorem KeepsFrame.fixOffsets (h : KeepsFrame a b) (x y : ℕ) : KeepsFrame a (b.fixOffsets x y) :=
  ⟨fun d => (axisSize_fixOffsets x y b d).trans (h.axisSize d),
    (skeleton_fixOffsets x y b).trans h.skeleton⟩

theorem KeepsFrame.fill {root old new : LayoutCell} {p : List ℕ} {fill : LayoutCell → LayoutCell}
    {n : ℕ} (hf : Focus root p old fill n) (h : KeepsFrame old new) : KeepsFrame root (fill new) :=
  ⟨hf.axisSize_fill new h.axisSize, hf.skeleton_fill new h.skeleton⟩

/-- And well sized. -/
structure Refits (c c' : LayoutCell) : Prop extends KeepsFrame c c' where
  wellSized : WellSized c'

theorem Refits.refl (h : WellSized c) : Refits c c := ⟨.refl c, h⟩

theorem Refits.trans (h : Refits a b) (h' : Refits b c) : Refits a c :=
  ⟨h.toKeepsFrame.trans h'.toKeepsFrame, h'.wellSized⟩

theorem Refits.fixOffsets (h : Refits a b) (x y : ℕ) : Refits a (b.fixOffsets x y) :=
  ⟨h.toKeepsFrame.fixOffsets x y, h.wellSized.fixOffsets x y⟩

theorem Refits.fill {root old new : LayoutCell} {p : List ℕ} {fill : LayoutCell → LayoutCell}
    {n : ℕ} (hf : Focus root p old fill n) (hr : WellSized root) (h : Refits old new) :
    Refits root (fill new) :=
  ⟨h.toKeepsFrame.fill hf, hf.wellSized hr h.wellSized h.axisSize⟩

theorem keepsFrame_resizeChildren (d : LayoutDirection) (g : LayoutGeometry)
    (cs : List LayoutCell) (i j size : ℕ) :
    KeepsFrame (.split d g cs) (.split d g (LayoutTree.resizeChildren d cs i j size)) := by
  refine ⟨fun _ => rfl, ?_⟩
  unfold LayoutTree.resizeChildren
  split_ifs
  · rfl
  · rw [skeleton_split, skeleton_split, map_modify_eq _ _ _ _ (skeleton_resizeAdjust d _),
      map_modify_eq _ _ _ _ (skeleton_resizeAdjust d _)]

/-- Moving cells a child can spare to another child refits the split. -/
theorem refits_resizeChildren {d : LayoutDirection} {g : LayoutGeometry} {cs : List LayoutCell}
    (hw : WellSized (.split d g cs)) (hb : g.axis d ≤ i32Max) {i j size : ℕ} (hi : cs[i]? = some a)
    (hj : cs[j]? = some b) (hsz : size ≤ b.resizeCheck d) :
    Refits (.split d g cs) (.split d g (LayoutTree.resizeChildren d cs i j size)) := by
  refine ⟨keepsFrame_resizeChildren d g cs i j size, ?_⟩
  unfold LayoutTree.resizeChildren
  split_ifs with htriv
  · exact hw
  obtain ⟨hij, hpos⟩ := not_or.mp htriv
  have hu : i32Max ≤ u32Max := by decide
  have hbw := hw.child (mem_of_getElem? hj)
  have hbb : b.axisSize d ≤ i32Max :=
    (hw.axisSize_child_le (mem_of_getElem? hj) d).trans hb
  have hble := resizeCheck_le hbw (hbb.trans hu)
  have hj' : (cs.modify i (resizeAdjust d (asI32 size)))[j]? = some b := by
    rw [getElem?_modify_ne _ _ hij, hj]
  rw [asI32_eq (by omega)] at hj' ⊢
  have ha : a.axisSize d ≤ i32Max := (hw.axisSize_child_le (mem_of_getElem? hi) d).trans hb
  -- twice the maximum of `i32` is still a `u32`
  have htwo : i32Max + i32Max ≤ u32Max := by decide
  have hgrow := axisSize_resizeAdjust_add d (c := a) (k := size) (by omega)
  have hshr := axisSize_resizeAdjust_sub d size (hbb.trans hu)
  have h1 := sum_map_modify hi (resizeAdjust d size) (axisSize · d)
  have h2 := sum_map_modify hj' (resizeAdjust d (-size)) (axisSize · d)
  refine .of_sum ?_ ?_ ?_
  · refine forall_mem_modify hj' _ (forall_mem_modify hi _ (fun c hc => hw.child hc) ?_) ?_
    · exact (hw.child (mem_of_getElem? hi)).resizeAdjust_add (by omega)
    · exact (hbw.resizeAdjust_sub (hbb.trans hu) hsz).1
  · refine forall_mem_modify hj' _ (forall_mem_modify hi _ (fun c hc => hw.cross_eq hc) ?_) ?_
    · rw [axisSize_resizeAdjust_flip]
      exact hw.cross_eq (mem_of_getElem? hi)
    · rw [axisSize_resizeAdjust_flip]
      exact hw.cross_eq (mem_of_getElem? hj)
  · rw [length_modify, length_modify]
    have hsum := hw.sum_eq
    omega

/-! ## Moving a border -/

namespace LayoutTree

variable {d : LayoutDirection} {t t' : LayoutTree} {change : ℤ}

theorem exists_of_roomAt_pos {cs : List LayoutCell} {j : ℕ} (h : 0 < roomAt d cs j) :
    ∃ c, cs[j]? = some c ∧ roomAt d cs j = c.resizeCheck d := by
  unfold roomAt at h ⊢
  cases hj : cs[j]? with
  | none => simp [hj] at h
  | some c => exact ⟨c, rfl, rfl⟩

theorem roomAt_pos_of_growSource {cs : List LayoutCell} {i j : ℕ} {opposite : Bool}
    (h : growSource d cs i opposite = some j) : 0 < roomAt d cs j := by
  unfold growSource at h
  simp only at h
  split_ifs at h
  · simpa using find?_some h
  · simpa using find?_some h

/-- A round of the loop leaves the tree, or moves cells a child can spare to another child of the
same split. -/
def Round (d : LayoutDirection) (root root' : LayoutCell) : Prop :=
  root' = root ∨ ∃ p g cs fill n i j a b size, Focus root p (.split d g cs) fill n ∧
    cs[i]? = some a ∧ cs[j]? = some b ∧ size ≤ b.resizeCheck d ∧
    root' = fill (.split d g (resizeChildren d cs i j size))

section

variable {root root' : LayoutCell} {parentPath : List ℕ} {i : ℕ} {d : LayoutDirection}
  {needed : ℕ}

theorem Round.keepsFrame (h : Round d root root') : KeepsFrame root root' := by
  rcases h with rfl | ⟨p, g, cs, fill, n, i, j, a, b, size, hf, -, -, -, rfl⟩
  · exact .refl _
  · exact .fill hf (keepsFrame_resizeChildren d g cs i j size)

theorem Round.refits (h : Round d root root') (hw : WellSized root)
    (hmax : ∀ a, root.axisSize a ≤ i32Max) : Refits root root' := by
  rcases h with rfl | ⟨p, g, cs, fill, n, i, j, a, b, size, hf, ha, hb, hsz, rfl⟩
  · exact .refl hw
  · exact .fill hf hw (refits_resizeChildren (hf.wellSized_old hw)
      ((hf.axisSize_old_le hw d).trans (hmax d)) ha hb hsz)

/-- A child takes what another one can spare. -/
theorem round_resizeChildren {g : LayoutGeometry} {cs : List LayoutCell} {j : ℕ}
    (hc : cellAtPath parentPath root = some (.split d g cs)) (hi : ¬ cs.length ≤ i)
    (hj : 0 < roomAt d cs j) :
    Round d root (setAtPath (.split d g (resizeChildren d cs i j (min (roomAt d cs j) needed)))
      parentPath root) := by
  obtain ⟨fill, n, hf⟩ := exists_focus hc
  obtain ⟨b, hb, hrm⟩ := exists_of_roomAt_pos hj
  refine .inr ⟨_, g, cs, fill, n, i, j, _, b, _, hf,
    getElem?_eq_getElem (Nat.lt_of_not_le hi), hb, ?_, hf.setAtPath_eq _⟩
  rw [hrm]
  exact min_le_left _ _

theorem round_resizePaneGrow {opposite : Bool} :
    Round d root (resizePaneGrow root parentPath i d needed opposite).1 := by
  unfold resizePaneGrow
  split
  · rename_i hc
    split_ifs with hguard
    · exact .inl rfl
    obtain ⟨hpd, hi⟩ := not_or.mp hguard
    obtain rfl := not_ne_iff.mp hpd
    split
    · exact .inl rfl
    · exact round_resizeChildren hc hi (roomAt_pos_of_growSource ‹_›)
  · exact .inl rfl

theorem round_resizePaneShrink : Round d root (resizePaneShrink root parentPath i d needed).1 := by
  unfold resizePaneShrink
  split
  · rename_i hc
    split_ifs with hguard
    · exact .inl rfl
    obtain ⟨hpd, hi⟩ := not_or.mp hguard
    obtain rfl := not_ne_iff.mp hpd
    split
    · exact .inl rfl
    · rename_i hj
      exact round_resizeChildren hc hi (by simpa using find?_some hj)
  · exact .inl rfl

/-- The loop is a run of rounds. -/
theorem rounds_resizeLayoutLoop {grow opposite : Bool} (n : ℕ) (changed : Bool) :
    ReflTransGen (Round d) root
      (resizeLayoutLoop parentPath i d grow opposite n root needed changed).1 := by
  induction n generalizing root needed changed with
  | zero => exact .refl
  | succ n ih =>
    have hrnd : Round d root (if grow then resizePaneGrow root parentPath i d needed opposite
        else resizePaneShrink root parentPath i d needed).1 := by
      split_ifs
      · exact round_resizePaneGrow
      · exact round_resizePaneShrink
    unfold resizeLayoutLoop
    simp only
    split_ifs at hrnd ⊢ <;>
      first
      | exact .refl
      | exact .single hrnd
      | exact .head hrnd (ih true)

theorem keepsFrame_of_rounds (h : ReflTransGen (Round d) root root') : KeepsFrame root root' := by
  induction h with
  | refl => exact .refl root
  | tail _ hrnd ih => exact ih.trans hrnd.keepsFrame

theorem refits_of_rounds (h : ReflTransGen (Round d) root root') (hw : WellSized root)
    (hmax : ∀ a, root.axisSize a ≤ i32Max) : Refits root root' := by
  induction h with
  | refl => exact .refl hw
  | tail _ hrnd ih =>
    exact ih.trans (hrnd.refits ih.wellSized fun a => (ih.axisSize a).trans_le (hmax a))

end

/-- A tree after some rounds, its offsets in place. -/
def MovedBy (d : LayoutDirection) (t t' : LayoutTree) : Prop :=
  ∃ root, ReflTransGen (Round d) t.root root ∧ t' = { t with root := root.fixOffsets 0 0 }

theorem MovedBy.keepsFrame (h : MovedBy d t t') : KeepsFrame t.root t'.root := by
  obtain ⟨root, hrun, rfl⟩ := h
  exact (keepsFrame_of_rounds hrun).fixOffsets 0 0

theorem MovedBy.refits (h : MovedBy d t t') (hw : WellSized t.root)
    (hmax : ∀ a, t.root.axisSize a ≤ i32Max) : Refits t.root t'.root := by
  obtain ⟨root, hrun, rfl⟩ := h
  exact (refits_of_rounds hrun hw hmax).fixOffsets 0 0

theorem MovedBy.leafMap (h : MovedBy d t t') : t'.leafMap = t.leafMap := by
  obtain ⟨root, -, rfl⟩ := h
  rfl

theorem MovedBy.fixOffsets (h : MovedBy d t t') : t'.root.fixOffsets 0 0 = t'.root := by
  obtain ⟨root, -, rfl⟩ := h
  exact fixOffsets_fixOffsets _ 0 0 0 0

theorem resizeLayout_moved {parentPath : List ℕ} {i : ℕ} {opposite : Bool}
    (h : t.resizeLayout parentPath i d change opposite = some t') : MovedBy d t t' := by
  unfold resizeLayout at h
  simp only at h
  split_ifs at h
  cases h
  exact ⟨_, rounds_resizeLayoutLoop _ _, rfl⟩

theorem resizeUpTo_moved {newSize : ℕ} :
    ∀ {up : List ℕ}, t.resizeUpTo d newSize up = some t' → MovedBy d t t'
  | [], h => by simp [resizeUpTo] at h
  | childIndex :: up, h => by
    unfold resizeUpTo at h
    split at h
    · split_ifs at h
      · exact resizeLayout_moved h
      · exact resizeLayout_moved h
      · exact resizeUpTo_moved h
    · cases h

theorem resizePaneTo_moved {panePosition : ℕ} {newSize : ℕ}
    (h : t.resizePaneTo panePosition d newSize = some t') : MovedBy d t t' := by
  simp only [resizePaneTo, bind_eq_bind, bind_eq_some_iff] at h
  obtain ⟨leaf, -, path, -, h⟩ := h
  exact resizeUpTo_moved h

theorem resizePaneBy_moved {panePosition : ℕ} (h : t.resizePaneBy panePosition d change = some t') :
    t' = t ∨ MovedBy d t t' := by
  unfold resizePaneBy at h
  split_ifs at h
  · exact .inl (some.inj h).symm
  simp only [bind_eq_bind, bind_eq_some_iff] at h
  obtain ⟨leaf, -, path, -, handle, -, h⟩ := h
  exact .inr (resizeLayout_moved h)

/-! ## Fitting a window size -/

/-- One axis of `resize` : the other axis and the shape stay, and the extent is at most the one
before or the one wanted. -/
theorem resizeAxis_sound {root : LayoutCell} {wanted : ℕ} (hw : WellSized root)
    (hmax : root.axisSize d ≤ i32Max) (hwanted : wanted ≤ u16Max) :
    let root' := resizeAxis d (wrapI32 (wanted - asI32 (root.axisSize d))) root
    WellSized root' ∧ root'.skeleton = root.skeleton ∧
      root'.axisSize d.flip = root.axisSize d.flip ∧
      root'.axisSize d = max wanted (root.axisSize d - root.resizeCheck d) := by
  have hu : i32Max ≤ u32Max := by decide
  have hle := resizeCheck_le hw (hmax.trans hu)
  have hchg : wrapI32 (wanted - asI32 (root.axisSize d)) = wanted - root.axisSize d := by
    rw [asI32_eq hmax]
    unfold i32Max at hmax
    unfold u16Max at hwanted
    exact wrapI32_eq (by omega) (by omega)
  have hlim : wrapI32 (-(root.resizeCheck d : ℤ)) = -(root.resizeCheck d : ℤ) := by
    unfold i32Max at hmax
    exact wrapI32_eq (by omega) (by omega)
  have hsm : (u16Max : ℕ) ≤ i32Max := by decide
  have key : resizeAxis d (wrapI32 (wanted - asI32 (root.axisSize d))) root =
      root.resizeAdjust d (if root.axisSize d ≤ wanted then ((wanted - root.axisSize d : ℕ) : ℤ)
        else -((min (root.axisSize d - wanted) (root.resizeCheck d) : ℕ) : ℤ)) := by
    unfold resizeAxis
    simp only [hchg, asI32_eq (hle.trans hmax), hlim]
    have hz : ∀ k : ℤ, (if k ≠ 0 then root.resizeAdjust d k else root) =
        root.resizeAdjust d k := by
      intro k
      split_ifs with hk
      · rfl
      · rw [not_ne_iff.mp hk, resizeAdjust_zero]
    rw [hz]
    refine congrArg (fun k => root.resizeAdjust d k) ?_
    split_ifs <;> omega
  rw [key]
  split_ifs with hcase
  · refine ⟨hw.resizeAdjust_add (by omega), skeleton_resizeAdjust .., ?_, ?_⟩
    · rw [axisSize_resizeAdjust_flip]
    · rw [axisSize_resizeAdjust_add d (by omega)]
      omega
  · refine ⟨(hw.resizeAdjust_sub (hmax.trans hu) (min_le_right _ _)).1,
      skeleton_resizeAdjust .., ?_, ?_⟩
    · rw [axisSize_resizeAdjust_flip]
    · rw [axisSize_resizeAdjust_sub d _ (hmax.trans hu)]
      omega

@[simp] theorem skeleton_resizeAxis (d : LayoutDirection) (change : ℤ) (root : LayoutCell) :
    (resizeAxis d change root).skeleton = root.skeleton := by
  unfold resizeAxis
  dsimp only
  split_ifs <;> simp

@[simp] theorem axisSize_resizeAxis_flip (d : LayoutDirection) (change : ℤ) (root : LayoutCell) :
    (resizeAxis d change root).axisSize d.flip = root.axisSize d.flip := by
  unfold resizeAxis
  dsimp only
  split_ifs <;> simp

theorem resizeAxis_of_pos (d : LayoutDirection) (h : 0 < change) (root : LayoutCell) :
    resizeAxis d change root = root.resizeAdjust d change := by
  simp [resizeAxis, h.le.not_gt, h.ne']

theorem root_resize (t : LayoutTree) (size : TerminalSize) :
    (t.resize size).root = (resizeAxis .topBottom (wrapI32 (size.rows.toNat - asI32
      ((resizeAxis .leftRight (wrapI32 (size.cols.toNat - asI32 (t.root.axisSize .leftRight)))
        t.root).axisSize .topBottom)))
      (resizeAxis .leftRight (wrapI32 (size.cols.toNat - asI32 (t.root.axisSize .leftRight)))
        t.root)).fixOffsets 0 0 := by
  rw [resize]

@[simp] theorem leafMap_resize (t : LayoutTree) (size : TerminalSize) :
    (t.resize size).leafMap = t.leafMap := by
  rw [resize]

/-- Fitting a window size keeps a tree consistent and its shape, and bounds its extent. -/
theorem resize_sound (size : TerminalSize) (hw : WellSized t.root)
    (hmax : ∀ a, t.root.axisSize a ≤ i32Max) :
    WellSized (t.resize size).root ∧ (t.resize size).root.skeleton = t.root.skeleton ∧
      (∀ a, (t.resize size).root.axisSize a ≤ max u16Max (t.root.axisSize a)) ∧
      (t.resize size).leafMap = t.leafMap := by
  have hcols : size.cols.toNat ≤ u16Max := le_of_lt_succ size.cols.toNat_lt
  have hrw : size.rows.toNat ≤ u16Max := le_of_lt_succ size.rows.toNat_lt
  obtain ⟨hw1, hs1, hx1, ha1⟩ := resizeAxis_sound hw (hmax .leftRight) hcols
  rw [root_resize]
  generalize resizeAxis .leftRight
    (wrapI32 (size.cols.toNat - asI32 (t.root.axisSize .leftRight))) t.root = root1 at *
  have hy1 : root1.axisSize .topBottom = t.root.axisSize .topBottom := hx1
  obtain ⟨hw2, hs2, hx2, ha2⟩ := resizeAxis_sound hw1 (hy1.trans_le (hmax .topBottom)) hrw
  generalize resizeAxis .topBottom
    (wrapI32 (size.rows.toNat - asI32 (root1.axisSize .topBottom))) root1 = root2 at *
  have hy2 : root2.axisSize .leftRight = root1.axisSize .leftRight := hx2
  refine ⟨hw2.fixOffsets 0 0, ?_, fun a => ?_, leafMap_resize t size⟩
  · rw [skeleton_fixOffsets, hs2, hs1]
  · rw [axisSize_fixOffsets]
    cases a with
    | leftRight =>
      omega
    | topBottom =>
      omega

end LayoutTree

end Rmux
