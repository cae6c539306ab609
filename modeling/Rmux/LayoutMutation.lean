import Rmux.LayoutPath

/-!
# Splitting and removing leaves

`LayoutTree` and the operations of `layout/mutation.rs` that change its shape. The source's
operations return whether they changed the tree; here they return the new tree or `none`.
`splitLeaf` and `removeLeaf` keep a well-sized, branching tree well sized and branching, and its
extent (`splitLeaf_sound`, `removeLeaf_sound`). For `splitRoot` and `spreadFromLeaf` see
`LayoutSqueeze`.
-/

namespace Rmux

open MachineInt List

variable {d : LayoutDirection} {t t' : LayoutTree} {i : ℕ} {g : LayoutGeometry}
  {halves : LayoutCell × LayoutCell} {l r : List LayoutCell} {c : LayoutCell}

/-- A terminal size in cells. -/
structure TerminalSize where
  cols : UInt16
  rows : UInt16
  deriving DecidableEq

/-- A layout : its root cell, and for mirrored layouts the leaf of each pane position. Without a
map pane position `i` has leaf `i`. -/
structure LayoutTree where
  root : LayoutCell
  leafMap : Option (List ℕ)
  deriving DecidableEq

open LayoutCell

/-! ## The operations -/

/-- The two extents a split leaves of `saved` cells, besides the border. -/
def splitSizes (saved : ℕ) : ℕ × ℕ :=
  let second := (wrapAdd saved paneBorderCells) / 2 - paneBorderCells
  let second := max paneMinimum (min second (saved - (paneMinimum + paneBorderCells)))
  (saved - paneBorderCells - second, second)

/-- The two halves of a leaf, or `none` if it is too small for two panes and a border. -/
def splitLeafIntoChildren (g : LayoutGeometry) (d : LayoutDirection) :
    Option (LayoutCell × LayoutCell) :=
  if g.axis d < paneMinimum * 2 + paneBorderCells then none
  else
    let (first, second) := splitSizes (g.axis d)
    let offset := childOffset d g.x g.y (wrapAdd first paneBorderCells)
    some (.pane (g.setAxis d first), .pane ((g.setAxis d second).moveTo offset.1 offset.2))

/-- A leaf turned into a split of its two halves. -/
def splitLeafCell (original : LayoutCell) (d : LayoutDirection) : Option LayoutCell :=
  (splitLeafIntoChildren original.geometry d).map fun halves =>
    .split d original.geometry [halves.1, halves.2]

mutual
/-- Replace every split with one child by that child, stretched over it. -/
def collapseSingleChild : LayoutCell → LayoutCell
  | .pane g => .pane g
  | .split d g cs =>
    match collapseSingleChildren cs with
    | [only] => (only.withGeometry g).fixOffsets g.x g.y
    | cs' => .split d g cs'

def collapseSingleChildren : List LayoutCell → List LayoutCell
  | [] => []
  | c :: cs => collapseSingleChild c :: collapseSingleChildren cs
end

namespace LayoutTree

/-- One pane over the whole size. -/
def single (size : TerminalSize) : LayoutTree :=
  ⟨.pane ⟨size.cols.toNat, size.rows.toNat, 0, 0⟩, none⟩

def leafCount (t : LayoutTree) : ℕ := t.root.leafCount

/-- The root extent, capped to what a terminal size can hold. -/
def size (t : LayoutTree) : TerminalSize :=
  ⟨capU16 t.root.geometry.width, capU16 t.root.geometry.height⟩

/-- Split a leaf in two. The halves keep their order whichever side the new pane is on : the
caller decides by where it inserts the pane. -/
def splitLeaf (t : LayoutTree) (leafIndex : ℕ) (d : LayoutDirection) : Option LayoutTree :=
  match t.root.leafPaths[leafIndex]? with
  | none => none
  | some path =>
    match path.getLast? with
    | none =>
      -- the root is the leaf : the leaf map is left as it is
      (splitLeafCell t.root d).map fun root => { t with root := root.fixOffsets 0 0 }
    | some childIndex =>
      match cellAtPath path.dropLast t.root with
      | none => none
      | some parent =>
        let wrap : Option LayoutTree :=
          match cellAtPath path t.root with
          | none => none
          | some target =>
            (splitLeafCell target d).map fun cell =>
              ⟨(setAtPath cell path t.root).fixOffsets 0 0, none⟩
        match parent with
        | .pane _ => wrap
        | .split parentDirection g cs =>
          if parentDirection = d then
            match cs[childIndex]? with
            | none => none
            | some original =>
              (splitLeafIntoChildren original.geometry d).map fun halves =>
                let cs' := cs.take childIndex ++ halves.1 :: halves.2 :: cs.drop (childIndex + 1)
                ⟨(setAtPath (.split parentDirection g cs') path.dropLast t.root).fixOffsets 0 0,
                  none⟩
          else wrap

/-- Make room for a new leaf along one whole side of the window. -/
def splitRoot (t : LayoutTree) (d : LayoutDirection) (insertBefore : Bool) :
    Option LayoutTree :=
  let g := t.root.geometry
  let saved := g.axis d
  if saved < paneMinimum * 2 + paneBorderCells then none
  else
    let (first, second) := splitSizes saved
    let existingSize := if insertBefore then second else first
    let existing := t.root.resizeAdjust d (wrapI32 (asI32 existingSize - asI32 saved))
    let far := childOffset d 0 0 (wrapAdd first paneBorderCells)
    let children :=
      if insertBefore then
        [.pane ((g.setAxis d first).moveTo 0 0), existing.fixOffsets far.1 far.2]
      else [existing.fixOffsets 0 0, .pane ((g.setAxis d second).moveTo far.1 far.2)]
    some ⟨(LayoutCell.split d g children).fixOffsets 0 0, none⟩

/-- Remove a leaf : the sibling before it, or the next one if it is the first, takes its cells
and the border. -/
def removeLeaf (t : LayoutTree) (leafIndex : ℕ) : Option LayoutTree :=
  match t.root.leafPaths[leafIndex]? with
  | none => none
  | some path =>
    match path.getLast? with
    | none => none
    | some childIndex =>
      match cellAtPath path.dropLast t.root with
      | none => none
      | some (.pane _) => none
      | some (.split d g cs) =>
        match cs[childIndex]? with
        | none => none
        | some removed =>
          let growth := wrapAdd (removed.axisSize d) paneBorderCells
          let cs' := (cs.eraseIdx childIndex).modify (childIndex - 1)
            (resizeAdjust d (asI32 growth))
          let root := setAtPath (.split d g cs') path.dropLast t.root
          some ⟨(collapseSingleChild root).fixOffsets 0 0, none⟩

/-- Try to spread the cells on `path` above depth `n`, innermost first. -/
def spreadAlong (root : LayoutCell) (path : List ℕ) : ℕ → Option LayoutCell
  | 0 => none
  | depth + 1 =>
    match cellAtPath (path.take depth) root with
    | none => spreadAlong root path depth
    | some cell =>
      if cell.spread.2 then
        some ((setAtPath cell.spread.1 (path.take depth) root).fixOffsets 0 0)
      else spreadAlong root path depth

/-- Give equal room to the cells beside a leaf, or beside the innermost cell around it for which
that changes anything. -/
def spreadFromLeaf (t : LayoutTree) (leafIndex : ℕ) : Option LayoutTree :=
  match t.root.leafPaths[leafIndex]? with
  | none => none
  | some path => (spreadAlong t.root path path.length).map fun root => { t with root := root }

end LayoutTree

/-! ## Halving a leaf -/

theorem splitSizes_spec {saved : ℕ} (h : 3 ≤ saved) :
    (splitSizes saved).1 + 1 + (splitSizes saved).2 = saved ∧ 1 ≤ (splitSizes saved).1 ∧
      1 ≤ (splitSizes saved).2 := by
  simp only [splitSizes, wrapAdd, paneBorderCells_eq, paneMinimum_eq]
  omega

theorem splitLeafIntoChildren_eq (h : splitLeafIntoChildren g d = some halves) :
    3 ≤ g.axis d ∧ halves.1 = .pane (g.setAxis d (splitSizes (g.axis d)).1) ∧
      ∃ x y, halves.2 = .pane ((g.setAxis d (splitSizes (g.axis d)).2).moveTo x y) := by
  unfold splitLeafIntoChildren at h
  split_ifs at h with hsm
  cases h
  exact ⟨Nat.le_of_not_lt hsm, rfl, _, _, rfl⟩

/-- A split of one leaf is well sized. -/
theorem wellSized_halves (h : splitLeafIntoChildren g d = some halves) :
    WellSized (.split d g [halves.1, halves.2]) := by
  obtain ⟨hsz, h1, x, y, h2⟩ := splitLeafIntoChildren_eq h
  have hsum := splitSizes_spec hsz
  rw [h1, h2]
  refine .of_sum ?_ ?_ ?_
  · simp [WellSized.pane]
  · simp
  · simp only [map_cons, map_nil, sum_cons, sum_nil, length_cons,
      length_nil, axisSize_pane, LayoutGeometry.axis_setAxis, LayoutGeometry.axis_moveTo]
    omega

theorem forall_mem_halves {P : LayoutCell → Prop} (h : ∀ c ∈ l ++ .pane g :: r, P c)
    (hhv : ∀ c ∈ [halves.1, halves.2], P c) : ∀ c ∈ l ++ halves.1 :: halves.2 :: r, P c := by
  simp only [forall_mem_append, forall_mem_cons] at h hhv ⊢
  exact ⟨h.1, hhv.1, hhv.2.1, h.2.2⟩

/-- The halves stand in for the leaf among its siblings. -/
theorem LayoutCell.WellSized.insert_halves {pg : LayoutGeometry}
    (hp : WellSized (.split d pg (l ++ .pane g :: r))) (h : splitLeafIntoChildren g d = some halves) :
    WellSized (.split d pg (l ++ halves.1 :: halves.2 :: r)) := by
  have hw := wellSized_halves h
  have hmain := hw.sum_eq
  have hcr : ∀ c ∈ [halves.1, halves.2], c.axisSize d.flip = pg.axis d.flip := fun c hc =>
    (hw.cross_eq hc).trans (hp.cross_eq (c := .pane g) (by simp))
  refine .of_sum (forall_mem_halves (fun _ => hp.child) fun _ => hw.child)
    (forall_mem_halves (fun _ => hp.cross_eq) hcr) ?_
  · have hsum := hp.sum_eq
    simp only [map_append, map_cons, map_nil, sum_append, sum_cons,
      sum_nil, length_append, length_cons, length_nil, axisSize_pane]
      at hmain hsum ⊢
    omega

/-! ## Splitting a leaf of the tree -/

/-- What `splitLeaf` does when it does anything : in place of the leaf there is a split of its
halves, or the halves themselves if the parent already runs that way. -/
theorem LayoutTree.splitLeaf_cases (h : t.splitLeaf i d = some t') :
    ∃ p g fill halves, Focus t.root p (.pane g) fill i ∧
      splitLeafIntoChildren g d = some halves ∧
      (t'.root = (fill (.split d g [halves.1, halves.2])).fixOffsets 0 0 ∧
          (t'.leafMap = none ∨ (∃ g, t.root = .pane g) ∧ t'.leafMap = t.leafMap) ∨
        ∃ pg l r fill' n, Focus t.root p.dropLast (.split d pg (l ++ .pane g :: r)) fill' n ∧
          i = n + (l.map LayoutCell.leafCount).sum ∧
          t'.root = (fill' (.split d pg (l ++ halves.1 :: halves.2 :: r))).fixOffsets 0 0 ∧
          t'.leafMap = none) := by
  unfold splitLeaf at h
  cases hp : t.root.leafPaths[i]? with
  | none => simp [hp] at h
  | some p =>
    obtain ⟨g, fill, hf⟩ := exists_focus_of_leafPaths hp
    simp only [hp] at h
    rcases eq_nil_or_concat' p with rfl | ⟨q, j, rfl⟩
    · obtain ⟨hrt, rfl, rfl⟩ := hf.eq_of_nil
      simp only [getLast?_nil, splitLeafCell, Option.map_map, Option.map_eq_some_iff,
        hrt, geometry_pane] at h
      obtain ⟨halves, hhv, rfl⟩ := h
      exact ⟨[], g, id, halves, hf, hhv, .inl ⟨rfl, .inr ⟨⟨g, hrt⟩, rfl⟩⟩⟩
    · obtain ⟨pd, pg, l, r, fill', n, hf', rfl, hn, rfl⟩ := hf.parent
      rw [getLast?_concat, dropLast_concat] at h
      simp only [hf'.cellAtPath_eq, hf.cellAtPath_eq, splitLeafCell, geometry_pane] at h
      by_cases hd : pd = d
      · subst hd
        simp only [if_true, getElem?_append_right (Nat.le_refl _), Nat.sub_self,
          getElem?_cons_zero, Option.map_eq_some_iff, geometry_pane] at h
        obtain ⟨halves, hhv, rfl⟩ := h
        refine ⟨_, g, _, halves, hf, hhv, .inr ⟨pg, l, r, fill', n, ?_, hn, ?_, rfl⟩⟩
        · rwa [dropLast_concat]
        · simp [hf'.setAtPath_eq]
      · simp only [if_neg hd, Option.map_map, Option.map_eq_some_iff] at h
        obtain ⟨halves, hhv, rfl⟩ := h
        refine ⟨_, g, _, halves, hf, hhv, .inl ⟨?_, .inl rfl⟩⟩
        simp only [Function.comp_apply, hf.setAtPath_eq]

/-- Splitting a leaf keeps the extent and adds one leaf, whatever the extents are. -/
theorem LayoutTree.splitLeaf_frame (h : t.splitLeaf i d = some t') :
    (∀ a, t'.root.axisSize a = t.root.axisSize a) ∧
      t'.root.leafCount = t.root.leafCount + 1 ∧ t'.root.fixOffsets 0 0 = t'.root := by
  obtain ⟨p, g, fill, halves, hf, hhv, hcases⟩ := splitLeaf_cases h
  obtain ⟨-, h1, x, y, h2⟩ := splitLeafIntoChildren_eq hhv
  have hc1 : halves.1.leafCount = 1 := h1 ▸ rfl
  have hc2 : halves.2.leafCount = 1 := h2 ▸ rfl
  rcases hcases with ⟨hrt, -⟩ | ⟨pg, l, r, fill', n, hf', -, hrt, -⟩
  · have hcnt := hf.leafCount_fill (.split d g [halves.1, halves.2])
    simp only [leafCount_split, map_cons, map_nil, sum_cons, sum_nil, hc1,
      hc2, leafCount_pane] at hcnt
    rw [hrt, leafCount_fixOffsets]
    refine ⟨fun a => ?_, by omega, fixOffsets_fixOffsets _ 0 0 0 0⟩
    rw [axisSize_fixOffsets]
    refine hf.axisSize_fill _ (fun a => ?_) a
    rfl
  · have hcnt := hf'.leafCount_fill (.split d pg (l ++ halves.1 :: halves.2 :: r))
    simp only [leafCount_split, map_append, map_cons, sum_append, sum_cons,
      hc1, hc2, leafCount_pane] at hcnt
    rw [hrt, leafCount_fixOffsets]
    refine ⟨fun a => ?_, by omega, fixOffsets_fixOffsets _ 0 0 0 0⟩
    rw [axisSize_fixOffsets]
    refine hf'.axisSize_fill _ (fun a => ?_) a
    rfl

/-- Splitting a leaf keeps the tree well sized and branching. -/
theorem LayoutTree.splitLeaf_sound (h : t.splitLeaf i d = some t') (hw : WellSized t.root)
    (hb : Branching t.root) : WellSized t'.root ∧ Branching t'.root := by
  obtain ⟨p, g, fill, halves, hf, hhv, hcases⟩ := splitLeaf_cases h
  have hspl := wellSized_halves hhv
  obtain ⟨-, h1, x, y, h2⟩ := splitLeafIntoChildren_eq hhv
  have hb1 : Branching halves.1 := h1 ▸ .pane _
  have hb2 : Branching halves.2 := h2 ▸ .pane _
  rcases hcases with ⟨hrt, -⟩ | ⟨pg, l, r, fill', n, hf', -, hrt, -⟩
  · have hbr : Branching (.split d g [halves.1, halves.2]) :=
      .split (by simp) (by simp [hb1, hb2])
    rw [hrt]
    exact ⟨(hf.wellSized hw hspl fun a => rfl).fixOffsets 0 0,
      (hf.branching hb hbr).of_skeleton_eq (skeleton_fixOffsets 0 0 _)⟩
  · have hparent := hf'.branching_old hb
    rw [branching_split_iff] at hparent
    have hbr : Branching (.split d pg (l ++ halves.1 :: halves.2 :: r)) := by
      refine .split ?_ (forall_mem_halves hparent.2 (by simp [hb1, hb2]))
      simp
      omega
    rw [hrt]
    exact ⟨(hf'.wellSized hw ((hf'.wellSized_old hw).insert_halves hhv)
      fun a => rfl).fixOffsets 0 0,
      (hf'.branching hb hbr).of_skeleton_eq (skeleton_fixOffsets 0 0 _)⟩

/-! ## Collapsing splits with one child -/

theorem collapseSingleChildren_eq (cs : List LayoutCell) :
    collapseSingleChildren cs = cs.map collapseSingleChild := by
  induction cs with
  | nil => rfl
  | cons c cs ih => rw [collapseSingleChildren, ih, map_cons]

theorem collapseSingleChild_split (d : LayoutDirection) (g : LayoutGeometry)
    (cs : List LayoutCell) : (∃ c, cs = [c] ∧ collapseSingleChild (.split d g cs) =
        ((collapseSingleChild c).withGeometry g).fixOffsets g.x g.y) ∨
      cs.length ≠ 1 ∧
        collapseSingleChild (.split d g cs) = .split d g (cs.map collapseSingleChild) := by
  rw [collapseSingleChild, collapseSingleChildren_eq]
  rcases cs with _ | ⟨c, _ | ⟨c', cs⟩⟩
  · exact .inr ⟨by simp, rfl⟩
  · exact .inl ⟨c, rfl, rfl⟩
  · exact .inr ⟨by simp, rfl⟩

@[simp] theorem leafCount_withGeometry (c : LayoutCell) (g : LayoutGeometry) :
    (c.withGeometry g).leafCount = c.leafCount := by
  cases c <;> rfl

theorem leafCount_collapseSingleChild (c : LayoutCell) :
    (collapseSingleChild c).leafCount = c.leafCount := by
  induction c with
  | pane g => rfl
  | split d g cs ih =>
    rcases collapseSingleChild_split d g cs with ⟨c, rfl, heq⟩ | ⟨-, heq⟩
    · rw [heq, leafCount_fixOffsets, leafCount_withGeometry, ih c (by simp), leafCount_split]
      simp
    · rw [heq, leafCount_split, leafCount_split, map_map]
      exact congrArg sum (map_congr_left ih)

theorem LayoutCell.Branching.withGeometry (h : Branching c) (g : LayoutGeometry) :
    Branching (c.withGeometry g) := by
  cases h with
  | pane g' => exact .pane g
  | split two children => exact .split two children

theorem axisSize_collapseSingleChild (a : LayoutDirection) :
    (collapseSingleChild c).axisSize a = c.axisSize a := by
  cases c with
  | pane g => rfl
  | split d g cs =>
    rcases collapseSingleChild_split d g cs with ⟨c, rfl, heq⟩ | ⟨-, heq⟩
    · rw [heq, axisSize_fixOffsets, axisSize, geometry_withGeometry, axisSize_split]
    · rw [heq, axisSize_split, axisSize_split]

/-- Collapsing a well-sized tree keeps it well sized and leaves only real splits. -/
theorem LayoutCell.WellSized.collapseSingleChild (h : WellSized c) :
    WellSized (collapseSingleChild c) ∧ Branching (collapseSingleChild c) := by
  induction c with
  | pane g => exact ⟨.pane g, .pane g⟩
  | split d g cs ih =>
    have hall := fun c hc => ih c hc (h.child hc)
    have hsum := h.sum_eq
    rcases collapseSingleChild_split d g cs with ⟨c, rfl, heq⟩ | ⟨hlen, heq⟩
    · rw [heq]
      obtain ⟨hw, hb⟩ := hall c (by simp)
      have haxes : ∀ a, g.axis a = (Rmux.collapseSingleChild c).axisSize a := fun a => by
        rw [axisSize_collapseSingleChild]
        rcases LayoutDirection.eq_or_eq_flip a d with rfl | rfl
        · simp only [map_cons, map_nil, sum_cons, sum_nil, length_cons, length_nil] at hsum
          omega
        · exact (h.cross_eq (by simp)).symm
      exact ⟨(hw.withGeometry haxes).fixOffsets _ _,
        (hb.withGeometry g).of_skeleton_eq (skeleton_fixOffsets _ _ _)⟩
    · rw [heq]
      have hne := length_pos_of_ne_nil h.ne_nil
      refine ⟨.of_sum ?_ ?_ ?_, .split (by rw [length_map]; omega) ?_⟩
      · simpa using fun c hc => (hall c hc).1
      · simp only [forall_mem_map, axisSize_collapseSingleChild]
        exact fun c hc => h.cross_eq hc
      · rw [map_map, length_map, ← hsum]
        congr 2
        exact map_congr_left fun c _ => axisSize_collapseSingleChild d
      · simpa using fun c hc => (hall c hc).2

/-! ## Removing a leaf of the tree -/

/-- The siblings of a removed cell, after the one before it (or the first) took `growth`. -/
def absorb (d : LayoutDirection) (growth : ℤ) (l r : List LayoutCell) : List LayoutCell :=
  (l ++ r).modify (l.length - 1) (resizeAdjust d growth)

theorem absorb_concat (d : LayoutDirection) (growth : ℤ) (l : List LayoutCell) (o : LayoutCell)
    (r : List LayoutCell) : absorb d growth (l ++ [o]) r = l ++ o.resizeAdjust d growth :: r := by
  rw [absorb, append_assoc, length_append, length_singleton, Nat.add_sub_cancel]
  exact modify_append_cons l o r _

/-- What `removeLeaf` does when it does anything. -/
theorem LayoutTree.removeLeaf_cases (h : t.removeLeaf i = some t') :
    ∃ q d g rg l r fill n, Focus t.root q (.split d g (l ++ .pane rg :: r)) fill n ∧
      t.root.leafPaths[i]? = some (q ++ [l.length]) ∧
      i = n + (l.map LayoutCell.leafCount).sum ∧
      t' = ⟨(collapseSingleChild (fill (.split d g
        (absorb d (asI32 (wrapAdd (rg.axis d) paneBorderCells)) l r)))).fixOffsets 0 0, none⟩ := by
  unfold removeLeaf at h
  cases hp : t.root.leafPaths[i]? with
  | none => simp [hp] at h
  | some p =>
    obtain ⟨rg, fill, hf⟩ := exists_focus_of_leafPaths hp
    simp only [hp] at h
    rcases eq_nil_or_concat' p with rfl | ⟨q, j, rfl⟩
    · simp at h
    · obtain ⟨d, g, l, r, fill', n, hf', rfl, hn, rfl⟩ := hf.parent
      rw [getLast?_concat, dropLast_concat] at h
      simp only [hf'.cellAtPath_eq, getElem?_append_right (Nat.le_refl _), Nat.sub_self,
        getElem?_cons_zero, hf'.setAtPath_eq, axisSize_pane, Option.some.injEq] at h
      refine ⟨q, d, g, rg, l, r, fill', n, hf', rfl, hn, ?_⟩
      rw [← h, absorb]
      simp [eraseIdx_append_of_length_le]

/-- The siblings and the growth of the one that absorbs, whichever it is. -/
theorem exists_absorb (h : l ++ r ≠ []) (d : LayoutDirection) (growth : ℤ) :
    ∃ l' o r', l ++ r = l' ++ o :: r' ∧ absorb d growth l r = l' ++ o.resizeAdjust d growth :: r' ∧
      (l = [] ∧ l' = [] ∧ r = o :: r' ∨ l = l' ++ [o] ∧ r = r') := by
  rcases eq_nil_or_concat' l with rfl | ⟨l', o, rfl⟩
  · cases r with
    | nil => simp at h
    | cons o r' => exact ⟨[], o, r', rfl, rfl, .inl ⟨rfl, rfl, rfl⟩⟩
  · exact ⟨l', o, r, by simp, absorb_concat d growth l' o r, .inr ⟨rfl, rfl⟩⟩

/-- The siblings fill the split once one of them absorbed the removed cell. -/
theorem LayoutCell.WellSized.absorb {rg : LayoutGeometry}
    (h : WellSized (.split d g (l ++ .pane rg :: r))) (hne : l ++ r ≠ []) (hb : g.axis d ≤ i32Max) :
    WellSized (.split d g (absorb d (asI32 (wrapAdd (rg.axis d) paneBorderCells)) l r)) := by
  have hsum := h.sum_eq
  obtain ⟨l', o, r', hsib, habs, -⟩ :=
    exists_absorb hne d (asI32 (wrapAdd (rg.axis d) paneBorderCells))
  have hmem : ∀ c ∈ l' ++ o :: r', c ∈ l ++ .pane rg :: r := by
    rw [← hsib]
    intro c hc
    simp only [mem_append, mem_cons] at hc ⊢
    tauto
  have hmap : (l.map (axisSize · d)).sum + (r.map (axisSize · d)).sum =
      (l'.map (axisSize · d)).sum + (o.axisSize d + (r'.map (axisSize · d)).sum) := by
    simpa using congrArg (fun cs : List LayoutCell => (cs.map (axisSize · d)).sum) hsib
  have hlen : l.length + r.length = l'.length + (r'.length + 1) := by
    simpa using congrArg length hsib
  simp only [map_append, map_cons, sum_append, sum_cons, length_append,
    length_cons, axisSize_pane] at hsum
  have ho : o.axisSize d + (rg.axis d + 1) ≤ i32Max := by omega
  have hu : i32Max ≤ u32Max := by decide
  rw [habs, paneBorderCells_eq, wrapAdd_eq (by omega), asI32_eq (by omega)]
  have hgr := axisSize_resizeAdjust_add d (ho.trans hu)
  refine .of_sum (forall_mem_replace (fun c hc => h.child (hmem c hc)) ?_)
    (forall_mem_replace (fun c hc => h.cross_eq (hmem c hc)) ?_) ?_
  · exact (h.child (hmem o (by simp))).resizeAdjust_add (ho.trans hu)
  · rw [axisSize_resizeAdjust_flip]
    exact h.cross_eq (hmem o (by simp))
  · simp only [map_append, map_cons, sum_append, sum_cons, length_append, length_cons, hgr]
    omega

theorem sum_leafCount_absorb (d : LayoutDirection) (growth : ℤ) (l r : List LayoutCell) :
    ((absorb d growth l r).map LayoutCell.leafCount).sum =
      (l.map LayoutCell.leafCount).sum + (r.map LayoutCell.leafCount).sum := by
  by_cases hne : l ++ r = []
  · obtain ⟨rfl, rfl⟩ := append_eq_nil_iff.mp hne
    rfl
  · obtain ⟨l', o, r', hsib, habs, -⟩ := exists_absorb hne d growth
    have := congrArg (fun cs : List LayoutCell => (cs.map LayoutCell.leafCount).sum) hsib
    simp only [map_append, sum_append, map_cons, sum_cons] at this
    rw [habs]
    simp only [map_append, sum_append, map_cons, sum_cons, leafCount_resizeAdjust]
    omega

/-- Removing a leaf takes exactly one leaf away and keeps the extent, whatever the extents
are. -/
theorem LayoutTree.removeLeaf_frame (h : t.removeLeaf i = some t') :
    (∀ a, t'.root.axisSize a = t.root.axisSize a) ∧
      t'.root.leafCount + 1 = t.root.leafCount ∧ t'.leafMap = none ∧
      t'.root.fixOffsets 0 0 = t'.root := by
  obtain ⟨q, d, g, rg, l, r, fill, n, hf, -, -, rfl⟩ := removeLeaf_cases h
  have hcnt := hf.leafCount_fill (.split d g
    (Rmux.absorb d (asI32 (wrapAdd (rg.axis d) paneBorderCells)) l r))
  simp only [leafCount_split, map_append, map_cons, sum_append, sum_cons,
    sum_leafCount_absorb, leafCount_pane] at hcnt
  rw [leafCount_fixOffsets, leafCount_collapseSingleChild]
  refine ⟨fun a => ?_, by omega, rfl, fixOffsets_fixOffsets _ 0 0 0 0⟩
  rw [axisSize_fixOffsets, axisSize_collapseSingleChild]
  refine hf.axisSize_fill _ (fun a => ?_) a
  rfl

/-- Removing a leaf keeps the tree well sized and branching. -/
theorem LayoutTree.removeLeaf_sound (h : t.removeLeaf i = some t') (hw : WellSized t.root)
    (hb : Branching t.root) (hmax : ∀ a, t.root.axisSize a ≤ i32Max) :
    WellSized t'.root ∧ Branching t'.root := by
  obtain ⟨q, d, g, rg, l, r, fill, n, hf, -, -, rfl⟩ := removeLeaf_cases h
  have hne : l ++ r ≠ [] := by
    have htwo := (branching_split_iff.mp (hf.branching_old hb)).1
    intro hnil
    obtain ⟨rfl, rfl⟩ := append_eq_nil_iff.mp hnil
    simp at htwo
  have hparent := (hf.wellSized_old hw).absorb hne ((hf.axisSize_old_le hw d).trans (hmax d))
  have ht := hf.wellSized hw hparent fun a => rfl
  obtain ⟨hwell, hbr⟩ := ht.collapseSingleChild
  exact ⟨hwell.fixOffsets 0 0, hbr.of_skeleton_eq (skeleton_fixOffsets 0 0 _)⟩

/-- Every leaf but a lone one can be removed. -/
theorem LayoutTree.removeLeaf_isSome (hi : i < t.root.leafCount) (hrt : ∀ g, t.root ≠ .pane g) :
    (t.removeLeaf i).isSome := by
  obtain ⟨p, hp⟩ := exists_leafPath hi
  obtain ⟨rg, fill, hf⟩ := exists_focus_of_leafPaths hp
  unfold removeLeaf
  simp only [hp]
  rcases eq_nil_or_concat' p with rfl | ⟨q, j, rfl⟩
  · exact absurd hf.eq_of_nil.1 (hrt rg)
  · obtain ⟨d, g, l, r, fill', n, hf', rfl, hn, rfl⟩ := hf.parent
    simp [hf'.cellAtPath_eq]

end Rmux
