import Rmux.MachineInt
import Rmux.ListLemmas

/-!
# Layout cells

A window is cut into panes by a tree of cells (`layout/cell.rs`). `check` tests that the extents and
offsets in it fit together, `fixOffsets` recomputes the offsets, and `resizeAdjust` spreads a change
of one extent over a subtree, one cell at a time.

Extents and offsets are `u32` in the source, naturals here. Additions written with `+` wrap as in
the release profile, those written `saturating_add` saturate (`MachineInt`). The number of children
is never cut to 32 bits, since there are no more pane ids. The source writes each operation once per
direction; here `axis` picks the extent.
-/

namespace Rmux

open MachineInt List

/-- Cells a border takes between two neighbours. -/
def paneBorderCells : ℕ := 1

/-- Smallest extent a pane is given on purpose. -/
def paneMinimum : ℕ := 1

@[simp] theorem paneBorderCells_eq : paneBorderCells = 1 := rfl

@[simp] theorem paneMinimum_eq : paneMinimum = 1 := rfl

/-- How the children of a cell follow each other. -/
inductive LayoutDirection
  | leftRight
  | topBottom
  deriving DecidableEq

/-- The other direction. -/
def LayoutDirection.flip : LayoutDirection → LayoutDirection
  | leftRight => topBottom
  | topBottom => leftRight

@[simp] theorem LayoutDirection.flip_flip (d : LayoutDirection) : d.flip.flip = d := by
  cases d <;> rfl

@[simp] theorem LayoutDirection.flip_ne (d : LayoutDirection) : d.flip ≠ d := by
  cases d <;> decide

theorem LayoutDirection.eq_or_eq_flip (a d : LayoutDirection) : a = d ∨ a = d.flip := by
  cases a <;> cases d <;> decide

/-- Extent and offset of a cell. -/
structure LayoutGeometry where
  width : ℕ
  height : ℕ
  x : ℕ
  y : ℕ
  deriving DecidableEq

namespace LayoutGeometry

variable (g : LayoutGeometry) (d : LayoutDirection) (n : ℕ)

/-- The extent along `d`. -/
def axis (g : LayoutGeometry) : LayoutDirection → ℕ
  | .leftRight => g.width
  | .topBottom => g.height

/-- Replace the extent along `d`. -/
def setAxis (g : LayoutGeometry) (d : LayoutDirection) (n : ℕ) : LayoutGeometry :=
  match d with
  | .leftRight => { g with width := n }
  | .topBottom => { g with height := n }

/-- Replace the offset. -/
def moveTo (g : LayoutGeometry) (x y : ℕ) : LayoutGeometry := { g with x := x, y := y }

@[simp] theorem axis_setAxis : (g.setAxis d n).axis d = n := by
  cases d <;> rfl

@[simp] theorem axis_setAxis_flip : (g.setAxis d n).axis d.flip = g.axis d.flip := by
  cases d <;> rfl

@[simp] theorem axis_setAxis_of_flip : (g.setAxis d.flip n).axis d = g.axis d := by
  cases d <;> rfl

@[simp] theorem axis_moveTo (x y : ℕ) : (g.moveTo x y).axis d = g.axis d := by
  cases d <;> rfl

end LayoutGeometry

/-- A cell : a pane, or children laid out along a direction with a border between neighbours. -/
inductive LayoutCell
  | pane (geometry : LayoutGeometry)
  | split (direction : LayoutDirection) (geometry : LayoutGeometry) (children : List LayoutCell)

namespace LayoutCell

variable (d : LayoutDirection) (g : LayoutGeometry) (cs : List LayoutCell) (a : LayoutDirection)
  (c : LayoutCell)

/-- Induction over cells, with the hypothesis for every child of a split. -/
@[elab_as_elim, induction_eliminator]
theorem induct {motive : LayoutCell → Prop} (pane : ∀ g, motive (.pane g))
    (split : ∀ d g cs, (∀ c ∈ cs, motive c) → motive (.split d g cs)) : ∀ c, motive c
  | .pane g => pane g
  | .split d g cs => split d g cs fun c _ => induct pane split c

mutual
/-- Equality of cells is decided structurally. -/
def decEq : (a b : LayoutCell) → Decidable (a = b)
  | .pane g, .pane h =>
    if e : g = h then .isTrue (by rw [e]) else .isFalse (by simpa using e)
  | .pane _, .split _ _ _ => .isFalse (by simp)
  | .split _ _ _, .pane _ => .isFalse (by simp)
  | .split d g cs, .split d' g' cs' =>
    if e : d = d' ∧ g = g' then
      match decEqList cs cs' with
      | .isTrue h => .isTrue (by rw [e.1, e.2, h])
      | .isFalse h => .isFalse (by simp [h])
    else .isFalse (by simp only [split.injEq]; tauto)

def decEqList : (as bs : List LayoutCell) → Decidable (as = bs)
  | [], [] => .isTrue rfl
  | [], _ :: _ => .isFalse (by simp)
  | _ :: _, [] => .isFalse (by simp)
  | a :: as, b :: bs =>
    match decEq a b, decEqList as bs with
    | .isTrue h, .isTrue hs => .isTrue (by rw [h, hs])
    | .isFalse h, _ => .isFalse (by simp [h])
    | _, .isFalse hs => .isFalse (by simp [hs])
end

instance : DecidableEq LayoutCell := decEq

def geometry : LayoutCell → LayoutGeometry
  | .pane g => g
  | .split _ g _ => g

/-- The same cell with another geometry of its own. -/
def withGeometry (g : LayoutGeometry) : LayoutCell → LayoutCell
  | .pane _ => .pane g
  | .split d _ cs => .split d g cs

/-- The extent of a cell along `d`. -/
def axisSize (c : LayoutCell) (d : LayoutDirection) : ℕ := c.geometry.axis d

@[simp] theorem geometry_pane : (pane g).geometry = g := rfl

@[simp] theorem geometry_split : (split d g cs).geometry = g := rfl

@[simp] theorem axisSize_pane (d : LayoutDirection) : (pane g).axisSize d = g.axis d := rfl

@[simp] theorem axisSize_split (d' : LayoutDirection) (g : LayoutGeometry) (cs : List LayoutCell) :
    (split d' g cs).axisSize d = g.axis d := rfl

@[simp] theorem geometry_withGeometry : (c.withGeometry g).geometry = g := by
  cases c <;> rfl

/-! ## Counting and listing leaves -/

mutual
def leafCount : LayoutCell → ℕ
  | .pane _ => 1
  | .split _ _ cs => leafCounts cs

def leafCounts : List LayoutCell → ℕ
  | [] => 0
  | c :: cs => c.leafCount + leafCounts cs
end

mutual
/-- The extent along `a` below which a cell cannot show all its panes : the component of
`minimum_size` for that axis. -/
def minimumAxis (a : LayoutDirection) : LayoutCell → ℕ
  | .pane _ => paneMinimum
  | .split d _ cs =>
    if d = a then
      max ((minimumAxes a cs).foldl satAdd (satMul paneBorderCells (min (cs.length - 1) u32Max)))
        paneMinimum
    else (minimumAxes a cs).foldl max paneMinimum

def minimumAxes (a : LayoutDirection) : List LayoutCell → List ℕ
  | [] => []
  | c :: cs => minimumAxis a c :: minimumAxes a cs
end

/-- Smallest width and height that keep every pane at `paneMinimum`. -/
def minimumSize (c : LayoutCell) : ℕ × ℕ :=
  (minimumAxis .leftRight c, minimumAxis .topBottom c)

mutual
/-- The geometries of the leaves, in tree order (`collect_leaf_geometries`). -/
def leafGeometries : LayoutCell → List LayoutGeometry
  | .pane g => [g]
  | .split _ _ cs => leafGeometriesList cs

def leafGeometriesList : List LayoutCell → List LayoutGeometry
  | [] => []
  | c :: cs => c.leafGeometries ++ leafGeometriesList cs
end

mutual
/-- The paths of the leaves, in tree order (`collect_leaf_paths`). -/
def leafPaths : LayoutCell → List (List ℕ)
  | .pane _ => [[]]
  | .split _ _ cs => leafPathsFrom 0 cs

def leafPathsFrom (i : ℕ) : List LayoutCell → List (List ℕ)
  | [] => []
  | c :: cs => c.leafPaths.map (i :: ·) ++ leafPathsFrom (i + 1) cs
end

/-! ## Consistency of the stored extents -/

mutual
/-- Every split has children, they share its cross extent, and their extents along the split
with one border between neighbours add up to its own. -/
def check : LayoutCell → Bool
  | .pane _ => true
  | .split d g cs => !cs.isEmpty && checkChildren d g 0 cs

def checkChildren (d : LayoutDirection) (g : LayoutGeometry) (total : ℕ) :
    List LayoutCell → Bool
  | [] => total - paneBorderCells == g.axis d
  | c :: cs =>
    c.check && c.axisSize d.flip == g.axis d.flip &&
      checkChildren d g (satAdd total (wrapAdd (c.axisSize d) paneBorderCells)) cs
end

/-- Where a child starts that lies `cursor` cells along `d` into a cell at `(x, y)`. -/
def childOffset (d : LayoutDirection) (x y cursor : ℕ) : ℕ × ℕ :=
  match d with
  | .leftRight => (wrapAdd x cursor, y)
  | .topBottom => (x, wrapAdd y cursor)

mutual
/-- Move a cell to `(x, y)` and lay its children out from there. -/
def fixOffsets (x y : ℕ) : LayoutCell → LayoutCell
  | .pane g => .pane (g.moveTo x y)
  | .split d g cs => .split d (g.moveTo x y) (fixOffsetsFrom d x y 0 cs)

def fixOffsetsFrom (d : LayoutDirection) (x y cursor : ℕ) : List LayoutCell → List LayoutCell
  | [] => []
  | c :: cs =>
    c.fixOffsets (childOffset d x y cursor).1 (childOffset d x y cursor).2 ::
    fixOffsetsFrom d x y (satAdd (satAdd cursor (c.axisSize d)) paneBorderCells) cs
end

/-- Set the root extent to what its children need. -/
def fixRootSizeIfNeeded : LayoutCell → LayoutCell
  | .pane g => .pane g
  | .split d g [] => .split d g []
  | .split d g (c :: cs) =>
    let main :=
      wrapSum ((c :: cs).map fun c => wrapAdd (c.axisSize d) paneBorderCells) - paneBorderCells
    (split d ((g.setAxis d main).setAxis d.flip (c.axisSize d.flip)) (c :: cs)).fixOffsets 0 0

/-! ## Resizing a subtree -/

mutual
/-- How many cells a subtree can give up along `a`. -/
def resizeCheck (a : LayoutDirection) : LayoutCell → ℕ
  | .pane g => g.axis a - paneMinimum
  | .split d _ cs =>
    if d = a then wrapSum (resizeChecks a cs) else (resizeChecks a cs).min?.getD 0

def resizeChecks (a : LayoutDirection) : List LayoutCell → List ℕ
  | [] => []
  | c :: cs => resizeCheck a c :: resizeChecks a cs
end

mutual
/-- Number of cells on the longest path to a leaf. -/
def depth : LayoutCell → ℕ
  | .pane _ => 1
  | .split _ _ cs => depths cs + 1

def depths : List LayoutCell → ℕ
  | [] => 0
  | c :: cs => max c.depth (depths cs)
end

/-- One `for` pass of the round-robin loop of `resize_adjust` : every child in turn gets one
cell, or gives one up if it can, until nothing remains. Returns the children, what remains,
and whether any child changed. -/
def adjustPass (step : LayoutCell → ℤ → LayoutCell) (room : LayoutCell → ℕ) :
    List LayoutCell → ℤ → Bool → List LayoutCell × ℤ × Bool
  | [], remaining, progressed => ([], remaining, progressed)
  | c :: cs, remaining, progressed =>
    if remaining = 0 then (c :: cs, remaining, progressed)
    else if 0 < remaining then
      let (cs', r, p) := adjustPass step room cs (remaining - 1) true
      (step c 1 :: cs', r, p)
    else if 0 < room c then
      let (cs', r, p) := adjustPass step room cs (remaining + 1) true
      (step c (-1) :: cs', r, p)
    else
      let (cs', r, p) := adjustPass step room cs remaining progressed
      (c :: cs', r, p)

/-- The `while` loop of `resize_adjust`. A pass that changes nothing ends it, so `fuel` at
least the absolute value of `remaining` is enough (`adjustLoop_of_le`). -/
def adjustLoop (step : LayoutCell → ℤ → LayoutCell) (room : LayoutCell → ℕ) :
    ℕ → List LayoutCell → ℤ → List LayoutCell
  | 0, cs, _ => cs
  | fuel + 1, cs, remaining =>
    if remaining = 0 then cs
    else
      let (cs', r, progressed) := adjustPass step room cs remaining false
      if progressed then adjustLoop step room fuel cs' r else cs'

/-- `resize_adjust` with the recursion into children bounded by `fuel`. -/
def resizeAdjustFuel (a : LayoutDirection) : ℕ → LayoutCell → ℤ → LayoutCell
  | 0, c, _ => c
  | fuel + 1, c, change =>
    if change = 0 then c
    else
      match c with
      | .pane g => .pane (g.setAxis a (satAddSigned (g.axis a) change))
      | .split d g cs =>
        .split d (g.setAxis a (satAddSigned (g.axis a) change))
          (if d = a then
            adjustLoop (resizeAdjustFuel a fuel) (resizeCheck a) change.natAbs cs change
          else cs.map (resizeAdjustFuel a fuel · change))

/-- Change the extent of a subtree along `a` by `change`. -/
def resizeAdjust (a : LayoutDirection) (change : ℤ) (c : LayoutCell) : LayoutCell :=
  resizeAdjustFuel a c.depth c change

/-! ## Spreading evenly -/

/-- The `for` loop of `spread` : the first `remainder` children get `each + 1`, the others
`each`. Returns the children and whether any changed. -/
def spreadChildren (d : LayoutDirection) (each : ℕ) :
    ℕ → List LayoutCell → List LayoutCell × Bool
  | _, [] => ([], false)
  | remainder, c :: cs =>
    let target := if 0 < remainder then wrapAdd each 1 else each
    let delta := wrapI32 (asI32 target - asI32 (c.axisSize d))
    let (cs', changed) := spreadChildren d each (remainder - 1) cs
    if delta = 0 then (c :: cs', changed) else (c.resizeAdjust d delta :: cs', true)

/-- Give the children of a split equal extents. Returns the cell and whether it changed. -/
def spread : LayoutCell → LayoutCell × Bool
  | .pane g => (.pane g, false)
  | .split d g cs =>
    if cs.length ≤ 1 then (.split d g cs, false)
    else if g.axis d < cs.length - 1 then (.split d g cs, false)
    else
      let each := (g.axis d - (cs.length - 1)) / cs.length
      if each = 0 then (.split d g cs, false)
      else
        let remainder :=
          satAdd (g.axis d - wrapMul cs.length (wrapAdd each paneBorderCells)) paneBorderCells
        let (cs', changed) := spreadChildren d each remainder cs
        (.split d g cs', changed)

/-! ## The list halves of the recursions -/

theorem leafCounts_eq : leafCounts cs = (cs.map leafCount).sum := by
  induction cs with
  | nil => rfl
  | cons c cs ih => simp [leafCounts, ih]

theorem minimumAxes_eq (cs : List LayoutCell) : minimumAxes a cs = cs.map (minimumAxis a) := by
  induction cs with
  | nil => rfl
  | cons c cs ih => simp [minimumAxes, ih]

theorem leafGeometriesList_eq : leafGeometriesList cs = cs.flatMap leafGeometries := by
  induction cs with
  | nil => rfl
  | cons c cs ih => simp [leafGeometriesList, ih]

theorem resizeChecks_eq (cs : List LayoutCell) : resizeChecks a cs = cs.map (resizeCheck a) := by
  induction cs with
  | nil => rfl
  | cons c cs ih => simp [resizeChecks, ih]

theorem depth_le_depths {c : LayoutCell} : ∀ {cs : List LayoutCell}, c ∈ cs → c.depth ≤ depths cs
  | c' :: cs, h => by
    rcases List.mem_cons.mp h with rfl | h
    · exact Nat.le_max_left _ _
    · exact (depth_le_depths h).trans (Nat.le_max_right _ _)

theorem depth_lt_of_mem {c : LayoutCell} {cs : List LayoutCell} (h : c ∈ cs) :
    c.depth < depths cs + 1 := Nat.lt_succ_of_le (depth_le_depths h)

@[simp] theorem leafCount_pane : (pane g).leafCount = 1 := rfl

theorem leafCount_split : (split d g cs).leafCount = (cs.map leafCount).sum := leafCounts_eq cs

theorem leafGeometries_split :
    (split d g cs).leafGeometries = cs.flatMap leafGeometries := leafGeometriesList_eq cs

theorem length_leafGeometries : c.leafGeometries.length = c.leafCount := by
  induction c with
  | pane g => rfl
  | split d g cs ih =>
    rw [leafGeometries_split, leafCount_split, length_flatMap]
    exact congrArg List.sum (map_congr_left ih)

theorem length_leafPathsFrom_eq {cs : List LayoutCell} (i : ℕ)
    (h : ∀ c ∈ cs, c.leafPaths.length = c.leafCount) :
    (leafPathsFrom i cs).length = (cs.map leafCount).sum := by
  induction cs generalizing i with
  | nil => rfl
  | cons c cs ih =>
    rw [leafPathsFrom, length_append, length_map, h c (by simp),
      ih _ fun c hc => h c (by simp [hc]), map_cons, sum_cons]

theorem length_leafPaths : c.leafPaths.length = c.leafCount := by
  induction c with
  | pane g => rfl
  | split d g cs ih => rw [leafPaths, length_leafPathsFrom_eq 0 ih, leafCount_split]

theorem resizeCheck_split (g : LayoutGeometry) (cs : List LayoutCell) :
    resizeCheck a (split a g cs) = wrapSum (cs.map (resizeCheck a)) := by
  simp [resizeCheck, resizeChecks_eq]

theorem resizeCheck_split_flip (g : LayoutGeometry) (cs : List LayoutCell) :
    resizeCheck a (split a.flip g cs) = (cs.map (resizeCheck a)).min?.getD 0 := by
  simp [resizeCheck, resizeChecks_eq]

/-! ## The shape of a cell -/

mutual
/-- The cell with every geometry forgotten. -/
def skeleton : LayoutCell → LayoutCell
  | .pane _ => .pane ⟨0, 0, 0, 0⟩
  | .split d _ cs => .split d ⟨0, 0, 0, 0⟩ (skeletons cs)

def skeletons : List LayoutCell → List LayoutCell
  | [] => []
  | c :: cs => c.skeleton :: skeletons cs
end

theorem skeletons_eq : skeletons cs = cs.map skeleton := by
  induction cs with
  | nil => rfl
  | cons c cs ih => simp [skeletons, ih]

theorem skeleton_split : (split d g cs).skeleton = .split d ⟨0, 0, 0, 0⟩ (cs.map skeleton) := by
  rw [skeleton, skeletons_eq]

mutual
theorem leafCount_skeleton : ∀ c : LayoutCell, c.skeleton.leafCount = c.leafCount
  | .pane _ => rfl
  | .split _ _ cs => leafCounts_skeletons cs

theorem leafCounts_skeletons : ∀ cs : List LayoutCell, leafCounts (skeletons cs) = leafCounts cs
  | [] => rfl
  | c :: cs => by
    rw [skeletons, leafCounts, leafCounts, leafCount_skeleton c, leafCounts_skeletons cs]
end

mutual
theorem depth_skeleton : ∀ c : LayoutCell, c.skeleton.depth = c.depth
  | .pane _ => rfl
  | .split _ _ cs => by rw [skeleton, depth, depth, depths_skeletons cs]

theorem depths_skeletons : ∀ cs : List LayoutCell, depths (skeletons cs) = depths cs
  | [] => rfl
  | c :: cs => by rw [skeletons, depths, depths, depth_skeleton c, depths_skeletons cs]
end

mutual
theorem skeleton_fixOffsets (x y : ℕ) : ∀ c : LayoutCell, (c.fixOffsets x y).skeleton = c.skeleton
  | .pane _ => rfl
  | .split d _ cs => by rw [fixOffsets, skeleton, skeleton, skeletons_fixOffsetsFrom d x y 0 cs]

theorem skeletons_fixOffsetsFrom (d : LayoutDirection) (x y : ℕ) :
    ∀ (k : ℕ) (cs : List LayoutCell), skeletons (fixOffsetsFrom d x y k cs) = skeletons cs
  | _, [] => rfl
  | k, c :: cs => by
    rw [fixOffsetsFrom, skeletons, skeletons, skeletons_fixOffsetsFrom d x y _ cs,
      skeleton_fixOffsets _ _ c]
end

@[simp] theorem geometry_fixOffsets (x y : ℕ) (c : LayoutCell) :
    (c.fixOffsets x y).geometry = c.geometry.moveTo x y := by
  cases c <;> rfl

@[simp] theorem axisSize_fixOffsets (x y : ℕ) (c : LayoutCell) (a : LayoutDirection) :
    (c.fixOffsets x y).axisSize a = c.axisSize a := by
  rw [axisSize, geometry_fixOffsets, LayoutGeometry.axis_moveTo, axisSize]

@[simp] theorem leafCount_fixOffsets (x y : ℕ) (c : LayoutCell) :
    (c.fixOffsets x y).leafCount = c.leafCount := by
  rw [← leafCount_skeleton, skeleton_fixOffsets, leafCount_skeleton]

@[simp] theorem length_fixOffsetsFrom (x y k : ℕ) (cs : List LayoutCell) :
    (fixOffsetsFrom d x y k cs).length = cs.length := by
  induction cs generalizing k with
  | nil => rfl
  | cons c cs ih => rw [fixOffsetsFrom, length_cons, ih, length_cons]

/-- What the children's offsets do not enter is the same for the children moved. -/
theorem map_fixOffsetsFrom {β : Type*} (q : LayoutCell → β) (d : LayoutDirection) (x y k : ℕ)
    {cs : List LayoutCell} (hq : ∀ c ∈ cs, ∀ x y, q (c.fixOffsets x y) = q c) :
    (fixOffsetsFrom d x y k cs).map q = cs.map q := by
  induction cs generalizing k with
  | nil => rfl
  | cons c cs ih =>
    rw [fixOffsetsFrom, map_cons, hq c (by simp), ih _ fun c hc => hq c (by simp [hc]), map_cons]

/-- Where a cell was before does not matter for its new offsets. -/
@[simp] theorem fixOffsets_fixOffsets (x y x' y' : ℕ) :
    (c.fixOffsets x y).fixOffsets x' y' = c.fixOffsets x' y' := by
  induction c generalizing x y x' y' with
  | pane g => rfl
  | split d g cs ih =>
    suffices h : ∀ k, fixOffsetsFrom d x' y' k (fixOffsetsFrom d x y k cs) =
        fixOffsetsFrom d x' y' k cs by
      rw [fixOffsets, fixOffsets, h, fixOffsets]
      rfl
    induction cs with
    | nil => exact fun _ => rfl
    | cons c cs ihcs =>
      intro k
      rw [fixOffsetsFrom, fixOffsetsFrom, fixOffsetsFrom, ih c (by simp), axisSize_fixOffsets,
        ihcs fun c hc => ih c (by simp [hc])]

end LayoutCell

end Rmux
