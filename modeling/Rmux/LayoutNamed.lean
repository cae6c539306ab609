import Rmux.LayoutResize

/-!
# Named layouts

`named` builds one of the seven preset layouts for a number of panes (`layout/named.rs`). For a
window too small for the panes the tree is built again for its own minimum size. The mirrored
layouts put the main pane last in the tree and record the pane order in a leaf map. The result is
sound whatever the size and the options (`named_sound`).
-/

namespace Rmux

open MachineInt LayoutCell List Nat

variable {n : ℕ} {g : LayoutGeometry} {d a : LayoutDirection} {c : LayoutCell}
  {cs : List LayoutCell}

/-- The preset layouts. -/
inductive LayoutName
  | evenHorizontal
  | evenVertical
  | mainHorizontal
  | mainHorizontalMirrored
  | mainVertical
  | mainVerticalMirrored
  | tiled
  deriving DecidableEq

/-- The extents asked for the main pane, and the most columns of a grid. -/
structure LayoutOptions where
  requestedMainWidth : Option UInt16 := none
  requestedMainHeight : Option UInt16 := none
  tiledMaxColumns : Option UInt16 := none
  deriving DecidableEq

def defaultMainPaneWidth : ℕ := 80

def defaultMainPaneHeight : ℕ := 24

/-! ## Building blocks -/

/-- Extents of `count` panes that share `total` cells with the borders between them. -/
def splitAxis (total count : ℕ) : List ℕ :=
  let usable := total - (count - 1) * paneBorderCells
  let each := usable / count
  let remainder := usable - each * count
  (List.range count).map fun index =>
    if count ≤ usable ∧ index < remainder then each + 1
    else if ¬count ≤ usable ∧ index + 1 = count then each + remainder
    else each

/-- Put a cell at `offset` along `d`. -/
def LayoutGeometry.setOffset (g : LayoutGeometry) (d : LayoutDirection) (offset : ℕ) :
    LayoutGeometry :=
  match d with
  | .leftRight => { g with x := offset }
  | .topBottom => { g with y := offset }

/-- Panes of the given extents one after the other inside `frame`. -/
def layPanes (d : LayoutDirection) (frame : LayoutGeometry) : ℕ → List ℕ → List LayoutCell
  | _, [] => []
  | offset, size :: sizes =>
    .pane ((frame.setAxis d size).setOffset d offset) ::
      layPanes d frame (satAdd (satAdd offset size) paneBorderCells) sizes

/-- The main pane's extent : what was requested, but leaving a cell for the others if there is
one. -/
def resolveMainPaneSize (total : ℕ) (requested : Option ℕ) (default : ℕ) : ℕ :=
  let available := total - paneBorderCells
  let candidate := min (requested.getD default) available
  if available ≤ satAdd candidate paneMinimum then
    if available ≤ satMul paneMinimum 2 then min paneMinimum available
    else available - paneMinimum
  else candidate

/-- The panes beside the main one, laid out across its direction. -/
def mainSecondary (d : LayoutDirection) (paneCount : ℕ) (g frame : LayoutGeometry) : LayoutCell :=
  if paneCount = 2 then .pane frame
  else .split d.flip frame (layPanes d.flip frame 0 (splitAxis (g.axis d.flip) (paneCount - 1)))

/-- Leaf of each pane when the tree order is the secondary panes, then the main pane. -/
def mirroredLeafMap (paneCount : ℕ) : List ℕ :=
  if 2 ≤ paneCount then (paneCount - 1) :: List.range (paneCount - 1) else List.range paneCount

/-- The loop of `tiled_grid_size`. `rows` grows in every round, so `paneCount` rounds are
enough. -/
def tiledGridLoop (paneCount : ℕ) (maxColumns : Option ℕ) : ℕ → ℕ → ℕ → ℕ × ℕ
  | 0, rows, columns => (rows, columns)
  | fuel + 1, rows, columns =>
    if rows * columns < paneCount then
      if (rows + 1) * columns < paneCount ∧ maxColumns.all (columns < ·) then
        tiledGridLoop paneCount maxColumns fuel (rows + 1) (columns + 1)
      else tiledGridLoop paneCount maxColumns fuel (rows + 1) columns
    else (rows, columns)

/-- Rows and columns of the grid for a number of panes. -/
def tiledGridSize (paneCount : ℕ) (maxColumns : Option ℕ) : ℕ × ℕ :=
  let (rows, columns) := tiledGridLoop paneCount maxColumns paneCount 1 1
  match maxColumns with
  | none => (max rows 1, max columns 1)
  | some limit =>
    let columns := min columns (max limit 1)
    (max ((paneCount + (max columns 1 - 1)) / max columns 1) 1, max columns 1)

/-- Give the last cell what the equal extents leave over. -/
def growLast (d : LayoutDirection) (extra : ℕ) (cells : List LayoutCell) : List LayoutCell :=
  if 0 < extra then cells.modify (cells.length - 1) (resizeAdjust d (asI32 extra)) else cells

/-- One row of the grid. -/
def tiledRow (g : LayoutGeometry) (rootWidth columns width height panesInRow rowY : ℕ) :
    LayoutCell :=
  let frame : LayoutGeometry := ⟨g.width, height, 0, rowY⟩
  if panesInRow = 1 ∨ columns = 1 then .pane frame
  else
    let children := layPanes .leftRight frame 0 (List.replicate panesInRow width)
    let used := min (wrapMul panesInRow (wrapAdd width paneBorderCells) - paneBorderCells)
      rootWidth
    .split .leftRight frame (growLast .leftRight (g.width - used) children)

/-- The rows of the grid, as long as panes remain. -/
def tiledRows (g : LayoutGeometry) (rootWidth columns width height : ℕ) :
    ℕ → ℕ → ℕ → List LayoutCell
  | 0, _, _ => []
  | rows + 1, remaining, rowY =>
    if remaining = 0 then []
    else
      let panesInRow := min remaining columns
      tiledRow g rootWidth columns width height panesInRow rowY ::
        tiledRows g rootWidth columns width height rows (remaining - panesInRow)
          (satAdd (satAdd rowY height) paneBorderCells)

namespace LayoutTree

/-! ## The layouts -/

def buildEven (d : LayoutDirection) (paneCount : ℕ) (g : LayoutGeometry) : LayoutTree :=
  ⟨.split d g (layPanes d g 0 (splitAxis (g.axis d) paneCount)), none⟩

/-- A main pane and the others beside it along `d`. -/
def buildMain (d : LayoutDirection) (requested : Option ℕ) (default paneCount : ℕ)
    (g : LayoutGeometry) (mirrored : Bool) : LayoutTree :=
  let mainSize := resolveMainPaneSize (g.axis d) requested default
  let secondarySize := g.axis d - mainSize - paneBorderCells
  let main := LayoutCell.pane ((g.setAxis d mainSize).moveTo 0 0)
  let far := childOffset d 0 0 (wrapAdd mainSize paneBorderCells)
  let frame := (g.setAxis d secondarySize).moveTo far.1 far.2
  let secondary := mainSecondary d paneCount g frame
  if mirrored then
    let far := childOffset d 0 0 (wrapAdd secondarySize paneBorderCells)
    ⟨(LayoutCell.split d g
      [secondary.fixOffsets 0 0, main.fixOffsets far.1 far.2]).fixOffsets 0 0,
      some (mirroredLeafMap paneCount)⟩
  else ⟨(LayoutCell.split d g [main, secondary]).fixOffsets 0 0, none⟩

def buildMainVertical (paneCount : ℕ) (g : LayoutGeometry) (options : LayoutOptions)
    (mirrored : Bool) : LayoutTree :=
  buildMain .leftRight (options.requestedMainWidth.map UInt16.toNat) defaultMainPaneWidth
    paneCount g mirrored

def buildMainHorizontal (paneCount : ℕ) (g : LayoutGeometry) (options : LayoutOptions)
    (mirrored : Bool) : LayoutTree :=
  buildMain .topBottom (options.requestedMainHeight.map UInt16.toNat) defaultMainPaneHeight
    paneCount g mirrored

def buildTiled (paneCount : ℕ) (g : LayoutGeometry) (options : LayoutOptions) : LayoutTree :=
  let maxColumns := (options.tiledMaxColumns.filter (0 < ·)).map UInt16.toNat
  let (rows, columns) := tiledGridSize paneCount maxColumns
  let width := max ((g.width - (columns - 1)) / columns) paneMinimum
  let height := max ((g.height - (rows - 1)) / rows) paneMinimum
  let rootWidth := max (wrapMul (wrapAdd width paneBorderCells) columns - paneBorderCells) g.width
  let rootHeight := max (wrapMul (wrapAdd height paneBorderCells) rows - paneBorderCells) g.height
  let cells := tiledRows g rootWidth columns width height rows paneCount 0
  let used := min (satAdd (wrapMul rows height) (rows - 1)) rootHeight
  ⟨(LayoutCell.split .topBottom g (growLast .topBottom (g.height - used) cells)).fixOffsets 0 0,
    none⟩

def buildNamed (layout : LayoutName) (paneCount : ℕ) (g : LayoutGeometry)
    (options : LayoutOptions) : LayoutTree :=
  match layout with
  | .evenHorizontal => buildEven .leftRight paneCount g
  | .evenVertical => buildEven .topBottom paneCount g
  | .mainHorizontal => buildMainHorizontal paneCount g options false
  | .mainHorizontalMirrored => buildMainHorizontal paneCount g options true
  | .mainVertical => buildMainVertical paneCount g options false
  | .mainVerticalMirrored => buildMainVertical paneCount g options true
  | .tiled => buildTiled paneCount g options

/-- A preset layout for `paneCount` panes in a window of `size`, or larger if it has to be. -/
def named (layout : LayoutName) (paneCount : ℕ) (size : TerminalSize) (options : LayoutOptions) :
    LayoutTree :=
  if paneCount ≤ 1 then single size
  else
    let g : LayoutGeometry := ⟨size.cols.toNat, size.rows.toNat, 0, 0⟩
    let tree := buildNamed layout paneCount g options
    let minimum := tree.root.minimumSize
    let tree :=
      if g.width < minimum.1 ∨ g.height < minimum.2 then
        buildNamed layout paneCount ⟨max g.width minimum.1, max g.height minimum.2, 0, 0⟩ options
      else tree
    { tree with root := tree.root.fixOffsets 0 0 }

end LayoutTree

/-! ## Rows and columns of panes -/

@[simp] theorem LayoutGeometry.axis_setOffset (g : LayoutGeometry) (d a : LayoutDirection)
    (offset : ℕ) : (g.setOffset d offset).axis a = g.axis a := by
  cases d <;> cases a <;> rfl

@[simp] theorem length_splitAxis (total count : ℕ) : (splitAxis total count).length = count := by
  simp [splitAxis]

/-- The shares and the borders between them use the whole extent. -/
theorem sum_splitAxis {total count : ℕ} (hcnt : 1 ≤ count) (htotal : count ≤ total + 1) :
    (splitAxis total count).sum + count = total + 1 := by
  unfold splitAxis
  simp only [paneBorderCells_eq, mul_one]
  suffices h : ∀ u : ℕ, ((range count).map fun index =>
      if count ≤ u ∧ index < u - u / count * count then u / count + 1
      else if ¬count ≤ u ∧ index + 1 = count then u / count + (u - u / count * count)
      else u / count).sum = u by
    rw [h]
    omega
  intro u
  have hdiv := div_add_mod u count
  rw [mul_comm] at hdiv
  have hlt := mod_lt u hcnt
  by_cases hcan : count ≤ u
  · have hmap : ∀ index, (if index < u - u / count * count then u / count + 1 else u / count) =
        u / count + if index < u - u / count * count then 1 else 0 := fun index => by
      split_ifs <;> rfl
    simp only [hcan, true_and, not_true_eq_false, false_and, if_false, hmap]
    rw [sum_range_add_ite _ (by omega), mul_comm]
    omega
  · -- too few cells for one each : the last pane takes them all
    obtain ⟨m, rfl⟩ : ∃ m, count = m + 1 := ⟨count - 1, by omega⟩
    have heach : u / (m + 1) = 0 := div_eq_of_lt (by omega)
    have hz : (range m).map (fun index => if index + 1 = m + 1 then u else 0) =
        (range m).map fun _ => 0 :=
      map_congr_left fun i hi => if_neg (by have := mem_range.mp hi; omega)
    simp only [hcan, false_and, if_false, not_false_eq_true, true_and, heach, Nat.zero_mul,
      Nat.sub_zero, zero_add]
    rw [range_succ, map_append, List.sum_append, hz]
    simp

section LayPanes

variable (d : LayoutDirection) (frame : LayoutGeometry) (offset : ℕ) (sizes : List ℕ)

theorem map_axisSize_layPanes : (layPanes d frame offset sizes).map (axisSize · d) = sizes := by
  induction sizes generalizing offset with
  | nil => rfl
  | cons size sizes ih => simp [layPanes, ih]

@[simp] theorem length_layPanes : (layPanes d frame offset sizes).length = sizes.length := by
  rw [← length_map (axisSize · d), map_axisSize_layPanes]

/-- Each of the cells is a pane that spans the frame across. -/
theorem forall_mem_layPanes {P : LayoutCell → Prop}
    (hP : ∀ g : LayoutGeometry, g.axis d.flip = frame.axis d.flip → P (.pane g)) (offset : ℕ)
    (sizes : List ℕ) : ∀ c ∈ layPanes d frame offset sizes, P c := by
  induction sizes generalizing offset with
  | nil => simp [layPanes]
  | cons size sizes ih =>
    rw [layPanes, forall_mem_cons]
    exact ⟨hP _ (by simp), ih _⟩

/-- What is the same for all panes. -/
theorem map_layPanes {β : Type*} {q : LayoutCell → β} {b : β} (hq : ∀ g, q (.pane g) = b) :
    (layPanes d frame offset sizes).map q = List.replicate sizes.length b := by
  rw [eq_replicate_iff, length_map, length_layPanes, forall_mem_map]
  exact ⟨rfl, forall_mem_layPanes d frame (fun g _ => hq g) offset sizes⟩

theorem wellSized_layPanes {offset : ℕ} {sizes : List ℕ}
    (h : sizes.sum + sizes.length = frame.axis d + 1) :
    WellSized (.split d frame (layPanes d frame offset sizes)) := by
  refine .of_sum (forall_mem_layPanes d frame (fun g _ => .pane g) offset sizes)
    (forall_mem_layPanes d frame (fun g hg => by rwa [axisSize_pane]) offset sizes) ?_
  rw [map_axisSize_layPanes, length_layPanes, h]

end LayPanes

/-! ## Minimum sizes -/

mutual
theorem minimumAxis_skeleton (a : LayoutDirection) :
    ∀ c : LayoutCell, minimumAxis a c.skeleton = minimumAxis a c
  | .pane _ => rfl
  | .split d g cs => by
    have hlen : (skeletons cs).length = cs.length := by rw [skeletons_eq, length_map]
    rw [skeleton, minimumAxis, minimumAxis, minimumAxes_skeletons a cs, hlen]

theorem minimumAxes_skeletons (a : LayoutDirection) :
    ∀ cs : List LayoutCell, minimumAxes a (skeletons cs) = minimumAxes a cs
  | [] => rfl
  | c :: cs => by
    rw [skeletons, minimumAxes, minimumAxes, minimumAxis_skeleton a c, minimumAxes_skeletons a cs]
end

theorem minimumAxis_eq_of_skeleton_eq {c' : LayoutCell} (h : c.skeleton = c'.skeleton)
    (a : LayoutDirection) : minimumAxis a c = minimumAxis a c' := by
  rw [← minimumAxis_skeleton, h, minimumAxis_skeleton]

theorem foldl_satAdd {l : List ℕ} {a : ℕ} (h : a + l.sum ≤ u32Max) :
    l.foldl satAdd a = a + l.sum := by
  induction l generalizing a with
  | nil => rfl
  | cons b l ih =>
    rw [sum_cons] at h ⊢
    rw [foldl_cons, satAdd_eq (by omega), ih (by omega), add_assoc]

theorem one_le_minimumAxis (a : LayoutDirection) (c : LayoutCell) : 1 ≤ minimumAxis a c := by
  cases c with
  | pane g => exact le_refl 1
  | split d g cs =>
    unfold minimumAxis
    split_ifs
    · exact le_max_right _ _
    · exact le_foldl_max_init _ _

/-- Along a split the minima add up, with a border after each but the last. -/
theorem minimumAxis_split (hne : cs ≠ []) (h : (cs.map (minimumAxis a)).sum + cs.length ≤ u32Max) :
    minimumAxis a (.split a g cs) + 1 = (cs.map (minimumAxis a)).sum + cs.length := by
  have hlen := length_pos_of_ne_nil hne
  have hsum : cs.length ≤ (cs.map (minimumAxis a)).sum := by
    have := length_le_sum_of_one_le (cs.map (minimumAxis a))
      (by simpa using fun c _ => one_le_minimumAxis a c)
    rwa [length_map] at this
  rw [minimumAxis, if_pos rfl, minimumAxes_eq, paneBorderCells_eq, paneMinimum_eq,
    satMul_eq (by omega), one_mul, min_eq_left (by omega), foldl_satAdd (by omega)]
  omega

theorem minimumAxis_split_flip (a : LayoutDirection) (g : LayoutGeometry) (cs : List LayoutCell) :
    minimumAxis a (.split a.flip g cs) = (cs.map (minimumAxis a)).foldl max 1 := by
  rw [minimumAxis, if_neg (LayoutDirection.flip_ne a), minimumAxes_eq, paneMinimum_eq]

theorem minimumAxis_le_split_flip (hd : d = a.flip) (hc : c ∈ cs) :
    minimumAxis a c ≤ minimumAxis a (.split d g cs) := by
  subst hd
  rw [minimumAxis_split_flip]
  exact le_foldl_max (mem_map_of_mem hc) 1

/-- No layout of `n` panes needs more than `2 n - 1` cells along an axis. -/
theorem minimumAxis_le (h : Branching c) (hmax : 2 * c.leafCount ≤ u32Max) :
    minimumAxis a c + 1 ≤ 2 * c.leafCount := by
  induction c with
  | pane g => exact le_refl 2
  | split d g cs ih =>
    obtain ⟨htwo, hcs⟩ := branching_split_iff.mp h
    rw [leafCount_split] at hmax ⊢
    have hne : cs ≠ [] := by
      rintro rfl
      simp at htwo
    have hle : ∀ c ∈ cs, c.leafCount ≤ (cs.map leafCount).sum := fun c hc =>
      single_le_sum (by simp) _ (mem_map_of_mem hc)
    have hc : ∀ c ∈ cs, minimumAxis a c + 1 ≤ 2 * c.leafCount := fun c hc =>
      ih c hc (hcs c hc) (by have := hle c hc; omega)
    rcases LayoutDirection.eq_or_eq_flip a d with rfl | rfl
    · have hsum : (cs.map fun c => minimumAxis a c + 1).sum ≤
          (cs.map fun c => c.leafCount + c.leafCount).sum :=
        sum_le_sum fun c hmem => (hc c hmem).trans_eq (Nat.two_mul _)
      have hone : (cs.map fun _ => 1).sum = cs.length := by simp
      rw [sum_map_add, sum_map_add, hone] at hsum
      rw [minimumAxis_split hne (by omega)]
      omega
    · have hspl := minimumAxis_split_flip d.flip g cs
      rw [LayoutDirection.flip_flip] at hspl
      obtain ⟨c, hmem⟩ := exists_mem_of_ne_nil cs hne
      have hpos := hc c hmem
      have := hle c hmem
      have hfold : (cs.map (minimumAxis d.flip)).foldl max 1 ≤ 2 * (cs.map leafCount).sum - 1 := by
        refine foldl_max_le (by omega) ?_
        rw [forall_mem_map]
        intro c hmem
        have := hc c hmem
        have := hle c hmem
        omega
      omega

/-! ## Even and main layouts -/

/-- A tree for `n` panes, whatever its extents. -/
structure Shaped (n : ℕ) (c : LayoutCell) : Prop where
  branching : Branching c
  leafCount : c.leafCount = n

namespace Shaped

theorem pane (g : LayoutGeometry) : Shaped 1 (.pane g) := ⟨.pane g, leafCount_pane g⟩

theorem of_skeleton_eq {n : ℕ} {c c' : LayoutCell} (h : Shaped n c)
    (hs : c'.skeleton = c.skeleton) : Shaped n c' :=
  ⟨h.branching.of_skeleton_eq hs,
    by rw [← leafCount_skeleton, hs, leafCount_skeleton, h.leafCount]⟩

theorem pair {d : LayoutDirection} {g : LayoutGeometry} {m k : ℕ} {a b : LayoutCell}
    (ha : Shaped m a) (hb : Shaped k b) : Shaped (m + k) (.split d g [a, b]) :=
  ⟨branching_split_iff.mpr ⟨le_refl 2, by simpa using ⟨ha.branching, hb.branching⟩⟩,
    by simp [leafCount_split, ha.leafCount, hb.leafCount]⟩

theorem layPanes {e : LayoutDirection} {frame : LayoutGeometry} {sizes : List ℕ}
    (hlen : sizes.length = n) (h : 2 ≤ n) : Shaped n (.split d g (layPanes e frame 0 sizes)) where
  branching := .split (by rwa [length_layPanes, hlen])
    (forall_mem_layPanes e frame (fun g _ => .pane g) 0 sizes)
  leafCount := by
    rw [leafCount_split, map_layPanes e frame 0 sizes leafCount_pane, sum_replicate_nat, hlen,
      mul_one]

end Shaped

/-- A cell of the extent of `g` whose numbers fit together. -/
structure Fills (g : LayoutGeometry) (c : LayoutCell) : Prop where
  wellSized : WellSized c
  axisSize : ∀ a, c.axisSize a = g.axis a

namespace Fills

variable {g : LayoutGeometry} {c : LayoutCell}

theorem pane (g : LayoutGeometry) : Fills g (.pane g) := ⟨.pane g, fun _ => rfl⟩

theorem fixOffsets (h : Fills g c) (x y : ℕ) : Fills g (c.fixOffsets x y) :=
  ⟨(wellSized_fixOffsets x y).mpr h.wellSized,
    fun a => (axisSize_fixOffsets x y c a).trans (h.axisSize a)⟩

theorem pair {d : LayoutDirection} {ga gb : LayoutGeometry} {a b : LayoutCell}
    (ha : Fills ga a) (hb : Fills gb b) (hacross : ga.axis d.flip = g.axis d.flip)
    (hbcross : gb.axis d.flip = g.axis d.flip) (hsum : ga.axis d + 1 + gb.axis d = g.axis d) :
    Fills g (.split d g [a, b]) where
  wellSized := wellSized_pair_iff.mpr ⟨⟨ha.wellSized, hb.wellSized⟩,
    ⟨(ha.axisSize _).trans hacross, (hb.axisSize _).trans hbcross⟩,
    by rw [ha.axisSize, hb.axisSize, hsum]⟩
  axisSize _ := rfl

end Fills

theorem minimumAxis_layPanes (frame : LayoutGeometry) {sizes : List ℕ} (hlen : sizes.length = n)
    (hn : 1 ≤ n) (hmax : 2 * n ≤ u32Max) :
    minimumAxis d (.split d g (layPanes d frame 0 sizes)) + 1 = 2 * n := by
  have hones := map_layPanes d frame 0 sizes (q := minimumAxis d) fun _ => rfl
  have hcnt := length_layPanes d frame 0 sizes
  have hsum : ((layPanes d frame 0 sizes).map (minimumAxis d)).sum = n := by
    rw [hones, sum_replicate_nat, Nat.mul_one, hlen]
  rw [minimumAxis_split (ne_nil_of_length_pos (by omega)) (by omega)]
  omega

namespace LayoutTree

variable {n : ℕ}

theorem minimumAxis_buildEven (hn : 2 ≤ n) (hmax : 2 * n ≤ u32Max) (d : LayoutDirection)
    (g : LayoutGeometry) : minimumAxis d (buildEven d n g).root + 1 = 2 * n :=
  minimumAxis_layPanes g (length_splitAxis ..) (by omega) hmax

theorem fills_buildEven {d : LayoutDirection} {g : LayoutGeometry} (hn : 2 ≤ n)
    (hmax : 2 * n ≤ u32Max) (hmin : ∀ a, minimumAxis a (buildEven d n g).root ≤ g.axis a) :
    Fills g (buildEven d n g).root := by
  have hd := hmin d
  have hmind := minimumAxis_buildEven hn hmax d g
  refine ⟨wellSized_layPanes d g ?_, fun a => rfl⟩
  rw [length_splitAxis]
  exact sum_splitAxis (by omega) (by omega)

end LayoutTree

theorem resolveMainPaneSize_le (total : ℕ) (requested : Option ℕ) (default : ℕ) :
    resolveMainPaneSize total requested default ≤ total - 1 := by
  unfold resolveMainPaneSize
  rw [paneBorderCells_eq, paneMinimum_eq]
  dsimp only
  repeat' split
  all_goals omega

theorem shaped_mainSecondary (hn : 1 ≤ n) (d : LayoutDirection) (g frame : LayoutGeometry) :
    Shaped n (mainSecondary d (n + 1) g frame) := by
  unfold mainSecondary
  split_ifs with htwo
  · obtain rfl : n = 1 := by omega
    exact Shaped.pane frame
  · exact .layPanes (length_splitAxis ..) (by omega)

theorem fills_mainSecondary {frame : LayoutGeometry} (hfr : frame.axis d.flip = g.axis d.flip)
    (hfit : n + 1 ≤ g.axis d.flip + 2) (hn : 1 ≤ n) :
    Fills frame (mainSecondary d (n + 1) g frame) := by
  unfold mainSecondary
  split_ifs with htwo
  · exact Fills.pane frame
  · refine ⟨wellSized_layPanes d.flip frame ?_, fun a => rfl⟩
    rw [Nat.add_sub_cancel, length_splitAxis, hfr]
    exact sum_splitAxis hn (by omega)

theorem minimumAxis_mainSecondary (hn : 2 ≤ n) (hmax : 2 * n ≤ u32Max) (d : LayoutDirection)
    (g frame : LayoutGeometry) : minimumAxis d.flip (mainSecondary d n g frame) + 3 = 2 * n := by
  unfold mainSecondary
  split_ifs with htwo
  · rw [htwo]
    rfl
  · have := minimumAxis_layPanes (d := d.flip) (g := frame) frame
      (length_splitAxis (g.axis d.flip) (n - 1)) (by omega) (by omega)
    omega

namespace LayoutTree

section BuildMain

variable {d : LayoutDirection} {requested : Option ℕ} {default n : ℕ} {g : LayoutGeometry}
  {mirrored : Bool}

variable (d requested default n g mirrored) in
/-- The cells of a main layout, up to their offsets : the main pane and the others, in either
order. -/
theorem root_buildMain : ∃ (main frame : LayoutGeometry) (cs : List LayoutCell),
    (cs = [.pane main, mainSecondary d n g frame] ∨ cs = [mainSecondary d n g frame, .pane main]) ∧
    (buildMain d requested default n g mirrored).root =
      (LayoutCell.split d g cs).fixOffsets 0 0 ∧
    main.axis d = resolveMainPaneSize (g.axis d) requested default ∧
    frame.axis d = g.axis d - main.axis d - 1 ∧
    main.axis d.flip = g.axis d.flip ∧ frame.axis d.flip = g.axis d.flip := by
  cases mirrored
  · refine ⟨_, _, _, .inl rfl, rfl, ?_, ?_, ?_, ?_⟩ <;> simp
  · -- the children are moved to their places anyway
    have hmove : ∀ (a b : LayoutCell) (x y : ℕ),
        (LayoutCell.split d g [a.fixOffsets 0 0, b.fixOffsets x y]).fixOffsets 0 0 =
          (LayoutCell.split d g [a, b]).fixOffsets 0 0 := by
      simp [LayoutCell.fixOffsets, fixOffsetsFrom]
    refine ⟨_, _, _, .inr rfl, hmove .., ?_, ?_, ?_, ?_⟩ <;> simp

theorem minimumAxis_buildMain (hn : 2 ≤ n) (hmax : 2 * n ≤ u32Max) :
    2 * n ≤ minimumAxis d.flip (buildMain d requested default n g mirrored).root + 3 := by
  obtain ⟨main, frame, cs, hcs, hrt, -⟩ := root_buildMain d requested default n g mirrored
  have hsecondary := minimumAxis_mainSecondary hn hmax d g frame
  have hmem : mainSecondary d n g frame ∈ cs := by rcases hcs with rfl | rfl <;> simp
  have := minimumAxis_le_split_flip (g := g) d.flip_flip.symm hmem
  rw [hrt, minimumAxis_eq_of_skeleton_eq (skeleton_fixOffsets _ _ _)]
  omega

theorem shaped_buildMain (hn : 2 ≤ n) :
    Shaped n (buildMain d requested default n g mirrored).root := by
  obtain ⟨k, rfl⟩ : ∃ k, n = k + 1 := ⟨n - 1, by omega⟩
  obtain ⟨main, frame, cs, hcs, hrt, -⟩ := root_buildMain d requested default (k + 1) g mirrored
  have ho := shaped_mainSecondary (by omega : 1 ≤ k) d g frame
  rw [hrt]
  refine Shaped.of_skeleton_eq ?_ (skeleton_fixOffsets 0 0 _)
  rcases hcs with rfl | rfl
  · have := (Shaped.pane main).pair (d := d) (g := g) ho
    rwa [add_comm 1 k] at this
  · exact ho.pair (Shaped.pane main)

theorem fills_buildMain (hn : 2 ≤ n) (hmax : 2 * n ≤ u32Max)
    (hmin : ∀ a, minimumAxis a (buildMain d requested default n g mirrored).root ≤ g.axis a) :
    Fills g (buildMain d requested default n g mirrored).root := by
  have hpos : 1 ≤ g.axis d := (one_le_minimumAxis d _).trans (hmin d)
  have hfit := (minimumAxis_buildMain hn hmax).trans (Nat.add_le_add_right (hmin d.flip) 3)
  obtain ⟨main, frame, cs, hcs, hrt, hmain, hsz, hmc, hcr⟩ :=
    root_buildMain d requested default n g mirrored
  have hmainle := resolveMainPaneSize_le (g.axis d) requested default
  obtain ⟨k, rfl⟩ : ∃ k, n = k + 1 := ⟨n - 1, by omega⟩
  have ho := fills_mainSecondary hcr (by omega) (by omega : 1 ≤ k)
  rw [hrt]
  refine Fills.fixOffsets ?_ 0 0
  rcases hcs with rfl | rfl
  · exact (Fills.pane main).pair ho hmc hcr (by omega)
  · exact ho.pair (Fills.pane main) hcr hmc (by omega)

end BuildMain

end LayoutTree

/-! ## Grids -/

theorem map_skeleton_growLast (d : LayoutDirection) (extra : ℕ) (cs : List LayoutCell) :
    (growLast d extra cs).map skeleton = cs.map skeleton := by
  unfold growLast
  split_ifs
  · exact map_modify_eq cs _ _ skeleton (skeleton_resizeAdjust d _)
  · rfl

/-- Cells of one extent `e`, the last one grown by what is left over, fill the frame. -/
theorem wellSized_growLast {e extra : ℕ} (hne : cs ≠ [])
    (hcs : ∀ c ∈ cs, WellSized c ∧ c.axisSize d.flip = g.axis d.flip ∧ c.axisSize d = e)
    (hsum : cs.length * (e + 1) + extra = g.axis d + 1) (hmax : g.axis d ≤ i32Max) :
    WellSized (.split d g (growLast d extra cs)) := by
  have hlen := length_pos_of_ne_nil hne
  have hi32 : i32Max ≤ u32Max := by decide
  have hmap : (cs.map (axisSize · d)).sum = cs.length * e := by
    have hrep : cs.map (axisSize · d) = replicate cs.length e :=
      eq_replicate_iff.mpr ⟨by simp, by simpa using fun c hc => (hcs c hc).2.2⟩
    rw [hrep, sum_replicate_nat]
  rw [Nat.mul_add, Nat.mul_one] at hsum
  rw [wellSized_split_iff]
  unfold growLast
  split_ifs with hextra
  · obtain ⟨last, hl⟩ : ∃ last, cs[cs.length - 1]? = some last :=
      ⟨_, getElem?_eq_getElem (by omega)⟩
    obtain ⟨hw, hcr, he⟩ := hcs last (mem_of_getElem? hl)
    have hle : e ≤ cs.length * e := Nat.le_mul_of_pos_left e hlen
    have hbig : last.axisSize d + extra ≤ u32Max := by omega
    rw [asI32_eq (by omega)]
    refine ⟨forall_mem_modify hl _ (fun c hc => (hcs c hc).1)
        (hw.resizeAdjust_add hbig),
      forall_mem_modify hl _ (fun c hc => (hcs c hc).2.1) ?_, ?_⟩
    · rw [axisSize_resizeAdjust_flip, hcr]
    · have := sum_map_modify hl (resizeAdjust d extra) (axisSize · d)
      rw [axisSize_resizeAdjust_add d hbig] at this
      rw [length_modify]
      omega
  · exact ⟨fun c hc => (hcs c hc).1, fun c hc => (hcs c hc).2.1, by omega⟩

theorem tiledGridLoop_columns (limit : Option ℕ) :
    ∀ fuel rows columns, 1 ≤ rows → 1 ≤ columns → columns < n →
      1 ≤ (tiledGridLoop n limit fuel rows columns).2 ∧
      (tiledGridLoop n limit fuel rows columns).2 < n
  | 0, rows, columns, _, hc, hlt => ⟨hc, hlt⟩
  | fuel + 1, rows, columns, hr, hc, hlt => by
    rw [tiledGridLoop]
    split_ifs with h h'
    · have hgrow : 0 < rows * columns := Nat.mul_pos hr hc
      rw [succ_mul] at h'
      exact tiledGridLoop_columns limit fuel _ _ (by omega) (by omega) (by omega)
    · exact tiledGridLoop_columns limit fuel _ _ (by omega) hc hlt
    · exact ⟨hc, hlt⟩

/-- Without a limit the loop sees square grids, and the grid it ends with is the first that
holds the panes. -/
theorem tiledGridLoop_square : ∀ fuel k, 1 ≤ k → (k - 1) * k < n → n ≤ fuel + k →
      ((tiledGridLoop n none fuel k k).1 - 1) * (tiledGridLoop n none fuel k k).2 < n ∧
      n ≤ (tiledGridLoop n none fuel k k).1 * (tiledGridLoop n none fuel k k).2
  | 0, k, hk, hlow, hfu => ⟨hlow, by
      rw [Nat.zero_add] at hfu
      exact hfu.trans (Nat.le_mul_self k)⟩
  | fuel + 1, k, hk, hlow, hfu => by
    rw [tiledGridLoop]
    split_ifs with h h'
    · exact tiledGridLoop_square fuel (k + 1) (by omega)
        (by rw [Nat.add_sub_cancel, Nat.mul_comm]; exact h'.1) (by omega)
    · have hf : ¬(k + 1) * k < n := fun hlt => h' ⟨hlt, rfl⟩
      have hsp : tiledGridLoop n none fuel (k + 1) k = (k + 1, k) := by
        cases fuel with
        | zero => rfl
        | succ fuel => rw [tiledGridLoop, if_neg hf]
      rw [hsp]
      exact ⟨h, not_lt.mp hf⟩
    · exact ⟨hlow, not_lt.mp h⟩

/-- The grid has room for the panes, and no empty row. -/
theorem tiledGridSize_spec (hn : 2 ≤ n) (limit : Option ℕ) :
    2 ≤ (tiledGridSize n limit).1 ∧ (tiledGridSize n limit).1 ≤ n ∧
    1 ≤ (tiledGridSize n limit).2 ∧ (tiledGridSize n limit).2 < n ∧
    ((tiledGridSize n limit).1 - 1) * (tiledGridSize n limit).2 < n ∧
    n ≤ (tiledGridSize n limit).1 * (tiledGridSize n limit).2 := by
  suffices h : 1 ≤ (tiledGridSize n limit).2 ∧ (tiledGridSize n limit).2 < n ∧
      ((tiledGridSize n limit).1 - 1) * (tiledGridSize n limit).2 < n ∧
      n ≤ (tiledGridSize n limit).1 * (tiledGridSize n limit).2 by
    obtain ⟨hc, hlt, hlow, hhigh⟩ := h
    refine ⟨?_, ?_, hc, hlt, hlow, hhigh⟩
    · by_contra hone
      have : (tiledGridSize n limit).1 * (tiledGridSize n limit).2 ≤
          1 * (tiledGridSize n limit).2 := mul_le_mul_right _ (by omega)
      omega
    · have := Nat.le_mul_of_pos_right ((tiledGridSize n limit).1 - 1) hc
      omega
  obtain ⟨hc, hlt⟩ := tiledGridLoop_columns limit n 1 1 (le_refl 1) (le_refl 1) (by omega : 1 < n)
  cases limit with
  | none =>
    obtain ⟨hlow, hhigh⟩ := tiledGridLoop_square (n := n) n 1 (le_refl 1) (by omega) (by omega)
    have hr : 1 ≤ (tiledGridLoop n none n 1 1).1 := by
      by_contra hz
      rw [lt_one_iff.mp (not_le.mp hz)] at hhigh
      omega
    have heq : tiledGridSize n none = tiledGridLoop n none n 1 1 := by
      rw [tiledGridSize]
      exact Prod.ext (max_eq_left hr) (max_eq_left hc)
    rw [heq]
    exact ⟨hc, hlt, hlow, hhigh⟩
  | some m =>
    obtain ⟨columns, hcol, hcolpos, hcollt⟩ : ∃ columns,
        columns = min (tiledGridLoop n (some m) n 1 1).2 (max m 1) ∧ 1 ≤ columns ∧ columns < n :=
      ⟨_, rfl, by omega, by omega⟩
    have heq : tiledGridSize n (some m) = ((n + (columns - 1)) / columns, columns) := by
      have hdiv : 1 ≤ (n + (columns - 1)) / columns :=
        (one_le_div_iff hcolpos).mpr (by omega)
      rw [tiledGridSize]
      dsimp only
      rw [← hcol, max_eq_left hcolpos, max_eq_left hdiv]
    rw [heq]
    have hdiv := div_add_mod (n + (columns - 1)) columns
    have hmod := mod_lt (n + (columns - 1)) hcolpos
    rw [mul_comm] at hdiv
    refine ⟨hcolpos, hcollt, ?_, ?_⟩
    · dsimp only
      rw [Nat.sub_mul]
      omega
    · dsimp only
      omega

section TiledRow

variable {g : LayoutGeometry} {rootWidth columns width height panesInRow rowY : ℕ}

theorem skeleton_tiledRow (hspl : ¬(panesInRow = 1 ∨ columns = 1)) :
    (tiledRow g rootWidth columns width height panesInRow rowY).skeleton =
      (LayoutCell.split .leftRight ⟨g.width, height, 0, rowY⟩ (layPanes .leftRight
        ⟨g.width, height, 0, rowY⟩ 0 (List.replicate panesInRow width))).skeleton := by
  rw [tiledRow, if_neg hspl, skeleton_split, skeleton_split, map_skeleton_growLast]

theorem shaped_tiledRow (hp : 1 ≤ panesInRow) (hpc : panesInRow ≤ columns) :
    Shaped panesInRow (tiledRow g rootWidth columns width height panesInRow rowY) := by
  by_cases hone : panesInRow = 1 ∨ columns = 1
  · obtain rfl : panesInRow = 1 := by omega
    rw [tiledRow, if_pos hone]
    exact Shaped.pane _
  · exact (Shaped.layPanes length_replicate (by omega)).of_skeleton_eq (skeleton_tiledRow hone)

/-- A row of the grid needs its panes side by side and one line. -/
theorem minimumAxis_tiledRow (hp : 1 ≤ panesInRow) (hpc : panesInRow ≤ columns)
    (hmax : 2 * panesInRow ≤ u32Max) :
    minimumAxis .leftRight (tiledRow g rootWidth columns width height panesInRow rowY) + 1 =
        2 * panesInRow ∧
      minimumAxis .topBottom (tiledRow g rootWidth columns width height panesInRow rowY) = 1 := by
  by_cases hone : panesInRow = 1 ∨ columns = 1
  · obtain rfl : panesInRow = 1 := by omega
    rw [tiledRow, if_pos hone]
    exact ⟨rfl, rfl⟩
  · rw [minimumAxis_eq_of_skeleton_eq (skeleton_tiledRow hone),
      minimumAxis_eq_of_skeleton_eq (skeleton_tiledRow hone)]
    refine ⟨?_, ?_⟩
    · exact minimumAxis_layPanes _ length_replicate hp hmax
    · rw [show LayoutDirection.leftRight = LayoutDirection.flip .topBottom from rfl,
        minimumAxis_split_flip]
      refine le_antisymm (foldl_max_le (le_refl 1) ?_) (le_foldl_max_init _ 1)
      rw [forall_mem_map]
      exact forall_mem_layPanes _ _ (fun _ _ => le_refl 1) _ _

/-- A row fills its frame when the equal widths fit. -/
theorem fills_tiledRow (hp : 1 ≤ panesInRow) (hpc : panesInRow ≤ columns)
    (hfit : columns * (width + 1) ≤ g.width + 1) (hrt : rootWidth = g.width)
    (hmax : g.width ≤ i32Max) : Fills ⟨g.width, height, 0, rowY⟩
      (tiledRow g rootWidth columns width height panesInRow rowY) := by
  by_cases hone : panesInRow = 1 ∨ columns = 1
  · obtain rfl : panesInRow = 1 := by omega
    rw [tiledRow, if_pos hone]
    exact Fills.pane _
  · have hused : panesInRow * (width + 1) ≤ columns * (width + 1) :=
      mul_le_mul_right _ hpc
    have hwid : width + 1 ≤ panesInRow * (width + 1) := Nat.le_mul_of_pos_left _ hp
    have hi32 : i32Max + 1 ≤ u32Max := by decide
    refine ⟨?_, ?_⟩
    · rw [tiledRow, if_neg hone, paneBorderCells_eq, wrapAdd_eq (by omega),
        wrapMul_eq (by omega), hrt]
      refine wellSized_growLast (e := width) (by simp [← length_pos_iff]; omega) ?_ ?_ hmax
      · have hsizes := map_axisSize_layPanes .leftRight ⟨g.width, height, 0, rowY⟩ 0
          (replicate panesInRow width)
        exact fun c hc => ⟨forall_mem_layPanes _ _ (fun _ _ => .pane _) _ _ c hc,
          forall_mem_layPanes .leftRight ⟨g.width, height, 0, rowY⟩
            (P := fun c => c.axisSize .topBottom = height) (fun _ h => h) _ _ c hc,
          eq_of_mem_replicate (hsizes ▸ mem_map_of_mem hc)⟩
      · simp only [length_layPanes, length_replicate, LayoutGeometry.axis]
        omega
    · rw [tiledRow, if_neg hone]
      exact fun a => rfl

end TiledRow

/-- How many panes each of `rows` rows takes. -/
def rowCounts (columns : ℕ) : ℕ → ℕ → List ℕ
  | 0, _ => []
  | rows + 1, remaining =>
    if remaining = 0 then []
    else min remaining columns :: rowCounts columns rows (remaining - min remaining columns)

/-- A grid with room for the panes and no empty row takes them all. -/
theorem rowCounts_spec {columns : ℕ} : ∀ {rows remaining : ℕ}, remaining ≤ rows * columns →
      (rows = 0 ∨ (rows - 1) * columns < remaining) →
      (rowCounts columns rows remaining).length = rows ∧
      (rowCounts columns rows remaining).sum = remaining
  | 0, remaining, hle, _ => by
    rw [Nat.zero_mul] at hle
    exact ⟨rfl, (Nat.le_zero.mp hle).symm⟩
  | rows + 1, remaining, hle, hlt => by
    have hlt : rows * columns < remaining := by simpa using hlt
    rw [succ_mul] at hle
    rw [rowCounts, if_neg (by omega)]
    have hfit : remaining - min remaining columns ≤ rows * columns := by omega
    have hf : rows = 0 ∨ (rows - 1) * columns < remaining - min remaining columns := by
      cases rows with
      | zero => exact .inl rfl
      | succ rows =>
        rw [succ_mul] at hlt
        rw [Nat.add_sub_cancel]
        omega
    obtain ⟨hlen, hsum⟩ := rowCounts_spec hfit hf
    refine ⟨?_, ?_⟩
    · rw [length_cons, hlen]
    · rw [sum_cons, hsum]
      omega

section TiledRows

variable {g : LayoutGeometry} {rootWidth columns width height rows n : ℕ}

theorem mem_tiledRows (hcol : 1 ≤ columns) : ∀ {rows remaining rowY : ℕ} {c : LayoutCell},
    c ∈ tiledRows g rootWidth columns width height rows remaining rowY →
    ∃ p y, 1 ≤ p ∧ p ≤ columns ∧ p ≤ remaining ∧
      c = tiledRow g rootWidth columns width height p y
  | 0, _, _, _, h => by simp [tiledRows] at h
  | rows + 1, remaining, rowY, c, h => by
    rw [tiledRows] at h
    split_ifs at h with hz
    · simp at h
    · rcases List.mem_cons.mp h with rfl | h
      · exact ⟨_, _, by omega, by omega, by omega, rfl⟩
      · obtain ⟨p, y, hp, hpc, hpn, rfl⟩ := mem_tiledRows hcol h
        exact ⟨p, y, hp, hpc, by omega, rfl⟩

theorem map_leafCount_tiledRows (hcol : 1 ≤ columns) : ∀ {rows remaining rowY : ℕ},
    (tiledRows g rootWidth columns width height rows remaining rowY).map leafCount =
      rowCounts columns rows remaining
  | 0, _, _ => rfl
  | rows + 1, remaining, rowY => by
    rw [rowCounts, tiledRows]
    split_ifs with hz
    · rfl
    · rw [List.map_cons, (shaped_tiledRow (by omega) (by omega)).leafCount, map_leafCount_tiledRows hcol]

theorem length_tiledRows (hcol : 1 ≤ columns) (hle : n ≤ rows * columns)
    (hlt : (rows - 1) * columns < n) :
    (tiledRows g rootWidth columns width height rows n 0).length = rows := by
  rw [← length_map leafCount, map_leafCount_tiledRows hcol, (rowCounts_spec hle (.inr hlt)).1]

theorem skeleton_split_growLast (extra : ℕ) (cs : List LayoutCell) :
    (LayoutCell.split .topBottom g (growLast .topBottom extra cs)).skeleton =
      (LayoutCell.split .topBottom g cs).skeleton := by
  rw [skeleton_split, skeleton_split, map_skeleton_growLast]

theorem minimumAxis_tiledRows (hcol : 1 ≤ columns) (hrw : 1 ≤ rows) (hle : n ≤ rows * columns)
    (hlt : (rows - 1) * columns < n) (hmax : 2 * n ≤ u32Max) (extra : ℕ) :
    minimumAxis .topBottom (.split .topBottom g (growLast .topBottom extra
      (tiledRows g rootWidth columns width height rows n 0))) + 1 = 2 * rows ∧
    2 * min n columns ≤ minimumAxis .leftRight (.split .topBottom g (growLast .topBottom extra
      (tiledRows g rootWidth columns width height rows n 0))) + 1 := by
  have hlen : (tiledRows g rootWidth columns width height rows n 0).length = rows :=
    length_tiledRows hcol hle hlt
  have hrowsn : rows ≤ n := by
    have := Nat.le_mul_of_pos_right (rows - 1) hcol
    omega
  rw [minimumAxis_eq_of_skeleton_eq (skeleton_split_growLast extra _),
    minimumAxis_eq_of_skeleton_eq (skeleton_split_growLast extra _)]
  refine ⟨?_, ?_⟩
  · have hone : (tiledRows g rootWidth columns width height rows n 0).map
        (minimumAxis .topBottom) = replicate rows 1 := by
      rw [eq_replicate_iff, length_map, forall_mem_map]
      refine ⟨hlen, fun c hc => ?_⟩
      obtain ⟨p, y, hp, hpc, hpn, rfl⟩ := mem_tiledRows hcol hc
      exact (minimumAxis_tiledRow hp hpc (by omega)).2
    have hne : tiledRows g rootWidth columns width height rows n 0 ≠ [] := by
      rw [← length_pos_iff]
      omega
    rw [minimumAxis_split hne (by rw [hone, sum_replicate_nat, hlen]; omega), hone,
      sum_replicate_nat, hlen]
    omega
  · obtain ⟨r, rfl⟩ : ∃ r, rows = r + 1 := ⟨rows - 1, by omega⟩
    have hfst : tiledRow g rootWidth columns width height (min n columns) 0 ∈
        tiledRows g rootWidth columns width height (r + 1) n 0 := by
      rw [tiledRows, if_neg (by omega)]
      exact mem_cons_self
    have hrow : minimumAxis .leftRight
        (tiledRow g rootWidth columns width height (min n columns) 0) + 1 = 2 * min n columns :=
      (minimumAxis_tiledRow (by omega) (min_le_right _ _) (by omega)).1
    rw [← hrow]
    exact Nat.add_le_add_right (minimumAxis_le_split_flip rfl hfst) 1

theorem shaped_tiledRows (hcol : 1 ≤ columns) (hrw : 2 ≤ rows) (hle : n ≤ rows * columns)
    (hlt : (rows - 1) * columns < n) (extra : ℕ) :
    Shaped n (.split .topBottom g (growLast .topBottom extra
      (tiledRows g rootWidth columns width height rows n 0))) := by
  obtain ⟨hlen, hsum⟩ := rowCounts_spec hle (.inr hlt)
  rw [← map_leafCount_tiledRows hcol] at hlen hsum
  rw [length_map] at hlen
  refine Shaped.of_skeleton_eq ⟨branching_split_iff.mpr ⟨hlen.symm ▸ hrw, fun c hc => ?_⟩,
    (leafCount_split _ _ _).trans hsum⟩ (skeleton_split_growLast extra _)
  obtain ⟨p, y, hp, hpc, -, rfl⟩ := mem_tiledRows hcol hc
  exact (shaped_tiledRow hp hpc).branching

/-- A grid fills the window when its equal shares fit and the last row takes the rest. -/
theorem fills_tiledRows {extra : ℕ} (hcol : 1 ≤ columns) (hrw : 2 ≤ rows)
    (hle : n ≤ rows * columns) (hlt : (rows - 1) * columns < n)
    (hwid : columns * (width + 1) ≤ g.width + 1) (hrt : rootWidth = g.width)
    (hheight : rows * (height + 1) + extra = g.height + 1) (hi32 : ∀ a, g.axis a ≤ i32Max) :
    Fills g (.split .topBottom g (growLast .topBottom extra
      (tiledRows g rootWidth columns width height rows n 0))) := by
  have hlen : (tiledRows g rootWidth columns width height rows n 0).length = rows :=
    length_tiledRows hcol hle hlt
  refine ⟨wellSized_growLast (e := height) ?_ (fun c hc => ?_) ?_ (hi32 .topBottom), fun a => rfl⟩
  · rw [← length_pos_iff]
    omega
  · obtain ⟨p, y, hp, hpc, -, rfl⟩ := mem_tiledRows hcol hc
    have h : Fills ⟨g.width, height, 0, y⟩ (tiledRow g rootWidth columns width height p y) :=
      fills_tiledRow hp hpc hwid hrt (hi32 .leftRight)
    exact ⟨h.wellSized, h.axisSize .leftRight, h.axisSize .topBottom⟩
  · rw [hlen]
    exact hheight

end TiledRows

/-- Equal shares of an extent with room for them. -/
theorem mul_share_le {total count : ℕ} (hcnt : 1 ≤ count) (h : 2 * count ≤ total + 1) :
    count * (max ((total - (count - 1)) / count) 1 + 1) ≤ total + 1 := by
  have hdiv : 1 ≤ (total - (count - 1)) / count := (one_le_div_iff hcnt).mpr (by omega)
  have hmul := mul_div_le (total - (count - 1)) count
  rw [max_eq_left hdiv, Nat.mul_add, Nat.mul_one]
  omega

theorem LayoutTree.shaped_buildTiled (hn : 2 ≤ n) (g : LayoutGeometry) (o : LayoutOptions) :
    Shaped n (buildTiled n g o).root := by
  obtain ⟨hrw, -, hcol, -, hlow, hhigh⟩ := tiledGridSize_spec hn
    ((o.tiledMaxColumns.filter (0 < ·)).map UInt16.toNat)
  exact (shaped_tiledRows hcol hrw hhigh hlow _).of_skeleton_eq (skeleton_fixOffsets 0 0 _)

theorem LayoutTree.fills_buildTiled {o : LayoutOptions} (hn : 2 ≤ n) (hmax : 2 * n ≤ u32Max)
    (hi32 : ∀ a, g.axis a ≤ i32Max) (hmin : ∀ a, minimumAxis a (buildTiled n g o).root ≤ g.axis a) :
    Fills g (buildTiled n g o).root := by
  obtain ⟨hrw, hrowsn, hcol, hcoln, hlow, hhigh⟩ := tiledGridSize_spec hn
    ((o.tiledMaxColumns.filter (0 < ·)).map UInt16.toNat)
  rw [buildTiled] at hmin ⊢
  generalize tiledGridSize n ((o.tiledMaxColumns.filter (0 < ·)).map UInt16.toNat) = grid
    at *
  obtain ⟨rows, columns⟩ := grid
  dsimp only at *
  have hu32 : i32Max + 1 ≤ u32Max := by decide
  have hminh := hmin .topBottom
  have hminw := hmin .leftRight
  rw [minimumAxis_eq_of_skeleton_eq (skeleton_fixOffsets 0 0 _)] at hminh hminw
  have hrowsfit : 2 * rows ≤ g.height + 1 :=
    (minimumAxis_tiledRows hcol (by omega) hhigh hlow hmax _).1.symm.le.trans
      (Nat.add_le_add_right hminh 1)
  have hcolfit : 2 * columns ≤ g.width + 1 := by
    rw [← min_eq_right hcoln.le]
    exact (minimumAxis_tiledRows hcol (by omega) hhigh hlow hmax _).2.trans
      (Nat.add_le_add_right hminw 1)
  have hwid := mul_share_le hcol hcolfit
  have hheight := mul_share_le (by omega) hrowsfit
  have hmaxw : g.width ≤ i32Max := hi32 .leftRight
  have hmaxh : g.height ≤ i32Max := hi32 .topBottom
  rw [paneBorderCells_eq, paneMinimum_eq]
  generalize max ((g.width - (columns - 1)) / columns) 1 = width at *
  generalize max ((g.height - (rows - 1)) / rows) 1 = height at *
  have hwidth1 : width + 1 ≤ columns * (width + 1) := Nat.le_mul_of_pos_left _ hcol
  have hheight1 : height + 1 ≤ rows * (height + 1) := Nat.le_mul_of_pos_left _ (by omega)
  refine Fills.fixOffsets (fills_tiledRows hcol hrw hhigh hlow hwid ?_ ?_ hi32) 0 0
  · rw [wrapAdd_eq (by omega), wrapMul_eq (by rw [mul_comm]; omega), mul_comm]
    omega
  · have hmul : rows * (height + 1) = rows * height + rows := by rw [Nat.mul_add, Nat.mul_one]
    rw [wrapAdd_eq (by omega), wrapMul_eq (by omega), wrapMul_eq (by rw [mul_comm]; omega),
      satAdd_eq (by omega), mul_comm (height + 1)]
    omega

/-! ## The shape does not depend on the size -/

theorem skeleton_layPanes_congr {g' frame frame' : LayoutGeometry} {offset offset' : ℕ}
    {sizes sizes' : List ℕ} (h : sizes.length = sizes'.length) :
    (LayoutCell.split d g (layPanes d frame offset sizes)).skeleton =
      (LayoutCell.split d g' (layPanes d frame' offset' sizes')).skeleton := by
  rw [skeleton_split, skeleton_split, map_layPanes _ _ _ _ fun _ => rfl,
    map_layPanes _ _ _ _ fun _ => rfl, h]

theorem skeleton_mainSecondary_congr (d : LayoutDirection) (n : ℕ)
    (g g' frame frame' : LayoutGeometry) :
    (mainSecondary d n g frame).skeleton = (mainSecondary d n g' frame').skeleton := by
  unfold mainSecondary
  split_ifs
  · rfl
  · exact skeleton_layPanes_congr (by rw [length_splitAxis, length_splitAxis])

theorem skeleton_tiledRow_congr (g g' : LayoutGeometry)
    (rootWidth rootWidth' columns width width' height height' panesInRow rowY rowY' : ℕ) :
    (tiledRow g rootWidth columns width height panesInRow rowY).skeleton =
      (tiledRow g' rootWidth' columns width' height' panesInRow rowY').skeleton := by
  by_cases hone : panesInRow = 1 ∨ columns = 1
  · rw [tiledRow, tiledRow, if_pos hone, if_pos hone]
    rfl
  · rw [skeleton_tiledRow hone, skeleton_tiledRow hone]
    exact skeleton_layPanes_congr (by rw [length_replicate, length_replicate])

theorem map_skeleton_tiledRows_congr (g g' : LayoutGeometry)
    (rootWidth rootWidth' columns width width' height height' : ℕ) :
    ∀ rows remaining rowY rowY' : ℕ,
      (tiledRows g rootWidth columns width height rows remaining rowY).map skeleton =
        (tiledRows g' rootWidth' columns width' height' rows remaining rowY').map skeleton
  | 0, _, _, _ => rfl
  | rows + 1, remaining, rowY, rowY' => by
    rw [tiledRows, tiledRows]
    split_ifs
    · rfl
    · rw [List.map_cons, List.map_cons, map_skeleton_tiledRows_congr g g' rootWidth rootWidth'
        columns width width' height height' rows, skeleton_tiledRow_congr]

namespace LayoutTree

variable {n : ℕ} (t : LayoutName)

theorem skeleton_buildMain_congr (d : LayoutDirection) (requested : Option ℕ) (default n : ℕ)
    (g g' : LayoutGeometry) (mirrored : Bool) :
    (buildMain d requested default n g mirrored).root.skeleton =
      (buildMain d requested default n g' mirrored).root.skeleton := by
  cases mirrored <;>
  · simp only [buildMain, if_true, if_false, Bool.false_eq_true, skeleton_fixOffsets,
      skeleton_split, map_cons, map_nil]
    rw [skeleton_mainSecondary_congr d n g g']
    rfl

theorem skeleton_buildNamed_congr (n : ℕ) (g g' : LayoutGeometry) (o : LayoutOptions) :
    (buildNamed t n g o).root.skeleton =
      (buildNamed t n g' o).root.skeleton := by
  cases t with
  | evenHorizontal | evenVertical =>
    exact skeleton_layPanes_congr (by rw [length_splitAxis, length_splitAxis])
  | mainHorizontal | mainHorizontalMirrored | mainVertical | mainVerticalMirrored =>
    exact skeleton_buildMain_congr _ _ _ _ _ _ _
  | tiled =>
    simp only [buildNamed, buildTiled, skeleton_fixOffsets, skeleton_split_growLast]
    rw [skeleton_split, skeleton_split]
    exact congrArg _ (map_skeleton_tiledRows_congr _ _ _ _ _ _ _ _ _ _ _ _ _)

/-! ## Soundness -/

theorem shaped_buildNamed (hn : 2 ≤ n) (t : LayoutName) (g : LayoutGeometry)
    (o : LayoutOptions) : Shaped n (buildNamed t n g o).root := by
  cases t with
  | evenHorizontal | evenVertical => exact .layPanes (length_splitAxis ..) hn
  | mainHorizontal | mainHorizontalMirrored | mainVertical | mainVerticalMirrored =>
    exact shaped_buildMain hn
  | tiled => exact shaped_buildTiled hn g o

theorem fills_buildNamed {t : LayoutName} {g : LayoutGeometry} {o : LayoutOptions}
    (hn : 2 ≤ n) (hmax : 2 * n ≤ u32Max) (hi32 : ∀ a, g.axis a ≤ i32Max)
    (hmin : ∀ a, minimumAxis a (buildNamed t n g o).root ≤ g.axis a) :
    Fills g (buildNamed t n g o).root := by
  cases t with
  | evenHorizontal | evenVertical => exact fills_buildEven hn hmax hmin
  | mainHorizontal | mainHorizontalMirrored | mainVertical | mainVerticalMirrored =>
    exact fills_buildMain hn hmax hmin
  | tiled => exact fills_buildTiled hn hmax hi32 hmin

/-- The extent of the tree `named` builds : the window's, or the least that its panes need. -/
def namedGeometry (layout : LayoutName) (n : ℕ) (size : TerminalSize) (options : LayoutOptions) :
    LayoutGeometry :=
  let minimum := (buildNamed layout n ⟨size.cols.toNat, size.rows.toNat, 0, 0⟩
    options).root.minimumSize
  ⟨max size.cols.toNat minimum.1, max size.rows.toNat minimum.2, 0, 0⟩

theorem named_eq {t : LayoutName} {size : TerminalSize} {o : LayoutOptions} (hn : 2 ≤ n) :
    named t n size o =
      { buildNamed t n (namedGeometry t n size o) o with
        root := (buildNamed t n (namedGeometry t n size o)
          o).root.fixOffsets 0 0 } := by
  have hlarge : ∀ {a b : ℕ}, ¬a < b → max a b = a := fun h =>
    max_eq_left (not_lt.mp h)
  rw [named, if_neg (by omega)]
  dsimp only
  split_ifs with h
  · rfl
  · rw [namedGeometry, hlarge (fun hw => h (.inl hw)), hlarge (fun hh => h (.inr hh))]

theorem minimumAxis_le_namedGeometry (n : ℕ) (size : TerminalSize) (o : LayoutOptions)
    (a : LayoutDirection) : minimumAxis a (buildNamed t n (namedGeometry t n size o) o).root ≤
      (namedGeometry t n size o).axis a := by
  rw [minimumAxis_eq_of_skeleton_eq (skeleton_buildNamed_congr t n _
    ⟨size.cols.toNat, size.rows.toNat, 0, 0⟩ o)]
  cases a
  · exact le_max_right _ _
  · exact le_max_right _ _

theorem axis_namedGeometry_le (hn : 2 ≤ n) (hmax : 2 * n ≤ u32Max) (t : LayoutName)
    (size : TerminalSize) (o : LayoutOptions) (a : LayoutDirection) :
    (namedGeometry t n size o).axis a ≤ max u16Max (2 * n - 1) := by
  have hshape := shaped_buildNamed hn t ⟨size.cols.toNat, size.rows.toNat, 0, 0⟩ o
  have hmin := minimumAxis_le (a := a) hshape.branching (by rw [hshape.leafCount]; exact hmax)
  rw [hshape.leafCount] at hmin
  have hcols : size.cols.toNat ≤ u16Max := le_of_lt_succ size.cols.toNat_lt
  have hrw : size.rows.toNat ≤ u16Max := le_of_lt_succ size.rows.toNat_lt
  cases a
  · exact Nat.max_le.mpr ⟨by omega, le_max_of_le_right (le_sub_of_add_le hmin)⟩
  · exact Nat.max_le.mpr ⟨by omega, le_max_of_le_right (le_sub_of_add_le hmin)⟩

theorem axisSize_single_le (size : TerminalSize) (a : LayoutDirection) :
    (single size).root.axisSize a ≤ u16Max := by
  cases a
  · exact le_of_lt_succ size.cols.toNat_lt
  · exact le_of_lt_succ size.rows.toNat_lt

/-- A preset layout has one leaf per pane, is well sized and branching, and is no larger than a
terminal or the least size for its panes. -/
theorem named_sound (hn : 1 ≤ n) (hmax : n ≤ 2 ^ 30) (t : LayoutName) (size : TerminalSize)
    (o : LayoutOptions) : WellSized (named t n size o).root ∧
    Shaped n (named t n size o).root ∧
    ∀ a, (named t n size o).root.axisSize a ≤ max u16Max (2 * n - 1) := by
  by_cases hone : n = 1
  · subst hone
    exact ⟨.pane _, Shaped.pane _, fun a => le_max_of_le_left (axisSize_single_le size a)⟩
  · have hu32 : 2 * n ≤ u32Max := by
      unfold u32Max
      omega
    have hbd := axis_namedGeometry_le (by omega) hu32 t size o
    have hi32 : max u16Max (2 * n - 1) ≤ i32Max := by
      unfold i32Max u16Max
      omega
    have hfills := (fills_buildNamed (by omega) hu32 (fun a => (hbd a).trans hi32)
      (minimumAxis_le_namedGeometry t n size o)).fixOffsets 0 0
    rw [named_eq (by omega)]
    exact ⟨hfills.wellSized, (shaped_buildNamed (by omega) t _ o).of_skeleton_eq
      (skeleton_fixOffsets 0 0 _), fun a => (hfills.axisSize a).symm ▸ hbd a⟩

/-- Only a mirrored layout carries a leaf map. -/
theorem leafMap_named (n : ℕ) (size : TerminalSize) (o : LayoutOptions) :
    (named t n size o).leafMap =
      if 2 ≤ n ∧ (t = .mainHorizontalMirrored ∨ t = .mainVerticalMirrored) then
        some (mirroredLeafMap n)
      else none := by
  by_cases hn : 2 ≤ n
  · rw [named_eq hn]
    cases t <;>
      simp [hn, buildNamed, buildEven, buildMainHorizontal, buildMainVertical, buildMain, buildTiled]
  · rw [named, if_pos (by omega), if_neg (fun h => hn h.1)]
    rfl

end LayoutTree

end Rmux
