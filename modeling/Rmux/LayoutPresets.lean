import Rmux.LayoutLeaves
import Rmux.LayoutSqueeze

/-!
# Preset layouts leave every pane a cell

A preset layout is valid (`ValidPreset`) unless a main layout is asked for a main pane of no columns
or no rows (`named_valid_iff`). `resolveMainPaneSize` leaves a cell for the other panes, but takes
the request for the main pane as it is.
-/

namespace Rmux

open MachineInt LayoutCell List Nat LayoutDirection LayoutTree

variable {n : ℕ} {g : LayoutGeometry} {d a : LayoutDirection} {c : LayoutCell}
  {cs : List LayoutCell}

/-- What a preset layout for `n` panes in a window of `size` promises. -/
structure ValidPreset (n : ℕ) (size : TerminalSize) (t : LayoutTree) : Prop where
  leafCount : t.root.leafCount = n
  check : t.root.check = true
  leavesPositive : LeavesPositive t.root
  extent : ∀ a, t.root.axisSize a =
    max ((⟨size.cols.toNat, size.rows.toNat, 0, 0⟩ : LayoutGeometry).axis a) (minimumAxis a t.root)
  leafMap : ∀ map ∈ t.leafMap, map.Perm (List.range n)

/-- A main layout with a main pane of extent zero is asked for. -/
def EmptyMain (layout : LayoutName) (options : LayoutOptions) : Prop :=
  match layout with
  | .mainVertical | .mainVerticalMirrored => options.requestedMainWidth = some 0
  | .mainHorizontal | .mainHorizontalMirrored => options.requestedMainHeight = some 0
  | .evenHorizontal | .evenVertical | .tiled => False

/-! ## Rows and columns -/

theorem one_le_splitAxis {total count : ℕ} (h : 2 * count ≤ total + 1) :
    ∀ size ∈ splitAxis total count, 1 ≤ size := by
  intro size hsz
  obtain ⟨i, hidx, rfl⟩ := mem_map.mp hsz
  have hcnt : 0 < count := zero_lt_of_lt (mem_range.mp hidx)
  have heach : 1 ≤ (total - (count - 1) * paneBorderCells) / count :=
    (one_le_div_iff hcnt).mpr (by rw [paneBorderCells_eq]; omega)
  split_ifs <;> omega

variable {f : LayoutGeometry}

theorem leavesPositive_layPanes {offset : ℕ} {sizes : List ℕ}
    (hsizes : ∀ size ∈ sizes, 1 ≤ size) (hcr : 1 ≤ f.axis d.flip) :
    ∀ c ∈ layPanes d f offset sizes, LeavesPositive c := by
  induction sizes generalizing offset with
  | nil => exact nofun
  | cons size sizes ih =>
    rw [forall_mem_cons] at hsizes
    rw [layPanes, forall_mem_cons]
    refine ⟨leavesPositive_pane.mpr fun a => ?_, ih hsizes.2⟩
    rcases eq_or_eq_flip a d with rfl | rfl
    · simpa using hsizes.1
    · simpa using hcr

theorem leavesPositive_buildEven (hn : 2 ≤ n) (hmax : 2 * n ≤ u32Max)
    (hmin : ∀ a, minimumAxis a (LayoutTree.buildEven d n g).root ≤ g.axis a) :
    LeavesPositive (LayoutTree.buildEven d n g).root := by
  have hfit := minimumAxis_buildEven hn hmax d g
  have hle := hmin d
  exact leavesPositive_split.mpr (leavesPositive_layPanes (one_le_splitAxis (by omega))
    ((one_le_minimumAxis d.flip _).trans (hmin d.flip)))

/-! ## A main pane -/

/-- The main pane leaves a cell for the others, and has one itself unless none was requested. -/
theorem resolveMainPaneSize_spec {total default : ℕ} (requested : Option ℕ) (htotal : 3 ≤ total)
    (hmax : total ≤ i32Max) (hdefault : 1 ≤ default) :
    resolveMainPaneSize total requested default + 2 ≤ total ∧
      (1 ≤ resolveMainPaneSize total requested default ↔ requested ≠ some 0) := by
  have hz : requested ≠ some 0 ↔ 1 ≤ requested.getD default := by
    rcases requested with _ | _ | size <;> simp [hdefault]
  rw [hz]
  generalize hsz : resolveMainPaneSize total requested default = size
  rw [resolveMainPaneSize, paneBorderCells_eq, paneMinimum_eq] at hsz
  split at hsz
  · split at hsz <;> simp only [satAdd, satMul, u32Max, i32Max] at * <;> omega
  · simp only [satAdd, u32Max, i32Max] at *
    omega

theorem leavesPositive_mainSecondary (hfr : ∀ a, 1 ≤ f.axis a)
    (hfit : 2 * n ≤ g.axis d.flip + 3) : LeavesPositive (mainSecondary d n g f) := by
  unfold mainSecondary
  split_ifs
  · exact leavesPositive_pane.mpr hfr
  · refine leavesPositive_split.mpr (leavesPositive_layPanes (one_le_splitAxis (by omega)) ?_)
    rw [LayoutDirection.flip_flip]
    exact hfr d

theorem three_le_minimumAxis_pair {a b : LayoutCell}
    (hmax : minimumAxis d a + minimumAxis d b + 2 ≤ u32Max) :
    3 ≤ minimumAxis d (.split d g [a, b]) := by
  have ha := one_le_minimumAxis d a
  have hb := one_le_minimumAxis d b
  have := minimumAxis_split (g := g) (cons_ne_nil a [b]) (by simpa using hmax)
  simp at this
  omega

theorem leavesPositive_buildMain_iff {requested : Option ℕ} {default : ℕ} {mirrored : Bool}
    (hn : 2 ≤ n) (hmax : 2 * n ≤ u32Max) (hdefault : 1 ≤ default) (hi32 : ∀ a, g.axis a ≤ i32Max)
    (hmin : ∀ a, minimumAxis a (LayoutTree.buildMain d requested default n g mirrored).root ≤
      g.axis a) : LeavesPositive (LayoutTree.buildMain d requested default n g mirrored).root ↔
      requested ≠ some 0 := by
  have hfit := (minimumAxis_buildMain hn hmax).trans (Nat.add_le_add_right (hmin d.flip) 3)
  have hlg := hmin d
  obtain ⟨main, f, cs, hcs, hrt, hmain, hfr, hmc, hframecross⟩ :=
    root_buildMain d requested default n g mirrored
  obtain ⟨k, rfl⟩ : ∃ k, n = k + 1 := ⟨n - 1, by omega⟩
  have hthree : 3 ≤ g.axis d := by
    have hshape := shaped_mainSecondary (by omega : 1 ≤ k) d g f
    have hsm := minimumAxis_le (a := d) hshape.branching (by rw [hshape.leafCount]; omega)
    have hp : minimumAxis d (.pane main) = 1 := rfl
    rw [hshape.leafCount] at hsm
    rw [hrt, minimumAxis_eq_of_skeleton_eq (skeleton_fixOffsets _ _ _)] at hlg
    refine le_trans ?_ hlg
    rcases hcs with rfl | rfl <;> exact three_le_minimumAxis_pair (by omega)
  obtain ⟨hle, hiff⟩ := resolveMainPaneSize_spec requested hthree (hi32 d) hdefault
  have ho : LeavesPositive (mainSecondary d (k + 1) g f) := by
    refine leavesPositive_mainSecondary (fun a => ?_) hfit
    rcases eq_or_eq_flip a d with rfl | rfl <;> omega
  have hp : LeavesPositive (.pane main) ↔ 1 ≤ main.axis d := by
    rw [leavesPositive_pane]
    refine ⟨fun h => h d, fun h a => ?_⟩
    rcases eq_or_eq_flip a d with rfl | rfl <;> omega
  rw [hrt, leavesPositive_fixOffsets, leavesPositive_split, ← hiff, ← hmain, ← hp]
  rcases hcs with rfl | rfl <;> simp [ho]

/-! ## Grids -/

theorem leavesPositive_growLast {extra : ℕ} (h : ∀ c ∈ cs, LeavesPositive c)
    (hmax : extra ≤ i32Max) : ∀ c ∈ growLast d extra cs, LeavesPositive c := by
  unfold growLast
  split_ifs
  · rw [asI32_eq hmax]
    cases hl : cs[cs.length - 1]? with
    | none =>
      rw [modify_eq_self (getElem?_eq_none_iff.mp hl)]
      exact h
    | some last =>
      exact forall_mem_modify hl _ h ((h last (mem_of_getElem? hl)).resizeAdjust (by omega))
  · exact h

theorem leavesPositive_tiledRow {rootWidth cols width height panesInRow rowY : ℕ}
    (hwid : 1 ≤ width) (hheight : 1 ≤ height) (hg : 1 ≤ g.width) (hmax : g.width ≤ i32Max) :
    LeavesPositive (tiledRow g rootWidth cols width height panesInRow rowY) := by
  have hfr : ∀ a, 1 ≤ (⟨g.width, height, 0, rowY⟩ : LayoutGeometry).axis a := fun a => by
    cases a
    · exact hg
    · exact hheight
  unfold tiledRow
  split_ifs
  · exact leavesPositive_pane.mpr hfr
  · refine leavesPositive_split.mpr (leavesPositive_growLast (leavesPositive_layPanes ?_ ?_)
      ((sub_le _ _).trans hmax))
    · intro size hsz
      rwa [eq_of_mem_replicate hsz]
    · exact hfr .topBottom

theorem leavesPositive_buildTiled {o : LayoutOptions} (hn : 2 ≤ n)
    (hi32 : ∀ a, g.axis a ≤ i32Max) (hpos : ∀ a, 1 ≤ g.axis a) :
    LeavesPositive (LayoutTree.buildTiled n g o).root := by
  obtain ⟨-, -, hcol, -⟩ := tiledGridSize_spec hn
    ((o.tiledMaxColumns.filter (0 < ·)).map UInt16.toNat)
  unfold buildTiled
  refine (leavesPositive_fixOffsets 0 0).mpr (leavesPositive_split.mpr
    (leavesPositive_growLast (fun c hc => ?_) ((sub_le _ _).trans (hi32 .topBottom))))
  obtain ⟨p, y, -, -, -, rfl⟩ := mem_tiledRows hcol hc
  exact leavesPositive_tiledRow (le_max_right _ _) (le_max_right _ _) (hpos .leftRight)
    (hi32 .leftRight)

/-! ## All presets -/

theorem leavesPositive_buildNamed_iff {t : LayoutName} {options : LayoutOptions} (hn : 2 ≤ n)
    (hmax : 2 * n ≤ u32Max) (hi32 : ∀ a, g.axis a ≤ i32Max)
    (hmin : ∀ a, minimumAxis a (LayoutTree.buildNamed t n g options).root ≤ g.axis a) :
    LeavesPositive (LayoutTree.buildNamed t n g options).root ↔ ¬ EmptyMain t options := by
  have hz : ∀ requested : Option UInt16,
      requested.map UInt16.toNat ≠ some 0 ↔ requested ≠ some 0 := by
    rintro (_ | size) <;> simp [← UInt16.toNat_inj]
  cases t with
  | evenHorizontal | evenVertical =>
    exact iff_of_true (leavesPositive_buildEven hn hmax hmin) id
  | mainHorizontal | mainHorizontalMirrored | mainVertical | mainVerticalMirrored =>
    exact (leavesPositive_buildMain_iff hn hmax (by decide) hi32 hmin).trans (hz _)
  | tiled =>
    exact iff_of_true (leavesPositive_buildTiled hn hi32
      fun a => (one_le_minimumAxis a _).trans (hmin a)) id

/-- Up to its offsets, a preset for two panes or more is built for the extent it needs. -/
theorem named_spec (hn : 2 ≤ n) (hmax : n ≤ 2 ^ 30) (t : LayoutName) (size : TerminalSize)
    (o : LayoutOptions) (a : LayoutDirection) :
    (LeavesPositive (LayoutTree.named t n size o).root ↔ ¬ EmptyMain t o) ∧
    (LayoutTree.named t n size o).root.axisSize a =
      max ((⟨size.cols.toNat, size.rows.toNat, 0, 0⟩ : LayoutGeometry).axis a)
        (minimumAxis a (LayoutTree.named t n size o).root) := by
  have hu32 : 2 * n ≤ u32Max := by
    unfold u32Max
    omega
  have hi32 : ∀ a, (namedGeometry t n size o).axis a ≤ i32Max := fun a =>
    (axis_namedGeometry_le hn hu32 t size o a).trans (by
      unfold i32Max u16Max
      omega)
  have hmin := minimumAxis_le_namedGeometry t n size o
  rw [named_eq hn, leavesPositive_fixOffsets, axisSize_fixOffsets,
    minimumAxis_eq_of_skeleton_eq (skeleton_fixOffsets 0 0 _),
    (fills_buildNamed hn hu32 hi32 hmin).axisSize a,
    minimumAxis_eq_of_skeleton_eq (skeleton_buildNamed_congr t n _ ⟨size.cols.toNat,
    size.rows.toNat, 0, 0⟩ o)]
  exact ⟨leavesPositive_buildNamed_iff hn hu32 hi32 hmin, by cases a <;> rfl⟩

theorem named_valid_iff {layout : LayoutName} {size : TerminalSize} {options : LayoutOptions}
    (hn : 1 ≤ n) (hmax : n ≤ 2 ^ 30) (hcols : 1 ≤ size.cols) (hrows : 1 ≤ size.rows) :
    ValidPreset n size (LayoutTree.named layout n size options) ↔
      (2 ≤ n → ¬ EmptyMain layout options) := by
  obtain ⟨hw, hshape, hbound⟩ := named_sound hn hmax layout size options
  have hcheck := hw.check fun a => (hbound a).trans_lt (by unfold u16Max u32Max; omega)
  have hmap : ∀ map ∈ (named layout n size options).leafMap,
      map.Perm (range n) := by
    have hleafed := Leafed.named hn layout size options
    exact fun map hmap => hleafed.leafCount ▸ hleafed.leafMapFits map hmap
  obtain rfl | htwo : n = 1 ∨ 2 ≤ n := by omega
  · have hsize : ∀ a, 1 ≤ (⟨size.cols.toNat, size.rows.toNat, 0, 0⟩ : LayoutGeometry).axis a := by
      rintro (_ | _)
      · exact UInt16.le_iff_toNat_le.mp hcols
      · exact UInt16.le_iff_toNat_le.mp hrows
    exact iff_of_true ⟨hshape.leafCount, hcheck, leavesPositive_pane.mpr hsize,
      fun a => (max_eq_left (hsize a)).symm, hmap⟩ (by omega)
  · have hspec := named_spec htwo hmax layout size options
    exact ⟨fun h _ => (hspec .leftRight).1.mp h.leavesPositive, fun h => ⟨hshape.leafCount, hcheck,
      (hspec .leftRight).1.mpr (h htwo), fun a => (hspec a).2, hmap⟩⟩

/-- A grid of five panes in a window of one column and one row. -/
theorem named_valid_tiled : ValidPreset 5 ⟨1, 1⟩ (LayoutTree.named .tiled 5 ⟨1, 1⟩ {}) :=
  (named_valid_iff (by decide) (by decide) (by decide) (by decide)).mpr fun _ => id

/-- A main pane of no columns. -/
theorem named_main_empty :
    let t := LayoutTree.named .mainVertical 2 ⟨80, 24⟩ { requestedMainWidth := some 0 }
    t.root.leafGeometries = [⟨0, 24, 0, 0⟩, ⟨79, 24, 1, 0⟩] ∧ ¬ValidPreset 2 ⟨80, 24⟩ t := by
  refine ⟨by decide, fun hvalid => ?_⟩
  exact absurd hvalid.leavesPositive (by decide)

end Rmux
