import Rmux.LayoutResize

/-!
# Panes

The layout tree assigns the rectangles of panes (`pane.rs`) : the pane at position `i` gets the
`i`th leaf, or the leaf that a mirrored layout's leaf map gives it (`LayoutTree::apply_to_panes`).
Timestamps are left out : no modelled function reads them.
-/

namespace Rmux

open MachineInt LayoutCell List

/-- Errors, as far as the modelled functions return them. -/
inductive RmuxError
  | server (text : String)
  | message (text : String)
  | invalidTarget (value reason : String)
  deriving DecidableEq

abbrev PaneId := UInt32

/-- The rectangle of a pane. -/
structure PaneGeometry where
  x : UInt16
  y : UInt16
  cols : UInt16
  rows : UInt16
  deriving DecidableEq

/-- The rectangle of a leaf, capped to terminal coordinates. -/
def LayoutGeometry.toPane (g : LayoutGeometry) : PaneGeometry :=
  ⟨capU16 g.x, capU16 g.y, capU16 g.width, capU16 g.height⟩

/-- A pane keeps a stable identity, a display index within its window and its rectangle. -/
structure Pane where
  id : PaneId
  index : ℕ
  geometry : PaneGeometry
  /-- How recently the pane was made active, within its window. -/
  activePoint : ℕ := 0
  deriving DecidableEq

namespace LayoutTree

variable (t : LayoutTree) (ps : List Pane)

/-- The rectangle the tree gives to the pane at a position. -/
def paneGeometry (t : LayoutTree) (position : ℕ) : Option PaneGeometry := do
  let leaf ← t.leafOf position
  let g ← t.root.leafGeometries[leaf]?
  some g.toPane

/-- Give every pane its rectangle. The source indexes without a check : `paneGeometry_isSome`
says that every pane has a leaf when the counts agree. -/
def applyToPanes (t : LayoutTree) (panes : List Pane) : List Pane :=
  panes.mapIdx fun position pane =>
    { pane with geometry := (t.paneGeometry position).getD pane.geometry }

/-! ## Identities are kept -/

@[simp] theorem length_applyToPanes : (t.applyToPanes ps).length = ps.length := length_mapIdx

theorem getElem?_applyToPanes (i : ℕ) : (t.applyToPanes ps)[i]? =
      ps[i]?.map fun pane => { pane with geometry := (t.paneGeometry i).getD pane.geometry } :=
  getElem?_mapIdx

/-- What does not depend on the rectangle is the same before and after. -/
theorem map_applyToPanes {α : Type*} (f : Pane → α)
    (hf : ∀ pane g, f { pane with geometry := g } = f pane) :
    (t.applyToPanes ps).map f = ps.map f := by
  refine ext_getElem? fun i => ?_
  rw [getElem?_map, getElem?_map, getElem?_applyToPanes, Option.map_map]
  exact Option.map_congr fun pane _ => hf pane _

@[simp] theorem map_id_applyToPanes : (t.applyToPanes ps).map Pane.id = ps.map Pane.id :=
  t.map_applyToPanes ps Pane.id fun _ _ => rfl

@[simp] theorem map_index_applyToPanes : (t.applyToPanes ps).map Pane.index = ps.map Pane.index :=
  t.map_applyToPanes ps Pane.index fun _ _ => rfl

/-! ## The rectangles -/

/-- Positions with a leaf : all of them without a leaf map, those of a permutation with one. -/
def LeafMapFits (t : LayoutTree) : Prop :=
  ∀ map, t.leafMap = some map → map.Perm (List.range t.leafCount)

theorem paneGeometry_isSome {t : LayoutTree} (h : t.LeafMapFits) {i : ℕ} (hi : i < t.leafCount) :
    (t.paneGeometry i).isSome := by
  have hleaf : ∃ leaf, t.leafOf i = some leaf ∧ leaf < t.leafCount := by
    unfold leafOf
    cases hmap : t.leafMap with
    | none => exact ⟨i, rfl, hi⟩
    | some map =>
      have hperm := h map hmap
      have hlen : i < map.length := by rwa [hperm.length_eq, length_range]
      exact ⟨map[i], getElem?_eq_getElem hlen, mem_range.mp (hperm.mem_iff.mp (getElem_mem hlen))⟩
  obtain ⟨leaf, hleaf, hlt⟩ := hleaf
  have hg : leaf < t.root.leafGeometries.length := by rwa [length_leafGeometries]
  simp [paneGeometry, hleaf, getElem?_eq_getElem hg]

end LayoutTree

end Rmux
