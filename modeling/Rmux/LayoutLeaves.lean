import Rmux.LayoutNamed
import Rmux.LayoutParser

/-!
# Trees for a number of panes

A tree for `n` panes is kept by every operation on trees, whatever the extents are (`Leafed`). That
the extents fit together (`TreeOk`) is not kept by splitting a whole side and spreading, nor by
trees of more than `2 ^ 30` panes. `TreeClosed` collects what the operations on windows need of such
a property.
-/

namespace Rmux

open MachineInt LayoutCell List LayoutTree

/-! ## One leaf for every pane -/

/-- The shape of a mirrored main layout : the main pane comes after the cell with the others. -/
def MirroredMain (c : LayoutCell) : Prop := ∃ d g others main, c = .split d g [others, .pane main]

theorem MirroredMain.of_skeleton_eq {c c' : LayoutCell} (h : MirroredMain c)
    (hs : c'.skeleton = c.skeleton) : MirroredMain c' := by
  obtain ⟨d, g, others, main, rfl⟩ := h
  cases c' with
  | pane g' => simp [skeleton] at hs
  | split d' g' cs =>
    rw [skeleton_split, skeleton_split, split.injEq] at hs
    obtain ⟨rfl, -, hs⟩ := hs
    obtain ⟨a, r, rfl, -, hr⟩ := map_eq_cons_iff.mp hs
    obtain ⟨b, r, rfl, hb, hr⟩ := map_eq_cons_iff.mp hr
    rw [map_eq_nil_iff.mp hr]
    cases b with
    | pane main' => exact ⟨d', g', a, main', rfl⟩
    | split => simp [skeleton] at hb

/-- What a window with `n` panes relies on : a leaf for every pane, a leaf map only on a mirrored main
layout, and offsets that follow from the extents. -/
structure Leafed (t : LayoutTree) (n : ℕ) : Prop where
  leafCount : t.root.leafCount = n
  leafMap : t.leafMap = none ∨
    2 ≤ n ∧ t.leafMap = some (mirroredLeafMap n) ∧ MirroredMain t.root
  offsets : t.root.fixOffsets 0 0 = t.root

theorem mirroredLeafMap_perm (n : ℕ) : (mirroredLeafMap n).Perm (List.range n) := by
  unfold mirroredLeafMap
  split_ifs with h
  · obtain ⟨m, rfl⟩ : ∃ m, n = m + 1 := ⟨n - 1, by omega⟩
    rw [Nat.add_sub_cancel, range_succ]
    exact (perm_append_singleton m _).symm
  · exact List.Perm.refl _

namespace LayoutTree

/-- The size of a tree is that of its root. -/
theorem size_eq_of_axisSize {t t' : LayoutTree}
    (h : ∀ a, t'.root.axisSize a = t.root.axisSize a) : t'.size = t.size := by
  have hw : t'.root.geometry.width = t.root.geometry.width := h .leftRight
  have hh : t'.root.geometry.height = t.root.geometry.height := h .topBottom
  rw [size, size, hw, hh]

@[simp] theorem size_single (size : TerminalSize) : (single size).size = size := by
  simp [single, LayoutTree.size]

/-- What splitting a whole side does, whatever the extents are. -/
theorem splitRoot_frame {t t' : LayoutTree} {d : LayoutDirection} {before : Bool}
    (h : t.splitRoot d before = some t') : (∀ a, t'.root.axisSize a = t.root.axisSize a) ∧
      t'.root.leafCount = t.root.leafCount + 1 ∧ t'.leafMap = none ∧
      t'.root.fixOffsets 0 0 = t'.root := by
  unfold splitRoot at h
  dsimp only at h
  split_ifs at h with hsm hbef
  all_goals
    cases h
    refine ⟨fun a => ?_, ?_, rfl, fixOffsets_fixOffsets _ 0 0 0 0⟩
    · rw [axisSize_fixOffsets]
      rfl
    · simp [leafCount_split, Nat.add_comm]

end LayoutTree

theorem map_skeleton_spreadChildren (d : LayoutDirection) (each remainder : ℕ)
    (cs : List LayoutCell) :
    (spreadChildren d each remainder cs).1.map skeleton = cs.map skeleton := by
  induction cs generalizing remainder with
  | nil => rfl
  | cons c cs ih =>
    rw [spreadChildren]
    generalize wrapI32 (asI32 (if 0 < remainder then wrapAdd each 1 else each) -
      asI32 (c.axisSize d)) = delta
    dsimp only
    by_cases hz : delta = 0
    · rw [if_pos hz, map_cons, map_cons, ih]
    · rw [if_neg hz, map_cons, map_cons, ih, skeleton_resizeAdjust]

theorem keepsFrame_spread (c : LayoutCell) : KeepsFrame c c.spread.1 := by
  cases c with
  | pane g => exact .refl _
  | split d g cs =>
    have hch : ∀ each remainder,
        KeepsFrame (.split d g cs) (.split d g (spreadChildren d each remainder cs).1) := by
      intro each remainder
      refine ⟨fun _ => rfl, ?_⟩
      rw [skeleton_split, skeleton_split, map_skeleton_spreadChildren]
    simp only [spread]
    split_ifs
    · exact .refl _
    · exact .refl _
    · exact .refl _
    · exact hch _ _

/-- What spreading does, whatever the extents are. -/
theorem LayoutTree.spreadFromLeaf_frame {t t' : LayoutTree} {i : ℕ}
    (h : t.spreadFromLeaf i = some t') :
    KeepsFrame t.root t'.root ∧ t'.leafMap = t.leafMap ∧ t'.root.fixOffsets 0 0 = t'.root := by
  have halong : ∀ (path : List ℕ) (depth : ℕ) (root : LayoutCell),
      spreadAlong t.root path depth = some root →
      KeepsFrame t.root root ∧ root.fixOffsets 0 0 = root := by
    intro path depth
    induction depth with
    | zero => simp [spreadAlong]
    | succ depth ih =>
      intro root hrt
      rw [spreadAlong] at hrt
      cases hc : cellAtPath (path.take depth) t.root with
      | none => exact ih root (by simpa [hc] using hrt)
      | some cell =>
        obtain ⟨fill, n, hf⟩ := exists_focus hc
        simp only [hc, hf.setAtPath_eq] at hrt
        split_ifs at hrt
        · cases hrt
          exact ⟨((keepsFrame_spread cell).fill hf).fixOffsets 0 0, fixOffsets_fixOffsets _ 0 0 0 0⟩
        · exact ih root hrt
  unfold spreadFromLeaf at h
  cases hp : t.root.leafPaths[i]? with
  | none => simp [hp] at h
  | some path =>
    simp only [hp, Option.map_eq_some_iff] at h
    obtain ⟨root, hrt, rfl⟩ := h
    obtain ⟨hkeeps, hoffs⟩ := halong path path.length root hrt
    exact ⟨hkeeps, rfl, hoffs⟩

namespace Leafed

variable {t t' : LayoutTree} {n : ℕ} {i : ℕ} {d : LayoutDirection}

theorem leafMapFits (h : Leafed t n) : t.LeafMapFits := by
  intro map hmap
  rw [LayoutTree.leafCount, h.leafCount]
  rcases h.leafMap with hn | ⟨-, hs, -⟩
  · rw [hmap] at hn
    cases hn
  · rw [hmap] at hs
    cases hs
    exact mirroredLeafMap_perm n

/-- A tree of the same shape. -/
theorem of_skeleton_eq (h : Leafed t n) (hs : t'.root.skeleton = t.root.skeleton)
    (hmap : t'.leafMap = t.leafMap) (hoffs : t'.root.fixOffsets 0 0 = t'.root) : Leafed t' n := by
  refine ⟨?_, ?_, hoffs⟩
  · rw [← leafCount_skeleton, hs, leafCount_skeleton, h.leafCount]
  · rw [hmap]
    exact h.leafMap.imp_right fun ⟨hn, hsome, hmain⟩ => ⟨hn, hsome, hmain.of_skeleton_eq hs⟩

theorem single (size : TerminalSize) : Leafed (.single size) 1 := ⟨rfl, .inl rfl, rfl⟩

theorem resize (h : Leafed t n) (size : TerminalSize) : Leafed (t.resize size) n := by
  refine h.of_skeleton_eq ?_ (leafMap_resize t size) ?_
  · rw [root_resize, skeleton_fixOffsets, skeleton_resizeAxis, skeleton_resizeAxis]
  · rw [root_resize]
    exact fixOffsets_fixOffsets _ 0 0 0 0

theorem mirroredMain_buildMain (d : LayoutDirection) (requested : Option ℕ) (default n : ℕ)
    (g : LayoutGeometry) : MirroredMain (LayoutTree.buildMain d requested default n g true).root :=
  MirroredMain.of_skeleton_eq ⟨d, g, _, _, rfl⟩ (skeleton_fixOffsets 0 0 _)

theorem named (hn : 1 ≤ n) (layout : LayoutName) (size : TerminalSize)
    (o : LayoutOptions) : Leafed (.named layout n size o) n := by
  by_cases hone : n = 1
  · subst hone
    exact single size
  have htwo : 2 ≤ n := by omega
  have hmap := leafMap_named layout n size o
  rw [named_eq htwo] at hmap ⊢
  refine ⟨?_, ?_, fixOffsets_fixOffsets _ 0 0 0 0⟩
  · rw [leafCount_fixOffsets]
    exact (shaped_buildNamed htwo layout _ o).leafCount
  · rw [hmap]
    split_ifs with hmirrored
    · refine .inr ⟨htwo, rfl, MirroredMain.of_skeleton_eq ?_ (skeleton_fixOffsets 0 0 _)⟩
      rcases hmirrored.2 with rfl | rfl
      · exact mirroredMain_buildMain _ _ _ _ _
      · exact mirroredMain_buildMain _ _ _ _ _
    · exact .inl rfl

theorem splitLeaf (h : Leafed t n) (ht : t.splitLeaf i d = some t') : Leafed t' (n + 1) := by
  obtain ⟨-, hcnt, hoffs⟩ := splitLeaf_frame ht
  obtain ⟨p, g, fill, halves, -, -, hcases⟩ := splitLeaf_cases ht
  refine ⟨by rw [hcnt, h.leafCount], .inl ?_, hoffs⟩
  rcases hcases with ⟨-, hn | ⟨⟨g, hg⟩, hsm⟩⟩ | ⟨-, -, -, -, -, -, -, -, hn⟩
  · exact hn
  · -- A lone pane has no leaf map, so leaving the leaf map as it is does no harm.
    have hone := h.leafCount
    rw [hg, leafCount_pane] at hone
    rcases h.leafMap with hn | ⟨htwo, -⟩
    · exact hsm.trans hn
    · omega
  · exact hn

theorem splitRoot {before : Bool} (h : Leafed t n) (ht : t.splitRoot d before = some t') :
    Leafed t' (n + 1) := by
  obtain ⟨-, hcnt, hmap, hoffs⟩ := splitRoot_frame ht
  exact ⟨by rw [hcnt, h.leafCount], .inl hmap, hoffs⟩

theorem removeLeaf (h : Leafed t (n + 1)) (ht : t.removeLeaf i = some t') : Leafed t' n := by
  obtain ⟨-, hcnt, hmap, hoffs⟩ := removeLeaf_frame ht
  rw [h.leafCount] at hcnt
  exact ⟨Nat.succ.inj hcnt, .inl hmap, hoffs⟩

theorem movedBy (h : Leafed t n) (ht : LayoutTree.MovedBy d t t') : Leafed t' n :=
  h.of_skeleton_eq ht.keepsFrame.skeleton ht.leafMap ht.fixOffsets

theorem spreadFromLeaf (h : Leafed t n) (ht : t.spreadFromLeaf i = some t') : Leafed t' n := by
  obtain ⟨hkeeps, hmap, hoffs⟩ := spreadFromLeaf_frame ht
  exact h.of_skeleton_eq hkeeps.skeleton hmap hoffs

theorem parse {layout : String} (h : LayoutTree.parse layout n = .ok t) : Leafed t n := by
  obtain ⟨body, hb⟩ := LayoutParser.parse_eq_ok h
  obtain ⟨c, -, -, hcnt, rfl⟩ := LayoutParser.parseBody_spec hb
  refine ⟨?_, .inl rfl, fixOffsets_fixOffsets _ 0 0 0 0⟩
  rw [leafCount_fixOffsets, hcnt]

end Leafed

/-! ## Extents that fit together -/

/-- A sound tree for `n` panes. -/
structure TreeOk (t : LayoutTree) (n : ℕ) : Prop extends Leafed t n where
  wellSized : WellSized t.root
  branching : Branching t.root
  extent : ∀ a, t.root.axisSize a ≤ i32Max

namespace TreeOk

variable {t t' : LayoutTree} {n : ℕ}

theorem single (size : TerminalSize) : TreeOk (.single size) 1 :=
  ⟨.single size, .pane _, .pane _, fun a =>
    (axisSize_single_le size a).trans (by decide)⟩

theorem resize (h : TreeOk t n) (size : TerminalSize) : TreeOk (t.resize size) n := by
  obtain ⟨hw, hs, hext, -⟩ := resize_sound size h.wellSized h.extent
  refine ⟨h.toLeafed.resize size, hw, h.branching.of_skeleton_eq hs, fun a => (hext a).trans ?_⟩
  exact Nat.max_le.mpr ⟨by decide, h.extent a⟩

theorem named (hn : 1 ≤ n) (hmax : n ≤ 2 ^ 30) (layout : LayoutName) (size : TerminalSize)
    (o : LayoutOptions) : TreeOk (.named layout n size o) n := by
  obtain ⟨hw, hs, hext⟩ := named_sound hn hmax layout size o
  refine ⟨.named hn layout size o, hw, hs.branching, fun a => (hext a).trans ?_⟩
  unfold i32Max u16Max
  omega

theorem splitLeaf {i : ℕ} {d : LayoutDirection} (h : TreeOk t n)
    (ht : t.splitLeaf i d = some t') : TreeOk t' (n + 1) := by
  obtain ⟨hw, hb⟩ := splitLeaf_sound ht h.wellSized h.branching
  exact ⟨h.toLeafed.splitLeaf ht, hw, hb, fun a => ((splitLeaf_frame ht).1 a).trans_le (h.extent a)⟩

theorem removeLeaf {i : ℕ} (h : TreeOk t (n + 1)) (ht : t.removeLeaf i = some t') :
    TreeOk t' n := by
  obtain ⟨hw, hb⟩ := removeLeaf_sound ht h.wellSized h.branching h.extent
  exact ⟨h.toLeafed.removeLeaf ht, hw, hb,
    fun a => ((removeLeaf_frame ht).1 a).trans_le (h.extent a)⟩

theorem movedBy {d : LayoutDirection} (h : TreeOk t n) (ht : LayoutTree.MovedBy d t t') :
    TreeOk t' n := by
  have hr := ht.refits h.wellSized h.extent
  exact ⟨h.toLeafed.movedBy ht, hr.wellSized, h.branching.of_skeleton_eq hr.skeleton,
    fun a => (hr.axisSize a).trans_le (h.extent a)⟩

end TreeOk

/-! ## Properties the operations keep -/

/-- A property of the size of a window, its tree and the number of its panes that the operations
on trees keep, as long as preset layouts are built for a number of panes that satisfies `B`. -/
structure TreeClosed (B : ℕ → Prop) (P : TerminalSize → LayoutTree → ℕ → Prop) : Prop where
  leafed : ∀ {s t n}, P s t n → Leafed t n
  single : ∀ s, P s (.single s) 1
  resize : ∀ {s t n}, P s t n → ∀ s', P (t.resize s').size (t.resize s') n
  named : ∀ {n}, 1 ≤ n → B n → ∀ layout s options,
    P (LayoutTree.named layout n s options).size (.named layout n s options) n
  splitLeaf : ∀ {s t t' n i d}, P s t n → t.splitLeaf i d = some t' → P s t' (n + 1)
  removeLeaf : ∀ {s t t' n i}, P s t (n + 1) → t.removeLeaf i = some t' → P s t' n
  movedBy : ∀ {s t t' n d}, P s t n → LayoutTree.MovedBy d t t' → P s t' n

/-- A tree with a leaf for every pane, in a window of the size of its root. -/
def LeafedIn (s : TerminalSize) (t : LayoutTree) (n : ℕ) : Prop := Leafed t n ∧ s = t.size

/-- A sound tree, in a window of the size of its root. -/
def TreeOkIn (s : TerminalSize) (t : LayoutTree) (n : ℕ) : Prop := TreeOk t n ∧ s = t.size

open LayoutTree in
theorem treeClosed_leafedIn : TreeClosed (fun _ => True) LeafedIn where
  leafed h := h.1
  single s := ⟨.single s, (size_single s).symm⟩
  resize h s := ⟨h.1.resize s, rfl⟩
  named hn _ layout s options := ⟨.named hn layout s options, rfl⟩
  splitLeaf h ht :=
    ⟨h.1.splitLeaf ht, h.2.trans (size_eq_of_axisSize (splitLeaf_frame ht).1).symm⟩
  removeLeaf h ht :=
    ⟨h.1.removeLeaf ht, h.2.trans (size_eq_of_axisSize (removeLeaf_frame ht).1).symm⟩
  movedBy h ht := ⟨h.1.movedBy ht, h.2.trans (size_eq_of_axisSize ht.keepsFrame.axisSize).symm⟩

open LayoutTree in
theorem treeClosed_treeOkIn : TreeClosed (· ≤ 2 ^ 30) TreeOkIn where
  leafed h := h.1.toLeafed
  single s := ⟨.single s, (size_single s).symm⟩
  resize h s := ⟨h.1.resize s, rfl⟩
  named hn hmax layout s options := ⟨.named hn hmax layout s options, rfl⟩
  splitLeaf h ht :=
    ⟨h.1.splitLeaf ht, h.2.trans (size_eq_of_axisSize (splitLeaf_frame ht).1).symm⟩
  removeLeaf h ht :=
    ⟨h.1.removeLeaf ht, h.2.trans (size_eq_of_axisSize (removeLeaf_frame ht).1).symm⟩
  movedBy h ht := ⟨h.1.movedBy ht, h.2.trans (size_eq_of_axisSize ht.keepsFrame.axisSize).symm⟩

end Rmux
