import Rmux.WindowOps

/-!
# The layout invariant of a window

Whatever is done to a window, its tree has a leaf for every pane and the extents in it fit together
exactly (`layout_invariant`). Changes of extents are signed 32-bit numbers, so this holds as long as
no window has more than 2 ^ 30 panes. With one pane more, a layout of panes side by side is wider
than a signed number can say, and resizing it breaks the tree (`layout_invariant_fails_beyond`).
-/

namespace Rmux

open MachineInt LayoutCell Relation List Nat Window LayoutTree

variable {w : Window} {g : LayoutGeometry}

/-! ## Runs -/

/-- One operation of a window. -/
inductive LayoutStep (w : Window) : Window → Prop
  | split (position : ℕ) (paneId : PaneId) (direction : SplitDirection) (before detached : Bool)
      (hposition : position < w.panes.length) (hfresh : paneId ∉ w.panes.map Pane.id) :
      LayoutStep w
        (w.splitAtPositionWithIdAndDirectionDetached position paneId direction before detached)
  | extractPane (paneIndex : ℕ) (htwo : 2 ≤ w.panes.length) :
      LayoutStep w (w.extractPane paneIndex).2
  | removePane (paneIndex : ℕ) : LayoutStep w (w.removePane paneIndex).2
  | removeOtherPanes (paneIndex : ℕ) : LayoutStep w (w.removeOtherPanes paneIndex).2
  | movePane (source target position : ℕ) (direction : SplitDirection) (before : Bool)
      (moved : PaneId)
      (hok : (w.movePaneBySplittingTarget source target position direction before).1 =
        .ok moved) :
      LayoutStep w (w.movePaneBySplittingTarget source target position direction before).2
  | swapPanes (source target : ℕ) : LayoutStep w (w.swapPanes source target).2
  | rotatePanes (direction : RotateWindowDirection) : LayoutStep w (w.rotatePanes direction)
  | resizePaneTo (paneIndex : ℕ) (direction : SplitDirection) (newSize : ℕ) :
      LayoutStep w (w.resizePaneTo paneIndex direction newSize).2
  | resizePaneBy (paneIndex : ℕ) (adjustment : ResizePaneAdjustment) :
      LayoutStep w (w.resizePaneBy paneIndex adjustment).2
  | resizePaneWidth (paneIndex : ℕ) (columns : UInt16) :
      LayoutStep w (w.resizePaneWidth paneIndex columns).2
  | resizePaneHeight (paneIndex : ℕ) (rows : UInt16) :
      LayoutStep w (w.resizePaneHeight paneIndex rows).2
  | setSize (size : TerminalSize) : LayoutStep w (w.setSize size)
  | setLayout (layout : LayoutName) (mainWidth mainHeight : Option UInt16) :
      LayoutStep w (w.setLayoutWithMainPaneSize layout mainWidth mainHeight)
  | toggleZoom (paneIndex : ℕ) : LayoutStep w (w.toggleZoom paneIndex)

/-- A step to a window of at most `m` panes. -/
def BoundedStep (m : ℕ) (w w' : Window) : Prop := LayoutStep w w' ∧ w'.panes.length ≤ m

/-- The steps are operations of `WindowOp`, and need no more of the trees than `TreeClosed`. -/
theorem LayoutStep.exists_op {w' : Window} (h : LayoutStep w w')
    (P : TerminalSize → LayoutTree → ℕ → Prop) {m : ℕ} (hw : w.panes.length ≤ m)
    (hw' : w'.panes.length ≤ m) :
    ∃ op : WindowOp, op.run w = some w' ∧ op.Fits P w ∧ op.Bounded (· ≤ m) w := by
  have hpred : w.panes.length - 1 ≤ m := (sub_le _ _).trans hw
  cases h with
  | split position paneId direction before detached hpos hfr =>
    rw [length_panes_splitAtPosition hpos] at hw'
    exact ⟨.split position paneId direction before detached, if_pos ⟨hpos, hfr⟩, trivial, hw'⟩
  | extractPane paneIndex => exact ⟨.extractPane paneIndex, rfl, trivial, hpred⟩
  | removePane paneIndex => exact ⟨.removePane paneIndex, rfl, trivial, hpred⟩
  | removeOtherPanes paneIndex => exact ⟨.removeOtherPanes paneIndex, rfl, trivial, hw⟩
  | movePane source target position direction before =>
    exact ⟨.movePane source target position direction before, rfl, trivial, hw⟩
  | swapPanes source target => exact ⟨.swapPanes source target, rfl, trivial, hw⟩
  | rotatePanes direction => exact ⟨.rotatePanes direction false, rfl, trivial, hw⟩
  | resizePaneTo paneIndex direction newSize =>
    exact ⟨.resizePaneTo paneIndex direction newSize, rfl, trivial, hw⟩
  | resizePaneBy paneIndex adjustment =>
    exact ⟨.resizePaneBy paneIndex adjustment, rfl, trivial, hw⟩
  | resizePaneWidth paneIndex columns =>
    exact ⟨.resizePaneWidth paneIndex columns, rfl, trivial, hw⟩
  | resizePaneHeight paneIndex rows => exact ⟨.resizePaneHeight paneIndex rows, rfl, trivial, hw⟩
  | setSize size => exact ⟨.setSize size, rfl, trivial, hw⟩
  | setLayout layout mainWidth mainHeight =>
    exact ⟨.setLayout layout mainWidth mainHeight, rfl, trivial, hw⟩
  | toggleZoom paneIndex => exact ⟨.toggleZoom paneIndex, rfl, trivial, hw⟩

/-- A step leaves at least one pane. -/
theorem LayoutStep.panes_ne_nil {w' : Window} (h : LayoutStep w w') (hne : w.panes ≠ []) :
    w'.panes ≠ [] := by
  have hsm : ∀ {w' : Window}, Window.SamePanes w w' → w'.panes ≠ [] := fun hsm hnil => by
    rw [← length_eq_zero_iff, hsm.length_eq, length_eq_zero_iff] at hnil
    exact hne hnil
  have hpred : ∀ {w' : Window}, 2 ≤ w.panes.length →
      w.panes.length ≤ w'.panes.length + 1 → w'.panes ≠ [] := fun htwo hle hnil => by
    rw [hnil, length_nil] at hle
    omega
  cases h with
  | split position paneId direction before detached hpos hfr =>
    refine ne_nil_of_length_pos ?_
    rw [length_panes_splitAtPosition hpos]
    exact succ_pos _
  | extractPane paneIndex htwo => exact hpred htwo (length_le_extractPane paneIndex)
  | removePane paneIndex =>
    unfold Window.removePane
    split_ifs with hone
    · exact hne
    · exact hpred (Nat.lt_of_not_le hone) (length_le_extractPane paneIndex)
  | removeOtherPanes paneIndex => exact removeOtherPanes_ne_nil hne
  | movePane => exact hsm (samePanes_movePaneBySplittingTarget ..)
  | swapPanes => exact hsm (samePanes_swapPanes ..)
  | rotatePanes => exact hsm (samePanes_rotatePanesWithZoom ..)
  | resizePaneTo => exact hsm (samePanes_resizePaneTo ..)
  | resizePaneBy => exact hsm (samePanes_resizePaneBy ..)
  | resizePaneWidth | resizePaneHeight => exact hsm (samePanes_resizePaneAlong ..)
  | setSize => exact hsm (samePanes_setSize _)
  | setLayout => exact hsm (samePanes_setLayoutWithMainPaneSize ..)
  | toggleZoom => exact hsm (samePanes_toggleZoom _)

/-- What a window promises of its tree. -/
def LayoutInvariant (w : Window) : Prop :=
  ∃ t, w.layoutTree = some t ∧ t.leafCount = w.panes.length ∧ t.root.check = true ∧
    WellSized t.root ∧ Branching t.root ∧
    (∀ map, t.leafMap = some map → map.Perm (List.range w.panes.length)) ∧ w.size = t.size

theorem Window.Laid.layoutInvariant (h : Window.Laid TreeOkIn w) (hne : w.panes ≠ []) :
    LayoutInvariant w := by
  obtain ⟨hnil, -⟩ | ⟨t, ht, hok, hsz⟩ := h.placed.tree
  · exact absurd hnil hne
  refine ⟨t, ht, hok.leafCount, ?_, hok.wellSized, hok.branching, ?_, hsz⟩
  · exact hok.wellSized.check fun a => (hok.extent a).trans_lt (by decide)
  · intro map hmap
    have := hok.leafMapFits map hmap
    rwa [LayoutTree.leafCount, hok.leafCount] at this

/-- Through every run with at most `2 ^ 30` panes at a time the tree keeps its promise. -/
theorem layout_invariant (size : TerminalSize) (paneId : PaneId) (id : WindowId) {w : Window}
    (hrun : ReflTransGen (BoundedStep (2 ^ 30)) (Window.newWithInitialPane size paneId id) w) :
    LayoutInvariant w := by
  have hlaid : Window.Laid TreeOkIn w ∧ w.panes ≠ [] ∧ w.panes.length ≤ 2 ^ 30 := by
    induction hrun with
    | refl =>
      refine ⟨.inl (flat_newWithInitialPane treeClosed_treeOkIn size paneId id), ?_, by simp⟩
      exact ne_nil_of_length_pos (by simp)
    | tail _ hstep ih =>
      obtain ⟨hlaid, hne, hlen⟩ := ih
      obtain ⟨op, hop, hfits, hbound⟩ := hstep.1.exists_op TreeOkIn hlen hstep.2
      exact ⟨WindowOp.laid treeClosed_treeOkIn hlaid hfits hbound hop,
        hstep.1.panes_ne_nil hne, hstep.2⟩
  exact hlaid.1.layoutInvariant hlaid.2.1

/-- A run : the first pane is split, and the window is resized. -/
theorem layout_invariant_split :
    LayoutInvariant (((Window.newWithInitialPane ⟨80, 24⟩ 0
      0).splitAtPositionWithIdAndDirectionDetached 0 1 .vertical false false).setSize
        ⟨40, 12⟩) := by
  refine layout_invariant ⟨80, 24⟩ 0 0 (.tail (.single ⟨.split 0 1 .vertical false false ?_ ?_, ?_⟩)
    ⟨.setSize _, ?_⟩)
  all_goals decide

/-! ## One pane more -/

/-- No children add up to the largest extent : the sum with a border after each is cut off there,
and one border is taken away. -/
theorem checkChildren_of_u32Max {d : LayoutDirection} (hg : g.axis d = u32Max) :
    ∀ (cs : List LayoutCell) {total : ℕ}, total ≤ u32Max → checkChildren d g total cs = false
  | [], total, h => by
    have hne : total - paneBorderCells ≠ u32Max := by
      unfold paneBorderCells u32Max at *
      omega
    simpa [checkChildren, hg] using hne
  | c :: cs, total, _ => by
    rw [checkChildren, checkChildren_of_u32Max hg cs (satAdd_le _ _), Bool.and_false]

variable {cs : List LayoutCell}

/-- A split that is grown along its children to the largest extent does not fit together. -/
theorem check_resizeAdjust_of_u32Max {k change : ℤ} (hk : 0 < k)
    (hsum : satAddSigned g.width k = u32Max) : (LayoutTree.resizeAxis .topBottom change
      ((split .leftRight g cs).resizeAdjust .leftRight k)).check = false := by
  generalize hrt : resizeAxis .topBottom change
    ((split .leftRight g cs).resizeAdjust .leftRight k) = root
  have hskel : root.skeleton = (split .leftRight g cs).skeleton := by
    rw [← hrt, skeleton_resizeAxis, skeleton_resizeAdjust]
  have hext : root.axisSize .leftRight = u32Max := by
    rw [← hrt]
    refine (axisSize_resizeAxis_flip .topBottom change _).trans ?_
    rw [axisSize, geometry_resizeAdjust .leftRight hk.ne']
    exact hsum
  cases root with
  | pane g' => simp [skeleton] at hskel
  | split d g' cs' =>
    rw [skeleton_split, skeleton_split, split.injEq] at hskel
    obtain ⟨rfl, -⟩ := hskel
    have hg : g'.axis .leftRight = u32Max := hext
    rw [check, checkChildren_of_u32Max hg cs' (zero_le _), Bool.and_false]

/-- Panes side by side that are wider than a signed number can say : resized to almost nothing,
they grow as far as they can. -/
theorem check_resize_of_wide {t : LayoutTree} {cols : UInt16} {change : ℤ}
    (hrt : t.root = .split .leftRight g cs) (hpos : 0 < change)
    (hchg : MachineInt.wrapI32 (cols.toNat - asI32 g.width) = change)
    (hsum : satAddSigned g.width change = u32Max) (rows : UInt16) :
    (t.resize ⟨cols, rows⟩).root.check = false := by
  have hroot : MachineInt.wrapI32 (cols.toNat - asI32 (t.root.axisSize .leftRight)) = change := by
    rw [hrt]
    exact hchg
  rw [root_resize, check_fixOffsets, hroot, resizeAxis_of_pos .leftRight hpos, hrt]
  exact check_resizeAdjust_of_u32Max hpos hsum

/-- Panes side by side are as wide as the window, or as they need to be. -/
theorem root_named_evenHorizontal {n : ℕ} (hn : 2 ≤ n) (hmax : 2 * n ≤ u32Max)
    (hwide : u16Max < 2 * n - 1) (size : TerminalSize) (o : LayoutOptions) :
    ∃ g cs, (LayoutTree.named .evenHorizontal n size o).root = .split .leftRight g cs ∧
      g.width = 2 * n - 1 := by
  set g := namedGeometry .evenHorizontal n size o with hg
  refine ⟨g.moveTo 0 0, fixOffsetsFrom .leftRight 0 0 0
    (layPanes .leftRight g 0 (splitAxis g.width n)), ?_, ?_⟩
  · rw [named_eq hn]
    rfl
  · have hle := axis_namedGeometry_le hn hmax .evenHorizontal size o .leftRight
    have hge : minimumAxis .leftRight (buildEven .leftRight n g).root ≤ g.width :=
      minimumAxis_le_namedGeometry .evenHorizontal n size o .leftRight
    have hmin := minimumAxis_buildEven hn hmax .leftRight g
    have hle : g.width ≤ max u16Max (2 * n - 1) := hle
    show g.width = 2 * n - 1
    omega

/-- A window can have any number of panes, as far as there are identities. -/
theorem exists_run_of_length (size : TerminalSize) (n : ℕ) (hn : n < 2 ^ 32) :
    ∃ w, ReflTransGen (BoundedStep (n + 1)) (Window.newWithInitialPane size 0 0) w ∧
      w.panes.length = n + 1 ∧ ∀ id ∈ w.panes.map Pane.id, id.toNat ≤ n := by
  induction n with
  | zero =>
    refine ⟨_, .refl, length_panes_newWithInitialPane size 0 0, ?_⟩
    have hids : (newWithInitialPane size 0 0).panes.map Pane.id = [0] :=
      map_id_recalculateGeometry
    simp [hids]
  | succ n ih =>
    obtain ⟨w, hrun, hlen, hids⟩ := ih (by omega)
    have hnew : (UInt32.ofNat (n + 1)).toNat = n + 1 := UInt32.toNat_ofNat_of_lt' hn
    have hfr : UInt32.ofNat (n + 1) ∉ w.panes.map Pane.id := by
      intro hmem
      have := hids _ hmem
      omega
    have hpos : 0 < w.panes.length := by omega
    refine ⟨_, .tail (ReflTransGen.mono (fun a b h => ⟨h.1, h.2.trans (le_succ _)⟩) _ _ hrun)
      ⟨.split 0 (UInt32.ofNat (n + 1)) .vertical true true hpos hfr, ?_⟩, ?_, ?_⟩
    · rw [length_panes_splitAtPosition hpos, hlen]
    · rw [length_panes_splitAtPosition hpos, hlen]
    · intro id hid
      rw [map_id_splitAtPosition] at hid
      rcases mem_insertIdx (by simp) |>.mp hid with rfl | hid
      · exact hnew.le
      · exact (hids id hid).trans (le_succ n)

namespace Window

variable {w : Window}

theorem layoutTree_rebuildNamedLayoutTree (hne : w.panes ≠ []) (t : LayoutName) :
    (w.rebuildNamedLayoutTree t).layoutTree =
      some (.named t w.panes.length w.size w.layoutOptions) := by
  unfold rebuildNamedLayoutTree
  rw [if_neg (by simpa using hne)]
  exact layoutTree_applyLayoutTree

theorem layoutTree_setLayoutWithMainPaneSize (hpos : 0 < w.panes.length) (t : LayoutName)
    (mainWidth mainHeight : Option UInt16) :
    ∃ size o, (w.setLayoutWithMainPaneSize t mainWidth mainHeight).layoutTree =
      some (.named t w.panes.length size o) := by
  have hlen : w.autoUnzoom.panes.length = w.panes.length :=
    length_panes_of_map_id_eq map_id_autoUnzoom
  unfold setLayoutWithMainPaneSize
  rw [layoutTree_rebuildNamedLayoutTree (ne_nil_of_length_pos (hlen ▸ hpos))]
  exact ⟨_, _, by rw [← hlen]⟩

theorem layoutTree_setSize {t : LayoutTree} (h : w.layoutTree = some t) (size : TerminalSize) :
    (w.setSize size).layoutTree = some (t.resize size) := by
  have hrecalc : ({ w with size := size } : Window).recalculateGeometry.layoutTree =
      some (t.resize size) := by
    unfold recalculateGeometry
    rw [h]
  unfold setSize
  dsimp only
  split_ifs
  · exact hrecalc
  · exact hrecalc

end Window

/-- A run puts `n + 1` panes side by side, and a resize makes them grow as far as they can. -/
theorem exists_run_breaking {n : ℕ} (hn : 2 ≤ n + 1) (hmax : 2 * (n + 1) ≤ u32Max)
    (hwide : u16Max < 2 * (n + 1) - 1) {cols : UInt16} {change : ℤ} (hpos : 0 < change)
    (hchg : MachineInt.wrapI32 (cols.toNat - asI32 (2 * (n + 1) - 1)) = change)
    (hsum : satAddSigned (2 * (n + 1) - 1) change = u32Max) :
    ∃ w, ReflTransGen (BoundedStep (n + 1)) (Window.newWithInitialPane ⟨80, 24⟩ 0 0) w ∧
      w.panes.length = n + 1 ∧ ¬LayoutInvariant (w.setSize ⟨cols, 24⟩) := by
  have hu : u32Max < 2 ^ 32 := by decide
  obtain ⟨w, hrun, hlen, -⟩ := exists_run_of_length ⟨80, 24⟩ n (by omega)
  have heven : (w.setLayoutWithMainPaneSize .evenHorizontal none none).panes.length = n + 1 :=
    (samePanes_setLayoutWithMainPaneSize ..).length_eq.trans hlen
  obtain ⟨size, options, htree⟩ := layoutTree_setLayoutWithMainPaneSize
    (hlen ▸ succ_pos _ : 0 < w.panes.length) .evenHorizontal none none
  rw [hlen] at htree
  obtain ⟨g, cs, hroot, hwidth⟩ := root_named_evenHorizontal hn hmax hwide size options
  refine ⟨_, .tail hrun ⟨.setLayout .evenHorizontal none none, heven.le⟩, heven, ?_⟩
  rintro ⟨t, ht, -, hcheck, -⟩
  rw [layoutTree_setSize htree, Option.some.injEq] at ht
  rw [← hwidth] at hchg hsum
  rw [← ht, check_resize_of_wide hroot hpos hchg hsum] at hcheck
  cases hcheck

/-- With one pane more than `2 ^ 30` a run can break the tree : put the panes side by side, and
resize the window to no columns. With two more, one column is enough. -/
theorem layout_invariant_fails_beyond :
    (∃ w, ReflTransGen (BoundedStep (2 ^ 30 + 1)) (Window.newWithInitialPane ⟨80, 24⟩ 0 0) w ∧
      ¬LayoutInvariant w) ∧
    ∃ w, ReflTransGen (BoundedStep (2 ^ 30 + 2)) (Window.newWithInitialPane ⟨80, 24⟩ 0 0) w ∧
      ¬LayoutInvariant (w.setSize ⟨1, 24⟩) := by
  constructor
  · obtain ⟨w, hrun, hlen, hbroken⟩ := @exists_run_breaking (2 ^ 30) (by decide) (by decide)
      (by decide) 0 (2 ^ 31 - 1) (by decide) (by decide) (by decide)
    exact ⟨_, .tail hrun ⟨.setSize ⟨0, 24⟩, ((samePanes_setSize _).length_eq.trans hlen).le⟩,
      hbroken⟩
  · obtain ⟨w, hrun, -, hbroken⟩ := @exists_run_breaking (2 ^ 30 + 1) (by decide) (by decide)
      (by decide) 1 (2 ^ 31 - 2) (by decide) (by decide) (by decide)
    exact ⟨w, hrun, hbroken⟩

/-! ## Layout strings -/

theorem laid_run {size paneId id}
    (hrun : ReflTransGen WindowStep (newWithInitialPane size paneId id) w) : Laid LeafedIn w := by
  induction hrun with
  | refl => exact .inl (flat_newWithInitialPane treeClosed_leafedIn size paneId id)
  | tail _ hstep ih =>
    obtain ⟨op, hop⟩ := hstep
    exact WindowOp.laid treeClosed_leafedIn ih WindowOp.fits_leafedIn (by cases op <;> trivial) hop

theorem Window.Fitted.applyToPanes {t : LayoutTree} (h : w.Fitted)
    (ht : w.layoutTree = some t) : t.applyToPanes w.panes = w.panes := by
  refine ext_getElem? fun i => ?_
  rw [getElem?_applyToPanes]
  cases hi : w.panes[i]? with
  | none => rfl
  | some pane => simp [h t ht i pane hi]

theorem LayoutCell.WellSized.leafCount_pos {c : LayoutCell} (h : WellSized c) :
    0 < c.leafCount := by
  induction c with
  | pane g => exact Nat.one_pos
  | split d g cs ih =>
    obtain ⟨c, hc⟩ := exists_mem_of_ne_nil cs h.ne_nil
    rw [leafCount_split]
    exact (ih c hc (h.child hc)).trans_le
      (single_le_sum (fun _ _ => zero_le _) _ (mem_map_of_mem hc))

open LayoutParser in
/-- The layout string of a window, whatever was done to it, brings its cells back : as the saved
layout of a window with as many panes, and in the window itself, which stays as it is. -/
theorem layoutDump_restores (size : TerminalSize) (paneId : PaneId) (id : WindowId)
    {t : LayoutTree} (hrun : ReflTransGen WindowStep (newWithInitialPane size paneId id) w)
    (ht : w.layoutTree = some t) (hcheck : t.root.check = true)
    (hdepth : t.root.depth ≤ maxLayoutParseDepth + 1) (hext : ExtentsBelow (2 ^ 31) t.root) :
    (∀ v : Window, v.panes.length = w.panes.length → v.oldLayout = some w.layoutDump →
      ∃ v', v.reapplyOldLayout = (.ok true, v') ∧ v'.layoutTree = some ⟨t.root, none⟩ ∧
        v'.size = w.size) ∧
    (w.zoomed = false → t.leafMap = none →
      w.applyCustomLayout w.layoutDump = .ok { w with customLayout := true }) := by
  have hlaid := laid_run hrun
  obtain ⟨hleafed, hsize⟩ := hlaid.placed.of_tree ht
  have hwell := (check_iff_wellSized_of_below hext).mp hcheck
  have hparse : LayoutTree.parse w.layoutDump w.panes.length = .ok ⟨t.root, none⟩ := by
    have hroot := fixRootSizeIfNeeded_of_wellSized hwell
      (fun a => (hext.axisSize_lt a).trans (by decide)) hleafed.offsets
    rw [layoutDump, ht]
    exact parse_dump hcheck (.of_extentsBelow (by decide) hext hdepth) hroot hleafed.offsets
      hleafed.leafCount.symm
  have happly (v : Window) (hv : v.panes.length = w.panes.length) :
      v.applyCustomLayout w.layoutDump = .ok { v with
        size := w.size
        layoutTree := some ⟨t.root, none⟩
        customLayout := true }.applyLayoutTree := by
    have hsome : ¬v.panes.isEmpty := by
      have hpos := hleafed.leafCount ▸ hwell.leafCount_pos
      rw [List.isEmpty_iff, ← length_eq_zero_iff]
      omega
    rw [applyCustomLayout, if_neg hsome, hv, hparse, hsize]
    rfl
  refine ⟨fun v hv hold => ?_, fun hzoomed hmap => ?_⟩
  · have hsaved := happly v.saveOldLayout hv
    simp only [reapplyOldLayout, hold, hsaved]
    exact ⟨_, rfl, rfl, rfl⟩
  · have hplain : (⟨t.root, none⟩ : LayoutTree) = t := by rw [← hmap]
    simp only [happly w rfl, applyLayoutTree, hplain,
      (hlaid.flat hzoomed).fitted.applyToPanes ht, ← ht]

theorem layoutDump_restores_split :
    let w := (Window.newWithInitialPane ⟨80, 24⟩ 0
      0).splitAtPositionWithIdAndDirectionDetached 0 1 .vertical false false
    w.applyCustomLayout w.layoutDump = .ok { w with customLayout := true } :=
  (layoutDump_restores ⟨80, 24⟩ 0 0 (.single ⟨.split 0 1 .vertical false false, rfl⟩)
    rfl (by decide) (by decide) (by decide)).2 rfl rfl

end Rmux
