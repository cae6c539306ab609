import Rmux.LayoutMutation

/-!
# Squeezing existing cells

`splitRoot` and `spreadFromLeaf` shrink cells that are already there, and neither asks whether the
cells below can shrink that far. `resizeAdjust` then silently stops when the children have no room
left, and the tree is no longer well sized. A spread also computes a remainder of one cell where
there is none, if the extent plus one is a multiple of the number of children.
-/

namespace Rmux

open MachineInt LayoutCell List Option Nat LayoutDirection LayoutGeometry

variable {d : LayoutDirection} {n : ℕ} {g : LayoutGeometry} {cs : List LayoutCell}
  {t t' : LayoutTree} {c : LayoutCell}

namespace LayoutCell

variable {c : LayoutCell}

/-- Every pane has at least one column and one row. -/
def LeavesPositive (c : LayoutCell) : Prop :=
  ∀ g ∈ c.leafGeometries, 1 ≤ g.width ∧ 1 ≤ g.height

instance (c : LayoutCell) : Decidable (LeavesPositive c) :=
  inferInstanceAs (Decidable (∀ g ∈ c.leafGeometries, 1 ≤ g.width ∧ 1 ≤ g.height))

theorem leavesPositive_pane : LeavesPositive (.pane g) ↔ ∀ a, 1 ≤ g.axis a := by
  simp only [LeavesPositive, leafGeometries, mem_singleton, forall_eq]
  exact ⟨fun h a => by cases a; exacts [h.1, h.2], fun h => ⟨h .leftRight, h .topBottom⟩⟩

theorem leavesPositive_split : LeavesPositive (.split d g cs) ↔ ∀ c ∈ cs, LeavesPositive c := by
  simp only [LeavesPositive, leafGeometries_split, mem_flatMap]
  exact ⟨fun h c hc g hg => h g ⟨c, hc, hg⟩, fun h g ⟨c, hc, hg⟩ => h c hc g hg⟩

theorem leavesPositive_fixOffsets (x y : ℕ) :
    LeavesPositive (c.fixOffsets x y) ↔ LeavesPositive c := by
  induction c generalizing x y with
  | pane g => simp [fixOffsets, leavesPositive_pane]
  | split d g cs ih =>
    rw [fixOffsets, leavesPositive_split, leavesPositive_split]
    exact forall_mem_fixOffsetsFrom d x y 0 fun c hc x y => ih c hc x y

variable {a : LayoutDirection}

/-- Growing, and shrinking within `resizeCheck`, leaves every pane a cell. -/
theorem LeavesPositive.resizeAdjust {k : ℤ} (h : LeavesPositive c)
    (hrm : k < 0 → WellSized c ∧ c.axisSize a ≤ u32Max ∧ -k ≤ c.resizeCheck a) :
    LeavesPositive (c.resizeAdjust a k) := by
  induction hn : c.depth using Nat.strong_induction_on generalizing c k with
  | _ n ih =>
    subst hn
    obtain rfl | hk := eq_or_ne k 0
    · rwa [resizeAdjust_zero]
    cases c with
    | pane g =>
      rw [resizeAdjust_pane a g hk, leavesPositive_pane]
      intro b
      rcases eq_or_eq_flip b a with rfl | rfl
      · have hpos := leavesPositive_pane.mp h b
        have hleft : k < 0 → -k ≤ (g.axis b - 1 : ℕ) := fun hneg => (hrm hneg).2.2
        rw [axis_setAxis, satAddSigned, u32Max]
        omega
      · rw [axis_setAxis_flip]
        exact leavesPositive_pane.mp h _
    | split d g cs =>
      rw [leavesPositive_split] at h
      rcases eq_or_eq_flip d a with rfl | rfl
      · let Good (c : LayoutCell) : Prop := (LeavesPositive c ∧ c.depth < depths cs + 1) ∧
          (k < 0 → WellSized c ∧ c.axisSize d ≤ u32Max)
        have hgrow : 0 < k → ∀ c, Good c → Good (c.resizeAdjust d 1) := fun hpos c hc =>
          ⟨⟨ih _ hc.1.2 hc.1.1 (by omega) rfl, by rw [depth_resizeAdjust]; exact hc.1.2⟩, by omega⟩
        have hshr : k < 0 → ∀ c, Good c → 0 < c.resizeCheck d →
            Good (c.resizeAdjust d (-1)) := by
          intro hneg c ⟨⟨hc, hcd⟩, hcw⟩ hpos
          obtain ⟨hcw, hcb⟩ := hcw hneg
          refine ⟨⟨ih _ hcd hc (fun _ => ⟨hcw, hcb, by omega⟩) rfl, ?_⟩, fun _ =>
            ⟨(hcw.resizeAdjust_sub hcb hpos).1, ?_⟩⟩
          · rwa [depth_resizeAdjust]
          · have := axisSize_resizeAdjust_sub d 1 hcb
            exact this.le.trans ((sub_le _ _).trans hcb)
        rw [resizeAdjust_split d g cs hk, leavesPositive_split]
        exact fun c hc => (forall_adjustLoop _ _ hgrow hshr _ (fun c hc =>
          ⟨⟨h c hc, depth_lt_of_mem hc⟩, fun hneg => ⟨(hrm hneg).1.child hc,
            ((hrm hneg).1.axisSize_child_le hc d).trans (hrm hneg).2.1⟩⟩) c hc).1.1
      · rw [resizeAdjust_split_flip a g cs hk, leavesPositive_split, List.forall_mem_map]
        refine fun c hc => ih _ (depth_lt_of_mem hc) (h c hc) (fun hneg => ?_) rfl
        obtain ⟨hw, hb, hm⟩ := hrm hneg
        rw [resizeCheck_split_flip] at hm
        refine ⟨hw.child hc, (hw.axisSize_child_le hc a).trans hb, ?_⟩
        have := le_min?_getD (Int.toNat_le.mpr hm) _ (mem_map_of_mem hc)
        omega

/-- Shrinking raises no extent. -/
theorem ExtentsBelow.resizeAdjust_sub {b : ℕ} (h : ExtentsBelow b c)
    (hb : b ≤ u32Max + 1) (m : ℕ) : ExtentsBelow b (c.resizeAdjust a (-m)) := by
  induction hn : c.depth using Nat.strong_induction_on generalizing c m with
  | _ n ih =>
    subst hn
    obtain rfl | hpos := Nat.eq_zero_or_pos m
    · simpa using h
    have hgeom : ∀ g : LayoutGeometry, g.width < b ∧ g.height < b →
        (g.setAxis a (satAddSigned (g.axis a) (-m))).width < b ∧
          (g.setAxis a (satAddSigned (g.axis a) (-m))).height < b := by
      intro g hg
      cases a <;> simp only [setAxis, axis]
      · rw [satAddSigned_sub m (by omega)]
        omega
      · rw [satAddSigned_sub m (by omega)]
        omega
    cases c with
    | pane g =>
      rw [resizeAdjust_pane a g (by omega)]
      exact hgeom g h
    | split d g cs =>
      rcases eq_or_eq_flip d a with rfl | rfl
      · have hloop := forall_adjustLoop (fun c k => c.resizeAdjust d k) (resizeCheck d)
          (P := fun c => ExtentsBelow b c ∧ c.depth < depths cs + 1) (r := -m) (fun _ => by omega)
          (fun _ c hc _ => ⟨@ih _ hc.2 c hc.1 1 rfl, by rw [depth_resizeAdjust]; exact hc.2⟩)
          m (fun c hc => ⟨h.child hc, depth_lt_of_mem hc⟩)
        rw [resizeAdjust_split d g cs (by omega), Int.natAbs_neg, Int.natAbs_natCast]
        exact ⟨hgeom g h.1, extentsBelowAll_iff.mpr fun c hc => (hloop c hc).1⟩
      · rw [resizeAdjust_split_flip a g cs (by omega)]
        refine ⟨hgeom g h.1, extentsBelowAll_iff.mpr ?_⟩
        rw [List.forall_mem_map]
        exact fun c hc => ih _ (depth_lt_of_mem hc) (h.child hc) m rfl

theorem extentsBelow_fixOffsets {b : ℕ} (x y : ℕ) :
    ExtentsBelow b (c.fixOffsets x y) ↔ ExtentsBelow b c := by
  induction c generalizing x y with
  | pane g => exact Iff.rfl
  | split d g cs ih =>
    simp only [fixOffsets, ExtentsBelow, extentsBelowAll_iff]
    rw [forall_mem_fixOffsetsFrom d x y 0 fun c hc x y => ih c hc x y]
    exact Iff.rfl

/-- A well-sized tree of non-empty panes is itself not empty. -/
theorem LeavesPositive.axisSize_pos (h : LeavesPositive c) (hw : WellSized c)
    (a : LayoutDirection) : 1 ≤ c.axisSize a := by
  induction c with
  | pane g => exact leavesPositive_pane.mp h a
  | split d g cs ih =>
    obtain ⟨c, hc⟩ := exists_mem_of_ne_nil cs hw.ne_nil
    exact (ih c hc (leavesPositive_split.mp h c hc) (hw.child hc)).trans (hw.axisSize_child_le hc a)

end LayoutCell

/-! ## A new leaf beside the whole tree -/

/-- The cells `splitRoot` takes from the old root, border included. -/
def splitRootLoss (saved : ℕ) (insertBefore : Bool) : ℕ :=
  saved - if insertBefore then (splitSizes saved).2 else (splitSizes saved).1

/-- The squeezed root and the new leaf fill the window. -/
theorem wellSized_splitRoot_iff {existing leaf : LayoutCell} {children : List LayoutCell}
    (hch : children = [existing, leaf] ∨ children = [leaf, existing]) (hleaf : WellSized leaf)
    (hcr : ∀ c ∈ [existing, leaf], c.axisSize d.flip = g.axis d.flip)
    (hsum : existing.axisSize d + leaf.axisSize d + 1 = g.axis d) :
    WellSized (.split d g children) ↔ WellSized existing := by
  obtain ⟨he, hl⟩ : existing.axisSize d.flip = g.axis d.flip ∧
      leaf.axisSize d.flip = g.axis d.flip := ⟨hcr _ (by simp), hcr _ (by simp)⟩
  rcases hch with rfl | rfl
  · rw [wellSized_pair_iff]
    exact ⟨fun h => h.1.1, fun h => ⟨⟨h, hleaf⟩, ⟨he, hl⟩, by omega⟩⟩
  · rw [wellSized_pair_iff]
    exact ⟨fun h => h.1.2, fun h => ⟨⟨hleaf, h⟩, ⟨hl, he⟩, by omega⟩⟩

variable {insertBefore : Bool}

/-- What `splitRoot` builds, with the casts carried out. -/
theorem LayoutTree.splitRoot_cases (h : t.splitRoot d insertBefore = some t')
    (hmax : t.root.axisSize d ≤ i32Max) :
    3 ≤ t.root.axisSize d ∧ ∃ (x y x' y' newSize : ℕ) (children : List LayoutCell),
      1 ≤ newSize ∧
      newSize + (t.root.axisSize d - splitRootLoss (t.root.axisSize d) insertBefore) + 1 =
        t.root.axisSize d ∧
      splitRootLoss (t.root.axisSize d) insertBefore < t.root.axisSize d ∧
      (let existing := (t.root.resizeAdjust d
          (-(splitRootLoss (t.root.axisSize d) insertBefore : ℕ))).fixOffsets x y
       let leaf := LayoutCell.pane ((t.root.geometry.setAxis d newSize).moveTo x' y')
       children = [existing, leaf] ∨ children = [leaf, existing]) ∧
      t'.root = (LayoutCell.split d t.root.geometry children).fixOffsets 0 0 ∧
      t'.leafMap = none := by
  have hax : t.root.geometry.axis d = t.root.axisSize d := rfl
  unfold splitRoot at h
  simp only [hax] at h
  split_ifs at h with hsm hbef
  · obtain ⟨hsum, h1, h2⟩ := splitSizes_spec (Nat.le_of_not_lt hsm)
    have hcast : wrapI32 (asI32 (splitSizes (t.root.axisSize d)).2 - asI32 (t.root.axisSize d)) =
        -(splitRootLoss (t.root.axisSize d) insertBefore : ℕ) := by
      rw [asI32_eq (by omega), asI32_eq hmax, splitRootLoss, if_pos hbef]
      unfold i32Max at hmax
      rw [wrapI32_eq (by omega) (by omega)]
      omega
    rw [hcast] at h
    cases h
    refine ⟨Nat.le_of_not_lt hsm, _, _, 0, 0, (splitSizes (t.root.axisSize d)).1, _, h1,
      ?_, ?_, .inr rfl, rfl, rfl⟩ <;>
    · rw [splitRootLoss, if_pos hbef]
      omega
  · obtain ⟨hsum, h1, h2⟩ := splitSizes_spec (Nat.le_of_not_lt hsm)
    have hcast : wrapI32 (asI32 (splitSizes (t.root.axisSize d)).1 - asI32 (t.root.axisSize d)) =
        -(splitRootLoss (t.root.axisSize d) insertBefore : ℕ) := by
      rw [asI32_eq (by omega), asI32_eq hmax, splitRootLoss, if_neg hbef]
      unfold i32Max at hmax
      rw [wrapI32_eq (by omega) (by omega)]
      omega
    rw [hcast] at h
    cases h
    refine ⟨Nat.le_of_not_lt hsm, 0, 0, _, _, (splitSizes (t.root.axisSize d)).2, _, h2,
      ?_, ?_, .inl rfl, rfl, rfl⟩ <;>
    · rw [splitRootLoss, if_neg hbef]
      omega

/-- `splitRoot` keeps the tree consistent exactly when the old root has room for its loss. -/
theorem LayoutTree.splitRoot_sound_iff
    (h : t.splitRoot d insertBefore = some t') (hchk : t.root.check = true)
    (hpos : LeavesPositive t.root) (hext : ExtentsBelow (2 ^ 31) t.root) :
    (t'.root.check = true ∧ (∀ a, t'.root.axisSize a = t.root.axisSize a) ∧
        LeavesPositive t'.root) ↔
      splitRootLoss (t.root.axisSize d) insertBefore ≤ t.root.resizeCheck d := by
  have hw := (check_iff_wellSized_of_below hext).mp hchk
  have hmax : ∀ a, t.root.axisSize a ≤ i32Max := fun a =>
    le_of_lt_succ (hext.axisSize_lt a)
  have hu : i32Max ≤ u32Max := by decide
  obtain ⟨hsz, x, y, x', y', newSize, children, hnew, hsum, hlt, hch, hrt, -⟩ :=
    splitRoot_cases h (hmax d)
  set loss := splitRootLoss (t.root.axisSize d) insertBefore
  set existing := (t.root.resizeAdjust d (-(loss : ℕ))).fixOffsets x y
  set leaf := LayoutCell.pane ((t.root.geometry.setAxis d newSize).moveTo x' y')
  have hmain : existing.axisSize d = t.root.axisSize d - loss := by
    rw [axisSize_fixOffsets, axisSize_resizeAdjust_sub d loss ((hmax d).trans hu)]
  have hleafmain : leaf.axisSize d = newSize := by simp [leaf]
  have hcr : ∀ c ∈ [existing, leaf], c.axisSize d.flip = t.root.geometry.axis d.flip := by
    simp only [mem_cons, not_mem_nil, or_false, forall_eq_or_imp, forall_eq]
    refine ⟨?_, by simp [leaf]⟩
    rw [axisSize_fixOffsets, axisSize_resizeAdjust_flip]
    rfl
  have hwell := wellSized_splitRoot_iff hch (.pane _) hcr
    (by rw [hmain, hleafmain]; change _ = t.root.axisSize d; omega)
  have hmem : ∀ P : LayoutCell → Prop, P existing → P leaf → ∀ c ∈ children, P c := by
    intro P he hl c hc
    rcases hch with rfl | rfl <;> simp only [mem_cons, not_mem_nil, or_false] at hc
    · rcases hc with rfl | rfl <;> assumption
    · rcases hc with rfl | rfl <;> assumption
  have hbelow : ExtentsBelow (2 ^ 31) t'.root := by
    rw [hrt, extentsBelow_fixOffsets]
    refine ⟨⟨hext.axisSize_lt .leftRight, hext.axisSize_lt .topBottom⟩,
      extentsBelowAll_iff.mpr (hmem _ ?_ ?_)⟩
    · exact (extentsBelow_fixOffsets _ _).mpr (hext.resizeAdjust_sub (by decide) loss)
    · refine WellSized.extentsBelow (.pane _) fun a => ?_
      have := hext.axisSize_lt a
      rcases eq_or_eq_flip a d with rfl | rfl
      · rw [hleafmain]
        omega
      · rw [hcr leaf (by simp)]
        exact this
  rw [check_iff_wellSized_of_below hbelow, hrt, wellSized_fixOffsets, hwell, wellSized_fixOffsets]
  constructor
  · rintro ⟨hex, -, -⟩
    exact hw.le_resizeCheck ((hmax d).trans hu) hlt hex
  · intro hrm
    obtain ⟨hex, -⟩ := hw.resizeAdjust_sub ((hmax d).trans hu) hrm
    refine ⟨hex, fun a => by rw [axisSize_fixOffsets]; rfl, ?_⟩
    rw [leavesPositive_fixOffsets, leavesPositive_split]
    refine hmem _ ?_ (leavesPositive_pane.mpr fun a => ?_)
    · exact (leavesPositive_fixOffsets _ _).mpr
        (hpos.resizeAdjust fun _ => ⟨hw, (hmax d).trans hu, by omega⟩)
    · rcases eq_or_eq_flip a d with rfl | rfl
      · simpa using hnew
      · simpa [axisSize] using hpos.axisSize_pos hw d.flip

/-! ## Even extents -/

/-- The extent `spread` gives to child `i` of `n` in a split of extent `size`. -/
def spreadTarget (size n i : ℕ) : ℕ :=
  (size + 1) / n - 1 + if i < max ((size + 1) % n) 1 then 1 else 0

/-- A split `spread` changes : it has two children or more, room for one cell each, and extents
other than the targets. -/
def uneven : LayoutCell → Bool
  | .pane _ => false
  | .split d g cs =>
    decide (2 ≤ cs.length) && decide (2 * cs.length ≤ g.axis d + 1) &&
      cs.map (axisSize · d) != (List.range cs.length).map (spreadTarget (g.axis d) cs.length)

/-- The children of a split can all take their targets, and the targets add up. -/
def SpreadFits : LayoutCell → Prop
  | .pane _ => True
  | .split d g cs =>
    (g.axis d + 1) % cs.length ≠ 0 ∧
      ∀ i c, cs[i]? = some c →
        c.axisSize d ≤ spreadTarget (g.axis d) cs.length i + c.resizeCheck d

theorem axisSize_resizeAdjust_to (d : LayoutDirection) (hc : c.axisSize d ≤ u32Max)
    (hn : n ≤ u32Max) : (c.resizeAdjust d ((n : ℤ) - c.axisSize d)).axisSize d = n := by
  rcases le_total (c.axisSize d) n with h | h
  · have hcast : (n : ℤ) - c.axisSize d = ((n - c.axisSize d : ℕ) : ℤ) := by omega
    rw [hcast, axisSize_resizeAdjust_add d (by omega)]
    omega
  · have hcast : (n : ℤ) - c.axisSize d = -((c.axisSize d - n : ℕ) : ℤ) := by omega
    rw [hcast, axisSize_resizeAdjust_sub d _ hc]
    omega

/-- A cell can be brought to a positive extent exactly when it has room for the loss. -/
theorem wellSized_resizeAdjust_to_iff (hw : WellSized c) (hc : c.axisSize d ≤ u32Max)
    (hn : n ≤ u32Max) (hpos : 1 ≤ n) : WellSized (c.resizeAdjust d ((n : ℤ) - c.axisSize d)) ↔
      c.axisSize d ≤ n + c.resizeCheck d := by
  rcases le_total (c.axisSize d) n with h | h
  · have hcast : (n : ℤ) - c.axisSize d = ((n - c.axisSize d : ℕ) : ℤ) := by omega
    rw [hcast]
    exact ⟨fun _ => by omega, fun _ => hw.resizeAdjust_add (by omega)⟩
  · have hcast : (n : ℤ) - c.axisSize d = -((c.axisSize d - n : ℕ) : ℤ) := by omega
    rw [hcast]
    constructor
    · intro haft
      rcases eq_or_lt_of_le h with heq | hlt
      · omega
      · have := hw.le_resizeCheck hc (by omega) haft
        omega
    · intro hrm
      exact (hw.resizeAdjust_sub hc (by omega)).1

theorem extentsBelow_resizeAdjust_to (hw : WellSized c) (hext : ExtentsBelow (2 ^ 31) c)
    (hn : n < 2 ^ 31) : ExtentsBelow (2 ^ 31) (c.resizeAdjust d ((n : ℤ) - c.axisSize d)) := by
  have hu : (2 : ℕ) ^ 31 ≤ u32Max := by decide
  rcases le_total (c.axisSize d) n with h | h
  · have hcast : (n : ℤ) - c.axisSize d = ((n - c.axisSize d : ℕ) : ℤ) := by omega
    rw [hcast]
    refine (hw.resizeAdjust_add (by omega)).extentsBelow fun a => ?_
    rcases eq_or_eq_flip a d with rfl | rfl
    · rw [axisSize_resizeAdjust_add a (by omega)]
      omega
    · rw [axisSize_resizeAdjust_flip]
      exact hext.axisSize_lt _
  · have hcast : (n : ℤ) - c.axisSize d = -((c.axisSize d - n : ℕ) : ℤ) := by omega
    rw [hcast]
    exact hext.resizeAdjust_sub (by decide) _

/-- The loop of `spread` brings each child to its target. -/
theorem spreadChildren_eq (d : LayoutDirection) {each : ℕ} (hn : each + 1 ≤ i32Max) (r : ℕ)
    (hcs : ∀ c ∈ cs, c.axisSize d ≤ i32Max) : spreadChildren d each r cs =
      (cs.mapIdx fun i c =>
          c.resizeAdjust d (((each + if i < r then 1 else 0 : ℕ) : ℤ) - c.axisSize d),
        cs.map (axisSize · d) !=
          (List.range cs.length).map fun i => each + if i < r then 1 else 0) := by
  induction cs generalizing r with
  | nil => rfl
  | cons c cs ih =>
    have hc := hcs c (by simp)
    have htgt : (if 0 < r then wrapAdd each 1 else each) =
        each + if 0 < r then 1 else 0 := by
      split_ifs
      · exact wrapAdd_eq (hn.trans (by decide))
      · rfl
    have hle : (each + if 0 < r then 1 else 0) ≤ i32Max := by split_ifs <;> omega
    have hshift : ∀ i, (each + if i < r - 1 then 1 else 0) = each + if i + 1 < r then 1 else 0 := by
      intro i
      simp only [Nat.lt_sub_iff_add_lt]
    have hdelta : wrapI32 (asI32 (each + if 0 < r then 1 else 0) - asI32 (c.axisSize d)) =
        ((each + if 0 < r then 1 else 0 : ℕ) : ℤ) - c.axisSize d := by
      rw [asI32_eq hle, asI32_eq hc]
      unfold i32Max at hle hc
      exact wrapI32_eq (by omega) (by omega)
    rw [spreadChildren, htgt, hdelta, ih (r - 1) fun c hc => hcs c (by simp [hc])]
    simp only [mapIdx_cons, hshift, map_cons, length_cons,
      range_succ_eq_map, List.map_map, Function.comp_def, succ_eq_add_one]
    generalize (each + if 0 < r then 1 else 0) = target
    by_cases hz : (target : ℤ) - c.axisSize d = 0
    · have htgt : c.axisSize d = target := by omega
      rw [if_pos hz, hz, resizeAdjust_zero, htgt]
      simp [bne]
    · have htgt : c.axisSize d ≠ target := by omega
      rw [if_neg hz]
      simp [bne, htgt]

/-- The quotient and remainder `spread` works with. -/
theorem spread_numbers {size : ℕ} (hn : 2 ≤ n) (hrm : 2 * n ≤ size + 1) (hsz : size ≤ i32Max) :
    (size - (n - 1)) / n = (size + 1) / n - 1 ∧ 1 ≤ (size + 1) / n - 1 ∧
      (size + 1) / n ≤ size ∧
      satAdd (size - wrapMul n (wrapAdd ((size + 1) / n - 1) paneBorderCells)) paneBorderCells =
        max ((size + 1) % n) 1 := by
  have hdiv : (size + 1) / n = (size + 1 - n) / n + 1 := div_eq_sub_div (by omega) (by omega)
  have htwo : 2 ≤ (size + 1) / n := (le_div_iff_mul_le (by omega)).mpr (by omega)
  have hle : (size + 1) / n ≤ (size + 1) / 2 := div_le_div_left hn (by omega)
  have hmod := div_add_mod (size + 1) n
  have hu : i32Max + 1 ≤ u32Max := by decide
  have hsub : size - (n - 1) = size + 1 - n := by omega
  refine ⟨by rw [hsub, hdiv]; rfl, by omega, by omega, ?_⟩
  rw [paneBorderCells_eq, wrapAdd_eq (by omega), Nat.sub_add_cancel (by omega),
    wrapMul_eq (by omega), satAdd_eq (by omega)]
  omega

/-- `spread` reports exactly the uneven splits and keeps the cell's own geometry. -/
theorem spread_eq (hg : g.axis d ≤ i32Max) (hcs : ∀ c ∈ cs, c.axisSize d ≤ i32Max) :
    (LayoutCell.split d g cs).spread.2 = uneven (.split d g cs) ∧
      (uneven (.split d g cs) = true → (LayoutCell.split d g cs).spread.1 =
        .split d g (cs.mapIdx fun i c =>
          c.resizeAdjust d ((spreadTarget (g.axis d) cs.length i : ℤ) - c.axisSize d))) := by
  rw [spread]
  by_cases hlen : 2 ≤ cs.length
  · rw [if_neg (by omega)]
    by_cases hrm : 2 * cs.length ≤ g.axis d + 1
    · obtain ⟨heach, hone, hle, hrem⟩ := spread_numbers hlen hrm hg
      rw [if_neg (by omega)]
      simp only [heach]
      rw [if_neg (by omega), hrem,
        spreadChildren_eq d (by omega) (max ((g.axis d + 1) % cs.length) 1) hcs]
      refine ⟨?_, fun _ => rfl⟩
      rw [uneven, decide_eq_true hlen, decide_eq_true hrm, Bool.true_and, Bool.true_and]
      rfl
    · have heach : (g.axis d - (cs.length - 1)) / cs.length = 0 :=
        div_eq_of_lt (by omega)
      simp only [heach, if_true, ite_self]
      simp [uneven, hrm]
  · rw [if_pos (by omega)]
    simp [uneven, hlen]

theorem uneven_split (h : uneven (.split d g cs) = true) :
    2 ≤ cs.length ∧ 2 * cs.length ≤ g.axis d + 1 := by
  simp only [uneven, Bool.and_eq_true, decide_eq_true_eq] at h
  exact h.1

/-- A split that can be spread leaves every pane a cell. -/
theorem leavesPositive_spread (hw : WellSized (.split d g cs)) (hg : g.axis d ≤ i32Max)
    (hun : uneven (.split d g cs) = true) (hfits : SpreadFits (.split d g cs))
    (hpos : LeavesPositive (.split d g cs)) :
    LeavesPositive (LayoutCell.split d g cs).spread.1 := by
  have hcs : ∀ c ∈ cs, c.axisSize d ≤ i32Max := fun c hc => (hw.axisSize_child_le hc d).trans hg
  rw [(spread_eq hg hcs).2 hun, leavesPositive_split, forall_mem_mapIdx]
  intro i c hc
  have hmem := mem_of_getElem? hc
  have hroom := hfits.2 i c hc
  exact (leavesPositive_split.mp hpos c hmem).resizeAdjust fun _ =>
    ⟨hw.child hmem, (hcs c hmem).trans (by decide), by omega⟩

/-- Spreading an uneven split leaves it well sized exactly when its children fit. -/
theorem spread_sound_iff (hw : WellSized (.split d g cs))
    (hext : ExtentsBelow (2 ^ 31) (.split d g cs)) (hun : uneven (.split d g cs) = true) :
    (WellSized (LayoutCell.split d g cs).spread.1 ↔ SpreadFits (.split d g cs)) ∧
      ExtentsBelow (2 ^ 31) (LayoutCell.split d g cs).spread.1 := by
  have hg : g.axis d ≤ i32Max := le_of_lt_succ (hext.axisSize_lt d)
  have hcs : ∀ c ∈ cs, c.axisSize d ≤ i32Max := fun c hc => (hw.axisSize_child_le hc d).trans hg
  have hu : i32Max ≤ u32Max := by decide
  obtain ⟨hlen, hrm⟩ := uneven_split hun
  obtain ⟨-, hone, hle, -⟩ := spread_numbers hlen hrm hg
  have htgt : ∀ i, 1 ≤ spreadTarget (g.axis d) cs.length i ∧
      spreadTarget (g.axis d) cs.length i ≤ i32Max := by
    intro i
    unfold spreadTarget
    split_ifs <;> omega
  rw [(spread_eq hg hcs).2 hun]
  have hmemcs : ∀ {i c}, cs[i]? = some c → c ∈ cs := fun h => mem_of_getElem? h
  have hsum : ((cs.mapIdx fun i c => c.resizeAdjust d
      ((spreadTarget (g.axis d) cs.length i : ℤ) - c.axisSize d)).map (axisSize · d)).sum =
      cs.length * ((g.axis d + 1) / cs.length - 1) + max ((g.axis d + 1) % cs.length) 1 := by
    have hmodlt := mod_lt (g.axis d + 1) (by omega : 0 < cs.length)
    rw [← sum_range_add_ite ((g.axis d + 1) / cs.length - 1)
      (by omega : max ((g.axis d + 1) % cs.length) 1 ≤ cs.length)]
    refine congrArg sum (ext_getElem (by simp) fun i hi _ => ?_)
    simp only [getElem_map, getElem_mapIdx, getElem_range]
    rw [axisSize_resizeAdjust_to d ((hcs _ (getElem_mem _)).trans hu) ((htgt i).2.trans hu)]
    rfl
  constructor
  · rw [wellSized_split_iff, forall_mem_mapIdx, forall_mem_mapIdx, SpreadFits, hsum, length_mapIdx]
    have hmod := div_add_mod (g.axis d + 1) cs.length
    have hmul : cs.length * ((g.axis d + 1) / cs.length - 1) + cs.length =
        cs.length * ((g.axis d + 1) / cs.length) := by
      rw [← mul_succ]
      congr 1
      omega
    have hfit : ∀ i c, cs[i]? = some c →
        (WellSized (c.resizeAdjust d ((spreadTarget (g.axis d) cs.length i : ℤ) - c.axisSize d)) ↔
          c.axisSize d ≤ spreadTarget (g.axis d) cs.length i + c.resizeCheck d) := fun i c hc =>
      wellSized_resizeAdjust_to_iff (hw.child (hmemcs hc)) ((hcs c (hmemcs hc)).trans hu)
        ((htgt i).2.trans hu) (htgt i).1
    constructor
    · rintro ⟨hch, -, hadd⟩
      exact ⟨by omega, fun i c hc => (hfit i c hc).mp (hch i c hc)⟩
    · rintro ⟨hrem, hch⟩
      refine ⟨fun i c hc => (hfit i c hc).mpr (hch i c hc), fun i c hc => ?_, by omega⟩
      rw [axisSize_resizeAdjust_flip, hw.cross_eq (hmemcs hc)]
  · refine ⟨hext.1, extentsBelowAll_iff.mpr (forall_mem_mapIdx.mpr fun i c hc => ?_)⟩
    exact extentsBelow_resizeAdjust_to (hw.child (hmemcs hc)) (hext.child (hmemcs hc))
      (lt_succ_of_le (htgt i).2)

/-! ## Spreading around a leaf -/

/-- The cells on the way to a path, innermost first. -/
def ancestors (root : LayoutCell) (path : List ℕ) : List LayoutCell :=
  (List.range path.length).reverse.filterMap fun depth => cellAtPath (path.take depth) root

/-- The innermost uneven cell around a leaf, the one `spreadFromLeaf` spreads. -/
def LayoutTree.unevenAround (t : LayoutTree) (leafIndex : ℕ) : Option LayoutCell :=
  t.root.leafPaths[leafIndex]?.bind fun path => (ancestors t.root path).find? uneven

theorem LayoutCell.Focus.leavesPositive {root old new : LayoutCell} {p : List ℕ}
    {fill : LayoutCell → LayoutCell} (h : Focus root p old fill n) (hr : LeavesPositive root)
    (hnew : LeavesPositive old → LeavesPositive new) : LeavesPositive (fill new) := by
  induction h with
  | here c => exact hnew hr
  | there d g l r h ih =>
    rw [leavesPositive_split] at hr ⊢
    exact forall_mem_replace hr (ih (hr _ (by simp)) hnew)

/-- In a well-sized tree the cells on a path report evenness correctly. -/
theorem spread_snd_eq_uneven {root cell : LayoutCell} {p : List ℕ} {fill : LayoutCell → LayoutCell}
    (hf : Focus root p cell fill n) (hw : WellSized root) (hmax : ∀ a, root.axisSize a ≤ i32Max) :
    cell.spread.2 = uneven cell := by
  cases cell with
  | pane g => rfl
  | split d g cs =>
    have hg : g.axis d ≤ i32Max := (hf.axisSize_old_le hw d).trans (hmax d)
    exact (spread_eq hg fun c hc => ((hf.wellSized_old hw).axisSize_child_le hc d).trans hg).1

theorem LayoutTree.spreadAlong_cases {root root' : LayoutCell} {path : List ℕ}
    (hw : WellSized root) (hmax : ∀ a, root.axisSize a ≤ i32Max) :
    ∀ {k : ℕ}, spreadAlong root path k = some root' →
      ∃ p cell fill n, Focus root p cell fill n ∧ uneven cell = true ∧
        root' = (fill cell.spread.1).fixOffsets 0 0 ∧
        ((List.range k).reverse.filterMap fun depth =>
          cellAtPath (path.take depth) root).find? uneven = some cell
  | 0, h => by simp [spreadAlong] at h
  | k + 1, h => by
    rw [spreadAlong] at h
    rw [List.range_succ, List.reverse_append, List.reverse_singleton, List.singleton_append]
    cases hc : cellAtPath (path.take k) root with
    | none =>
      rw [hc] at h
      simp only [List.filterMap_cons, hc]
      exact spreadAlong_cases hw hmax h
    | some cell =>
      obtain ⟨fill, n, hf⟩ := exists_focus hc
      rw [hc] at h
      simp only [filterMap_cons, hc, find?_cons]
      simp only [spread_snd_eq_uneven hf hw hmax] at h
      cases hun : uneven cell with
      | true =>
        rw [hun, if_pos rfl, hf.setAtPath_eq] at h
        exact ⟨_, cell, fill, n, hf, hun, (some.inj h).symm, rfl⟩
      | false =>
        rw [hun, if_neg (by simp)] at h
        exact spreadAlong_cases hw hmax h

/-- A spread keeps the tree consistent exactly when the split it picks can be spread. -/
theorem LayoutTree.spreadFromLeaf_sound_iff {i : ℕ} (h : t.spreadFromLeaf i = some t')
    (hchk : t.root.check = true) (hpos : LeavesPositive t.root)
    (hext : ExtentsBelow (2 ^ 31) t.root) :
    ((t'.root.check = true ∧ ∀ a, t'.root.axisSize a = t.root.axisSize a) ↔
        ∃ cell, t.unevenAround i = some cell ∧ SpreadFits cell) ∧
      (t'.root.check = true → LeavesPositive t'.root) := by
  have hw := (check_iff_wellSized_of_below hext).mp hchk
  have hmax : ∀ a, t.root.axisSize a ≤ i32Max := fun a => le_of_lt_succ (hext.axisSize_lt a)
  unfold spreadFromLeaf at h
  unfold unevenAround ancestors
  cases hp : t.root.leafPaths[i]? with
  | none => simp [hp] at h
  | some path =>
    simp only [hp, map_eq_some_iff] at h
    obtain ⟨root', hrt', rfl⟩ := h
    obtain ⟨p, cell, fill, n, hf, hun, rfl, hfind⟩ := spreadAlong_cases hw hmax hrt'
    simp only [bind_some, hfind, some.injEq, exists_eq_left']
    cases cell with
    | pane g => simp [uneven] at hun
    | split d g cs =>
      obtain ⟨hiff, hbelow⟩ :=
        spread_sound_iff (hf.wellSized_old hw) (hf.extentsBelow_old hext) hun
      have hg : g.axis d ≤ i32Max := (hf.axisSize_old_le hw d).trans (hmax d)
      have hsm : ∀ a, (LayoutCell.split d g cs).spread.1.axisSize a =
          (LayoutCell.split d g cs).axisSize a := fun a => by
        rw [(spread_eq hg fun c hc =>
          ((hf.wellSized_old hw).axisSize_child_le hc d).trans hg).2 hun]
        rfl
      have hnew := (extentsBelow_fixOffsets 0 0).mpr (hf.extentsBelow hext hbelow)
      rw [check_iff_wellSized_of_below hnew, wellSized_fixOffsets, ← hiff]
      refine ⟨⟨?_, fun hcell => ⟨hf.wellSized hw hcell hsm, fun a => ?_⟩⟩, fun ht => ?_⟩
      · rintro ⟨ht, -⟩
        exact (hf.refocus _).wellSized_old ht
      · rw [axisSize_fixOffsets, hf.axisSize_fill _ hsm]
      · rw [leavesPositive_fixOffsets]
        exact hf.leavesPositive hpos (leavesPositive_spread (hf.wellSized_old hw) hg hun
          (hiff.mp ((hf.refocus _).wellSized_old ht)))

/-! ## The two operations together -/

/-- For a consistent tree of non-empty panes, with extents in the range of `i32` : a side split
keeps the tree consistent, its extent and its panes non-empty exactly when the old root can give
up the cells taken from it, and a spread keeps it consistent and of the same extent exactly when
the split it picks can be spread. Its panes are then not empty either. -/
theorem LayoutTree.squeeze_sound_iff (t : LayoutTree) (hcheck : t.root.check = true)
    (hpos : LeavesPositive t.root) (hext : ExtentsBelow (2 ^ 31) t.root) :
    (∀ d insertBefore t', t.splitRoot d insertBefore = some t' →
      ((t'.root.check = true ∧ (∀ a, t'.root.axisSize a = t.root.axisSize a) ∧
          LeavesPositive t'.root) ↔
        splitRootLoss (t.root.axisSize d) insertBefore ≤ t.root.resizeCheck d)) ∧
    ∀ i t', t.spreadFromLeaf i = some t' →
      ((t'.root.check = true ∧ ∀ a, t'.root.axisSize a = t.root.axisSize a) ↔
        ∃ cell, t.unevenAround i = some cell ∧ SpreadFits cell) ∧
      (t'.root.check = true → LeavesPositive t'.root) :=
  ⟨fun _ _ _ h => splitRoot_sound_iff h hcheck hpos hext,
    fun _ _ h => spreadFromLeaf_sound_iff h hcheck hpos hext⟩

/-- Panes of one row side by side. -/
def columns (widths : List ℕ) : LayoutTree :=
  ⟨(LayoutCell.split .leftRight ⟨(widths.map (· + 1)).sum - 1, 1, 0, 0⟩
    (widths.map fun w => .pane ⟨w, 1, 0, 0⟩)).fixOffsets 0 0, none⟩

theorem LayoutTree.squeeze_sound_iff_columns :
    (columns [5, 9]).root.check = true ∧
      ((columns [5, 9]).splitRoot .leftRight false).isSome = true ∧
      ∀ t', (columns [5, 9]).splitRoot .leftRight false = some t' → t'.root.check = true := by
  refine ⟨by decide, by decide, fun t' h => ?_⟩
  have hsound := (columns [5, 9]).squeeze_sound_iff (by decide) (by decide) (by decide)
  exact ((hsound.1 _ _ t' h).mpr (by decide)).1

/-- Three panes of one column cannot make room for a fourth, and two panes of one column are
spread to three cells plus a border in a window three columns wide. -/
theorem LayoutTree.squeeze_breaks_check :
    ((columns [1, 1, 1]).root.check = true ∧ LeavesPositive (columns [1, 1, 1]).root ∧
      ∃ t', (columns [1, 1, 1]).splitRoot .leftRight false = some t' ∧ t'.root.check = false) ∧
    ((columns [1, 1]).root.check = true ∧ LeavesPositive (columns [1, 1]).root ∧
      ∃ t', (columns [1, 1]).spreadFromLeaf 0 = some t' ∧ t'.root.check = false) := by
  refine ⟨⟨by decide, by decide, ?_⟩, by decide, by decide, ?_⟩
  · exact ⟨_, rfl, by decide⟩
  · exact ⟨_, rfl, by decide⟩

end Rmux
