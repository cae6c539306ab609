import Rmux.LayoutSizing

/-!
# Reaching into a layout tree

The tree operations find a leaf by its path, the list of child indices that leads to it, and change
the cell there or its parent (`cell_at_path`, `cell_mut_at_path`). What a change at one cell does to
the whole tree is one induction over `Focus`.
-/

namespace Rmux

open MachineInt List Nat

namespace LayoutCell

variable {p : List ℕ} {root : LayoutCell} {i : ℕ}

def cellAtPath : List ℕ → LayoutCell → Option LayoutCell
  | [], c => some c
  | _ :: _, .pane _ => none
  | i :: p, .split _ _ cs => cs[i]?.bind (cellAtPath p)

/-- Overwrite the cell a path leads to; nothing happens if it leads nowhere. -/
def setAtPath (new : LayoutCell) : List ℕ → LayoutCell → LayoutCell
  | [], _ => new
  | _ :: _, .pane g => .pane g
  | i :: p, .split d g cs =>
    match cs[i]? with
    | none => .split d g cs
    | some c => .split d g (cs.set i (setAtPath new p c))

/-- `Focus root p c fill n` : the cell of `root` at `p` is `c`, after `n` leaves, and `fill`
puts another cell in its place. -/
inductive Focus : LayoutCell → List ℕ → LayoutCell → (LayoutCell → LayoutCell) → ℕ → Prop
  | here (c : LayoutCell) : Focus c [] c id 0
  | there {c old : LayoutCell} {p : List ℕ} {fill : LayoutCell → LayoutCell} {n : ℕ}
      (d : LayoutDirection) (g : LayoutGeometry) (l r : List LayoutCell)
      (h : Focus c p old fill n) :
      Focus (.split d g (l ++ c :: r)) (l.length :: p) old
        (fun new => .split d g (l ++ fill new :: r)) ((l.map leafCount).sum + n)

theorem exists_focus {c : LayoutCell} (h : cellAtPath p root = some c) :
    ∃ fill n, Focus root p c fill n := by
  induction p generalizing root with
  | nil =>
    cases h
    exact ⟨_, _, .here c⟩
  | cons i p ih =>
    cases root with
    | pane g => cases h
    | split d g cs =>
      obtain ⟨child, hi, hc⟩ := Option.bind_eq_some_iff.mp h
      obtain ⟨l, r, rfl, rfl⟩ := exists_eq_append_cons hi
      obtain ⟨fill, n, hf⟩ := ih hc
      exact ⟨_, _, .there d g l r hf⟩

namespace Focus

variable {root old : LayoutCell} {p : List ℕ} {fill : LayoutCell → LayoutCell} {n : ℕ}
  {new : LayoutCell}

theorem cellAtPath_eq (h : Focus root p old fill n) : cellAtPath p root = some old := by
  induction h with
  | here c => rfl
  | there d g l r h ih => simp [cellAtPath, ih]

theorem setAtPath_eq (h : Focus root p old fill n) (new : LayoutCell) :
    setAtPath new p root = fill new := by
  induction h with
  | here c => rfl
  | there d g l r h ih => simp [setAtPath, ih]

theorem eq_of_nil (h : Focus root [] old fill n) : root = old ∧ fill = id ∧ n = 0 := by
  cases h
  exact ⟨rfl, rfl, rfl⟩

variable (h : Focus root p old fill n)

include h

theorem wellSized_old (hr : WellSized root) : WellSized old := by
  induction h with
  | here c => exact hr
  | there d g l r h ih => exact ih (hr.child (by simp))

theorem axisSize_old_le (hr : WellSized root) (a : LayoutDirection) :
    old.axisSize a ≤ root.axisSize a := by
  induction h with
  | here c => exact le_refl _
  | there d g l r h ih =>
    exact (ih (hr.child (by simp))).trans (hr.axisSize_child_le (by simp) a)

/-- A replacement with the same extent changes no extent above it. -/
theorem axisSize_fill (new : LayoutCell) (hnew : ∀ a, new.axisSize a = old.axisSize a)
    (a : LayoutDirection) : (fill new).axisSize a = root.axisSize a := by
  cases h with
  | here => exact hnew a
  | there d g l r h => rfl

theorem wellSized (hr : WellSized root) (hw : WellSized new)
    (hnew : ∀ a, new.axisSize a = old.axisSize a) : WellSized (fill new) := by
  induction h with
  | here c => exact hw
  | there d g l r h ih =>
    have hax := h.axisSize_fill new hnew
    refine .of_sum (forall_mem_replace (fun _ => hr.child) (ih (hr.child (by simp)) hnew))
      (forall_mem_replace (fun _ => hr.cross_eq) ?_) ?_
    · rw [hax]
      exact hr.cross_eq (by simp)
    · rw [← hr.sum_eq]
      simp [hax]

/-- The tree with `new` in place has its focus there. -/
theorem refocus (new : LayoutCell) : Focus (fill new) p new fill n := by
  induction h with
  | here c => exact .here new
  | there d g l r h ih => exact ih.there d g l r

theorem extentsBelow_old {b : ℕ} (hr : ExtentsBelow b root) : ExtentsBelow b old := by
  induction h with
  | here c => exact hr
  | there d g l r h ih => exact ih (hr.child (by simp))

theorem extentsBelow {b : ℕ} (hr : ExtentsBelow b root) (hnew : ExtentsBelow b new) :
    ExtentsBelow b (fill new) := by
  induction h with
  | here c => exact hnew
  | there d g l r h ih =>
    exact ⟨hr.1, extentsBelowAll_iff.mpr
      (forall_mem_replace (fun _ => hr.child) (ih (hr.child (by simp))))⟩

theorem skeleton_fill (new : LayoutCell) (hnew : new.skeleton = old.skeleton) :
    (fill new).skeleton = root.skeleton := by
  induction h with
  | here c => exact hnew
  | there d g l r h ih => simp [skeleton_split, ih hnew]

theorem leafCount_fill (new : LayoutCell) :
    (fill new).leafCount + old.leafCount = root.leafCount + new.leafCount := by
  induction h with
  | here c => exact add_comm _ _
  | there d g l r h ih =>
    simp only [leafCount_split, map_append, map_cons, List.sum_append, sum_cons]
    omega

theorem branching_old (hr : Branching root) : Branching old := by
  induction h with
  | here c => exact hr
  | there d g l r h ih => exact ih ((branching_split_iff.mp hr).2 _ (by simp))

theorem branching (hr : Branching root) (hnew : Branching new) : Branching (fill new) := by
  induction h with
  | here c => exact hnew
  | there d g l r h ih =>
    obtain ⟨two, cs⟩ := branching_split_iff.mp hr
    exact .split (by simpa using two) (forall_mem_replace cs (ih (cs _ (by simp))))

omit h

/-- The focus of a child is a focus of its parent. -/
theorem parent {i : ℕ} (h : Focus root (p ++ [i]) old fill n) :
    ∃ d g l r fill' n', Focus root p (.split d g (l ++ old :: r)) fill' n' ∧ l.length = i ∧
      n = n' + (l.map leafCount).sum ∧
      fill = fun new => fill' (.split d g (l ++ new :: r)) := by
  induction p generalizing root fill n with
  | nil =>
    cases h with
    | there d g l r h =>
      cases h
      exact ⟨d, g, l, r, id, 0, .here _, rfl, by omega, rfl⟩
  | cons j p ih =>
    cases h with
    | there d g l r h =>
      obtain ⟨d', g', l', r', fill', n', hf, hlen, hn, hfill⟩ := ih h
      refine ⟨d', g', l', r', _, _, hf.there d g l r, hlen, by omega, ?_⟩
      rw [hfill]

end Focus

/-! ## Leaves and their paths -/

theorem exists_of_leafPathsFrom {cs : List LayoutCell} {j : ℕ}
    (h : (leafPathsFrom j cs)[i]? = some p) :
    ∃ l c r p' i', cs = l ++ c :: r ∧ p = (j + l.length) :: p' ∧ c.leafPaths[i']? = some p' ∧
      i = (l.map leafCount).sum + i' := by
  induction cs generalizing j i with
  | nil => simp [leafPathsFrom] at h
  | cons c cs ih =>
    rw [leafPathsFrom] at h
    by_cases hi : i < c.leafCount
    · rw [getElem?_append_left (by rw [length_map, length_leafPaths]; exact hi),
        getElem?_map, Option.map_eq_some_iff] at h
      obtain ⟨p', hp', rfl⟩ := h
      exact ⟨[], c, cs, p', i, rfl, rfl, hp', by simp⟩
    · rw [getElem?_append_right (by rw [length_map, length_leafPaths]; omega),
        length_map, length_leafPaths] at h
      obtain ⟨l, c', r, p', i', rfl, rfl, hp', hi'⟩ := ih h
      refine ⟨c :: l, c', r, p', i', rfl, ?_, hp', ?_⟩
      · rw [length_cons]
        congr 1
        omega
      · rw [map_cons, sum_cons]
        omega

/-- The path of the `i`-th leaf leads to a pane with `i` leaves before it. -/
theorem exists_focus_of_leafPaths (h : root.leafPaths[i]? = some p) :
    ∃ g fill, Focus root p (.pane g) fill i := by
  induction root generalizing i p with
  | pane g =>
    obtain ⟨hi, hp⟩ := List.getElem?_eq_some_iff.mp h
    have hi0 : i = 0 := by simpa [leafPaths] using hi
    subst hi0
    have hp' : [] = p := hp
    rw [← hp']
    exact ⟨g, id, .here _⟩
  | split d g cs ih =>
    obtain ⟨l, c, r, p', i', rfl, rfl, hp', hi⟩ := exists_of_leafPathsFrom h
    obtain ⟨g', fill, hf⟩ := ih c (by simp) hp'
    rw [zero_add, hi]
    exact ⟨g', _, hf.there d g l r⟩

theorem exists_leafPath (h : i < root.leafCount) : ∃ p, root.leafPaths[i]? = some p :=
  ⟨_, getElem?_eq_getElem (by rwa [length_leafPaths])⟩

end LayoutCell

end Rmux
