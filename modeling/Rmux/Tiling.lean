import Mathlib.Algebra.BigOperators.Group.List.Basic
import Mathlib.Algebra.GroupWithZero.Nat
import Mathlib.Algebra.Order.Group.Nat
import Mathlib.Logic.ExistsUnique

/-!
# Consecutive spans

Each entry of a log covers a half-open span of numbers. Where the spans follow each other from `a`
up to `b` (`Tiles`), every number in between is covered by exactly one entry (`Tiles.existsUnique`),
and the entries come in the order of what they cover (`Tiles.pairwise`).
-/

namespace Tiling

open List

variable {α : Type*} (span : α → ℕ × ℕ)

/-- The spans are not empty and follow each other from `a` up to `b`. -/
def Tiles : ℕ → ℕ → List α → Prop
  | a, b, [] => a = b
  | a, b, x :: xs => (span x).1 = a ∧ a < (span x).2 ∧ Tiles (span x).2 b xs

/-- The number is in the span of the entry. -/
def Covers (x : α) (n : ℕ) : Prop := (span x).1 ≤ n ∧ n < (span x).2

variable {span} {a b c n : ℕ} {x : α} {xs ys : List α}

@[simp] theorem tiles_nil : Tiles span a b [] ↔ a = b := Iff.rfl

theorem tiles_append : Tiles span a c (xs ++ ys) ↔ ∃ b, Tiles span a b xs ∧ Tiles span b c ys := by
  induction xs generalizing a with
  | nil => simp
  | cons x xs ih => simp [Tiles, ih, and_assoc]

variable (h : Tiles span a b xs)

include h

/-- A log is extended by an entry whose span starts where the log stops. -/
theorem Tiles.concat (hx : (span x).1 = b) (hlt : b < (span x).2) :
    Tiles span a (span x).2 (xs ++ [x]) :=
  tiles_append.mpr ⟨b, h, hx, hlt, rfl⟩

theorem Tiles.le : a ≤ b := by
  induction xs generalizing a with
  | nil => exact h.le
  | cons x xs ih => exact h.2.1.le.trans (ih h.2.2)

/-- No entry covers a number before `a` or from `b` on. -/
theorem Tiles.bounds (hx : x ∈ xs) : a ≤ (span x).1 ∧ (span x).2 ≤ b := by
  induction xs generalizing a with
  | nil => cases hx
  | cons y xs ih =>
    obtain ⟨hst, hlt, hr⟩ := h
    rcases mem_cons.mp hx with rfl | hx
    · exact ⟨hst.ge, hr.le⟩
    · exact ⟨hlt.le.trans (ih hr hx).1, (ih hr hx).2⟩

/-- An entry stops before the later ones start. -/
theorem Tiles.pairwise : xs.Pairwise fun x y => (span x).2 ≤ (span y).1 := by
  induction xs generalizing a with
  | nil => exact .nil
  | cons x xs ih => exact .cons (fun y hy => (h.2.2.bounds hy).1) (ih h.2.2)

/-- Every number of the tiled range is covered by one entry and no other. -/
theorem Tiles.existsUnique (ha : a ≤ n) (hb : n < b) :
    ∃! i : ℕ, ∃ x, xs[i]? = some x ∧ Covers span x n := by
  induction xs generalizing a with
  | nil =>
    rw [tiles_nil] at h
    omega
  | cons x xs ih =>
    obtain ⟨hst, hlt, hr⟩ := h
    rcases lt_or_ge n (span x).2 with hn | hn
    · refine ⟨0, ⟨x, rfl, hst.le.trans ha, hn⟩, ?_⟩
      rintro (_ | i) ⟨y, hy, hcovers⟩
      · rfl
      · -- A later entry starts where `x` stops, which is after `n`.
        have := (hr.bounds (mem_of_getElem? hy)).1
        have := hcovers.1
        omega
    · obtain ⟨i, hi, hunique⟩ := ih hr hn
      refine ⟨i + 1, hi, ?_⟩
      rintro (_ | j) ⟨y, hy, hcovers⟩
      · obtain rfl : x = y := by simpa using hy
        have := hcovers.2
        omega
      · exact congrArg (· + 1) (hunique j ⟨y, hy, hcovers⟩)

/-- What the entries count, each at most the length of its span, is at most the length of the
tiled range. -/
theorem Tiles.sum_le {f : α → ℕ} (hf : ∀ x ∈ xs, f x ≤ (span x).2 - (span x).1) :
    (xs.map f).sum ≤ b - a := by
  induction xs generalizing a with
  | nil => simp
  | cons x xs ih =>
    obtain ⟨hst, hlt, hr⟩ := h
    have hx := hf x mem_cons_self
    have hxs := ih hr fun y hy => hf y (mem_cons_of_mem x hy)
    have := hr.le
    rw [map_cons, sum_cons]
    omega

end Tiling
