import Mathlib.Algebra.GroupWithZero.Nat
import Mathlib.Algebra.Order.BigOperators.Group.List
import Mathlib.Data.List.Basic
import Mathlib.Data.List.DropRight

/-!
# Lists changed at one place

Facts about `List.modify`, `List.mapIdx`, `List.min?` and sums over `List.range` : a list splits
around any of its elements, a change at one index changes a sum by one term, and what holds of the
changed element and of the old ones holds of the new list. What holds of each element after those
before it goes along a list that grows (`forall_prefix_concat`).
-/

namespace List

open Option

variable {α β : Type*} {l : List α} {i : ℕ} {x : α}

/-- Every list splits around an element it has. -/
theorem exists_eq_append_cons (h : l[i]? = some x) :
    ∃ l₁ l₂, l = l₁ ++ x :: l₂ ∧ l₁.length = i := by
  obtain ⟨hi, rfl⟩ := List.getElem?_eq_some_iff.mp h
  refine ⟨l.take i, l.drop (i + 1), ?_, by simp; omega⟩
  rw [← drop_eq_getElem_cons hi, take_append_drop]

theorem modify_append_cons (l₁ : List α) (x : α) (l₂ : List α) (f : α → α) :
    (l₁ ++ x :: l₂).modify l₁.length f = l₁ ++ f x :: l₂ := by
  simp [modify_eq_set_getElem?]

theorem sum_map_modify (h : l[i]? = some x) (f : α → α) (w : α → ℕ) :
    ((l.modify i f).map w).sum + w x = (l.map w).sum + w (f x) := by
  obtain ⟨l₁, l₂, rfl, rfl⟩ := exists_eq_append_cons h
  rw [modify_append_cons]
  simp only [map_append, map_cons, sum_append, sum_cons]
  omega

theorem forall_mem_replace {l₁ l₂ : List α} {x y : α} {P : α → Prop}
    (h : ∀ a ∈ l₁ ++ x :: l₂, P a) (hy : P y) : ∀ a ∈ l₁ ++ y :: l₂, P a := by
  rw [forall_mem_append, forall_mem_cons] at h ⊢
  exact ⟨h.1, hy, h.2.2⟩

theorem forall_mem_modify (h : l[i]? = some x) (f : α → α) {P : α → Prop} (hl : ∀ a ∈ l, P a)
    (hx : P (f x)) : ∀ a ∈ l.modify i f, P a := by
  obtain ⟨l₁, l₂, rfl, rfl⟩ := exists_eq_append_cons h
  rw [modify_append_cons]
  exact forall_mem_replace hl hx

/-- A change at one index that `q` does not see is not seen by the list of `q`. -/
theorem map_modify_eq (l : List α) (i : ℕ) (f : α → α) (q : α → β) (hq : ∀ a, q (f a) = q a) :
    (l.modify i f).map q = l.map q := by
  cases h : l[i]? with
  | none => simp [modify_eq_set_getElem?, h]
  | some x =>
    obtain ⟨l₁, l₂, rfl, rfl⟩ := exists_eq_append_cons h
    rw [modify_append_cons]
    simp [hq]

theorem forall_mem_mapIdx {f : ℕ → α → β} {P : β → Prop} :
    (∀ b ∈ l.mapIdx f, P b) ↔ ∀ i a, l[i]? = some a → P (f i a) := by
  constructor
  · intro h i a ha
    obtain ⟨hi, rfl⟩ := List.getElem?_eq_some_iff.mp ha
    exact h _ (mem_mapIdx.mpr ⟨i, hi, rfl⟩)
  · intro h b hb
    obtain ⟨i, hi, rfl⟩ := mem_mapIdx.mp hb
    exact h i _ (List.getElem?_eq_getElem hi)

/-- A minimum shifts with its arguments. -/
theorem min?_map_add (l : List ℕ) (m : ℕ) : (l.map (· + m)).min? = l.min?.map (· + m) := by
  cases l with
  | nil => rfl
  | cons x l =>
    simp only [map_cons, List.min?_cons', map_some, some.injEq]
    induction l generalizing x with
    | nil => rfl
    | cons y l ih => rw [List.map_cons, List.foldl_cons, List.foldl_cons, ← ih, Nat.add_min_add_right]

theorem le_min?_getD {l : List ℕ} {m : ℕ} (h : m ≤ l.min?.getD 0) : ∀ x ∈ l, m ≤ x := by
  intro x hx
  obtain ⟨y, hy⟩ := isSome_iff_exists.mp (isSome_min?_of_mem hx)
  rw [hy, getD_some] at h
  exact h.trans ((List.min?_eq_some_iff.mp hy).2 x hx)

/-- `n` numbers, the first `r` of them one larger than the rest. -/
theorem sum_range_add_ite (each : ℕ) {r n : ℕ} (hr : r ≤ n) :
    ((List.range n).map fun i => each + if i < r then 1 else 0).sum = n * each + r := by
  induction n, hr using Nat.le_induction with
  | base =>
    have : (List.range r).map (fun i => each + if i < r then 1 else 0) =
        (List.range r).map fun _ => each + 1 :=
      map_congr_left fun i hi => by rw [if_pos (mem_range.mp hi)]
    rw [this, map_const', sum_replicate_nat, length_range, Nat.mul_succ]
  | succ n hn ih =>
    rw [range_succ, map_append, sum_append, ih, Nat.succ_mul]
    simp only [map_cons, map_nil, sum_cons, sum_nil]
    rw [if_neg (by omega)]
    omega

theorem foldl_max_le {l : List ℕ} {a b : ℕ} (ha : a ≤ b) (hl : ∀ x ∈ l, x ≤ b) :
    l.foldl max a ≤ b := by
  induction l generalizing a with
  | nil => exact ha
  | cons x l ih =>
    exact ih (Nat.max_le.mpr ⟨ha, hl x (by simp)⟩) fun y hy => hl y (by simp [hy])

theorem le_foldl_max_init (l : List ℕ) (a : ℕ) : a ≤ l.foldl max a := by
  induction l generalizing a with
  | nil => exact le_refl a
  | cons x l ih => exact (le_max_left a x).trans (ih _)

theorem le_foldl_max {l : List ℕ} {x : ℕ} (hx : x ∈ l) (a : ℕ) : x ≤ l.foldl max a := by
  induction l generalizing a with
  | nil => simp at hx
  | cons y l ih =>
    rcases mem_cons.mp hx with rfl | hx
    · exact (le_max_right a x).trans (le_foldl_max_init l _)
    · exact ih hx _

theorem rotateRight_perm (l : List α) (i : ℕ) : (l.rotateRight i).Perm l := by
  unfold rotateRight
  dsimp only
  split_ifs
  · exact .refl l
  · exact perm_append_comm.trans (.of_eq (take_append_drop _ l))

theorem rotateLeft_perm (l : List α) (i : ℕ) : (l.rotateLeft i).Perm l := by
  unfold rotateLeft
  dsimp only
  split_ifs
  · exact .refl l
  · exact perm_append_comm.trans (.of_eq (take_append_drop _ l))

theorem forall_prefix_concat {P : List α → α → Prop} :
    (∀ before a, before ++ [a] <+: l ++ [x] → P before a) ↔
      (∀ before a, before ++ [a] <+: l → P before a) ∧ P l x := by
  constructor
  · intro h
    exact ⟨fun before a hbef => h before a (hbef.trans (prefix_append _ _)), h l x prefix_rfl⟩
  · rintro ⟨hl, hx⟩ before a hbef
    rcases prefix_concat_iff.mp hbef with heq | hshorter
    · obtain ⟨rfl, ha⟩ := append_inj' heq rfl
      cases ha
      exact hx
    · exact hl before a hshorter

/-! ## The last elements -/

theorem rtake_append (l₁ l₂ : List α) (n : ℕ) :
    (l₁ ++ l₂).rtake n = l₁.rtake (n - l₂.length) ++ l₂.rtake n := by
  simp [rtake_eq_reverse_take_reverse, take_append]

theorem rtake_rtake_append (l₁ l₂ : List α) (n : ℕ) :
    (l₁.rtake n ++ l₂).rtake n = (l₁ ++ l₂).rtake n := by
  rw [rtake_append, rtake_append]
  simp [rtake_eq_reverse_take_reverse, take_take]

theorem length_rtake (l : List α) (n : ℕ) : (l.rtake n).length = min l.length n := by
  rw [rtake, length_drop]
  omega

end List
