import Mathlib.Data.List.Basic

/-!
# Searching for the first place where something starts

`List.scanFrom p start` is the first suffix of a list, from a place on, that `p` recognises. When
`p` looks at no more than a fixed number of elements (`Looks`), what is found stays found when the
list grows (`scanFrom_append`), and a search that has failed may be resumed near the end of the list
it has failed on (`scanFrom_resume`).
-/

namespace List

open Option

variable {α β : Type} {l : List α} {start : ℕ} {a : α} {b : β}

/-- The first suffix that `p` recognises : its position, and what `p` makes of it. -/
def scan (p : List α → Option β) : List α → Option (ℕ × β)
  | [] => none
  | a :: l =>
    match p (a :: l) with
    | some b => some (0, b)
    | none => (scan p l).map fun found => (found.1 + 1, found.2)

/-- `p` looks at the first `w` elements of a list at most, and needs all of them but one. -/
structure Looks (p : List α → Option β) (w : ℕ) : Prop where
  pos : 0 < w
  grow : ∀ {l : List α} {b : β} (m : List α), p l = some b → p (l ++ m) = some b
  far : ∀ {l : List α} (m : List α), w ≤ l.length → p (l ++ m) = p l
  size : ∀ {l : List α} {b : β}, p l = some b → w ≤ l.length + 1

variable {p : List α → Option β} {w : ℕ}

theorem scan_cons_of_some (h : p (a :: l) = some b) : scan p (a :: l) = some (0, b) := by
  rw [scan, h]

theorem scan_cons_of_none (h : p (a :: l) = none) :
    scan p (a :: l) = (scan p l).map fun found => (found.1 + 1, found.2) := by
  rw [scan, h]

theorem scan_cons_eq_none_iff : scan p (a :: l) = none ↔ p (a :: l) = none ∧ scan p l = none := by
  cases h : p (a :: l) with
  | none => simp [scan_cons_of_none h]
  | some b => simp [scan_cons_of_some h]

/-- What is found stands where it is found. -/
theorem scan_eq_some : ∀ {l : List α} {i : ℕ} {b : β}, scan p l = some (i, b) →
    i < l.length ∧ p (l.drop i) = some b
  | [], _, _, h => by cases h
  | a :: l, i, b, h => by
    cases hp : p (a :: l) with
    | some b' =>
      obtain ⟨rfl, rfl⟩ := Prod.mk.inj (some.inj ((scan_cons_of_some hp).symm.trans h))
      exact ⟨Nat.succ_pos _, hp⟩
    | none =>
      rw [scan_cons_of_none hp] at h
      obtain ⟨found, hf, hshift⟩ := map_eq_some_iff.mp h
      obtain ⟨rfl, rfl⟩ := Prod.mk.inj hshift
      obtain ⟨hlt, hf⟩ := scan_eq_some hf
      exact ⟨Nat.succ_lt_succ hlt, hf⟩

theorem Looks.scan_size (h : Looks p w) :
    ∀ {l : List α} {found : ℕ × β}, scan p l = some found → w ≤ l.length + 1
  | [], _, hf => by cases hf
  | a :: l, found, hf => by
    cases hp : p (a :: l) with
    | some b => exact h.size hp
    | none =>
      rw [scan_cons_of_none hp] at hf
      obtain ⟨found', hf', -⟩ := map_eq_some_iff.mp hf
      exact Nat.le_succ_of_le (h.scan_size hf')

/-- What is found stays found when the list grows. -/
theorem Looks.scan_append (h : Looks p w) (m : List α) :
    ∀ {l : List α} {found : ℕ × β}, scan p l = some found → scan p (l ++ m) = some found
  | [], _, hf => by cases hf
  | a :: l, found, hf => by
    cases hp : p (a :: l) with
    | some b =>
      rw [scan_cons_of_some hp] at hf
      exact (scan_cons_of_some (h.grow m hp)).trans hf
    | none =>
      rw [scan_cons_of_none hp] at hf
      obtain ⟨found', hf', hshift⟩ := map_eq_some_iff.mp hf
      have hlg : w ≤ (a :: l).length := h.scan_size hf'
      have hp' : p (a :: (l ++ m)) = none := (h.far m hlg).trans hp
      rw [cons_append, scan_cons_of_none hp', h.scan_append m hf', map_some, hshift]

/-- After a search that has failed, only the last places and the new elements are searched. -/
theorem Looks.scan_resume (h : Looks p w) (m : List α) :
    ∀ {l : List α} {j : ℕ}, scan p l = none → j + w ≤ l.length + 1 →
      scan p (l ++ m) = (scan p ((l ++ m).drop j)).map fun found => (found.1 + j, found.2)
  | l, 0, _, _ => by simp
  | [], j + 1, _, hj => by
    have := h.pos
    simp only [length_nil] at hj
    omega
  | a :: l, j + 1, hn, hj => by
    obtain ⟨hp, hl⟩ := scan_cons_eq_none_iff.mp hn
    have hlg : w ≤ (a :: l).length := by
      omega
    have hp' : p (a :: (l ++ m)) = none := (h.far m hlg).trans hp
    have hr : j + w ≤ l.length + 1 := by
      simp only [length_cons] at hj
      omega
    rw [cons_append, scan_cons_of_none hp', h.scan_resume m hl hr, drop_succ_cons, Option.map_map]
    rfl

theorem scan_eq_none_iff : ∀ {l : List α}, scan p l = none ↔ ∀ i < l.length, p (l.drop i) = none
  | [] => by simp [scan]
  | a :: l => by
    rw [scan_cons_eq_none_iff, scan_eq_none_iff]
    constructor
    · rintro ⟨hp, hl⟩ (_ | i) hi
      exacts [hp, hl i (Nat.lt_of_succ_lt_succ hi)]
    · intro h
      exact ⟨h 0 (Nat.succ_pos _), fun i hi => h (i + 1) (Nat.succ_lt_succ hi)⟩

/-! ## From a place on -/

/-- The first suffix from `start` on that `p` recognises : its position in the list, and what `p` makes
of it. -/
def scanFrom (p : List α → Option β) (start : ℕ) (l : List α) : Option (ℕ × β) :=
  ((l.drop start).scan p).map fun found => (start + found.1, found.2)

theorem scanFrom_eq_none : scanFrom p start l = none ↔ scan p (l.drop start) = none :=
  map_eq_none_iff

theorem scanFrom_eq_some {i : ℕ} (h : scanFrom p start l = some (i, b)) :
    start ≤ i ∧ i < l.length ∧ p (l.drop i) = some b := by
  obtain ⟨⟨j, b'⟩, hf, hshift⟩ := map_eq_some_iff.mp h
  obtain ⟨rfl, rfl⟩ := Prod.mk.inj hshift
  obtain ⟨hlt, hat⟩ := scan_eq_some hf
  rw [length_drop] at hlt
  rw [drop_drop] at hat
  exact ⟨Nat.le_add_right _ _, by omega, hat⟩

theorem Looks.scanFrom_append (h : Looks p w) {found : ℕ × β} (m : List α)
    (hf : scanFrom p start l = some found) : scanFrom p start (l ++ m) = some found := by
  have hst : start ≤ l.length := by
    obtain ⟨hle, hlt, -⟩ := scanFrom_eq_some hf
    omega
  obtain ⟨found', hf', rfl⟩ := map_eq_some_iff.mp hf
  rw [scanFrom, drop_append_of_le_length hst, h.scan_append m hf', map_some]

theorem Looks.scanFrom_resume (h : Looks p w) {base : ℕ} (m : List α)
    (hn : scanFrom p base l = none) (hbase : base ≤ start) (hst : start + w ≤ l.length + 1) :
    scanFrom p start (l ++ m) = scanFrom p base (l ++ m) := by
  have hpos := h.pos
  have hle : base ≤ l.length := by omega
  have hlen : (start - base) + w ≤ (l.drop base).length + 1 := by
    rw [length_drop]
    omega
  rw [scanFrom, scanFrom, drop_append_of_le_length hle,
    h.scan_resume m (scanFrom_eq_none.mp hn) hlen, ← drop_append_of_le_length hle, drop_drop,
    Nat.add_sub_cancel' hbase, Option.map_map]
  congr 1
  funext found
  simp only [Function.comp_apply, Prod.mk.injEq, and_true]
  omega

/-- The search may go back over the elements that can be the beginning of a match. -/
theorem Looks.scanFrom_clamped (h : Looks p w) {base : ℕ} {m : List α}
    (hn : base ≤ l.length → scanFrom p base l = none) (hbase : base ≤ (l ++ m).length) :
    scanFrom p (min (max (l.length - (w - 1)) base) (l ++ m).length) (l ++ m) =
      scanFrom p base (l ++ m) := by
  by_cases hback : l.length - (w - 1) ≤ base
  · congr 1
    omega
  · rw [length_append]
    exact h.scanFrom_resume m (hn (by omega)) (by omega) (by omega)

/-- What is found only in the longer list ends beyond the shorter one. -/
theorem Looks.scanFrom_beyond (h : Looks p w) {i : ℕ} {m : List α}
    (hn : scanFrom p start l = none) (hf : scanFrom p start (l ++ m) = some (i, b)) :
    l.length < i + w := by
  by_contra hle
  obtain ⟨hst, -, hat⟩ := scanFrom_eq_some hf
  have hpos := h.pos
  have hdp : (l ++ m).drop i = l.drop i ++ m := drop_append_of_le_length (by omega)
  have hwide : w ≤ (l.drop i).length := by
    rw [length_drop]
    omega
  rw [hdp, h.far m hwide] at hat
  have hmiss := scan_eq_none_iff.mp (scanFrom_eq_none.mp hn) (i - start) (by
    rw [length_drop]
    omega)
  rw [drop_drop, Nat.add_sub_cancel' hst, hat] at hmiss
  cases hmiss

end List
