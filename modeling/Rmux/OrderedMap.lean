import Mathlib.Data.List.Basic
import Mathlib.Data.List.Induction
import Mathlib.Data.List.Nodup
import Mathlib.Order.Lattice

/-!
# Ordered maps

A finite map with its entries in the order of the keys. `OrderedMap.sorted` is part of the map, so
a key has at most one entry and two maps with the same values at every key are equal
(`OrderedMap.ext_get?`). The operations are known by what `get?` finds after them.
-/

/-- A finite map, its entries ordered by their keys. -/
structure OrderedMap (K V : Type*) [LinearOrder K] where
  entries : List (K × V)
  sorted : entries.Pairwise fun a b => a.1 < b.1

namespace OrderedMap

open List Option

variable {K V W : Type*} [LinearOrder K] {l : List (K × V)} {e : K × V}

deriving instance DecidableEq for OrderedMap

/-! ## Operations -/

def empty : OrderedMap K V := ⟨[], .nil⟩

instance : EmptyCollection (OrderedMap K V) := ⟨empty⟩

instance : Inhabited (OrderedMap K V) := ⟨empty⟩

def singleton (k : K) (v : V) : OrderedMap K V := ⟨[(k, v)], List.pairwise_singleton _ _⟩

def keys (m : OrderedMap K V) : List K := m.entries.map Prod.fst

def get? (m : OrderedMap K V) (k : K) : Option V :=
  (m.entries.find? fun e => e.1 = k).map Prod.snd

instance : Membership K (OrderedMap K V) := ⟨fun m k => (m.get? k).isSome⟩

instance (m : OrderedMap K V) (k : K) : Decidable (k ∈ m) :=
  inferInstanceAs (Decidable ((m.get? k).isSome = true))

/-- Put an entry in its place. -/
def insertEntry (k : K) (v : V) : List (K × V) → List (K × V)
  | [] => [(k, v)]
  | e :: l => if k < e.1 then (k, v) :: e :: l else if k = e.1 then (k, v) :: l
    else e :: insertEntry k v l

theorem mem_insertEntry (h : e ∈ insertEntry k v l) : e = (k, v) ∨ e ∈ l := by
  induction l with
  | nil => simpa [insertEntry] using h
  | cons x l ih =>
    rw [insertEntry] at h
    split_ifs at h
    · simpa using h
    · rcases mem_cons.mp h with rfl | h
      · exact .inl rfl
      · exact .inr (mem_cons_of_mem _ h)
    · rcases mem_cons.mp h with rfl | h
      · exact .inr mem_cons_self
      · exact (ih h).imp id (mem_cons_of_mem _)

theorem sorted_insertEntry (k : K) (v : V) (h : l.Pairwise fun a b => a.1 < b.1) :
    (insertEntry k v l).Pairwise fun a b => a.1 < b.1 := by
  induction l with
  | nil => exact pairwise_singleton _ _
  | cons x l ih =>
    obtain ⟨hx, hl⟩ := pairwise_cons.mp h
    rw [insertEntry]
    split_ifs with hlt heq
    · refine pairwise_cons.mpr ⟨fun e he => ?_, h⟩
      rcases mem_cons.mp he with rfl | he
      · exact hlt
      · exact hlt.trans (hx e he)
    · exact pairwise_cons.mpr ⟨fun e he => heq ▸ hx e he, hl⟩
    · refine pairwise_cons.mpr ⟨fun e he => ?_, ih hl⟩
      rcases mem_insertEntry he with rfl | he
      · exact lt_of_le_of_ne (not_lt.mp hlt) (Ne.symm heq)
      · exact hx e he

def insert (m : OrderedMap K V) (k : K) (v : V) : OrderedMap K V :=
  ⟨insertEntry k v m.entries, sorted_insertEntry k v m.sorted⟩

def erase (m : OrderedMap K V) (k : K) : OrderedMap K V :=
  ⟨m.entries.filter fun e => e.1 ≠ k, m.sorted.filter _⟩

/-- Change the value at a key, if there is one. -/
def modify (m : OrderedMap K V) (k : K) (f : V → V) : OrderedMap K V :=
  ⟨m.entries.map fun e => if e.1 = k then (e.1, f e.2) else e, by
    refine m.sorted.map _ fun a b h => ?_
    split_ifs <;> exact h⟩

/-- Change every value. -/
def mapValues (m : OrderedMap K V) (f : V → W) : OrderedMap K W :=
  ⟨m.entries.map fun e => (e.1, f e.2), m.sorted.map _ fun _ _ h => h⟩

/-- The map of some pairs, a later one in the place of an earlier one with the same key. -/
def ofList (l : List (K × V)) : OrderedMap K V := l.foldl (fun m e => m.insert e.1 e.2) ∅

/-- The greatest key below `k`. -/
def keyBelow (m : OrderedMap K V) (k : K) : Option K := (m.keys.filter (· < k)).getLast?

/-- The greatest key of all that are above `k`. -/
def lastKeyAbove (m : OrderedMap K V) (k : K) : Option K := (m.keys.filter (k < ·)).getLast?

/-! ## What is found -/

variable {m m' : OrderedMap K V} {k k' : K} {v : V}

theorem mem_iff_isSome : k ∈ m ↔ (m.get? k).isSome := Iff.rfl

theorem mem_iff : k ∈ m ↔ ∃ v, m.get? k = some v := isSome_iff_exists

theorem not_mem_iff : k ∉ m ↔ m.get? k = none := by
  rw [mem_iff_isSome, not_isSome_iff_eq_none]

theorem mem_of_get? (h : m.get? k = some v) : k ∈ m := mem_iff.mpr ⟨v, h⟩

theorem sorted_keys (m : OrderedMap K V) : m.keys.Pairwise (· < ·) :=
  m.sorted.map _ fun _ _ h => h

theorem nodup_keys (m : OrderedMap K V) : m.keys.Nodup := m.sorted_keys.imp ne_of_lt

/-- A key has one entry. -/
theorem eq_of_mem_entries {e' : K × V} (h : e ∈ m.entries) (h' : e' ∈ m.entries) (hk : e.1 = e'.1) :
    e = e' :=
  inj_on_of_nodup_map m.nodup_keys h h' hk

theorem get?_eq_some_iff : m.get? k = some v ↔ (k, v) ∈ m.entries := by
  unfold get?
  constructor
  · intro h
    obtain ⟨e, he, rfl⟩ := map_eq_some_iff.mp h
    have hk : e.1 = k := by simpa using find?_some he
    exact hk ▸ mem_of_find?_eq_some he
  · intro h
    cases hfind : m.entries.find? fun e => e.1 = k with
    | none => simpa using find?_eq_none.mp hfind (k, v) h
    | some e =>
      have hk : e.1 = k := by simpa using find?_some hfind
      rw [eq_of_mem_entries (mem_of_find?_eq_some hfind) h hk, map_some]

theorem mem_keys : k ∈ m.keys ↔ k ∈ m := by
  rw [mem_iff, keys, List.mem_map]
  constructor
  · rintro ⟨e, he, rfl⟩
    exact ⟨e.2, get?_eq_some_iff.mpr he⟩
  · rintro ⟨v, h⟩
    exact ⟨(k, v), get?_eq_some_iff.mp h, rfl⟩

/-- Maps with the same values are equal. -/
theorem ext_get? (h : ∀ k, m.get? k = m'.get? k) : m = m' := by
  have hperm : m.entries.Perm m'.entries := by
    refine (perm_ext_iff_of_nodup (m.sorted.imp ?_) (m'.sorted.imp ?_)).mpr fun e => ?_
    · rintro a b hlt rfl
      exact lt_irrefl _ hlt
    · rintro a b hlt rfl
      exact lt_irrefl _ hlt
    · rw [← get?_eq_some_iff, ← get?_eq_some_iff, h]
  have hents : m.entries = m'.entries :=
    hperm.eq_of_pairwise (fun a b _ _ hab hba => absurd hab hba.asymm) m.sorted m'.sorted
  cases m'
  cases hents
  rfl

@[simp] theorem get?_empty (k : K) : (∅ : OrderedMap K V).get? k = none := rfl

@[simp] theorem not_mem_empty (k : K) : k ∉ (∅ : OrderedMap K V) := by
  simp [not_mem_iff]

theorem get?_singleton (k : K) (v : V) (k' : K) :
    (singleton k v).get? k' = if k' = k then some v else none := by
  by_cases h : k = k'
  · simp [get?, singleton, h]
  · simp [get?, singleton, h, Ne.symm h]

theorem mem_insertEntry_iff (hl : l.Pairwise fun a b => a.1 < b.1) :
    e ∈ insertEntry k v l ↔ e = (k, v) ∨ e ∈ l ∧ e.1 ≠ k := by
  induction l with
  | nil => simp [insertEntry]
  | cons x l ih =>
    obtain ⟨hx, hl⟩ := pairwise_cons.mp hl
    rw [insertEntry]
    split_ifs with hlt heq
    · have hne : ∀ y ∈ x :: l, y.1 ≠ k := by
        intro y hy
        rcases mem_cons.mp hy with rfl | hy
        · exact hlt.ne'
        · exact (hlt.trans (hx y hy)).ne'
      rw [mem_cons]
      exact or_congr_right ⟨fun h => ⟨h, hne e h⟩, And.left⟩
    · have hne : ∀ y ∈ l, y.1 ≠ k := fun y hy => heq ▸ (hx y hy).ne'
      rw [mem_cons, mem_cons]
      refine or_congr_right ⟨fun h => ⟨.inr h, hne e h⟩, ?_⟩
      rintro ⟨rfl | h, hk⟩
      · exact absurd heq.symm hk
      · exact h
    · rw [mem_cons, ih hl, mem_cons]
      constructor
      · rintro (rfl | rfl | ⟨h, hk⟩)
        · exact .inr ⟨.inl rfl, Ne.symm heq⟩
        · exact .inl rfl
        · exact .inr ⟨.inr h, hk⟩
      · rintro (rfl | ⟨rfl | h, hk⟩)
        · exact .inr (.inl rfl)
        · exact .inl rfl
        · exact .inr (.inr ⟨h, hk⟩)

theorem get?_insert (m : OrderedMap K V) (k : K) (v : V) (k' : K) :
    (m.insert k v).get? k' = if k' = k then some v else m.get? k' := by
  refine ext fun u => ?_
  rw [get?_eq_some_iff, insert, mem_insertEntry_iff m.sorted, ← get?_eq_some_iff]
  split_ifs with h
  · simp [h, eq_comm]
  · simp [h]

theorem get?_erase (m : OrderedMap K V) (k k' : K) :
    (m.erase k).get? k' = if k' = k then none else m.get? k' := by
  refine ext fun u => ?_
  rw [get?_eq_some_iff, erase, mem_filter, ← get?_eq_some_iff]
  split_ifs with h
  · simp [h]
  · simp [h]

theorem get?_foldl_erase (l : List K) (m : OrderedMap K V) (k : K) :
    (l.foldl erase m).get? k = if k ∈ l then none else m.get? k := by
  induction l generalizing m with
  | nil => simp
  | cons x l ih =>
    rw [foldl_cons, ih, get?_erase]
    by_cases hl : k ∈ l
    · rw [if_pos hl, if_pos (mem_cons_of_mem _ hl)]
    · rw [if_neg hl]
      by_cases hx : k = x
      · rw [if_pos hx, if_pos (hx ▸ mem_cons_self)]
      · rw [if_neg hx, if_neg (by simp [hx, hl])]

theorem get?_modify (m : OrderedMap K V) (k : K) (f : V → V) (k' : K) :
    (m.modify k f).get? k' = if k' = k then (m.get? k).map f else m.get? k' := by
  refine ext fun u => ?_
  rw [get?_eq_some_iff, modify, List.mem_map]
  split_ifs with h
  · subst h
    rw [map_eq_some_iff]
    constructor
    · rintro ⟨⟨a, b⟩, he, heq⟩
      split_ifs at heq with ha
      · cases heq
        exact ⟨b, get?_eq_some_iff.mpr (by simpa using he), rfl⟩
      · cases heq
        exact absurd rfl ha
    · rintro ⟨w, hw, rfl⟩
      exact ⟨(k', w), get?_eq_some_iff.mp hw, by simp⟩
  · constructor
    · rintro ⟨⟨a, b⟩, he, heq⟩
      split_ifs at heq with ha
      · cases heq
        exact absurd ha h
      · cases heq
        exact get?_eq_some_iff.mpr he
    · intro hu
      exact ⟨(k', u), get?_eq_some_iff.mp hu, by simp [h]⟩

theorem get?_mapValues (m : OrderedMap K V) (f : V → W) (k : K) :
    (m.mapValues f).get? k = (m.get? k).map f := by
  refine ext fun u => ?_
  rw [get?_eq_some_iff, mapValues, List.mem_map, map_eq_some_iff]
  constructor
  · rintro ⟨e, he, heq⟩
    cases heq
    exact ⟨e.2, get?_eq_some_iff.mpr he, rfl⟩
  · rintro ⟨v, hv, rfl⟩
    exact ⟨(k, v), get?_eq_some_iff.mp hv, rfl⟩

@[simp] theorem mem_insert : k' ∈ m.insert k v ↔ k' = k ∨ k' ∈ m := by
  rw [mem_iff_isSome, get?_insert]
  split_ifs with h <;> simp [h, mem_iff_isSome]

@[simp] theorem mem_erase : k' ∈ m.erase k ↔ k' ≠ k ∧ k' ∈ m := by
  rw [mem_iff_isSome, get?_erase]
  split_ifs with h <;> simp [h, mem_iff_isSome]

@[simp] theorem mem_singleton : k' ∈ singleton k v ↔ k' = k := by
  rw [mem_iff_isSome, get?_singleton]
  split_ifs with h <;> simp [h]

/-! ## Entries as a collection -/

theorem nodup_entries (m : OrderedMap K V) : m.entries.Nodup := by
  refine m.sorted.imp ?_
  rintro a b hlt rfl
  exact lt_irrefl _ hlt

/-- A list without contradictions keeps its entries. -/
theorem get?_ofList (hl : ∀ e ∈ l, ∀ e' ∈ l, e.1 = e'.1 → e = e') :
    (ofList l).get? k = some v ↔ (k, v) ∈ l := by
  induction l using reverseRecOn with
  | nil => simp [ofList]
  | append_singleton l e ih =>
    have hlast : ofList (l ++ [e]) = (ofList l).insert e.1 e.2 := by simp [ofList]
    rw [hlast, get?_insert, mem_append, List.mem_singleton]
    split_ifs with hk
    · subst hk
      constructor
      · rintro ⟨⟩
        exact .inr rfl
      · intro h
        have hmem : (e.1, v) ∈ l ++ [e] := mem_append.mpr (h.imp_right List.mem_singleton.mpr)
        rw [← hl _ hmem e (by simp) rfl]
    · rw [ih fun e he e' he' => hl e (mem_append_left _ he) e' (mem_append_left _ he')]
      exact ⟨.inl, fun h => h.resolve_right fun h => hk (h ▸ rfl)⟩

theorem get?_foldl_fill (ks : List K) (d : K → V) :
    (ks.foldl (fun m k => if k ∈ m then m else m.insert k (d k)) m).get? k =
      (m.get? k).or (if k ∈ ks then some (d k) else none) := by
  induction ks generalizing m with
  | nil => simp
  | cons k' ks ih =>
    rw [foldl_cons, ih]
    by_cases hk : k = k'
    · subst hk
      by_cases hmem : k ∈ m
      · obtain ⟨v, hv⟩ := mem_iff.mp hmem
        rw [if_pos hmem, hv, some_or, some_or]
      · rw [if_neg hmem, get?_insert, if_pos rfl, not_mem_iff.mp hmem, some_or, none_or,
          if_pos mem_cons_self]
    · split_ifs <;> simp_all [get?_insert]

/-! ## Neighbours of a key -/

/-- The last of increasing keys is the greatest. -/
theorem getLast?_eq_some_iff {l : List K} (hl : l.Pairwise (· < ·)) {x : K} :
    l.getLast? = some x ↔ x ∈ l ∧ ∀ y ∈ l, y ≤ x := by
  constructor
  · intro h
    obtain ⟨init, rfl⟩ := List.getLast?_eq_some_iff.mp h
    refine ⟨by simp, fun y hy => ?_⟩
    rcases mem_append.mp hy with hy | hy
    · exact ((pairwise_append.mp hl).2.2 y hy x (by simp)).le
    · exact (List.mem_singleton.mp hy).le
  · rintro ⟨hx, hmax⟩
    cases hlast : l.getLast? with
    | none => simp [getLast?_eq_none_iff.mp hlast] at hx
    | some z =>
      obtain ⟨init, rfl⟩ := List.getLast?_eq_some_iff.mp hlast
      rcases mem_append.mp hx with hx | hx
      · exact absurd ((pairwise_append.mp hl).2.2 x hx z (by simp)) (not_lt.mpr (hmax z (by simp)))
      · rw [List.mem_singleton.mp hx]

/-- The last key is the greatest. -/
theorem getLast?_keys : m.keys.getLast? = some k ↔ k ∈ m ∧ ∀ j ∈ m, j ≤ k := by
  rw [getLast?_eq_some_iff m.sorted_keys]
  simp [mem_keys]

end OrderedMap
