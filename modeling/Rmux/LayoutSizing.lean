import Rmux.LayoutCell

/-!
# Resizing keeps a layout consistent

`WellSized` is the meaning of `check`, without rounding or overflow (`check_iff_wellSized`).
`resizeAdjust` hands a change to a split's children one cell at a time. The loop is analysed once,
for any step function and any weight (`adjustLoop_grow`, `adjustLoop_shrink`). From it,
`resizeAdjust` keeps a tree well sized when it grows it, and when it shrinks it by no more than
`resizeCheck`.
-/

namespace Rmux

open MachineInt List Nat LayoutDirection LayoutGeometry

namespace LayoutCell

variable {c : LayoutCell} {g : LayoutGeometry} {cs : List LayoutCell} {a d : LayoutDirection}
  {b : ℕ} {k : ℤ}

/-! ## The round-robin loop -/

section RoundRobin

variable (step : LayoutCell → ℤ → LayoutCell) (room : LayoutCell → ℕ) {cs : List LayoutCell}
  {P : LayoutCell → Prop}

/-- What no step changes, the loop does not change. -/
theorem map_adjustPass {β : Type*} (q : LayoutCell → β) (hq : ∀ c k, q (step c k) = q c)
    (cs : List LayoutCell) (r : ℤ) (p : Bool) :
    (adjustPass step room cs r p).1.map q = cs.map q := by
  induction cs generalizing r p with
  | nil => rfl
  | cons c cs ih =>
    unfold adjustPass
    split_ifs <;> simp [hq, ih]

theorem map_adjustLoop {β : Type*} (q : LayoutCell → β) (hq : ∀ c k, q (step c k) = q c)
    (n : ℕ) (cs : List LayoutCell) (r : ℤ) : (adjustLoop step room n cs r).map q = cs.map q := by
  induction n generalizing cs r with
  | zero => rfl
  | succ n ih =>
    unfold adjustLoop
    simp only
    split_ifs
    · rfl
    · rw [ih, map_adjustPass step room q hq]
    · exact map_adjustPass step room q hq cs r false

theorem length_adjustLoop (n : ℕ) (cs : List LayoutCell) (r : ℤ) :
    (adjustLoop step room n cs r).length = cs.length := by
  simpa using congrArg length (map_adjustLoop step room (fun _ => ()) (fun _ _ => rfl) n cs r)

/-- What the steps in the direction of the change keep, the loop keeps. -/
theorem forall_adjustPass {r : ℤ} (hgrow : 0 < r → ∀ c, P c → P (step c 1))
    (hshr : r < 0 → ∀ c, P c → 0 < room c → P (step c (-1))) (p : Bool) (h : ∀ c ∈ cs, P c) :
    (∀ c ∈ (adjustPass step room cs r p).1, P c) ∧
      (0 < (adjustPass step room cs r p).2.1 → 0 < r) ∧
      ((adjustPass step room cs r p).2.1 < 0 → r < 0) := by
  induction cs generalizing r p with
  | nil => simp [adjustPass]
  | cons c cs ih =>
    have hc := h c (by simp)
    have hcs : ∀ c ∈ cs, P c := fun c hc => h c (by simp [hc])
    unfold adjustPass
    split_ifs with h0 hpos hrm
    · exact ⟨h, id, id⟩
    · obtain ⟨hall, hsign⟩ := ih (r := r - 1) (fun _ => hgrow hpos) (by omega) true hcs
      exact ⟨by simpa using ⟨hgrow hpos c hc, hall⟩, fun _ => hpos, fun hneg => by
        have := hsign.2 hneg
        omega⟩
    · have hneg : r < 0 := by omega
      obtain ⟨hall, hsign⟩ := ih (r := r + 1) (by omega) (fun _ => hshr hneg) true hcs
      exact ⟨by simpa using ⟨hshr hneg c hc hrm, hall⟩, fun hpos => by
        have := hsign.1 hpos
        omega, fun _ => hneg⟩
    · obtain ⟨hall, hsign⟩ := ih hgrow hshr p hcs
      exact ⟨by simpa using ⟨hc, hall⟩, hsign⟩

theorem forall_adjustLoop {r : ℤ} (hgrow : 0 < r → ∀ c, P c → P (step c 1))
    (hshr : r < 0 → ∀ c, P c → 0 < room c → P (step c (-1))) (n : ℕ) (h : ∀ c ∈ cs, P c) :
    ∀ c ∈ adjustLoop step room n cs r, P c := by
  induction n generalizing cs r with
  | zero => exact h
  | succ n ih =>
    obtain ⟨hall, hpos, hneg⟩ := forall_adjustPass step room hgrow hshr false h
    unfold adjustLoop
    simp only
    split_ifs
    · exact h
    · exact ih (fun hr => hgrow (hpos hr)) (fun hr => hshr (hneg hr)) hall
    · exact hall

variable {step' : LayoutCell → ℤ → LayoutCell}

/-- Steps that agree on a set of cells they do not leave give the same loop. -/
theorem adjustPass_congr
    (hs : ∀ c k, P c → step c k = step' c k) (r : ℤ) (p : Bool) (h : ∀ c ∈ cs, P c) :
    adjustPass step room cs r p = adjustPass step' room cs r p := by
  induction cs generalizing r p with
  | nil => rfl
  | cons c cs ih =>
    have hcs := fun r p => ih r p fun c hc => h c (by simp [hc])
    unfold adjustPass
    simp only [hcs, hs c _ (h c (by simp))]

theorem adjustLoop_congr
    (hs : ∀ c k, P c → step c k = step' c k) (hP : ∀ c k, P c → P (step c k)) (n : ℕ) (r : ℤ)
    (h : ∀ c ∈ cs, P c) : adjustLoop step room n cs r = adjustLoop step' room n cs r := by
  induction n generalizing cs r with
  | zero => rfl
  | succ n ih =>
    have hpass := adjustPass_congr step room hs r false h
    unfold adjustLoop
    simp only [← hpass]
    rw [ih _ (forall_adjustPass step room (fun _ c => hP c 1) (fun _ c hc _ => hP c (-1) hc) false
      h).1]

variable (weight : LayoutCell → ℕ) {Good : LayoutCell → Prop} {bound : ℕ}

/-- A growing pass serves the first children, each with one cell. -/
theorem adjustPass_grow
    (hst : ∀ c, Good c → weight c < bound → Good (step c 1) ∧ weight (step c 1) = weight c + 1)
    (n : ℕ) (p : Bool) (hg : ∀ c ∈ cs, Good c) (hb : (cs.map weight).sum + n ≤ bound) :
    let out := adjustPass step room cs n p
    (∀ c ∈ out.1, Good c) ∧ out.2.1 = ((n - cs.length : ℕ) : ℤ) ∧
      (out.1.map weight).sum + (n - cs.length) = (cs.map weight).sum + n ∧
      (0 < n → cs ≠ [] → out.2.2 = true) ∧ (p = true → out.2.2 = true) := by
  induction cs generalizing n p with
  | nil => simp [adjustPass]
  | cons c cs ih =>
    simp only [map_cons, sum_cons] at hb
    obtain rfl | hn := Nat.eq_zero_or_pos n
    · simpa [adjustPass] using hg
    obtain ⟨hc, hw⟩ := hst c (hg c (by simp)) (by omega)
    obtain ⟨hg', hr, hs, -, hp⟩ :=
      ih (n - 1) true (fun c hc => hg c (by simp [hc])) (by omega)
    have hcast : ((n : ℤ) - 1) = ((n - 1 : ℕ) : ℤ) := by omega
    unfold adjustPass
    rw [if_neg (by omega), if_pos (by omega), hcast]
    refine ⟨?_, ?_, ?_, fun _ _ => hp rfl, fun _ => hp rfl⟩
    · simpa using ⟨hc, hg'⟩
    · rw [hr, length_cons]
      omega
    · simp only [map_cons, sum_cons, length_cons]
      omega

/-- Growing by `n` adds `n` to the total weight. -/
theorem adjustLoop_grow
    (hst : ∀ c, Good c → weight c < bound → Good (step c 1) ∧ weight (step c 1) = weight c + 1)
    (fuel : ℕ) {n : ℕ} (hfu : n ≤ fuel) (hne : cs ≠ []) (hg : ∀ c ∈ cs, Good c)
    (hb : (cs.map weight).sum + n ≤ bound) : (∀ c ∈ adjustLoop step room fuel cs n, Good c) ∧
      ((adjustLoop step room fuel cs n).map weight).sum = (cs.map weight).sum + n := by
  induction fuel generalizing cs n with
  | zero =>
    obtain rfl : n = 0 := by omega
    exact ⟨hg, rfl⟩
  | succ fuel ih =>
    obtain rfl | hn := Nat.eq_zero_or_pos n
    · simpa [adjustLoop] using hg
    obtain ⟨hg', hr, hs, hp, -⟩ := adjustPass_grow step room weight hst n false hg hb
    have hlen : 0 < cs.length := length_pos_of_ne_nil hne
    have hne' : (adjustPass step room cs n false).1 ≠ [] := by
      intro h
      have := congrArg length (map_adjustPass step room (fun _ => ()) (fun _ _ => rfl) cs n false)
      simp [h] at this
      omega
    unfold adjustLoop
    rw [if_neg (by omega)]
    simp only [hp hn hne, if_true, hr]
    obtain ⟨hg'', hs''⟩ := ih (n := n - cs.length) (by omega) hne' hg' (by omega)
    exact ⟨hg'', by omega⟩

/-- A shrinking pass takes as much weight as room, and stalls only when there is no room. -/
theorem adjustPass_shrink (hst : ∀ c, Good c → 0 < room c →
      Good (step c (-1)) ∧ weight (step c (-1)) + 1 = weight c ∧ room (step c (-1)) + 1 = room c)
    (n : ℕ) (p : Bool) (hg : ∀ c ∈ cs, Good c) : let out := adjustPass step room cs (-n) p
    ∃ m ≤ n, (∀ c ∈ out.1, Good c) ∧ out.2.1 = -(m : ℤ) ∧
      (out.1.map weight).sum + (n - m) = (cs.map weight).sum ∧
      (out.1.map room).sum + (n - m) = (cs.map room).sum ∧
      (out.2.2 = true ∨ m = n) ∧ (m = n → n = 0 ∨ (cs.map room).sum = 0) ∧
      (p = true → out.2.2 = true) ∧ (p = false → out.2.2 = true → m < n) := by
  induction cs generalizing n p with
  | nil => exact ⟨n, le_refl _, by simp [adjustPass]⟩
  | cons c cs ih =>
    have hgs : ∀ c ∈ cs, Good c := fun c hc => hg c (by simp [hc])
    obtain rfl | hn := Nat.eq_zero_or_pos n
    · exact ⟨0, le_refl _, by simpa [adjustPass] using hg⟩
    unfold adjustPass
    rw [if_neg (by omega), if_neg (by omega)]
    by_cases hrm : 0 < room c
    · obtain ⟨hc, hw, hr⟩ := hst c (hg c (by simp)) hrm
      obtain ⟨m, hm, hg', hrem, hs, hsr, -, -, hp, -⟩ := ih (n - 1) true hgs
      have hcast : (-(n : ℤ) + 1) = -((n - 1 : ℕ) : ℤ) := by omega
      rw [if_pos hrm, hcast]
      refine ⟨m, by omega, ?_, hrem, ?_, ?_, .inl (hp rfl), by omega, fun _ => hp rfl,
        fun _ _ => by omega⟩
      · simpa using ⟨hc, hg'⟩
      · simp only [map_cons, sum_cons]
        omega
      · simp only [map_cons, sum_cons]
        omega
    · obtain ⟨m, hm, hg', hrem, hs, hsr, hstall, hz, hp, hpn⟩ := ih n p hgs
      rw [if_neg hrm]
      refine ⟨m, hm, ?_, hrem, ?_, ?_, hstall, ?_, hp, hpn⟩
      · simpa using ⟨hg c (by simp), hg'⟩
      · simp only [map_cons, sum_cons]
        omega
      · simp only [map_cons, sum_cons]
        omega
      · intro h
        simp only [map_cons, sum_cons]
        omega

/-- Shrinking by `n` takes `n` of the total weight, or all the room there is. -/
theorem adjustLoop_shrink (hst : ∀ c, Good c → 0 < room c →
      Good (step c (-1)) ∧ weight (step c (-1)) + 1 = weight c ∧ room (step c (-1)) + 1 = room c)
    (fuel : ℕ) {n : ℕ} (hfu : n ≤ fuel) (hg : ∀ c ∈ cs, Good c) :
    let out := adjustLoop step room fuel cs (-n)
    let taken := min n (cs.map room).sum
    (∀ c ∈ out, Good c) ∧ (out.map weight).sum + taken = (cs.map weight).sum ∧
      (out.map room).sum + taken = (cs.map room).sum := by
  induction fuel generalizing cs n with
  | zero =>
    obtain rfl : n = 0 := by omega
    simpa [adjustLoop] using hg
  | succ fuel ih =>
    obtain rfl | hn := Nat.eq_zero_or_pos n
    · simpa [adjustLoop] using hg
    obtain ⟨m, hm, hg', hr, hs, hsr, hstall, hz, -, hprog⟩ :=
      adjustPass_shrink step room weight hst n false hg
    unfold adjustLoop
    rw [if_neg (by omega)]
    by_cases hp : (adjustPass step room cs (-n) false).2.2 = true
    · have hmn := hprog rfl hp
      simp only [hp, if_true, hr]
      obtain ⟨hg'', hs'', hr''⟩ := ih (n := m) (by omega) hg'
      exact ⟨hg'', by omega, by omega⟩
    · have hmn : m = n := hstall.resolve_left hp
      simp only [hp, Bool.false_eq_true, if_false]
      exact ⟨hg', by omega, by omega⟩

end RoundRobin

/-! ## `resizeAdjust` without fuel -/

variable (a)

theorem skeleton_resizeAdjustFuel (n : ℕ) (c : LayoutCell) (k : ℤ) :
    (resizeAdjustFuel a n c k).skeleton = c.skeleton := by
  induction n generalizing c k with
  | zero => rfl
  | succ n ih =>
    unfold resizeAdjustFuel
    split_ifs with hk
    · rfl
    cases c with
    | pane g => rfl
    | split d g cs =>
      simp only [skeleton_split, split.injEq, true_and]
      split_ifs
      · exact map_adjustLoop _ _ skeleton ih _ cs k
      · simp [ih]

theorem depth_resizeAdjustFuel (n : ℕ) (c : LayoutCell) (k : ℤ) :
    (resizeAdjustFuel a n c k).depth = c.depth := by
  rw [← depth_skeleton, skeleton_resizeAdjustFuel, depth_skeleton]

/-- More fuel than the depth of the cell changes nothing. -/
theorem resizeAdjustFuel_succ (fuel : ℕ) (c : LayoutCell) (k : ℤ)
    (h : c.depth ≤ fuel) : resizeAdjustFuel a (fuel + 1) c k = resizeAdjustFuel a fuel c k := by
  induction fuel generalizing c k with
  | zero => cases c <;> simp [depth] at h
  | succ fuel ih =>
    rw [resizeAdjustFuel.eq_def a (fuel + 1), resizeAdjustFuel.eq_def a (fuel + 1 + 1)]
    cases c with
    | pane g => rfl
    | split d g cs =>
      have hcs : ∀ c ∈ cs, c.depth ≤ fuel := fun c hc => by
        have := depth_le_depths hc
        rw [depth] at h
        omega
      have hmap : cs.map (resizeAdjustFuel a (fuel + 1) · k) =
          cs.map (resizeAdjustFuel a fuel · k) :=
        map_congr_left fun c hc => ih c k (hcs c hc)
      have hloop := adjustLoop_congr (resizeAdjustFuel a (fuel + 1)) (resizeCheck a)
        (fun c k hc => ih c k hc)
        (fun c k hc => by rwa [depth_resizeAdjustFuel]) k.natAbs k hcs
      simp only [hmap, hloop]

theorem resizeAdjustFuel_eq {n : ℕ} (k : ℤ) (h : c.depth ≤ n) :
    resizeAdjustFuel a n c k = c.resizeAdjust a k := by
  induction n, h using le_induction with
  | base => rfl
  | succ n h ih => rw [resizeAdjustFuel_succ a n c k h, ih]

@[simp] theorem resizeAdjust_zero (c : LayoutCell) :
    c.resizeAdjust a 0 = c := by
  unfold resizeAdjust
  cases c.depth <;> simp [resizeAdjustFuel]

theorem resizeAdjust_pane (g : LayoutGeometry) (hk : k ≠ 0) :
    (pane g).resizeAdjust a k = .pane (g.setAxis a (satAddSigned (g.axis a) k)) := by
  simp [resizeAdjust, depth, resizeAdjustFuel, hk]

/-- Along the split the change goes round the children. -/
theorem resizeAdjust_split (g : LayoutGeometry) (cs : List LayoutCell)
    (hk : k ≠ 0) : (split a g cs).resizeAdjust a k =
      .split a (g.setAxis a (satAddSigned (g.axis a) k))
        (adjustLoop (fun c k => c.resizeAdjust a k) (resizeCheck a) k.natAbs cs k) := by
  rw [resizeAdjust, depth, resizeAdjustFuel, if_neg hk, if_pos rfl]
  rw [adjustLoop_congr _ _ (P := fun c => c.depth ≤ depths cs)
    (fun c k hc => resizeAdjustFuel_eq a k hc)
    (fun c k hc => by rwa [depth_resizeAdjustFuel]) k.natAbs k (fun c hc => depth_le_depths hc)]

/-- Across the split every child changes alike. -/
theorem resizeAdjust_split_flip (g : LayoutGeometry) (cs : List LayoutCell)
    (hk : k ≠ 0) : (split a.flip g cs).resizeAdjust a k =
      .split a.flip (g.setAxis a (satAddSigned (g.axis a) k)) (cs.map (resizeAdjust a k)) := by
  rw [resizeAdjust, depth, resizeAdjustFuel, if_neg hk, if_neg (by simp)]
  rw [map_congr_left fun c hc => resizeAdjustFuel_eq a k (depth_le_depths hc)]

@[simp] theorem skeleton_resizeAdjust (k : ℤ) (c : LayoutCell) :
    (c.resizeAdjust a k).skeleton = c.skeleton := skeleton_resizeAdjustFuel a _ c k

@[simp] theorem leafCount_resizeAdjust (k : ℤ) (c : LayoutCell) :
    (c.resizeAdjust a k).leafCount = c.leafCount := by
  rw [← leafCount_skeleton, skeleton_resizeAdjust, leafCount_skeleton]

/-- `resizeAdjust` stores the saturated sum in the cell itself. -/
theorem geometry_resizeAdjust (hk : k ≠ 0) (c : LayoutCell) :
    (c.resizeAdjust a k).geometry =
      c.geometry.setAxis a (satAddSigned (c.axisSize a) k) := by
  cases c with
  | pane g => rw [resizeAdjust_pane a g hk]; rfl
  | split d g cs =>
    rcases eq_or_eq_flip d a with rfl | rfl
    · rw [resizeAdjust_split d g cs hk]; rfl
    · rw [resizeAdjust_split_flip a g cs hk]; rfl

@[simp] theorem axisSize_resizeAdjust_flip (k : ℤ) (c : LayoutCell) :
    (c.resizeAdjust a k).axisSize a.flip = c.axisSize a.flip := by
  by_cases hk : k = 0
  · rw [hk, resizeAdjust_zero]
  · rw [axisSize, geometry_resizeAdjust a hk, axis_setAxis_flip, axisSize]

theorem axisSize_resizeAdjust_add {k : ℕ} (h : c.axisSize a + k ≤ u32Max) :
    (c.resizeAdjust a k).axisSize a = c.axisSize a + k := by
  by_cases hk : (k : ℤ) = 0
  · rw [hk, resizeAdjust_zero]
    omega
  · rw [axisSize, geometry_resizeAdjust a hk, axis_setAxis, satAddSigned_add h]

theorem axisSize_resizeAdjust_sub (k : ℕ) (h : c.axisSize a ≤ u32Max) :
    (c.resizeAdjust a (-k)).axisSize a = c.axisSize a - k := by
  by_cases hk : (-(k : ℤ)) = 0
  · rw [hk, resizeAdjust_zero]
    omega
  · rw [axisSize, geometry_resizeAdjust a hk, axis_setAxis, satAddSigned_sub k h]

variable {a}

/-! ## Well-sized cells -/

/-- The extents stored in a tree fit together, with exact sums. -/
inductive WellSized : LayoutCell → Prop
  | pane (g : LayoutGeometry) : WellSized (.pane g)
  | split {d : LayoutDirection} {g : LayoutGeometry} {cs : List LayoutCell}
      (children : ∀ c ∈ cs, WellSized c)
      (cross : ∀ c ∈ cs, c.axisSize d.flip = g.axis d.flip)
      (along : (cs.map fun c => c.axisSize d + 1).sum = g.axis d + 1) :
      WellSized (.split d g cs)

theorem sum_axisSize_succ (d : LayoutDirection) (cs : List LayoutCell) :
    (cs.map fun c => c.axisSize d + 1).sum = (cs.map (axisSize · d)).sum + cs.length := by
  induction cs with
  | nil => rfl
  | cons c cs ih =>
    simp only [map_cons, sum_cons, length_cons, ih]
    omega

namespace WellSized

variable {d : LayoutDirection} {g : LayoutGeometry} {cs : List LayoutCell} {c : LayoutCell}

theorem child (h : WellSized (.split d g cs)) (hc : c ∈ cs) : WellSized c := by
  cases h with
  | split children _ _ => exact children c hc

theorem cross_eq (h : WellSized (.split d g cs)) (hc : c ∈ cs) :
    c.axisSize d.flip = g.axis d.flip := by
  cases h with
  | split _ cross _ => exact cross c hc

theorem sum_eq (h : WellSized (.split d g cs)) :
    (cs.map (axisSize · d)).sum + cs.length = g.axis d + 1 := by
  cases h with
  | split _ _ along => rw [← along, sum_axisSize_succ]

theorem ne_nil (h : WellSized (.split d g cs)) : cs ≠ [] := by
  rintro rfl
  have := h.sum_eq
  simp at this

theorem of_sum (children : ∀ c ∈ cs, WellSized c)
    (cross : ∀ c ∈ cs, c.axisSize d.flip = g.axis d.flip)
    (along : (cs.map (axisSize · d)).sum + cs.length = g.axis d + 1) : WellSized (.split d g cs) :=
  .split children cross (by rw [sum_axisSize_succ, along])

theorem axisSize_child_le (h : WellSized (.split d g cs)) (hc : c ∈ cs) (a : LayoutDirection) :
    c.axisSize a ≤ g.axis a := by
  rcases eq_or_eq_flip a d with rfl | rfl
  · have hle := single_le_sum (by simp) _ (mem_map_of_mem (f := (axisSize · a)) hc)
    have hlen := length_pos_of_mem hc
    have := h.sum_eq
    omega
  · exact (h.cross_eq hc).le

end WellSized

/-- The stored offset of the cell itself does not matter, nor do extents it shares. -/
theorem WellSized.withGeometry (h : WellSized c) (hg : ∀ a, g.axis a = c.axisSize a) :
    WellSized (c.withGeometry g) := by
  cases h with
  | pane g' => exact .pane g
  | split children cross along =>
    refine .split children (fun c hc => ?_) ?_
    · rw [cross c hc, hg, axisSize_split]
    · rw [along, hg, axisSize_split]

/-! ## `check` decides well-sizedness -/

/-- What the accumulator of `check` ends up testing. -/
theorem checkChildren_iff (total : ℕ) (hg : g.axis d + 1 < u32Max)
    (hcs : ∀ c ∈ cs, c.axisSize d < u32Max) : checkChildren d g total cs = true ↔
      (∀ c ∈ cs, c.check = true) ∧ (∀ c ∈ cs, c.axisSize d.flip = g.axis d.flip) ∧
        min (total + (cs.map fun c => c.axisSize d + 1).sum) (max u32Max total) - 1 = g.axis d := by
  induction cs generalizing total with
  | nil => simp [checkChildren]
  | cons c cs ih =>
    have hc := hcs c (by simp)
    have hadd : wrapAdd (c.axisSize d) paneBorderCells = c.axisSize d + 1 := wrapAdd_eq hc
    rw [checkChildren, Bool.and_eq_true, Bool.and_eq_true, beq_iff_eq,
      ih _ fun c hc => hcs c (by simp [hc]), hadd]
    simp only [forall_mem_cons, map_cons, sum_cons, satAdd]
    generalize u32Max = m at *
    constructor
    · rintro ⟨⟨h1, h2⟩, h3, h4, h5⟩
      exact ⟨⟨h1, h3⟩, ⟨h2, h4⟩, by omega⟩
    · rintro ⟨⟨h1, h3⟩, ⟨h2, h4⟩, h5⟩
      exact ⟨⟨h1, h2⟩, h3, h4, by omega⟩

mutual
/-- Every extent stored in the tree is below `b`. -/
def ExtentsBelow (b : ℕ) : LayoutCell → Prop
  | .pane g => g.width < b ∧ g.height < b
  | .split _ g cs => (g.width < b ∧ g.height < b) ∧ ExtentsBelowAll b cs

def ExtentsBelowAll (b : ℕ) : List LayoutCell → Prop
  | [] => True
  | c :: cs => ExtentsBelow b c ∧ ExtentsBelowAll b cs
end

mutual
def decExtentsBelow (b : ℕ) : (c : LayoutCell) → Decidable (ExtentsBelow b c)
  | .pane g => inferInstanceAs (Decidable (g.width < b ∧ g.height < b))
  | .split _ g cs =>
    haveI := decExtentsBelowAll b cs
    inferInstanceAs (Decidable ((g.width < b ∧ g.height < b) ∧ ExtentsBelowAll b cs))

def decExtentsBelowAll (b : ℕ) : (cs : List LayoutCell) → Decidable (ExtentsBelowAll b cs)
  | [] => .isTrue trivial
  | c :: cs =>
    haveI := decExtentsBelow b c
    haveI := decExtentsBelowAll b cs
    inferInstanceAs (Decidable (ExtentsBelow b c ∧ ExtentsBelowAll b cs))
end

instance (b : ℕ) (c : LayoutCell) : Decidable (ExtentsBelow b c) := decExtentsBelow b c

theorem extentsBelowAll_iff : ExtentsBelowAll b cs ↔ ∀ c ∈ cs, ExtentsBelow b c := by
  induction cs with
  | nil => simp [ExtentsBelowAll]
  | cons c cs ih => simp [ExtentsBelowAll, ih]

theorem ExtentsBelow.child (h : ExtentsBelow b (.split d g cs)) (hc : c ∈ cs) :
    ExtentsBelow b c := extentsBelowAll_iff.mp h.2 c hc

theorem ExtentsBelow.axisSize_lt (h : ExtentsBelow b c) (a : LayoutDirection) :
    c.axisSize a < b := by
  cases c <;> cases a <;> simp_all [ExtentsBelow, axis]

theorem ExtentsBelow.mono {b' : ℕ} (h : ExtentsBelow b c) (hb : b ≤ b') : ExtentsBelow b' c := by
  induction c with
  | pane g => exact ⟨h.1.trans_le hb, h.2.trans_le hb⟩
  | split d g cs ih =>
    exact ⟨⟨h.1.1.trans_le hb, h.1.2.trans_le hb⟩,
      extentsBelowAll_iff.mpr fun c hc => ih c hc (h.child hc)⟩

/-- In a well-sized tree the root bounds every extent. -/
theorem WellSized.extentsBelow (h : WellSized c) (hb : ∀ a, c.axisSize a < b) :
    ExtentsBelow b c := by
  induction c with
  | pane g => exact ⟨hb .leftRight, hb .topBottom⟩
  | split d g cs ih =>
    refine ⟨⟨hb .leftRight, hb .topBottom⟩, extentsBelowAll_iff.mpr fun c hc => ?_⟩
    exact ih c hc (h.child hc) fun a => (h.axisSize_child_le hc a).trans_lt (hb a)

/-- For extents that cannot overflow, `check` is exactly `WellSized`. -/
theorem check_iff_wellSized (h : ExtentsBelow (u32Max - 1) c) : c.check = true ↔ WellSized c := by
  induction c with
  | pane g => simp [check, WellSized.pane]
  | split d g cs ih =>
    have hg : g.axis d < u32Max - 1 := h.axisSize_lt d
    have hcs : ∀ c ∈ cs, c.axisSize d < u32Max := fun c hc =>
      ((h.child hc).axisSize_lt d).trans_le (sub_le _ _)
    rw [check, Bool.and_eq_true, checkChildren_iff 0 (by unfold u32Max at *; omega) hcs]
    constructor
    · rintro ⟨hne, hchk, hcr, hsum⟩
      refine .split (fun c hc => (ih c hc (h.child hc)).mp (hchk c hc)) hcr ?_
      have hlen : 0 < cs.length := length_pos_of_ne_nil (by simpa using hne)
      have := sum_axisSize_succ d cs
      omega
    · intro hw
      refine ⟨by simpa using hw.ne_nil, fun c hc => (ih c hc (h.child hc)).mpr (hw.child hc),
        fun c hc => hw.cross_eq hc, ?_⟩
      have := hw.sum_eq
      rw [sum_axisSize_succ]
      omega

/-- For extents in the range of `i32`, `check` is `WellSized`. -/
theorem check_iff_wellSized_of_below (h : ExtentsBelow (2 ^ 31) c) :
    c.check = true ↔ WellSized c := check_iff_wellSized (h.mono (by decide))

theorem WellSized.check (h : WellSized c) (hb : ∀ a, c.axisSize a < u32Max - 1) : c.check = true :=
  (check_iff_wellSized (h.extentsBelow hb)).mpr h

/-! ## Growing and shrinking -/

theorem resizeCheck_le (h : WellSized c) (hb : c.axisSize a ≤ u32Max) :
    c.resizeCheck a ≤ c.axisSize a := by
  induction c with
  | pane g => exact sub_le _ _
  | split d g cs ih =>
    have hc : ∀ c ∈ cs, c.resizeCheck a ≤ c.axisSize a := fun c hc =>
      ih c hc (h.child hc) ((h.axisSize_child_le hc a).trans hb)
    rcases eq_or_eq_flip a d with rfl | rfl
    · have hle : (cs.map (resizeCheck a)).sum ≤ (cs.map (axisSize · a)).sum :=
        sum_le_sum hc
      have hlen := length_pos_of_ne_nil h.ne_nil
      have := h.sum_eq
      rw [axisSize_split] at hb
      rw [resizeCheck_split, wrapSum_eq (by omega), axisSize_split]
      omega
    · obtain ⟨c, hcs⟩ := exists_mem_of_ne_nil cs h.ne_nil
      have hle := le_min?_getD (le_refl _) _ (mem_map_of_mem (f := resizeCheck d.flip) hcs)
      have hspl := resizeCheck_split_flip d.flip g cs
      rw [LayoutDirection.flip_flip] at hspl
      rw [hspl, axisSize_split]
      exact (hle.trans (hc c hcs)).trans (h.axisSize_child_le hcs _)

/-- Along its own direction a split can give up what its children can. -/
theorem WellSized.resizeCheck_eq_sum (h : WellSized (.split a g cs)) (hb : g.axis a ≤ u32Max) :
    resizeCheck a (.split a g cs) = (cs.map (resizeCheck a)).sum := by
  have hle : (cs.map (resizeCheck a)).sum ≤ (cs.map (axisSize · a)).sum :=
    sum_le_sum fun c hc => resizeCheck_le (h.child hc) ((h.axisSize_child_le hc a).trans hb)
  have hlen := length_pos_of_ne_nil h.ne_nil
  have := h.sum_eq
  rw [resizeCheck_split, wrapSum_eq (by omega)]

theorem depth_resizeAdjust (a : LayoutDirection) (k : ℤ) (c : LayoutCell) :
    (c.resizeAdjust a k).depth = c.depth := depth_resizeAdjustFuel a _ c k

/-- Growing a subtree keeps it well sized. -/
theorem WellSized.resizeAdjust_add {k : ℕ} (h : WellSized c) (hb : c.axisSize a + k ≤ u32Max) :
    WellSized (c.resizeAdjust a k) := by
  -- on the depth : the loop steps children that earlier passes already changed
  induction hn : c.depth using Nat.strong_induction_on generalizing c k with
  | _ n ih =>
    subst hn
    obtain rfl | hk := Nat.eq_zero_or_pos k
    · simpa using h
    cases c with
    | pane g =>
      rw [resizeAdjust_pane a g (by omega)]
      exact .pane _
    | split d g cs =>
      rw [axisSize_split] at hb
      rcases eq_or_eq_flip d a with rfl | rfl
      · let Good (c : LayoutCell) : Prop :=
          WellSized c ∧ c.depth < depths cs + 1 ∧ c.axisSize d.flip = g.axis d.flip
        have hst : ∀ c, Good c → c.axisSize d < u32Max →
            Good (c.resizeAdjust d 1) ∧ (c.resizeAdjust d 1).axisSize d = c.axisSize d + 1 := by
          intro c ⟨hc, hcd, hcx⟩ hlt
          refine ⟨⟨ih _ hcd hc hlt rfl, ?_, ?_⟩, axisSize_resizeAdjust_add d hlt⟩
          · rwa [depth_resizeAdjust]
          · rwa [axisSize_resizeAdjust_flip]
        have hsum := h.sum_eq
        have hlen := length_pos_of_ne_nil h.ne_nil
        obtain ⟨hgood, htotal⟩ := adjustLoop_grow (fun c k => c.resizeAdjust d k) (resizeCheck d)
          (axisSize · d) hst k
          (le_refl k) h.ne_nil
          (fun c hc => ⟨h.child hc, depth_lt_of_mem hc, h.cross_eq hc⟩) (by omega)
        rw [resizeAdjust_split d g cs (by omega), Int.natAbs_natCast]
        refine .of_sum (fun c hc => (hgood c hc).1) (fun c hc => ?_) ?_
        · rw [(hgood c hc).2.2, axis_setAxis_flip]
        · rw [axis_setAxis, satAddSigned_add hb, htotal, length_adjustLoop]
          omega
      · rw [resizeAdjust_split_flip a g cs (by omega)]
        have hcb : ∀ c ∈ cs, c.axisSize a = g.axis a := fun c hc => by
          simpa using h.cross_eq hc
        refine .of_sum ?_ ?_ ?_
        · simp only [forall_mem_map]
          exact fun c hc => ih _ (depth_lt_of_mem hc) (h.child hc) (by rw [hcb c hc]; exact hb) rfl
        · simp only [forall_mem_map, LayoutDirection.flip_flip]
          intro c hc
          rw [axisSize_resizeAdjust_add a (by rw [hcb c hc]; exact hb), hcb c hc,
            LayoutGeometry.axis_setAxis, satAddSigned_add hb]
        · rw [map_map, length_map, axis_setAxis_flip, ← h.sum_eq]
          congr 2
          exact map_congr_left fun c _ => axisSize_resizeAdjust_flip a k c

/-- The children of a split after it was told to shrink by `m`, given what one step does to
cells no deeper than they are. -/
theorem WellSized.shrink_children (h : WellSized (.split a g cs)) (hb : g.axis a ≤ u32Max) (m : ℕ)
    (hone : ∀ c : LayoutCell, c.depth ≤ depths cs → WellSized c → c.axisSize a ≤ u32Max →
      0 < c.resizeCheck a → WellSized (c.resizeAdjust a (-1)) ∧
        (c.resizeAdjust a (-1)).resizeCheck a + 1 = c.resizeCheck a) :
    let out := adjustLoop (fun c k => c.resizeAdjust a k) (resizeCheck a) m cs (-m)
    let taken := min m ((cs.map (resizeCheck a)).sum)
    (∀ c ∈ out, WellSized c ∧ c.axisSize a.flip = g.axis a.flip) ∧ out.length = cs.length ∧
      (out.map (axisSize · a)).sum + taken = (cs.map (axisSize · a)).sum ∧
      (out.map (resizeCheck a)).sum + taken = (cs.map (resizeCheck a)).sum := by
  let Good (c : LayoutCell) : Prop :=
    (WellSized c ∧ c.axisSize a.flip = g.axis a.flip) ∧ c.depth ≤ depths cs ∧
      c.axisSize a ≤ u32Max
  have hst : ∀ c, Good c → 0 < c.resizeCheck a → Good (c.resizeAdjust a (-1)) ∧
      (c.resizeAdjust a (-1)).axisSize a + 1 = c.axisSize a ∧
      (c.resizeAdjust a (-1)).resizeCheck a + 1 = c.resizeCheck a := by
    intro c ⟨⟨hc, hcx⟩, hcd, hcb⟩ hrm
    obtain ⟨hw, hr⟩ := hone c hcd hc hcb hrm
    have hle := resizeCheck_le hc hcb
    have haxis : (c.resizeAdjust a (-1)).axisSize a = c.axisSize a - 1 :=
      axisSize_resizeAdjust_sub a 1 hcb
    refine ⟨⟨⟨hw, ?_⟩, ?_, by omega⟩, by omega, hr⟩
    · rwa [axisSize_resizeAdjust_flip]
    · rwa [depth_resizeAdjust]
  obtain ⟨hgood, hweight, hrm⟩ := adjustLoop_shrink (fun c k => c.resizeAdjust a k)
    (resizeCheck a) (axisSize · a) hst m (le_refl m)
    (fun c hc => ⟨⟨h.child hc, h.cross_eq hc⟩, depth_le_depths hc,
      (h.axisSize_child_le hc a).trans hb⟩)
  exact ⟨fun c hc => (hgood c hc).1, length_adjustLoop _ _ m cs _, hweight, hrm⟩

/-- Shrinking a subtree by no more than `resizeCheck` keeps it well sized. -/
theorem WellSized.resizeAdjust_sub {m : ℕ} (h : WellSized c) (hb : c.axisSize a ≤ u32Max)
    (hm : m ≤ c.resizeCheck a) : WellSized (c.resizeAdjust a (-m)) ∧
      (c.resizeAdjust a (-m)).resizeCheck a + m = c.resizeCheck a := by
  induction hn : c.depth using Nat.strong_induction_on generalizing c m with
  | _ n ih =>
    subst hn
    obtain rfl | hpos := Nat.eq_zero_or_pos m
    · simpa using h
    cases c with
    | pane g =>
      simp only [resizeCheck, paneMinimum_eq, axisSize_pane] at hm hb
      rw [resizeAdjust_pane a g (by omega), satAddSigned_sub m hb]
      refine ⟨.pane _, ?_⟩
      simp only [resizeCheck, axis_setAxis, paneMinimum_eq]
      omega
    | split d g cs =>
      have hcb : ∀ c ∈ cs, c.axisSize a ≤ u32Max := fun c hc =>
        (h.axisSize_child_le hc a).trans hb
      rw [axisSize_split] at hb
      rcases eq_or_eq_flip d a with rfl | rfl
      · rw [h.resizeCheck_eq_sum hb] at hm ⊢
        obtain ⟨hgood, hlen, hsum, hrm⟩ := h.shrink_children hb m
          fun c hcd hc hcb hrm => @ih _ (lt_succ_of_le hcd) c 1 hc hcb hrm rfl
        have hle := resizeCheck_le h hb
        rw [h.resizeCheck_eq_sum hb, axisSize_split] at hle
        have := h.sum_eq
        rw [resizeAdjust_split d g cs (by omega), Int.natAbs_neg, Int.natAbs_natCast]
        have hwell : WellSized (.split d (g.setAxis d (satAddSigned (g.axis d) (-m)))
            (adjustLoop (fun c k => c.resizeAdjust d k) (resizeCheck d) m cs (-m))) := by
          refine .of_sum (fun c hc => (hgood c hc).1) (fun c hc => ?_) ?_
          · rw [(hgood c hc).2, axis_setAxis_flip]
          · rw [axis_setAxis, satAddSigned_sub m hb, hlen]
            omega
        refine ⟨hwell, ?_⟩
        rw [hwell.resizeCheck_eq_sum ?_]
        · omega
        · rw [axis_setAxis, satAddSigned_sub m hb]
          omega
      · rw [resizeAdjust_split_flip a g cs (by omega), resizeCheck_split_flip] at *
        have hmc : ∀ c ∈ cs, m ≤ c.resizeCheck a := fun c hc =>
          le_min?_getD hm _ (mem_map_of_mem hc)
        have hall : ∀ c ∈ cs, WellSized (c.resizeAdjust a (-m)) ∧
            (c.resizeAdjust a (-m)).resizeCheck a + m = c.resizeCheck a := fun c hc =>
          ih _ (depth_lt_of_mem hc) (h.child hc) (hcb c hc) (hmc c hc) rfl
        constructor
        · refine .of_sum ?_ ?_ ?_
          · simp only [forall_mem_map]
            exact fun c hc => (hall c hc).1
          · simp only [forall_mem_map, LayoutDirection.flip_flip]
            intro c hc
            have hx := h.cross_eq hc
            rw [LayoutDirection.flip_flip] at hx
            rw [axisSize_resizeAdjust_sub a m (hcb c hc), hx, axis_setAxis, satAddSigned_sub m hb]
          · rw [map_map, length_map, axis_setAxis_flip, ← h.sum_eq]
            congr 2
            exact map_congr_left fun c _ => axisSize_resizeAdjust_flip a (-m) c
        · have hmap : cs.map (resizeCheck a) =
              ((cs.map (resizeAdjust a (-m))).map (resizeCheck a)).map (· + m) := by
            rw [map_map, map_map]
            exact map_congr_left fun c hc => (hall c hc).2.symm
          rw [resizeCheck_split_flip, hmap, min?_map_add]
          cases hmin : ((cs.map (resizeAdjust a (-m))).map (resizeCheck a)).min? with
          | none => simp [h.ne_nil] at hmin
          | some n => rfl

/-- A subtree that is still well sized after shrinking had room for it. -/
theorem WellSized.le_resizeCheck {m : ℕ} (h : WellSized c) (hb : c.axisSize a ≤ u32Max)
    (hm : m < c.axisSize a) (haft : WellSized (c.resizeAdjust a (-m))) : m ≤ c.resizeCheck a := by
  induction c with
  | pane g =>
    simp only [resizeCheck, paneMinimum_eq]
    rw [axisSize_pane] at hm
    omega
  | split d g cs ih =>
    obtain rfl | hpos := Nat.eq_zero_or_pos m
    · exact zero_le _
    rw [axisSize_split] at hb hm
    rcases eq_or_eq_flip d a with rfl | rfl
    · obtain ⟨-, hlen, hsum, -⟩ := h.shrink_children hb m
        fun c _ hc hcb hrm => hc.resizeAdjust_sub hcb hrm
      rw [resizeAdjust_split d g cs (by omega), Int.natAbs_neg, Int.natAbs_natCast] at haft
      have hnew := haft.sum_eq
      have hold := h.sum_eq
      rw [axis_setAxis, satAddSigned_sub m hb, hlen] at hnew
      rw [h.resizeCheck_eq_sum hb]
      omega
    · rw [resizeAdjust_split_flip a g cs (by omega)] at haft
      rw [resizeCheck_split_flip]
      cases hmin : (cs.map (resizeCheck a)).min? with
      | none => simp [h.ne_nil] at hmin
      | some n =>
        obtain ⟨c, hc, rfl⟩ := mem_map.mp (min?_eq_some_iff.mp hmin).1
        have hx := h.cross_eq hc
        rw [LayoutDirection.flip_flip] at hx
        exact ih c hc (h.child hc) (by omega) (by omega) (haft.child (mem_map_of_mem hc))

/-! ## Offsets do not matter -/

theorem forall_mem_fixOffsetsFrom {P : LayoutCell → Prop} (d : LayoutDirection) (x y k : ℕ)
    (hP : ∀ c ∈ cs, ∀ x y, P (c.fixOffsets x y) ↔ P c) :
    (∀ c ∈ fixOffsetsFrom d x y k cs, P c) ↔ ∀ c ∈ cs, P c := by
  induction cs generalizing k with
  | nil => simp [fixOffsetsFrom]
  | cons c cs ih =>
    rw [fixOffsetsFrom, forall_mem_cons, forall_mem_cons, hP c (by simp),
      ih _ fun c hc => hP c (by simp [hc])]

theorem wellSized_split_iff : WellSized (.split d g cs) ↔ (∀ c ∈ cs, WellSized c) ∧
      (∀ c ∈ cs, c.axisSize d.flip = g.axis d.flip) ∧
      (cs.map (axisSize · d)).sum + cs.length = g.axis d + 1 :=
  ⟨fun h => ⟨fun _ => h.child, fun _ => h.cross_eq, h.sum_eq⟩, fun h => .of_sum h.1 h.2.1 h.2.2⟩

theorem wellSized_pair_iff {a b : LayoutCell} :
    WellSized (.split d g [a, b]) ↔ (WellSized a ∧ WellSized b) ∧
      (a.axisSize d.flip = g.axis d.flip ∧ b.axisSize d.flip = g.axis d.flip) ∧
      a.axisSize d + 1 + b.axisSize d = g.axis d := by
  rw [wellSized_split_iff]
  simp only [mem_cons, not_mem_nil, or_false, forall_eq_or_imp, forall_eq,
    map_cons, map_nil, sum_cons, sum_nil, length_cons, length_nil]
  refine and_congr_right fun _ => and_congr_right fun _ => ?_
  omega

theorem wellSized_fixOffsets (x y : ℕ) : WellSized (c.fixOffsets x y) ↔ WellSized c := by
  induction c generalizing x y with
  | pane g => exact ⟨fun _ => .pane g, fun _ => .pane _⟩
  | split d g cs ih =>
    rw [fixOffsets, wellSized_split_iff, wellSized_split_iff,
      forall_mem_fixOffsetsFrom d x y 0 fun c hc x y => ih c hc x y,
      forall_mem_fixOffsetsFrom d x y 0 fun c _ x y => by
        rw [axisSize_fixOffsets, axis_moveTo],
      map_fixOffsetsFrom _ d x y 0 fun c _ x y => axisSize_fixOffsets x y c d,
      length_fixOffsetsFrom, axis_moveTo, axis_moveTo]

mutual
theorem check_fixOffsets (x y : ℕ) : ∀ c : LayoutCell, (c.fixOffsets x y).check = c.check
  | .pane _ => rfl
  | .split d g cs => by
    have hemp : (fixOffsetsFrom d x y 0 cs).isEmpty = cs.isEmpty := by cases cs <;> rfl
    rw [fixOffsets, LayoutCell.check, LayoutCell.check, hemp,
      checkChildren_fixOffsetsFrom d g x y 0 0 cs]

theorem checkChildren_fixOffsetsFrom (d : LayoutDirection) (g : LayoutGeometry) (x y k : ℕ) :
    ∀ (total : ℕ) (cs : List LayoutCell),
      checkChildren d (g.moveTo x y) total (fixOffsetsFrom d x y k cs) = checkChildren d g total cs
  | _, [] => by rw [fixOffsetsFrom, checkChildren, checkChildren, LayoutGeometry.axis_moveTo]
  | total, c :: cs => by
    rw [fixOffsetsFrom, checkChildren, checkChildren, check_fixOffsets _ _ c, axisSize_fixOffsets,
      axisSize_fixOffsets, LayoutGeometry.axis_moveTo, checkChildren_fixOffsetsFrom d g x y _ _ cs]
end

theorem WellSized.fixOffsets (h : WellSized c) (x y : ℕ) :
    WellSized (c.fixOffsets x y) := (wellSized_fixOffsets x y).mpr h

/-! ## Splits that branch -/

/-- Every split has at least two children. -/
inductive Branching : LayoutCell → Prop
  | pane (g : LayoutGeometry) : Branching (.pane g)
  | split {d : LayoutDirection} {g : LayoutGeometry} {cs : List LayoutCell}
      (two : 2 ≤ cs.length) (children : ∀ c ∈ cs, Branching c) : Branching (.split d g cs)

theorem branching_split_iff : Branching (.split d g cs) ↔ 2 ≤ cs.length ∧ ∀ c ∈ cs, Branching c :=
  ⟨fun h => by cases h with | split two children => exact ⟨two, children⟩,
    fun h => .split h.1 h.2⟩

theorem branching_skeleton : Branching c.skeleton ↔ Branching c := by
  induction c with
  | pane g => exact ⟨fun _ => .pane g, fun _ => .pane _⟩
  | split d g cs ih =>
    rw [skeleton_split, branching_split_iff, branching_split_iff, length_map, forall_mem_map]
    exact and_congr_right fun _ => forall₂_congr ih

theorem Branching.of_skeleton_eq {c' : LayoutCell} (h : Branching c)
    (hs : c'.skeleton = c.skeleton) : Branching c' :=
  branching_skeleton.mp (hs ▸ branching_skeleton.mpr h)

end LayoutCell

end Rmux
