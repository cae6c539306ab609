import Rmux.Session

/-!
# A session's place in its group

A session of a group takes over the windows of another one, and keeps its own place among them :
its active window, its last one and the alerts of its slots. Where the slots have gone is claimed in
three rounds (`synchronizedIndices`). A claim is never taken back (`SlotClaims.Grows`), and no slot
is claimed twice (`SlotClaims.Sound`).
-/

namespace Rmux

open List Option OrderedMap

/-! ## Claims -/

namespace SlotClaims

variable {claims : SlotClaims} {f : SlotClaims → ℕ × Window → Option ℕ} {P : ℕ → ℕ → Prop}
  {l : List (ℕ × Window)} {i : ℕ} {place : Option ℕ}

/-- No claim is taken back. -/
def Grows (claims claims' : SlotClaims) : Prop :=
  ∀ i j, claims.get? i = some j → claims'.get? i = some j

/-- Every claim is justified, and no slot is claimed twice. -/
structure Sound (P : ℕ → ℕ → Prop) (claims : SlotClaims) : Prop where
  justified : ∀ {i j}, claims.get? i = some j → P i j
  injective : ∀ {i i' j}, claims.get? i = some j → claims.get? i' = some j → i = i'

theorem mem_values {j : ℕ} : j ∈ claims.entries.map Prod.snd ↔ ∃ i, claims.get? i = some j := by
  simp only [List.mem_map, get?_eq_some_iff, Prod.exists, exists_eq_right]

theorem claim_cases (claims : SlotClaims) (i : ℕ) (place : Option ℕ) :
    claims.claim i place = claims ∧
        (∀ j, place = some j → i ∈ claims ∨ ∃ k, claims.get? k = some j) ∨
      ∃ j, place = some j ∧ claims.claim i place = claims.insert i j ∧ i ∉ claims ∧
        ∀ k, claims.get? k ≠ some j := by
  cases place with
  | none => exact .inl ⟨rfl, nofun⟩
  | some j =>
    rw [claim]
    split_ifs with h <;> rw [mem_values] at h
    · exact .inl ⟨rfl, fun _ hj => some.inj hj ▸ h⟩
    · rw [not_or, not_exists] at h
      exact .inr ⟨j, rfl, rfl, h⟩

theorem grows_claim : claims.Grows (claims.claim i place) := by
  intro k j hk
  rcases claims.claim_cases i place with ⟨heq, -⟩ | ⟨_, -, heq, hfree, -⟩ <;> rw [heq]
  · exact hk
  · rwa [get?_insert, if_neg]
    rintro rfl
    exact hfree (mem_of_get? hk)

theorem Sound.claim (h : Sound P claims) (hplace : ∀ j, place = some j → P i j) :
    Sound P (claims.claim i place) := by
  rcases claims.claim_cases i place with ⟨heq, -⟩ | ⟨j, hj, heq, -, hfree⟩ <;> rw [heq]
  · exact h
  · constructor
    · intro k j' hk
      rw [get?_insert] at hk
      split_ifs at hk with hki
      · exact hki ▸ some.inj hk ▸ hplace j hj
      · exact h.justified hk
    · intro k k' j' hk hk'
      rw [get?_insert] at hk hk'
      split_ifs at hk hk' with hki hki' hki'
      · rw [hki, hki']
      · exact absurd (hk'.trans hk.symm) (hfree k')
      · exact absurd (hk.trans hk'.symm) (hfree k)
      · exact h.injective hk hk'

/-- The claims of a round, one slot after the other. -/
def round (f : SlotClaims → ℕ × Window → Option ℕ) (l : List (ℕ × Window))
    (claims : SlotClaims) : SlotClaims :=
  l.foldl (fun claims e => claims.claim e.1 (f claims e)) claims

theorem grows_round : claims.Grows (round f l claims) := by
  induction l generalizing claims with
  | nil => exact fun _ _ h => h
  | cons e l ih => exact fun i j h => ih i j (grows_claim i j h)

theorem Sound.round (h : Sound P claims)
    (hf : ∀ claims, ∀ e ∈ l, ∀ j, f claims e = some j → P e.1 j) : Sound P (round f l claims) := by
  induction l generalizing claims with
  | nil => exact h
  | cons e l ih =>
    exact ih (h.claim (hf claims e mem_cons_self))
      fun claims e he => hf claims e (mem_cons_of_mem _ he)

/-- The turn of a slot in a round. -/
theorem exists_turn {e : ℕ × Window} (he : e ∈ l) (claims : SlotClaims) :
    ∃ l' ⊆ l, ((round f l' claims).claim e.1 (f (round f l' claims) e)).Grows
      (round f l claims) := by
  obtain ⟨l', l'', rfl⟩ := append_of_mem he
  refine ⟨l', subset_append_left _ _, ?_⟩
  have happ : round f (l' ++ e :: l'') claims = round f l''
      ((round f l' claims).claim e.1 (f (round f l' claims) e)) := foldl_append
  rw [happ]
  exact grows_round

end SlotClaims

/-! ## Where the slots go -/

section

variable (previous windows : OrderedMap ℕ Window) (alertMap : Option (OrderedMap ℕ ℕ))

/-- Both slots have the same window. -/
def SameWindow (i j : ℕ) : Prop :=
  ∃ w w', previous.get? i = some w ∧ windows.get? j = some w' ∧ w'.id = w.id

def mapNext (_ : SlotClaims) (e : ℕ × Window) : Option ℕ :=
  (alertMap.bind (·.get? e.1)).filter fun index => (windows.get? index).any (·.id = e.2.id)

def stayNext (_ : SlotClaims) (e : ℕ × Window) : Option ℕ :=
  (some e.1).filter fun index => (windows.get? index).any (·.id = e.2.id)

def freeNext (claims : SlotClaims) (e : ℕ × Window) : Option ℕ :=
  windows.keys.find? fun index =>
    (windows.get? index).any (·.id = e.2.id) ∧ index ∉ claims.entries.map Prod.snd

theorem synchronizedIndices_eq : synchronizedIndices previous windows alertMap =
    .round (freeNext windows) previous.entries (.round (stayNext windows) previous.entries
      (.round (mapNext windows alertMap) previous.entries ∅)) :=
  rfl

end

section

variable {previous windows : OrderedMap ℕ Window} {alertMap : Option (OrderedMap ℕ ℕ)} {i j : ℕ}

theorem any_id_iff {windowId : WindowId} : (windows.get? j).any (·.id = windowId) = true ↔
    ∃ w, windows.get? j = some w ∧ w.id = windowId := by
  cases windows.get? j <;> simp

theorem sameWindow_of_mem {e : ℕ × Window} (he : e ∈ previous.entries)
    (h : (windows.get? j).any (·.id = e.2.id) = true) : SameWindow previous windows e.1 j := by
  obtain ⟨w, hw, hid⟩ := any_id_iff.mp h
  exact ⟨e.2, w, get?_eq_some_iff.mpr he, hw, hid⟩

theorem sound_synchronizedIndices :
    (synchronizedIndices previous windows alertMap).Sound (SameWindow previous windows) := by
  rw [synchronizedIndices_eq]
  refine .round (.round (.round ⟨nofun, nofun⟩ ?_) ?_) ?_ <;> intro claims e he j hj
  · exact sameWindow_of_mem he (Option.filter_eq_some_iff.mp hj).2
  · exact sameWindow_of_mem he (Option.filter_eq_some_iff.mp hj).2
  · have hf := find?_some hj
    exact sameWindow_of_mem he (of_decide_eq_true hf).1

/-- A slot that keeps its window stays, unless the map sends it away or another slot of the window
to it. -/
theorem synchronizedIndices_stays (h : SameWindow previous windows i i) :
    (synchronizedIndices previous windows alertMap).get? i = some i ∨
      (∃ j ≠ i, alertMap.bind (·.get? i) = some j ∧ SameWindow previous windows i j) ∨
      ∃ k ≠ i, alertMap.bind (·.get? k) = some i ∧ SameWindow previous windows k i := by
  have hsm := @sound_synchronizedIndices previous windows alertMap
  rw [synchronizedIndices_eq] at hsm ⊢
  obtain ⟨w, w', hw, hw', hid⟩ := h
  obtain ⟨l, -, ht⟩ := SlotClaims.exists_turn (get?_eq_some_iff.mp hw)
    (.round (mapNext windows alertMap) previous.entries ∅)
  -- so far a slot has gone where the map sends it, or nowhere
  have hsent : SlotClaims.Sound (fun i j => j = i ∨ alertMap.bind (·.get? i) = some j)
      (.round (stayNext windows) l (.round (mapNext windows alertMap) previous.entries ∅)) := by
    refine .round (.round ⟨nofun, nofun⟩ ?_) ?_ <;> intro claims e he j hj
    · exact .inr (Option.filter_eq_some_iff.mp hj).1
    · exact .inl (some.inj (Option.filter_eq_some_iff.mp hj).1).symm
  generalize SlotClaims.round (stayNext windows) l _ = before at ht hsent
  have hplace : stayNext windows before (i, w) = some i :=
    Option.filter_eq_some_iff.mpr ⟨rfl, any_id_iff.mpr ⟨w', hw', hid⟩⟩
  rw [hplace] at ht
  replace ht {k j : ℕ} (hk : (before.claim i (some i)).get? k = some j) :=
    SlotClaims.grows_round (f := freeNext windows) (l := previous.entries) k j (ht k j hk)
  rcases before.claim_cases i (some i) with ⟨heq, htk⟩ | ⟨j, hj, heq, -⟩ <;> rw [heq] at ht
  · rcases htk i rfl with hi | ⟨k, hk⟩
    · obtain ⟨j, hj⟩ := mem_iff.mp hi
      by_cases hji : j = i
      · exact .inl (ht (hji ▸ hj))
      · exact .inr (.inl ⟨j, hji, (hsent.justified hj).resolve_left hji, hsm.justified (ht hj)⟩)
    · by_cases hki : k = i
      · exact .inl (ht (hki ▸ hk))
      · exact .inr (.inr ⟨k, hki, (hsent.justified hk).resolve_left (hki ·.symm),
          hsm.justified (ht hk)⟩)
  · obtain rfl := some.inj hj
    exact .inl (ht (by rw [get?_insert, if_pos rfl]))

/-- A slot that has gone nowhere finds every slot of its window claimed. -/
theorem synchronizedIndices_claimed
    (h : (synchronizedIndices previous windows alertMap).get? i = none)
    (hsm : SameWindow previous windows i j) :
    ∃ k, (synchronizedIndices previous windows alertMap).get? k = some j := by
  obtain ⟨w, w', hw, hw', hid⟩ := hsm
  rw [synchronizedIndices_eq] at h ⊢
  obtain ⟨l, -, ht⟩ := SlotClaims.exists_turn (f := freeNext windows)
    (get?_eq_some_iff.mp hw) (.round (stayNext windows) previous.entries
      (.round (mapNext windows alertMap) previous.entries ∅))
  generalize SlotClaims.round (freeNext windows) l _ = before at ht
  by_contra! hfree
  have hn (k : ℕ) : before.get? k ≠ some j := fun hk =>
    hfree k (ht k j (SlotClaims.grows_claim k j hk))
  obtain ⟨j', hj'⟩ : ∃ j', freeNext windows before (i, w) = some j' := by
    refine Option.isSome_iff_exists.mp (find?_isSome.mpr ⟨j, mem_keys.mpr (mem_of_get? hw'), ?_⟩)
    exact decide_eq_true ⟨any_id_iff.mpr ⟨w', hw', hid⟩, fun hmem =>
      let ⟨k, hk⟩ := SlotClaims.mem_values.mp hmem; hn k hk⟩
  have hout := find?_some hj'
  rcases before.claim_cases i (freeNext windows before (i, w)) with
    ⟨heq, htk⟩ | ⟨j', -, heq, -⟩ <;> rw [heq] at ht
  · rcases htk j' hj' with hi | hk
    · obtain ⟨j, hj⟩ := mem_iff.mp hi
      simp [ht i j hj] at h
    · exact (of_decide_eq_true hout).2 (SlotClaims.mem_values.mpr hk)
  · simp [ht i j' (by rw [get?_insert, if_pos rfl])] at h

end

theorem SlotClaims.Sound.get?_remapped {P : ℕ → ℕ → Prop} {claims : SlotClaims}
    (h : claims.Sound P) {m : OrderedMap ℕ AlertFlags} {j : ℕ} {f : AlertFlags} :
    (ofList (m.entries.filterMap fun e => (claims.get? e.1).map (·, e.2))).get? j = some f ↔
      ∃ i, claims.get? i = some j ∧ m.get? i = some f := by
  rw [get?_ofList]
  · simp [get?_eq_some_iff, mem_filterMap, and_comm]
  · intro e he e' he' heq
    obtain ⟨⟨i, v⟩, hi, hmap⟩ := mem_filterMap.mp he
    obtain ⟨⟨i', v'⟩, hi', hmap'⟩ := mem_filterMap.mp he'
    obtain ⟨j, hj, rfl⟩ := map_eq_some_iff.mp hmap
    obtain ⟨j', hj', rfl⟩ := map_eq_some_iff.mp hmap'
    obtain rfl : j = j' := heq
    obtain ⟨⟩ := eq_of_mem_entries hi hi' (h.injective hj hj')
    rfl

/-! ## The place of a peer -/

section

variable {windows : OrderedMap ℕ Window} {i active : ℕ} {last : Option ℕ}

theorem windowIndexForId_mem {windowId : WindowId} {preferred : ℕ}
    (h : windowIndexForId windows windowId preferred = some i) : i ∈ windows := by
  rw [windowIndexForId] at h
  split_ifs at h with hp
  · obtain ⟨w, hw, -⟩ := any_id_iff.mp hp
    exact some.inj h ▸ mem_of_get? hw
  · split at h
    · next hlist =>
      obtain ⟨e, he, hi⟩ := mem_filterMap.mp (hlist ▸ mem_singleton.mpr rfl)
      split_ifs at hi
      rw [← some.inj h, ← some.inj hi]
      exact mem_of_get? (get?_eq_some_iff.mpr he)
    · cases h

theorem windowIndexForId_eq {previous : OrderedMap ℕ Window} {w : Window}
    (hw : previous.get? active = some w) (hi : SameWindow previous windows active i)
    (h : i = active ∨ ∀ j, SameWindow previous windows active j → j = i) :
    windowIndexForId windows w.id active = some i := by
  have hsm (j : ℕ) : (windows.get? j).any (·.id = w.id) = true ↔
      SameWindow previous windows active j := by
    simp [any_id_iff, SameWindow, hw]
  rw [windowIndexForId]
  split_ifs with hact
  · rcases h with h | h
    · rw [h]
    · rw [h _ ((hsm _).mp hact)]
  · replace h := h.resolve_left fun heq => hact ((hsm _).mpr (heq ▸ hi))
    have hmem (j : ℕ) : (j ∈ windows.entries.filterMap fun e =>
        if e.2.id = w.id then some e.1 else none) ↔ j ∈ [i] := by
      have hj : j ∈ [i] ↔ SameWindow previous windows active j :=
        mem_singleton.trans ⟨(· ▸ hi), h j⟩
      rw [hj, ← hsm, any_id_iff]
      simp [mem_filterMap, get?_eq_some_iff]
    have hsorted := windows.sorted.filterMap (S := (· < ·))
      (fun e => if e.2.id = w.id then some e.1 else none) (by grind)
    rw [perm_singleton.mp
      ((perm_ext_iff_of_nodup (hsorted.imp ne_of_lt) (nodup_singleton i)).mpr hmem)]

theorem synchronizedActiveWindow_mem (h : i ∈ windows) :
    synchronizedActiveWindow windows active last ∈ windows := by
  rw [synchronizedActiveWindow]
  split_ifs with hact
  · exact hact
  · have hf : ∃ j ∈ windows, (last.filter fun last => last ≠ active ∧ last ∈ windows).or
        (cyclicPreviousWindowIndex windows active) = some j := by
      rw [cyclicPreviousWindowIndex, keyBelow, lastKeyAbove]
      cases hl : last.filter fun last => last ≠ active ∧ last ∈ windows with
      | some j => exact ⟨j, (of_decide_eq_true (Option.filter_eq_some_iff.mp hl).2).2, rfl⟩
      | none =>
        cases hbelow : (windows.keys.filter (· < active)).getLast? with
        | some j => exact ⟨j, mem_keys.mp (mem_filter.mp (mem_of_getLast? hbelow)).1, rfl⟩
        | none =>
          cases habove : (windows.keys.filter (active < ·)).getLast? with
          | some j => exact ⟨j, mem_keys.mp (mem_filter.mp (mem_of_getLast? habove)).1, rfl⟩
          | none =>
            rw [getLast?_eq_none_iff, filter_eq_nil_iff] at hbelow habove
            have hlt := hbelow i (mem_keys.mpr h)
            have hgt := habove i (mem_keys.mpr h)
            simp only [decide_eq_true_eq, not_lt] at hlt hgt
            exact absurd (le_antisymm hlt hgt ▸ h) hact
    obtain ⟨j, hj, heq⟩ := hf
    rwa [heq, getD_some]

end

namespace Session

variable (peer source after : Session) (alertMap : Option (OrderedMap ℕ ℕ))

/-- The peer has the windows of the source, with a place of its own among them. -/
structure KeepsPlace : Prop where
  windows : after.windows = source.windows
  active : source.activeWindow ∈ source.windows → after.activeWindow ∈ source.windows
  last : ∀ i, after.lastWindow = some i → i ∈ source.windows ∧ i ≠ after.activeWindow
  alerts : ∀ i, i ∈ after.winlinkAlertFlags ↔ i ∈ source.windows
  /-- The alerts of a slot move with its window, and only these : any other slot has those of the
  source. -/
  moves : ∃ moved : SlotClaims, moved.Sound (SameWindow peer.windows source.windows) ∧
    (∀ i j f, moved.get? i = some j → peer.winlinkAlertFlags.get? i = some f →
      after.winlinkAlertFlags.get? j = some f) ∧
    (∀ j ∈ source.windows,
      (∀ i f, moved.get? i = some j → peer.winlinkAlertFlags.get? i ≠ some f) →
      after.winlinkAlertFlags.get? j = some ((source.winlinkAlertFlags.get? j).getD .empty)) ∧
    (∀ i, SameWindow peer.windows source.windows i i → moved.get? i = some i ∨
      (∃ j ≠ i, alertMap.bind (·.get? i) = some j ∧ SameWindow peer.windows source.windows i j) ∨
      ∃ k ≠ i, alertMap.bind (·.get? k) = some i ∧ SameWindow peer.windows source.windows k i) ∧
    ∀ i j, moved.get? i = none → SameWindow peer.windows source.windows i j →
      ∃ k, moved.get? k = some j

/-- The active window is the same one, where it has kept its slot or has only one. -/
def KeepsActive : Prop :=
  ∀ i, SameWindow peer.windows source.windows peer.activeWindow i →
    (i = peer.activeWindow ∨
      ∀ j, SameWindow peer.windows source.windows peer.activeWindow j → j = i) →
    after.activeWindow = i

variable {peer source alertMap}

theorem keepsPlace_synchronizeGroupWindows {active : ℕ} {last : Option ℕ}
    (hact : source.activeWindow ∈ source.windows → active ∈ source.windows)
    (hl : ∀ i, last = some i → i ∈ source.windows ∧ i ≠ active) :
    peer.KeepsPlace source (peer.synchronizeGroupWindows source active last alertMap) alertMap := by
  have hsound := @sound_synchronizedIndices peer.windows source.windows alertMap
  have hget (j : ℕ) : OrderedMap.get?
      (peer.synchronizeGroupWindows source active last alertMap).winlinkAlertFlags j = _ :=
    get?_foldl_fill source.windows.keys _
  refine ⟨rfl, hact, hl, fun j => ?_, _, hsound, fun i j f hi hf => ?_, fun j hj hnone => ?_,
    fun i => synchronizedIndices_stays, fun i j => synchronizedIndices_claimed⟩
  · rw [mem_iff_isSome, hget, isSome_or, Bool.or_eq_true]
    constructor
    · rintro (h | h)
      · obtain ⟨f, hf⟩ := isSome_iff_exists.mp h
        obtain ⟨i, hi, -⟩ := hsound.get?_remapped.mp hf
        obtain ⟨_, _, -, hw, -⟩ := hsound.justified hi
        exact mem_of_get? hw
      · split_ifs at h with hj
        · exact mem_keys.mp hj
        · cases h
    · intro h
      rw [if_pos (mem_keys.mpr h)]
      exact .inr rfl
  · rw [hget, hsound.get?_remapped.mpr ⟨i, hi, hf⟩, some_or]
  · rw [hget, if_pos (mem_keys.mpr hj), or_eq_some_iff]
    refine .inr ⟨eq_none_iff_forall_ne_some.mpr fun f hf => ?_, rfl⟩
    obtain ⟨i, hi, hf⟩ := hsound.get?_remapped.mp hf
    exact hnone i f hi hf

theorem keepsPlace_optional : peer.KeepsPlace source
    (peer.synchronizeGroupFromWithOptionalWinlinkAlertMap source alertMap) alertMap := by
  have hmem {index i : ℕ} (h : ((peer.windowAt index).bind fun w =>
      windowIndexForId source.windows w.id index) = some i) : i ∈ source.windows := by
    obtain ⟨_, -, hi⟩ := bind_eq_some_iff.mp h
    exact windowIndexForId_mem hi
  refine keepsPlace_synchronizeGroupWindows (fun h => ?_) fun i hi => ?_
  · dsimp only
    cases hi : (peer.windowAt peer.activeWindow).bind fun w =>
      windowIndexForId source.windows w.id peer.activeWindow with
    | none => exact synchronizedActiveWindow_mem h
    | some i => exact hmem hi
  · rcases or_eq_some_iff.mp hi with hi | ⟨-, hi⟩
    · obtain ⟨hl, hne⟩ := Option.filter_eq_some_iff.mp hi
      obtain ⟨_, -, hi⟩ := bind_eq_some_iff.mp hl
      exact ⟨hmem hi, of_decide_eq_true hne⟩
    · split_ifs at hi with hact
      obtain rfl := some.inj hi
      exact hact.symm

theorem keepsActive_optional : peer.KeepsActive source
    (peer.synchronizeGroupFromWithOptionalWinlinkAlertMap source alertMap) := by
  intro i hi hplace
  obtain ⟨w, -, hw, -⟩ := id hi
  have hindex := windowIndexForId_eq hw hi hplace
  simp [synchronizeGroupFromWithOptionalWinlinkAlertMap, synchronizeGroupWindows, windowAt, hw,
    hindex]

theorem keepsPlace_selection (selection alerts : OrderedMap ℕ ℕ) : peer.KeepsPlace source
    (peer.synchronizeGroupFromWithWindowSelectionAndWinlinkAlertMaps source selection alerts)
    (some alerts) := by
  refine keepsPlace_synchronizeGroupWindows (fun h => ?_) fun i hi => ?_
  · dsimp only
    split_ifs with hsel
    · exact hsel
    · exact synchronizedActiveWindow_mem h
  · exact (of_decide_eq_true (Option.filter_eq_some_iff.mp hi).2).symm

/-- Group synchronisation keeps the place of each peer. -/
theorem group_synchronization_keeps_place (peer source : Session) :
    (peer.KeepsPlace source (peer.synchronizeGroupFrom source) none ∧
      peer.KeepsActive source (peer.synchronizeGroupFrom source)) ∧
    ∀ alerts : OrderedMap ℕ ℕ,
      (peer.KeepsPlace source (peer.synchronizeGroupFromWithWinlinkAlertMap source alerts)
          (some alerts) ∧
        peer.KeepsActive source (peer.synchronizeGroupFromWithWinlinkAlertMap source alerts)) ∧
      peer.KeepsPlace source (peer.synchronizeGroupFromWithWindowSelectionMap source alerts)
        (some alerts) ∧
      ∀ selection, peer.KeepsPlace source
        (peer.synchronizeGroupFromWithWindowSelectionAndWinlinkAlertMaps source selection alerts)
        (some alerts) :=
  ⟨⟨keepsPlace_optional, keepsActive_optional⟩, fun alerts =>
    ⟨⟨keepsPlace_optional, keepsActive_optional⟩, keepsPlace_selection alerts alerts,
      fun selection => keepsPlace_selection selection alerts⟩⟩

end Session

end Rmux
