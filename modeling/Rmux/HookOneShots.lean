import Rmux.HookDeferred

/-!
# One-shot hooks run once

A store is copied, and events are dispatched from the copy while hooks are set and unset in the
store (`HookWorld`). No one-shot is returned twice. That it is gone from the store after it has been
returned, and that nothing else goes with it, depends on what the store holds by then
(`DeferredCall.Consumes`) : one-shots are taken out by their slot and index, and the slot is found
by a resolver that for hooks of panes does not know the window.
-/

namespace Rmux

/-! ## Deferred calls -/

/-- The three ways to dispatch from a copy. -/
inductive DeferredCall
  | fromScope (scope : ScopeSelector) (hook : HookName)
  | withIdentity (identity : HookScopeIdentity) (hook : HookName)
  | withIdentityOrScope (identity : HookScopeIdentity) (scope : ScopeSelector) (hook : HookName)

namespace DeferredCall

open HookStore

def hook : DeferredCall → HookName
  | .fromScope _ hook | .withIdentity _ hook | .withIdentityOrScope _ _ hook => hook

/-- What is returned, the store and the snapshot. -/
def run (live snapshot : HookStore) : DeferredCall → List HookDispatch × HookStore × HookStore
  | .fromScope scope hook => live.dispatchDeferredFrom snapshot scope hook
  | .withIdentity identity hook => live.dispatchDeferredWithIdentity snapshot identity hook
  | .withIdentityOrScope identity scope hook =>
    live.dispatchDeferredWithIdentityOrScope snapshot identity scope hook

/-- The slot a dispatch by scope takes the hook from, and the one its one-shots are cleared at. -/
def scopeSlots (snapshot : HookStore) (scope : ScopeSelector) (hook : HookName) :
    HookSlot × HookSlot :=
  (snapshot.firstBound hook (snapshot.chain hook scope),
    snapshot.firstBound hook (snapshot.ownChain hook scope))

def identitySlots (snapshot : HookStore) (identity : HookScopeIdentity) (hook : HookName) :
    HookSlot × HookSlot :=
  (snapshot.firstBound hook (identityChain hook identity),
    snapshot.firstBound hook (identityOwnChain hook identity))

def slots (snapshot : HookStore) : DeferredCall → HookSlot × HookSlot
  | .fromScope scope hook => scopeSlots snapshot scope hook
  | .withIdentity identity hook => identitySlots snapshot identity hook
  | .withIdentityOrScope identity scope hook =>
    if (snapshot.resolvedIdentityBinding identity hook).1 ≠ .global then
      identitySlots snapshot identity hook
    else if (snapshot.resolvedDispatchBinding scope hook).1 ≠ .global then
      scopeSlots snapshot scope hook
    else identitySlots snapshot identity hook

variable {live snapshot : HookStore} (call : DeferredCall)

def taken (snapshot : HookStore) : HookSlot := (call.slots snapshot).1

def resolved (snapshot : HookStore) : HookSlot := (call.slots snapshot).2

theorem defers (hsep : snapshot.Separate) (hw : live.windowAliases = snapshot.windowAliases)
    (hp : live.paneAliases = snapshot.paneAliases) :
    Defers live snapshot (call.run live snapshot) (call.taken snapshot) (call.resolved snapshot)
      call.hook := by
  cases call with
  | fromScope scope hook => exact defers_dispatchDeferredFrom hsep hw hp scope hook
  | withIdentity identity hook =>
    exact defers_dispatchDeferredWithIdentity live snapshot identity hook
  | withIdentityOrScope identity scope hook =>
    simp only [run, dispatchDeferredWithIdentityOrScope, taken, resolved, slots]
    split_ifs
    · exact defers_dispatchDeferredWithIdentity live snapshot identity hook
    · exact defers_dispatchDeferredFrom hsep hw hp scope hook
    · exact defers_dispatchDeferredWithIdentity live snapshot identity hook

/-- When a call clears in the store the one-shots that it returns. Every one-shot of the snapshot at
the slot that is cleared is gone from the store or still the same entry there, and if the hook is taken
at another slot, then none of the one-shots of either is in the store any more. -/
structure Consumes (live snapshot : HookStore) : Prop where
  untouched : ∀ index e e', snapshot.entryAt (call.resolved snapshot, call.hook, index) = some e →
    e.lifecycle = .oneShot → live.entryAt (call.resolved snapshot, call.hook, index) = some e' →
    call.taken snapshot = call.resolved snapshot ∧ e' = e
  found : ∀ index e, snapshot.entryAt (call.taken snapshot, call.hook, index) = some e →
    e.lifecycle = .oneShot → live.entryAt (call.taken snapshot, call.hook, index) = some e →
    call.taken snapshot = call.resolved snapshot

end DeferredCall

/-! ## A store and its copy -/

/-- A call on the store or on the copy. -/
inductive HookCall
  | setWithOptions (scope : ScopeSelector) (hook : HookName) (command : Text)
    (lifecycle : HookLifecycle) (options : HookSetOptions)
  | setWithIdentity (scope : HookScopeIdentity) (hook : HookName) (command : Text)
    (lifecycle : HookLifecycle) (options : HookSetOptions)
  | unset (scope : ScopeSelector) (hook : HookName) (index : Option ArrayIndex)
  | unsetWithIdentity (scope : HookScopeIdentity) (hook : HookName) (index : Option ArrayIndex)
  | deferred (call : DeferredCall)

/-- A store, a copy of it from before, and the number of calls that set an entry so far. -/
structure HookWorld where
  live : HookStore
  snapshot : HookStore
  calls : ℕ

namespace HookWorld

open HookStore

/-- What a call returns, and the stores after it. -/
def step (world : HookWorld) : HookCall → List HookDispatch × HookWorld
  | .setWithOptions scope hook command lifecycle options =>
    ([], { world with
      live := (world.live.setWithOptions scope hook ⟨command, lifecycle, world.calls⟩ options).2
      calls := world.calls + 1 })
  | .setWithIdentity scope hook command lifecycle options =>
    ([], { world with
      live := (world.live.setWithIdentity scope hook ⟨command, lifecycle, world.calls⟩ options).2
      calls := world.calls + 1 })
  | .unset scope hook index => ([], { world with live := world.live.unset scope hook index })
  | .unsetWithIdentity scope hook index =>
    ([], { world with live := world.live.unsetWithIdentity scope hook index })
  | .deferred call =>
    let (dispatches, live, snapshot) := call.run world.live world.snapshot
    (dispatches, { world with live, snapshot })

def after (world : HookWorld) (calls : List HookCall) : HookWorld :=
  calls.foldl (fun world call => (world.step call).2) world

/-- All that some calls return. -/
def returned (world : HookWorld) : List HookCall → List HookDispatch
  | [] => []
  | call :: calls => (world.step call).1 ++ (world.step call).2.returned calls

theorem returned_append (world : HookWorld) (calls calls' : List HookCall) :
    world.returned (calls ++ calls') =
      world.returned calls ++ (world.after calls).returned calls' := by
  induction calls generalizing world with
  | nil => rfl
  | cons call calls ih => rw [List.cons_append, returned, returned, ih, List.append_assoc]; rfl

theorem returned_concat (world : HookWorld) (calls : List HookCall) (call : HookCall) :
    world.returned (calls ++ [call]) =
      world.returned calls ++ ((world.after calls).step call).1 := by
  rw [returned_append, returned, returned, List.append_nil]

theorem after_concat (world : HookWorld) (calls : List HookCall) (call : HookCall) :
    world.after (calls ++ [call]) = ((world.after calls).step call).2 := List.foldl_append

/-! ## What every run keeps -/

variable {origin : HookStore} {start : ℕ} {world : HookWorld} {snapshot : HookStore}
  {entries : List HookDispatch}

/-- What holds of the stores in a run from a copy of `origin` : an entry older than the copy is where
it was then, and the copy only loses entries. -/
structure Kept (origin : HookStore) (start : ℕ) (world : HookWorld) : Prop where
  windowAliases : world.live.windowAliases = world.snapshot.windowAliases
  paneAliases : world.live.paneAliases = world.snapshot.paneAliases
  separateLive : world.live.Separate
  separateSnapshot : world.snapshot.Separate
  later : start ≤ world.calls
  live : ∀ position e, world.live.entryAt position = some e → e.call < start →
    origin.entryAt position = some e
  snapshot : Shrinks origin world.snapshot

theorem kept_start (h : Numbered origin start) : Kept origin start ⟨origin, origin, start⟩ :=
  ⟨rfl, rfl, h.separate, h.separate, le_rfl, fun _ _ he _ => he, fun _ _ he => he⟩

section Step

variable {live' : HookStore} {slot : HookSlot} {hook : HookName} {entries : HookEntries}

theorem Kept.rewrites (h : Kept origin start world) {calls : ℕ} (hcalls : world.calls ≤ calls)
    (hlive : Rewrites world.live live' slot hook entries)
    (hadds : ∀ position e, live'.entryAt position = some e →
      world.live.entryAt position = some e ∨ e.call = world.calls) :
    Kept origin start { world with live := live', calls := calls } where
  windowAliases := hlive.windowAliases.trans h.windowAliases
  paneAliases := hlive.paneAliases.trans h.paneAliases
  separateLive := hlive.separate h.separateLive
  separateSnapshot := h.separateSnapshot
  later := h.later.trans hcalls
  live position e he hold := by
    obtain he | hnew := hadds position e he
    · exact h.live position e he hold
    · have := h.later
      omega
  snapshot := h.snapshot

theorem Kept.takes (h : Kept origin start world) {r : List HookDispatch × HookStore}
    (htk : Takes world.snapshot r slot hook) :
    Kept origin start { world with snapshot := r.2 } where
  windowAliases := h.windowAliases.trans htk.rewrites.windowAliases.symm
  paneAliases := h.paneAliases.trans htk.rewrites.paneAliases.symm
  separateLive := h.separateLive
  separateSnapshot := htk.rewrites.separate h.separateSnapshot
  later := h.later
  live := h.live
  snapshot position e he := h.snapshot position e (htk.shrinks position e he)

end Step

theorem Kept.defers (h : Kept origin start world) (call : DeferredCall) :
    Defers world.live world.snapshot (call.run world.live world.snapshot)
      (call.taken world.snapshot) (call.resolved world.snapshot) call.hook :=
  call.defers h.separateSnapshot h.windowAliases h.paneAliases

theorem shrinks_of_defers {live : HookStore} {r : List HookDispatch × HookStore × HookStore}
    {taken resolved : HookSlot} {hook : HookName}
    (h : Defers live snapshot r taken resolved hook) : Shrinks live r.2.1 :=
  h.consumes.shrinks fun _ _ he => (get?_withoutOneShots_eq_some.mp he).1

/-- An entry of the store was there before a call, or the call has set it. -/
theorem Kept.entryAt_step (h : Kept origin start world) (call : HookCall) (position : HookPosition)
    (e : RegisteredHook) (he : (world.step call).2.live.entryAt position = some e) :
    world.live.entryAt position = some e ∨ e.call = world.calls := by
  cases call with
  | setWithOptions scope hook command lifecycle o =>
    obtain ⟨place, hadds⟩ := (setWithOptions_rewrites scope _ o).adds
    obtain he | ⟨rfl, -⟩ := hadds position e he
    · exact .inl he
    · exact .inr rfl
  | setWithIdentity scope hook command lifecycle o =>
    obtain ⟨place, hadds⟩ := (setWithIdentity_rewrites scope _ o).adds
    obtain he | ⟨rfl, -⟩ := hadds position e he
    · exact .inl he
    · exact .inr rfl
  | unset scope hook index => exact .inl ((unset_rewrites scope index).shrinks_unset position e he)
  | unsetWithIdentity scope hook index =>
    exact .inl ((unsetWithIdentity_rewrites scope index).shrinks_unset position e he)
  | deferred call => exact .inl (shrinks_of_defers (h.defers call) position e he)

theorem Kept.step (h : Kept origin start world) (call : HookCall) :
    Kept origin start (world.step call).2 := by
  have hadds := h.entryAt_step call
  cases call with
  | setWithOptions scope hook command lifecycle options =>
    exact h.rewrites (Nat.le_succ _) (setWithOptions_rewrites scope _ options) hadds
  | setWithIdentity scope hook command lifecycle options =>
    exact h.rewrites (Nat.le_succ _) (setWithIdentity_rewrites scope _ options) hadds
  | unset scope hook index => exact h.rewrites le_rfl (unset_rewrites scope index) hadds
  | unsetWithIdentity scope hook index =>
    exact h.rewrites le_rfl (unsetWithIdentity_rewrites scope index) hadds
  | deferred call =>
    exact (h.rewrites le_rfl (h.defers call).consumes hadds).takes (h.defers call).takes

theorem Kept.after (h : Kept origin start world) (calls : List HookCall) :
    Kept origin start (world.after calls) := by
  induction calls generalizing world with
  | nil => exact h
  | cons call calls ih => exact ih (h.step call)

/-! ## No one-shot is returned twice -/

/-- The numbers of the one-shots among some entries. -/
def oneShots (entries : List HookDispatch) : List ℕ :=
  (entries.filter fun e => e.lifecycle = .oneShot).map RegisteredHook.call

theorem mem_oneShots {number : ℕ} :
    number ∈ oneShots entries ↔ ∃ e ∈ entries, e.lifecycle = .oneShot ∧ e.call = number := by
  simp [oneShots, and_assoc]

theorem oneShots_append (entries entries' : List HookDispatch) :
    oneShots (entries ++ entries') = oneShots entries ++ oneShots entries' := by
  rw [oneShots, List.filter_append, List.map_append]; rfl

/-- The entries of one array have different numbers. -/
theorem nodup_oneShots_values {s : HookStore} {calls : ℕ} (h : Numbered s calls)
    (slot : HookSlot) (hook : HookName) {entries : HookEntries}
    (hents : ∀ i e, entries.get? i = some e →
      s.entryAt (slot, hook, i) = some e) : (oneShots entries.values).Nodup := by
  refine List.Nodup.sublist (List.filter_sublist.map _) ?_
  rw [HookEntries.values, List.map_map]
  refine List.Nodup.map_on (fun a ha b hb heq => ?_) entries.nodup_entries
  have hpos := h.unique _ _ _ _ (hents a.1 a.2 (OrderedMap.get?_eq_some_iff.mpr ha))
    (hents b.1 b.2 (OrderedMap.get?_eq_some_iff.mpr hb)) heq
  simp only [Prod.mk.injEq, true_and] at hpos
  exact OrderedMap.eq_of_mem_entries ha hb hpos

/-- Every one-shot that has been returned was in the store that was copied, and has gone from the
copy. -/
def Spent (origin snapshot : HookStore) (entries : List HookDispatch) : Prop :=
  ∀ e ∈ entries, e.lifecycle = .oneShot →
    ∃ position, origin.entryAt position = some e ∧ snapshot.entryAt position = none

theorem Spent.shrinks {snapshot' : HookStore} (h : Spent origin snapshot entries)
    (hshr : Shrinks snapshot snapshot') : Spent origin snapshot' entries := by
  intro e he hlf
  obtain ⟨position, ho, hn⟩ := h e he hlf
  refine ⟨position, ho, ?_⟩
  by_contra hne
  obtain ⟨e', he'⟩ := Option.ne_none_iff_exists'.mp hne
  exact absurd ((hshr position e' he').symm.trans hn) (by simp)

/-- A dispatch spends what it returns, and none of it was spent before. -/
theorem Spent.takes {r : List HookDispatch × HookStore} {slot : HookSlot} {hook : HookName}
    (ho : Numbered origin start) (hold : Shrinks origin snapshot)
    (h : Spent origin snapshot entries) (hnd : (oneShots entries).Nodup)
    (htk : Takes snapshot r slot hook) :
    Spent origin r.2 (entries ++ r.1) ∧ (oneShots (entries ++ r.1)).Nodup := by
  constructor
  · intro e he hlf
    rcases List.mem_append.mp he with he | he
    · exact h.shrinks htk.shrinks e he hlf
    · obtain ⟨i, hidx⟩ := htk.entryAt he
      refine ⟨(slot, hook, i), hold _ _ hidx, ?_⟩
      have hidx : (snapshot.entriesAt slot hook).get? i = some e := hidx
      rw [htk.rewrites.entryAt_eq, if_pos ⟨rfl, rfl⟩, HookEntries.get?_dispatch, hidx]
      simp [Option.filter, hlf]
  · rw [oneShots_append, List.nodup_append]
    refine ⟨hnd, ?_, ?_⟩
    · rw [htk.returned]
      exact nodup_oneShots_values ho slot hook fun i e he => hold _ _ he
    · rintro number hnumber number' hnumber' rfl
      obtain ⟨e, he, hlf, rfl⟩ := mem_oneShots.mp hnumber
      obtain ⟨e', he', -, heq⟩ := mem_oneShots.mp hnumber'
      obtain ⟨position, hpos, hn⟩ := h e he hlf
      obtain ⟨i, hidx⟩ := htk.entryAt he'
      have hsm := ho.unique _ _ _ _ (hold _ _ hidx) hpos heq
      rw [← hsm, hidx] at hn
      cases hn

theorem spent_returned (ho : Numbered origin start) (calls : List HookCall) :
    Spent origin (after ⟨origin, origin, start⟩ calls).snapshot
        (returned ⟨origin, origin, start⟩ calls) ∧
      (oneShots (returned ⟨origin, origin, start⟩ calls)).Nodup := by
  induction calls using List.reverseRecOn with
  | nil => exact ⟨nofun, List.nodup_nil⟩
  | append_singleton calls call ih =>
    rw [returned_concat, after_concat]
    have hk := (kept_start ho).after calls
    cases call with
    | deferred call =>
      exact ih.1.takes ho hk.snapshot ih.2 (hk.defers call).takes
    | _ => rw [HookWorld.step, List.append_nil]; exact ih

/-! ## One-shots and the store -/

/-- The store does not hold the entry of a call, and no dispatch returns it. -/
structure Lacks (store : HookStore) (number : ℕ) : Prop where
  entryAt : ∀ position e, store.entryAt position = some e → e.call ≠ number
  dispatch : ∀ scope hook, ∀ e ∈ (store.dispatch scope hook).1, e.call ≠ number
  dispatchWithIdentity : ∀ identity hook, ∀ e ∈ (store.dispatchWithIdentity identity hook).1,
    e.call ≠ number
  dispatchWithIdentityOrScope : ∀ identity scope hook,
    ∀ e ∈ (store.dispatchWithIdentityOrScope identity scope hook).1, e.call ≠ number

theorem lacks_of_entryAt {s : HookStore} {number : ℕ} (hsep : s.Separate)
    (h : ∀ position e, s.entryAt position = some e → e.call ≠ number) : Lacks s number := by
  have htk {slot : HookSlot} {hook : HookName} {r : List HookDispatch × HookStore}
      (ht : Takes s r slot hook) (e : HookDispatch) (he : e ∈ r.1) :
      e.call ≠ number := by
    obtain ⟨i, hidx⟩ := ht.entryAt he
    exact h _ e hidx
  refine ⟨h, fun scope hook => htk (takes_dispatch hsep scope hook),
    fun identity hook => htk (takes_dispatchWithIdentity identity hook),
    fun identity scope hook => ?_⟩
  obtain ⟨slot, ht⟩ := takes_dispatchWithIdentityOrScope hsep identity scope hook
  exact htk ht

/-- No one-shot is returned twice. Once it has been returned, the store does not have it and does not
get it back, and a deferred call takes from the store nothing but one-shots that it returns. -/
structure OneShotsOnce (world : HookWorld) (calls : List HookCall) : Prop where
  once : (oneShots (world.returned calls)).Nodup
  gone : ∀ done rest, calls = done ++ rest → ∀ e ∈ world.returned done, e.lifecycle = .oneShot →
    Lacks (world.after done).live e.call
  only : ∀ done call rest, calls = done ++ .deferred call :: rest →
    ∀ position e, (world.after done).live.entryAt position = some e →
      ((world.after done).step (.deferred call)).2.live.entryAt position ≠ some e →
      e.lifecycle = .oneShot ∧ e ∈ ((world.after done).step (.deferred call)).1

/-- Every deferred call of the run clears the one-shots that it returns. -/
def Consuming (world : HookWorld) (calls : List HookCall) : Prop :=
  ∀ done call rest, calls = done ++ .deferred call :: rest →
    call.Consumes (world.after done).live (world.after done).snapshot

section Deferred

variable {call : DeferredCall} {position : HookPosition} {e : RegisteredHook}

/-- What goes from the store is what it held at the index of a one-shot. -/
theorem lost_of_defers (h : Kept origin start world) (he : world.live.entryAt position = some e)
    (hlost : (world.step (.deferred call)).2.live.entryAt position ≠ some e) :
    ∃ i e', position = (call.resolved world.snapshot, call.hook, i) ∧
      world.snapshot.entryAt position = some e' ∧ e'.lifecycle = .oneShot := by
  obtain ⟨slot, hook, i⟩ := position
  have hclr := (h.defers call).consumes.entryAt_eq (slot, hook, i)
  by_cases hpos : slot = call.resolved world.snapshot ∧ hook = call.hook
  · rw [if_pos hpos] at hclr
    obtain ⟨rfl, rfl⟩ := hpos
    by_contra hk
    refine hlost (hclr.trans (get?_withoutOneShots_eq_some.mpr ⟨he, ?_⟩))
    rintro ⟨e', he', hlf⟩
    exact hk ⟨i, e', rfl, he', hlf⟩
  · rw [if_neg hpos] at hclr
    exact absurd (hclr.trans he) hlost

theorem cleared_of_defers (h : Kept origin start world) {i : ArrayIndex}
    (he : world.snapshot.entryAt (call.resolved world.snapshot, call.hook, i) = some e)
    (hlf : e.lifecycle = .oneShot) : (world.step (.deferred call)).2.live.entryAt
      (call.resolved world.snapshot, call.hook, i) = none := by
  refine ((h.defers call).consumes.entryAt_eq _).trans ?_
  rw [if_pos ⟨rfl, rfl⟩]
  by_contra hne
  obtain ⟨e', he'⟩ := Option.ne_none_iff_exists'.mp hne
  exact (get?_withoutOneShots_eq_some.mp he').2 ⟨e, he, hlf⟩

/-- A one-shot that a consuming call returns is not in the store after it. -/
theorem not_live_of_consumes (hor : Numbered origin start) (h : Kept origin start world)
    (hconsumes : call.Consumes world.live world.snapshot) {e : HookDispatch}
    (he : e ∈ (world.step (.deferred call)).1) (hlf : e.lifecycle = .oneShot)
    {e' : RegisteredHook} (he' : (world.step (.deferred call)).2.live.entryAt position = some e') :
    e'.call ≠ e.call := by
  intro heq
  obtain ⟨i, hidx⟩ := (h.defers call).takes.entryAt he
  have ho := h.snapshot _ _ hidx
  have hlive := shrinks_of_defers (h.defers call) position e' he'
  have hold := h.live position e' hlive (heq ▸ hor.below _ e ho)
  have hpos := hor.unique _ _ _ _ hold ho heq
  subst hpos
  cases Option.some.inj (hold.symm.trans ho)
  have hsl := hconsumes.found i e hidx hlf hlive
  rw [hsl] at hidx he'
  exact absurd (he'.symm.trans (cleared_of_defers h hidx hlf)) (by simp)

theorem only_of_consumes (h : Kept origin start world)
    (hconsumes : call.Consumes world.live world.snapshot)
    (he : world.live.entryAt position = some e)
    (hlost : (world.step (.deferred call)).2.live.entryAt position ≠ some e) :
    e.lifecycle = .oneShot ∧ e ∈ (world.step (.deferred call)).1 := by
  obtain ⟨i, e', rfl, he', hlf⟩ := lost_of_defers h he hlost
  obtain ⟨hsl, rfl⟩ := hconsumes.untouched i e' e he' hlf he
  refine ⟨hlf, ?_⟩
  have hret : (world.step (.deferred call)).1 = _ := (h.defers call).takes.returned
  rw [hret, HookEntries.mem_values, hsl]
  exact ⟨i, he'⟩

/-- A call with no effect beyond its one-shots is consuming. -/
theorem consumes_of_only (hor : Numbered origin start) (h : Kept origin start world)
    (hgone : ∀ e ∈ (world.step (.deferred call)).1, e.lifecycle = .oneShot →
      Lacks (world.step (.deferred call)).2.live e.call)
    (honly : ∀ position e, world.live.entryAt position = some e →
      (world.step (.deferred call)).2.live.entryAt position ≠ some e →
      e.lifecycle = .oneShot ∧ e ∈ (world.step (.deferred call)).1) :
    call.Consumes world.live world.snapshot where
  untouched i e e' he hlf he' := by
    have hclr := cleared_of_defers h he hlf
    obtain ⟨-, hret⟩ := honly _ e' he' (by rw [hclr]; nofun)
    obtain ⟨i', hidx'⟩ := (h.defers call).takes.entryAt hret
    have ho := h.snapshot _ _ hidx'
    have hold := h.live _ e' he' (hor.below _ e' ho)
    have hpos := hor.unique _ _ _ _ ho hold rfl
    exact ⟨congrArg Prod.fst hpos, Option.some.inj (hold.symm.trans (h.snapshot _ _ he))⟩
  found i e he hlf hlive := by
    by_contra hne
    have hret : e ∈ (world.step (.deferred call)).1 := by
      have hvalues : (world.step (.deferred call)).1 = _ := (h.defers call).takes.returned
      rw [hvalues, HookEntries.mem_values]
      exact ⟨i, he⟩
    refine (hgone e hret hlf).entryAt (call.taken world.snapshot, call.hook, i) e ?_ rfl
    refine ((h.defers call).consumes.entryAt_eq _).trans ?_
    rw [if_neg fun hpos => hne hpos.1]
    exact hlive

end Deferred

/-- In a consuming run the store lacks every one-shot that has been returned. -/
theorem lacks_of_consuming (ho : Numbered origin start) {calls : List HookCall}
    (h : Consuming ⟨origin, origin, start⟩ calls) {done r : List HookCall}
    (hcalls : calls = done ++ r) {e : HookDispatch}
    (he : e ∈ returned ⟨origin, origin, start⟩ done) (hlf : e.lifecycle = .oneShot)
    {position : HookPosition} {e' : RegisteredHook}
    (he' : (after ⟨origin, origin, start⟩ done).live.entryAt position = some e') :
    e'.call ≠ e.call := by
  induction done using List.reverseRecOn generalizing r e' with
  | nil => cases he
  | append_singleton done call ih =>
    rw [List.append_assoc] at hcalls
    rw [returned_concat] at he
    rw [after_concat] at he'
    have hk := (kept_start ho).after done
    have hbef (he : e ∈ returned ⟨origin, origin, start⟩ done) : e'.call ≠ e.call := by
      obtain hold | hnew := hk.entryAt_step call position e' he'
      · exact ih hcalls he hold
      · obtain ⟨p, hp, -⟩ := (spent_returned ho done).1 e he hlf
        have := ho.below p e hp
        have := hk.later
        omega
    cases call with
    | deferred call =>
      rcases List.mem_append.mp he with he | he
      · exact hbef he
      · exact not_live_of_consumes ho hk (h done call r hcalls) he hlf he'
    | _ =>
      rw [HookWorld.step, List.append_nil] at he
      exact hbef he

/-- From a copy of a store that has been reached, one-shots run once and only they disappear exactly
if every deferred call is consuming. -/
theorem deferred_dispatches_consume_their_one_shots {store : HookStore} {number : ℕ}
    (h : Reached store number) (calls : List HookCall) :
    OneShotsOnce ⟨store, store, number⟩ calls ↔ Consuming ⟨store, store, number⟩ calls := by
  have horigin := h.numbered
  constructor
  · intro honce done call rest hcalls
    refine consumes_of_only horigin ((kept_start horigin).after done) (fun e he hlife => ?_)
      (honce.only done call rest hcalls)
    rw [← after_concat]
    refine honce.gone (done ++ [.deferred call]) rest (by rw [hcalls, List.append_assoc]; rfl) e ?_
      hlife
    rw [returned_concat]
    exact List.mem_append_right _ he
  · intro hconsuming
    refine ⟨(spent_returned horigin calls).2, fun done rest hcalls e he hlife => ?_,
      fun done call rest hcalls position e he hlost => ?_⟩
    · exact lacks_of_entryAt ((kept_start horigin).after done).separateLive fun position e' he' =>
        lacks_of_consuming horigin hconsuming hcalls he hlife he'
    · exact only_of_consumes ((kept_start horigin).after done) (hconsuming done call rest hcalls) he
        hlost

/-! ## Runs that go wrong -/

def work : SessionName := ⟨"work".toList⟩

def atZero : HookSetOptions := ⟨false, some 0⟩

/-- A store with a one-shot for a session. -/
def sessionStore : HookStore :=
  (HookStore.new.setWithOptions (.session work) .clientAttached ⟨"once".toList, .oneShot, 0⟩ atZero).2

theorem reached_sessionStore : Reached sessionStore 1 :=
  .setWithOptions (.session work) .clientAttached "once".toList .oneShot atZero .new

/-- A store with a one-shot for a window, on an event of panes. -/
def windowStore : HookStore :=
  (HookStore.new.setWithOptions (.window ⟨work, 0⟩) .paneExited ⟨"once".toList, .oneShot, 0⟩
    atZero).2

/-- The one-shot is replaced by another hook after the copy, and the other hook goes with the deferred
dispatch. The one-shot of a window stays in the store after a pane's event has returned it. -/
theorem deferred_dispatches_lose_and_keep :
    ¬ OneShotsOnce ⟨sessionStore, sessionStore, 1⟩
        [.setWithOptions (.session work) .clientAttached "other".toList .persistent atZero,
          .deferred (.fromScope (.session work) .clientAttached)] ∧
      ¬ OneShotsOnce ⟨windowStore, windowStore, 1⟩
        [.deferred (.fromScope (.pane ⟨work, 0, 0⟩) .paneExited)] := by
  constructor
  · intro h
    obtain ⟨hlife, -⟩ := h.only
      [.setWithOptions (.session work) .clientAttached "other".toList .persistent atZero]
      (.fromScope (.session work) .clientAttached) [] rfl (.session work, .clientAttached, 0)
      ⟨"other".toList, .persistent, 1⟩ (by decide +kernel) (by decide +kernel)
    cases hlife
  · intro h
    refine (h.gone [.deferred (.fromScope (.pane ⟨work, 0, 0⟩) .paneExited)] [] rfl
      ⟨"once".toList, .oneShot, 0⟩ (by decide +kernel) rfl).entryAt
      (.windowPlace ⟨work, 0⟩, .paneExited, 0) ⟨"once".toList, .oneShot, 0⟩ (by decide +kernel) rfl

/-- A one-shot of a session that nobody touches. -/
theorem session_one_shot_consumed :
    OneShotsOnce ⟨sessionStore, sessionStore, 1⟩
      [.deferred (.fromScope (.session work) .clientAttached)] := by
  refine (deferred_dispatches_consume_their_one_shots reached_sessionStore _).mpr ?_
  intro done call rest hcalls
  obtain ⟨rfl, hcalls⟩ | ⟨_, rfl, hcalls⟩ := List.cons_eq_append_iff.mp hcalls
  · cases hcalls
    have hslots : DeferredCall.taken (.fromScope (.session work) .clientAttached) sessionStore =
        DeferredCall.resolved (.fromScope (.session work) .clientAttached) sessionStore := by
      decide +kernel
    exact ⟨fun index e e' he _ he' => ⟨hslots, Option.some.inj (he'.symm.trans he)⟩,
      fun index e _ _ _ => hslots⟩
  · simp at hcalls

end HookWorld

end Rmux
