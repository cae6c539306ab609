import Mathlib.Tactic.ByContra
import Rmux.HookEntries

/-!
# Deferred dispatch and the stores that are reached

A deferred dispatch takes a hook at one slot of the snapshot and clears the one-shots of another in
the store (`HookStore.Defers`). The two are the first slots with the hook of the dispatch's chain
and of the resolver's. In a store that is reached by the operations every call that set an entry has
one place at most (`HookStore.Reached.numbered`).
-/

namespace Rmux

open List Option HookEntries

namespace HookStore

variable {store live snapshot : HookStore} {hook : HookName}
  {r : List HookDispatch × HookStore} {index : ArrayIndex} {registered : RegisteredHook}

/-! ## A deferred dispatch -/

/-- The entries without those at the index of a one-shot of `old`. -/
def withoutOneShots (entries old : HookEntries) : HookEntries :=
  (HookArray.oneShotIndices ⟨old⟩).foldl OrderedMap.erase entries

theorem get?_withoutOneShots_eq_some {entries old : HookEntries} :
    (withoutOneShots entries old).get? index = some e ↔ entries.get? index = some e ∧
      ¬ ∃ e', old.get? index = some e' ∧ e'.lifecycle = .oneShot := by
  simp only [withoutOneShots, OrderedMap.get?_foldl_erase, HookArray.mem_oneShotIndices,
    ite_none_left_eq_some, and_comm]

/-- The result of a deferred dispatch that takes the hook at one slot of the snapshot and clears
another of the store. -/
structure Defers (live snapshot : HookStore)
    (result : List HookDispatch × HookStore × HookStore) (taken resolved : HookSlot)
    (hook : HookName) : Prop where
  takes : Takes snapshot (result.1, result.2.2) taken hook
  consumes : Rewrites live result.2.1 resolved hook
    (withoutOneShots (live.entriesAt resolved hook) (snapshot.entriesAt resolved hook))

theorem Rewrites.trans {store' store'' : HookStore} {entries entries' : HookEntries}
    (h : Rewrites store store' slot hook entries)
    (h' : Rewrites store' store'' slot hook entries') :
    Rewrites store store'' slot hook entries' where
  here := h'.here
  elsewhere s k hne := (h'.elsewhere s k hne).trans (h.elsewhere s k hne)
  windowAliases := h'.windowAliases.trans h.windowAliases
  paneAliases := h'.paneAliases.trans h.paneAliases
  separate := h'.separate ∘ h.separate

theorem Rewrites.refl (store : HookStore) (slot : HookSlot) (hook : HookName) :
    Rewrites store store slot hook (store.entriesAt slot hook) :=
  ⟨rfl, fun _ _ _ => rfl, rfl, rfl, id⟩

theorem slotOf_congr {store' : HookStore} (hw : store'.windowAliases = store.windowAliases)
    (hp : store'.paneAliases = store.paneAliases) (scope : ScopeSelector) :
    store'.slotOf hook scope = store.slotOf hook scope := by
  cases scope with
  | window target => exact windowSlot_congr hw target
  | pane target => rw [slotOf, slotOf, paneSlot, paneSlot, paneIdAt, paneIdAt, hp]
  | _ => rfl

/-- Clearing some indices one after the other, by a step that keeps the aliases. -/
theorem rewrites_foldl {step : HookStore → ArrayIndex → HookStore}
    (hst : ∀ store' index, store'.windowAliases = store.windowAliases →
      store'.paneAliases = store.paneAliases →
      Rewrites store' (step store' index) slot hook
        ((store'.entriesAt slot hook).unset (some index))) (indices : List ArrayIndex) :
    Rewrites store (indices.foldl step store) slot hook
      (indices.foldl OrderedMap.erase (store.entriesAt slot hook)) := by
  induction indices using reverseRecOn with
  | nil => exact .refl store slot hook
  | append_singleton indices index ih =>
    rw [foldl_append, foldl_append]
    have hl := hst _ index ih.windowAliases ih.paneAliases
    rw [ih.here] at hl
    exact ih.trans hl

theorem rewrites_foldl_unset (store : HookStore) (scope : ScopeSelector) (hook : HookName)
    (indices : List ArrayIndex) :
    Rewrites store (indices.foldl (fun store index => store.unset scope hook (some index)) store)
      (store.slotOf hook scope) hook
      (indices.foldl OrderedMap.erase (store.entriesAt (store.slotOf hook scope) hook)) :=
  rewrites_foldl (fun store' index hw hp => by
    rw [← slotOf_congr hw hp]
    exact unset_rewrites scope (some index)) indices

theorem rewrites_foldl_unsetWithIdentity (store : HookStore) (scope : HookScopeIdentity)
    (hook : HookName) (indices : List ArrayIndex) : Rewrites store
      (indices.foldl (fun store index => store.unsetWithIdentity scope hook (some index)) store)
      (identitySlot hook scope) hook
      (indices.foldl OrderedMap.erase (store.entriesAt (identitySlot hook scope) hook)) :=
  rewrites_foldl (fun _ index _ _ => unsetWithIdentity_rewrites scope (some index)) indices

theorem firstBound_mem (store : HookStore) (hook : HookName) (slots : List HookSlot) :
    store.firstBound hook slots ∈ slots ∨
      store.firstBound hook slots = .root (rootForHook hook) := by
  induction slots with
  | nil => exact .inr rfl
  | cons slot slots ih =>
    rw [firstBound]
    split_ifs with h
    · exact ih.imp (mem_cons_of_mem _) id
    · exact .inl mem_cons_self

/-- Where a chain ends without the hook, none of its slots has it. -/
theorem entriesAt_eq_empty_of_firstBound {slots : List HookSlot}
    (h : store.entriesAt (store.firstBound hook slots) hook = ∅)
    (hsl : slot ∈ slots ∨ slot = .root (rootForHook hook)) : store.entriesAt slot hook = ∅ := by
  induction slots with
  | nil =>
    obtain hsl | rfl := hsl
    · cases hsl
    · exact h
  | cons first slots ih =>
    rw [firstBound] at h
    split_ifs at h with hfst
    · obtain hsl | rfl := hsl
      · rcases mem_cons.mp hsl with rfl | hsl
        · exact hfst
        · exact ih h (.inl hsl)
      · exact ih h (.inr rfl)
    · exact absurd h hfst

/-- What is dispatched from a chain and consumed at the slot of a part of it. -/
theorem defers_of_chain {slots own : List HookSlot} {cleared : HookStore} (hsub : own ⊆ slots)
    (htk : Takes snapshot r (snapshot.firstBound hook slots) hook)
    (hclr : Rewrites live cleared (snapshot.firstBound hook own) hook
      (withoutOneShots (live.entriesAt (snapshot.firstBound hook own) hook)
        (snapshot.entriesAt (snapshot.firstBound hook own) hook))) :
    Defers live snapshot (if r.1 = [] then (r.1, live, r.2)
        else (r.1, cleared, r.2))
      (snapshot.firstBound hook slots) (snapshot.firstBound hook own) hook := by
  by_cases hnil : r.1 = []
  · rw [if_pos hnil]
    refine ⟨htk, ?_⟩
    have hemp := values_eq_nil.mp (htk.returned.symm.trans hnil)
    rw [entriesAt_eq_empty_of_firstBound hemp ((firstBound_mem snapshot hook own).imp (hsub ·) id)]
    exact .refl live _ hook
  · rw [if_neg hnil]
    exact ⟨htk, hclr⟩

theorem ownChain_subset (store : HookStore) (hook : HookName) (scope : ScopeSelector) :
    store.ownChain hook scope ⊆ store.chain hook scope := by
  unfold ownChain chain localScope
  cases hookClass hook with
  | session | window => cases scope <;> exact fun _ h => h
  | pane =>
    cases scope with
    | pane target => exact fun _ h => mem_cons.mpr (.inl (mem_singleton.mp h))
    | _ => exact nil_subset _

theorem identityOwnChain_subset (hook : HookName) (scope : HookScopeIdentity) :
    identityOwnChain hook scope ⊆ identityChain hook scope := by
  unfold identityOwnChain identityChain localIdentities
  cases hookClass hook with
  | session | window => cases scope <;> exact fun _ h => h
  | pane =>
    cases scope with
    | pane name windowId paneId => exact fun _ h => h
    | _ => exact nil_subset _

theorem defers_dispatchDeferredFrom (hsep : snapshot.Separate)
    (hw : live.windowAliases = snapshot.windowAliases)
    (hp : live.paneAliases = snapshot.paneAliases) (scope : ScopeSelector) (hook : HookName) :
    Defers live snapshot (live.dispatchDeferredFrom snapshot scope hook)
      (snapshot.firstBound hook (snapshot.chain hook scope))
      (snapshot.firstBound hook (snapshot.ownChain hook scope)) hook := by
  obtain ⟨hsl, hidx⟩ := resolvedDispatchBinding_eq hsep scope hook
  have hclr := rewrites_foldl_unset live (snapshot.resolvedDispatchBinding scope hook).1 hook
    (snapshot.resolvedDispatchBinding scope hook).2
  rw [slotOf_congr hw hp, hsl] at hclr
  refine defers_of_chain (ownChain_subset snapshot hook scope) (takes_dispatch hsep scope hook) ?_
  rwa [withoutOneShots, ← hidx]

theorem defers_dispatchDeferredWithIdentity (live snapshot : HookStore) (scope : HookScopeIdentity)
    (hook : HookName) : Defers live snapshot (live.dispatchDeferredWithIdentity snapshot scope hook)
      (snapshot.firstBound hook (identityChain hook scope))
      (snapshot.firstBound hook (identityOwnChain hook scope)) hook := by
  obtain ⟨hsl, hidx⟩ := resolvedIdentityBinding_eq snapshot scope hook
  have hclr := rewrites_foldl_unsetWithIdentity live
    (snapshot.resolvedIdentityBinding scope hook).1 hook
    (snapshot.resolvedIdentityBinding scope hook).2
  rw [hsl] at hclr
  refine defers_of_chain (identityOwnChain_subset hook scope)
    (takes_dispatchWithIdentity scope hook) ?_
  rwa [withoutOneShots, ← hidx]

/-! ## Aliases -/

/-- Where the hooks of a slot are found once the aliases are those of `store`. -/
def movedSlot (store : HookStore) : HookSlot → HookSlot
  | .windowPlace target => store.windowSlot target
  | .panePlace target => store.paneSlot target
  | slot => slot

/-- A list of all that is kept under places. -/
def Lists {K : Type} (legacy : List (K × HookBindings)) (places : HookScopes K) : Prop :=
  legacy.Perm (places.entries.map fun e => (e.1, e.2))

theorem Lists.lookup {K : Type} [DecidableEq K] {legacy : List (K × HookBindings)}
    {places : HookScopes K} (h : Lists legacy places) {t : K} {bindings : HookBindings}
    (hmem : (t, bindings) ∈ legacy) : places.lookup t = some bindings := by
  obtain ⟨⟨_, _⟩, he, heq⟩ := mem_map.mp (h.mem_iff.mp hmem)
  cases heq
  exact AList.mem_lookup_iff.mpr he

theorem entriesOf_bindingsOf_eq_some {K : Type} [DecidableEq K] {scopes : HookScopes K} {key : K}
    (h : ((scopes.bindingsOf key).entriesOf hook).get? index = some e) :
    ∃ bindings, scopes.lookup key = some bindings ∧
      (bindings.entriesOf hook).get? index = some e := by
  cases hlk : scopes.lookup key with
  | none => simp [HookScopes.bindingsOf_eq_empty hlk] at h
  | some bindings => exact ⟨bindings, rfl, HookScopes.bindingsOf_eq hlk ▸ h⟩

theorem entriesOf_of_lookup {K : Type} [DecidableEq K] {scopes : HookScopes K} {key : K}
    {bindings : HookBindings} (h : scopes.lookup key = some bindings)
    (he : (bindings.entriesOf hook).get? index = some e) :
    ((scopes.bindingsOf key).entriesOf hook).get? index = some e := by
  rwa [HookScopes.bindingsOf_eq h]

section Adopt

variable {K I : Type} [DecidableEq K] [DecidableEq I] (identity : K → Option I)
  {legacy : List (K × HookBindings)} {byId : HookScopes I} {bindings : HookBindings}

/-- Hooks stay under a place only if it has no identity. -/
theorem lookup_adoptLegacy_fst {t : K}
    (h : (adoptLegacy identity legacy byId).1.lookup t = some bindings) :
    identity t = none ∧ (t, bindings) ∈ legacy := by
  induction legacy using reverseRecOn with
  | nil => simp [adoptLegacy] at h
  | append_singleton legacy e ih =>
    rw [adoptLegacy, foldl_append, foldl_cons, foldl_nil] at h
    simp only [mem_append, mem_singleton]
    cases hid : identity e.1 with
    | some key =>
      rw [hid] at h
      exact (ih h).imp id .inl
    | none =>
      rw [hid] at h
      by_cases hkey : t = e.1
      · subst hkey
        rw [AList.lookup_insert] at h
        cases h
        exact ⟨hid, .inr rfl⟩
      · rw [AList.lookup_insert_ne hkey] at h
        exact (ih h).imp id .inl

/-- What is kept under an identity was there, or comes from one of its places. -/
theorem lookup_adoptLegacy_snd {key : I}
    (h : (adoptLegacy identity legacy byId).2.lookup key = some bindings) :
    byId.lookup key = some bindings ∨
      ∃ t, identity t = some key ∧ (t, bindings) ∈ legacy := by
  induction legacy using reverseRecOn with
  | nil => exact .inl h
  | append_singleton legacy e ih =>
    have hgrow (h : (adoptLegacy identity legacy byId).2.lookup key = some bindings) :
        byId.lookup key = some bindings ∨
          ∃ t, identity t = some key ∧ (t, bindings) ∈ legacy ++ [e] :=
      (ih h).imp id fun ⟨t, hid, hmem⟩ => ⟨t, hid, mem_append_left _ hmem⟩
    rw [adoptLegacy, foldl_append, foldl_cons, foldl_nil] at h
    cases hid : identity e.1 with
    | none =>
      rw [hid] at h
      exact hgrow h
    | some id =>
      simp only [hid] at h
      split_ifs at h with hmem
      · exact hgrow h
      · by_cases hkey : key = id
        · subst hkey
          rw [AList.lookup_insert] at h
          cases h
          exact .inr ⟨e.1, hid, by simp⟩
        · rw [AList.lookup_insert_ne hkey] at h
          exact hgrow h

theorem lookup_retainKeys {live : List I} {key : I}
    (h : (retainKeys byId live).lookup key = some bindings) : byId.lookup key = some bindings := by
  rw [← mem_def, AList.mem_lookup_iff] at h ⊢
  exact (mem_filter.mp h).1

variable {places : HookScopes K} (hlists : Lists legacy places)

include hlists

theorem entriesOf_adoptLegacy_fst {t : K}
    (h : (((adoptLegacy identity legacy byId).1.bindingsOf t).entriesOf hook).get? index =
      some e) : identity t = none ∧ ((places.bindingsOf t).entriesOf hook).get? index = some e := by
  obtain ⟨bindings, hlk, he⟩ := entriesOf_bindingsOf_eq_some h
  obtain ⟨hid, hmem⟩ := lookup_adoptLegacy_fst identity hlk
  exact ⟨hid, entriesOf_of_lookup (hlists.lookup hmem) he⟩

theorem entriesOf_adoptLegacy_snd {key : I} {live : List I}
    (h : (((retainKeys (adoptLegacy identity legacy byId).2 live).bindingsOf key).entriesOf
      hook).get? index = some e) : ((byId.bindingsOf key).entriesOf hook).get? index = some e ∨
      ∃ t, identity t = some key ∧
        ((places.bindingsOf t).entriesOf hook).get? index = some e := by
  obtain ⟨bindings, hlk, he⟩ := entriesOf_bindingsOf_eq_some h
  obtain hlk | ⟨t, hid, hmem⟩ := lookup_adoptLegacy_snd identity (lookup_retainKeys hlk)
  · exact .inl (entriesOf_of_lookup hlk he)
  · exact .inr ⟨t, hid, entriesOf_of_lookup (hlists.lookup hmem) he⟩

end Adopt

section Aliases

variable {legacyWindows : List (WindowTarget × HookBindings)}
  {legacyPanes : List (PaneTarget × HookBindings)}
  {windowAliases : AList fun _ : WindowTarget => WindowId}
  {paneAliases : AList fun _ : PaneTarget => WindowId × PaneId}

/-- Every entry was in the store before, where its slot moved from. -/
theorem exists_of_replaceIdentityAliases (hws : Lists legacyWindows store.windows)
    (hps : Lists legacyPanes store.panes) {index : ArrayIndex}
    (h : ((store.replaceIdentityAliases legacyWindows legacyPanes windowAliases
      paneAliases).entriesAt slot hook).get? index = some e) :
    ∃ old, (store.replaceIdentityAliases legacyWindows legacyPanes windowAliases
        paneAliases).movedSlot old = slot ∧ (store.entriesAt old hook).get? index = some e := by
  cases slot with
  | root root => exact ⟨.root root, rfl, by cases root <;> exact h⟩
  | session name => exact ⟨.session name, rfl, h⟩
  | windowPlace t =>
    obtain ⟨hid, he⟩ := entriesOf_adoptLegacy_fst windowAliases.lookup hws h
    exact ⟨.windowPlace t, windowSlot_eq_place hid, he⟩
  | panePlace t =>
    obtain ⟨hid, he⟩ := entriesOf_adoptLegacy_fst
      (fun t => (paneAliases.lookup t).map Prod.snd) hps h
    exact ⟨.panePlace t, paneSlot_eq_place hid, he⟩
  | window windowId =>
    obtain he | ⟨t, hid, he⟩ := entriesOf_adoptLegacy_snd windowAliases.lookup hws h
    · exact ⟨.window windowId, rfl, he⟩
    · exact ⟨.windowPlace t, windowSlot_eq_id hid, he⟩
  | pane paneId =>
    obtain he | ⟨t, hid, he⟩ := entriesOf_adoptLegacy_snd
      (fun t => (paneAliases.lookup t).map Prod.snd) hps h
    · exact ⟨.pane paneId, rfl, he⟩
    · exact ⟨.panePlace t, paneSlot_eq_id hid, he⟩

theorem separate_replaceIdentityAliases :
    (store.replaceIdentityAliases legacyWindows legacyPanes windowAliases paneAliases).Separate where
  window target windowId hali := by
    by_contra hne
    obtain ⟨bindings, hlk⟩ := ne_none_iff_exists'.mp hne
    have hid := (lookup_adoptLegacy_fst windowAliases.lookup hlk).1
    exact absurd (hid.symm.trans hali) (by simp)
  pane target paneId hali := by
    by_contra hne
    obtain ⟨bindings, hlk⟩ := ne_none_iff_exists'.mp hne
    exact absurd ((lookup_adoptLegacy_fst _ hlk).1.symm.trans hali) (by simp)

end Aliases

/-! ## Entries by position -/

abbrev HookPosition := HookSlot × HookName × ArrayIndex

def entryAt (store : HookStore) (position : HookPosition) : Option RegisteredHook :=
  (store.entriesAt position.1 position.2.1).get? position.2.2

variable {store' : HookStore} {slot : HookSlot} {entries : HookEntries} {position : HookPosition}
  {e : RegisteredHook} {calls : ℕ}

theorem Rewrites.entryAt_eq (h : Rewrites store store' slot hook entries)
    (position : HookPosition) : store'.entryAt position = if position.1 = slot ∧ position.2.1 = hook
      then entries.get? position.2.2 else store.entryAt position := by
  rw [entryAt, entryAt]
  split_ifs with hpos
  · rw [hpos.1, hpos.2, h.here]
  · rw [h.elsewhere _ _ hpos]

/-- Entries only go. -/
def Shrinks (store store' : HookStore) : Prop :=
  ∀ position e, store'.entryAt position = some e → store.entryAt position = some e

theorem Rewrites.shrinks (h : Rewrites store store' slot hook entries)
    (hents : ∀ index e, entries.get? index = some e →
      (store.entriesAt slot hook).get? index = some e) : Shrinks store store' := by
  rintro ⟨slot', hook', index⟩ e he
  rw [h.entryAt_eq] at he
  split_ifs at he with hpos
  · obtain ⟨rfl, rfl⟩ := hpos
    exact hents index e he
  · exact he

theorem Rewrites.shrinks_unset {index : Option ArrayIndex}
    (h : Rewrites store store' slot hook ((store.entriesAt slot hook).unset index)) :
    Shrinks store store' :=
  h.shrinks fun i e he => by
    rw [get?_unset] at he
    split_ifs at he
    exact he

theorem Takes.shrinks (h : Takes store r slot hook) : Shrinks store r.2 :=
  h.rewrites.shrinks fun i e he => by
    rw [get?_dispatch] at he
    exact (filter_eq_some_iff.mp he).1

/-- Entries go, and at most one comes. -/
def Adds (store store' : HookStore) (registered : RegisteredHook) : Prop :=
  ∃ place, ∀ position e, store'.entryAt position = some e →
    store.entryAt position = some e ∨ e = registered ∧ position = place

theorem Rewrites.adds {o : HookSetOptions}
    (h : Rewrites store store' slot hook ((store.entriesAt slot hook).set registered o)) :
    Adds store store' registered := by
  refine ⟨(slot, hook, (HookArray.set ⟨store.entriesAt slot hook⟩ registered o).1), ?_⟩
  rintro ⟨slot', hook', index⟩ e he
  rw [h.entryAt_eq] at he
  split_ifs at he with hpos
  · obtain ⟨rfl, rfl⟩ := hpos
    exact (get?_set he).imp id fun hnew =>
      ⟨hnew.1, Prod.ext rfl (Prod.ext rfl hnew.2)⟩
  · exact .inl he

/-- What a dispatch returns is in the store. -/
theorem Takes.entryAt (h : Takes store r slot hook) (he : e ∈ r.1) :
    ∃ index, store.entryAt (slot, hook, index) = some e := by
  rw [h.returned] at he
  exact mem_values.mp he

/-! ## Stores that are reached -/

/-- The store after some calls, with the number of calls that set an entry. -/
inductive Reached : HookStore → ℕ → Prop
  | new : Reached new 0
  | setWithOptions {store : HookStore} {calls : ℕ} (scope : ScopeSelector) (hook : HookName)
    (command : Text) (lifecycle : HookLifecycle) (options : HookSetOptions)
    (h : Reached store calls) :
    Reached (store.setWithOptions scope hook ⟨command, lifecycle, calls⟩ options).2 (calls + 1)
  | setWithIdentity {store : HookStore} {calls : ℕ} (scope : HookScopeIdentity) (hook : HookName)
    (command : Text) (lifecycle : HookLifecycle) (options : HookSetOptions)
    (h : Reached store calls) :
    Reached (store.setWithIdentity scope hook ⟨command, lifecycle, calls⟩ options).2 (calls + 1)
  | unset {store : HookStore} {calls : ℕ} (scope : ScopeSelector) (hook : HookName)
    (index : Option ArrayIndex) (h : Reached store calls) :
    Reached (store.unset scope hook index) calls
  | unsetWithIdentity {store : HookStore} {calls : ℕ} (scope : HookScopeIdentity)
    (hook : HookName) (index : Option ArrayIndex) (h : Reached store calls) :
    Reached (store.unsetWithIdentity scope hook index) calls
  | replaceIdentityAliases {store : HookStore} {calls : ℕ}
    {legacyWindows : List (WindowTarget × HookBindings)}
    {legacyPanes : List (PaneTarget × HookBindings)}
    (windowAliases : AList fun _ : WindowTarget => WindowId)
    (paneAliases : AList fun _ : PaneTarget => WindowId × PaneId)
    (hwindows : Lists legacyWindows store.windows) (hpanes : Lists legacyPanes store.panes)
    (h : Reached store calls) :
    Reached (store.replaceIdentityAliases legacyWindows legacyPanes windowAliases paneAliases) calls
  | dispatch {store : HookStore} {calls : ℕ} (scope : ScopeSelector) (hook : HookName)
    (h : Reached store calls) : Reached (store.dispatch scope hook).2 calls
  | dispatchWithIdentity {store : HookStore} {calls : ℕ} (identity : HookScopeIdentity)
    (hook : HookName) (h : Reached store calls) :
    Reached (store.dispatchWithIdentity identity hook).2 calls
  | dispatchWithIdentityOrScope {store : HookStore} {calls : ℕ} (identity : HookScopeIdentity)
    (scope : ScopeSelector) (hook : HookName) (h : Reached store calls) :
    Reached (store.dispatchWithIdentityOrScope identity scope hook).2 calls

/-- Each call that set an entry has one place at most. -/
structure Numbered (store : HookStore) (calls : ℕ) : Prop where
  separate : store.Separate
  below : ∀ position e, store.entryAt position = some e → e.call < calls
  unique : ∀ position position' e e', store.entryAt position = some e →
    store.entryAt position' = some e' → e.call = e'.call → position = position'

theorem Numbered.shrinks (h : Numbered store calls) (hshr : Shrinks store store')
    (hsep : store'.Separate) : Numbered store' calls where
  separate := hsep
  below position e he := h.below position e (hshr position e he)
  unique position position' e e' he he' :=
    h.unique position position' e e' (hshr position e he) (hshr position' e' he')

theorem Numbered.adds (h : Numbered store calls) (hc : registered.call = calls)
    (hadds : Adds store store' registered) (hsep : store'.Separate) :
    Numbered store' (calls + 1) := by
  obtain ⟨place, hadds⟩ := hadds
  refine ⟨hsep, fun position e he => ?_, fun position position' e e' he he' heq => ?_⟩
  · obtain he | ⟨rfl, -⟩ := hadds position e he
    · exact Nat.lt_succ_of_lt (h.below position e he)
    · exact hc ▸ Nat.lt_succ_self _
  · -- an old entry has a smaller number than the new one
    obtain he | ⟨rfl, rfl⟩ := hadds position e he <;>
      obtain he' | ⟨rfl, rfl⟩ := hadds position' e' he'
    · exact h.unique position position' e e' he he' heq
    · exact absurd (h.below position e he) (by omega)
    · exact absurd (h.below position' e' he') (by omega)
    · rfl

theorem Numbered.set (h : Numbered store calls) {o : HookSetOptions}
    (hset : Rewrites store store' slot hook ((store.entriesAt slot hook).set registered o))
    (hc : registered.call = calls) : Numbered store' (calls + 1) :=
  h.adds hc hset.adds (hset.separate h.separate)

theorem Numbered.unset (h : Numbered store calls) {index : Option ArrayIndex}
    (hunset : Rewrites store store' slot hook ((store.entriesAt slot hook).unset index)) :
    Numbered store' calls :=
  h.shrinks hunset.shrinks_unset (hunset.separate h.separate)

theorem takes_dispatchWithIdentityOrScope (hsep : store.Separate) (identity : HookScopeIdentity)
    (scope : ScopeSelector) (hook : HookName) :
    ∃ slot, Takes store (store.dispatchWithIdentityOrScope identity scope hook) slot hook := by
  rw [dispatchWithIdentityOrScope]
  split_ifs
  · exact ⟨_, takes_dispatchWithIdentity identity hook⟩
  · exact ⟨_, takes_dispatch hsep scope hook⟩
  · exact ⟨_, takes_dispatchWithIdentity identity hook⟩

theorem Numbered.takes (h : Numbered store calls) (htk : Takes store r slot hook) :
    Numbered r.2 calls :=
  h.shrinks htk.shrinks (htk.rewrites.separate h.separate)

theorem Numbered.replaceIdentityAliases (h : Numbered store calls)
    {legacyWindows : List (WindowTarget × HookBindings)}
    {legacyPanes : List (PaneTarget × HookBindings)} (hws : Lists legacyWindows store.windows)
    (hps : Lists legacyPanes store.panes) (windowAliases : AList fun _ : WindowTarget => WindowId)
    (paneAliases : AList fun _ : PaneTarget => WindowId × PaneId) :
    Numbered (store.replaceIdentityAliases legacyWindows legacyPanes windowAliases paneAliases)
      calls where
  separate := separate_replaceIdentityAliases
  below := by
    rintro ⟨slot, hook, index⟩ e he
    obtain ⟨old, -, he⟩ := exists_of_replaceIdentityAliases hws hps he
    exact h.below (old, hook, index) e he
  unique := by
    rintro ⟨slot, hook, index⟩ ⟨slot', hook', index'⟩ e e' he he' heq
    obtain ⟨old, hold, he⟩ := exists_of_replaceIdentityAliases hws hps he
    obtain ⟨old', hold', he'⟩ := exists_of_replaceIdentityAliases hws hps he'
    have hsm := h.unique (old, hook, index) (old', hook', index') e e' he he' heq
    rw [Prod.mk.injEq] at hsm ⊢
    exact ⟨hold.symm.trans ((congrArg _ hsm.1).trans hold'), hsm.2⟩

theorem Reached.numbered (h : Reached store calls) : Numbered store calls := by
  induction h with
  | new =>
    have hn (position : HookPosition) : HookStore.new.entryAt position = none := by
      obtain ⟨slot, hook, index⟩ := position
      cases slot with
      | root root => cases root <;> rfl
      | _ => rfl
    exact ⟨⟨nofun, nofun⟩, fun position e he => by simp [hn] at he,
      fun position _ e _ he => by simp [hn] at he⟩
  | setWithOptions scope hook command lifecycle options h ih =>
    exact ih.set (setWithOptions_rewrites scope _ options) rfl
  | setWithIdentity scope hook command lifecycle options h ih =>
    exact ih.set (setWithIdentity_rewrites scope _ options) rfl
  | unset scope hook index h ih => exact ih.unset (unset_rewrites scope index)
  | unsetWithIdentity scope hook index h ih =>
    exact ih.unset (unsetWithIdentity_rewrites scope index)
  | replaceIdentityAliases windowAliases paneAliases hws hps h ih =>
    exact ih.replaceIdentityAliases hws hps windowAliases paneAliases
  | dispatch scope hook h ih => exact ih.takes (takes_dispatch ih.separate scope hook)
  | dispatchWithIdentity identity hook h ih =>
    exact ih.takes (takes_dispatchWithIdentity identity hook)
  | dispatchWithIdentityOrScope identity scope hook h ih =>
    obtain ⟨slot, htk⟩ := takes_dispatchWithIdentityOrScope ih.separate identity scope hook
    exact ih.takes htk

end HookStore

end Rmux
