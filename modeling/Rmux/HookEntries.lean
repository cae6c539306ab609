import Rmux.Hooks

/-!
# What a hook store holds

A store is known by the array it holds for each hook at each slot (`HookStore.entriesAt`). A scope
has one slot in a store (`HookStore.slotOf`) because hooks kept by place and aliases have no target
in common (`HookStore.Separate`). Every operation rewrites the array of one slot and one hook
(`HookStore.Rewrites`) : for a dispatch the slot is the first of a chain that has the hook
(`dispatchChain_spec`).
-/

namespace Rmux

open List Option HookScopes

abbrev HookEntries := OrderedMap ArrayIndex RegisteredHook

/-! ## Arrays -/

namespace HookArray

variable {array : HookArray}

theorem mem_oneShotIndices {i : ArrayIndex} : i ∈ array.oneShotIndices ↔
      ∃ e, array.entries.get? i = some e ∧ e.lifecycle = .oneShot := by
  simp only [oneShotIndices, mem_filterMap, ite_none_right_eq_some, some.injEq,
    OrderedMap.get?_eq_some_iff]
  constructor
  · rintro ⟨⟨_, e⟩, he, hlf, rfl⟩
    exact ⟨e, he, hlf⟩
  · rintro ⟨e, he, hlf⟩
    exact ⟨(i, e), he, hlf, rfl⟩

theorem command_isSome : array.command.isSome ↔ array.entries ≠ ∅ := by
  obtain ⟨⟨entries, hsrt⟩⟩ := array
  cases entries with
  | nil => simp [command]; rfl
  | cons e entries => simp [command, EmptyCollection.emptyCollection, OrderedMap.empty]

theorem entries_of_isEmpty (h : array.isEmpty) : array.entries = ∅ := by
  obtain ⟨⟨entries, hsrt⟩⟩ := array
  cases entries with
  | nil => rfl
  | cons e entries => simp [isEmpty] at h

/-- A dispatch leaves the entries that are not one-shot. -/
theorem get?_dispatch (array : HookArray) (i : ArrayIndex) :
    array.dispatch.2.entries.get? i =
      (array.entries.get? i).filter fun e => e.lifecycle ≠ .oneShot := by
  simp only [dispatch, OrderedMap.get?_foldl_erase, mem_oneShotIndices]
  cases h : array.entries.get? i with
  | none => simp
  | some e => by_cases hlf : e.lifecycle = .oneShot <;> simp [hlf, Option.filter]

end HookArray

namespace HookEntries

variable {entries : HookEntries}

/-- The array after an operation on it. -/
def set (entries : HookEntries) (registered : RegisteredHook) (options : HookSetOptions) :
    HookEntries := (HookArray.set ⟨entries⟩ registered options).2.entries

def unset (entries : HookEntries) (index : Option ArrayIndex) : HookEntries :=
  (HookArray.unset ⟨entries⟩ index).entries

def dispatch (entries : HookEntries) : HookEntries := (HookArray.dispatch ⟨entries⟩).2.entries

def values (entries : HookEntries) : List HookDispatch := entries.entries.map Prod.snd

theorem values_eq_nil : values entries = [] ↔ entries = ∅ := by
  obtain ⟨entries, hsrt⟩ := entries
  cases entries with
  | nil => exact ⟨fun _ => rfl, fun _ => rfl⟩
  | cons e entries => simp [values, EmptyCollection.emptyCollection, OrderedMap.empty]

theorem mem_values {e : HookDispatch} :
    e ∈ values entries ↔ ∃ i, entries.get? i = some e := by
  simp only [values, List.mem_map, OrderedMap.get?_eq_some_iff, Prod.exists, exists_eq_right]

theorem get?_dispatch (entries : HookEntries) (i : ArrayIndex) : (dispatch entries).get? i =
      (entries.get? i).filter fun e => e.lifecycle ≠ .oneShot :=
  HookArray.get?_dispatch ⟨entries⟩ i

theorem get?_unset (entries : HookEntries) (index : Option ArrayIndex) (i : ArrayIndex) :
    (unset entries index).get? i =
      if index = none ∨ index = some i then none else entries.get? i := by
  cases index with
  | none => simp [unset, HookArray.unset]
  | some index => simp [unset, HookArray.unset, OrderedMap.get?_erase, eq_comm]

@[simp] theorem dispatch_empty : dispatch ∅ = ∅ := rfl

@[simp] theorem unset_empty (index : Option ArrayIndex) : unset ∅ index = ∅ :=
  OrderedMap.ext_get? fun i => by rw [get?_unset]; simp

/-- What an array holds after a set was there, or is the entry that was set. -/
theorem get?_set {registered e : RegisteredHook} {o : HookSetOptions} {index : ArrayIndex}
    (h : (set entries registered o).get? index = some e) : entries.get? index = some e ∨
      e = registered ∧ index = (HookArray.set ⟨entries⟩ registered o).1 := by
  obtain ⟨append, place⟩ := o
  have hins (m : HookEntries) (i : ArrayIndex) (h : (m.insert i registered).get? index = some e) :
      m.get? index = some e ∨ e = registered ∧ index = i := by
    rw [OrderedMap.get?_insert] at h
    split_ifs at h with hi
    · exact .inr ⟨(some.inj h).symm, hi⟩
    · exact .inl h
  cases append <;> cases place
  · refine .inr ?_
    rcases hins ∅ 0 h with h | h
    · simp at h
    · exact h
  all_goals exact hins entries _ h

end HookEntries

/-! ## Bindings -/

namespace HookBindings

variable {bindings : HookBindings} {hook hook' : HookName}

def entriesOf (bindings : HookBindings) (hook : HookName) : HookEntries :=
  ((bindings.hooks.lookup hook).map HookArray.entries).getD ∅

@[simp] theorem entriesOf_empty (hook : HookName) : empty.entriesOf hook = ∅ := rfl

theorem eq_empty_of_isEmpty (h : bindings.isEmpty) : bindings = empty := by
  obtain ⟨⟨entries, hnd⟩⟩ := bindings
  cases entries with
  | nil => rfl
  | cons e entries => simp [isEmpty] at h

theorem entriesOf_eq {array : HookArray} (h : bindings.hooks.lookup hook = some array) :
    bindings.entriesOf hook = array.entries := by rw [entriesOf, h]; rfl

theorem entriesOf_eq_empty (h : bindings.hooks.lookup hook = none) :
    bindings.entriesOf hook = ∅ := by rw [entriesOf, h]; rfl

theorem entriesOf_insert (array : HookArray) : entriesOf ⟨bindings.hooks.insert hook array⟩ hook' =
      if hook' = hook then array.entries else bindings.entriesOf hook' := by
  by_cases h : hook' = hook
  · subst h
    rw [if_pos rfl, entriesOf, AList.lookup_insert]; rfl
  · rw [if_neg h, entriesOf, AList.lookup_insert_ne h, entriesOf]

theorem entriesOf_store (array : HookArray) : (bindings.store hook array).entriesOf hook' =
      if hook' = hook then array.entries else bindings.entriesOf hook' := by
  rw [store]
  split_ifs with hemp h h
  · subst h
    rw [entriesOf, AList.lookup_erase, HookArray.entries_of_isEmpty hemp]; rfl
  · rw [entriesOf, AList.lookup_erase_ne h, entriesOf]
  · rw [entriesOf_insert, if_pos h]
  · rw [entriesOf_insert, if_neg h]

theorem entriesOf_set (registered : RegisteredHook) (o : HookSetOptions) :
    (bindings.set hook registered o).2.entriesOf hook' =
      if hook' = hook then (bindings.entriesOf hook).set registered o
      else bindings.entriesOf hook' := by
  rw [set, entriesOf_insert]
  congr 1
  cases h : bindings.hooks.lookup hook with
  | none => rw [entriesOf_eq_empty h]; rfl
  | some array => rw [entriesOf_eq h]; rfl

theorem entriesOf_unset (i : Option ArrayIndex) : (bindings.unset hook i).entriesOf hook' =
      if hook' = hook then (bindings.entriesOf hook).unset i
      else bindings.entriesOf hook' := by
  rw [unset]
  cases h : bindings.hooks.lookup hook with
  | none =>
    split_ifs with heq
    · rw [heq, entriesOf_eq_empty h, HookEntries.unset_empty]
    · rfl
  | some array => rw [entriesOf_store, entriesOf_eq h]; rfl

theorem dispatch_fst : (bindings.dispatch hook).1 = (bindings.entriesOf hook).values := by
  rw [dispatch]
  cases h : bindings.hooks.lookup hook with
  | none => rw [entriesOf_eq_empty h]; rfl
  | some array => rw [entriesOf_eq h]; rfl

theorem entriesOf_dispatch : (bindings.dispatch hook).2.entriesOf hook' =
      if hook' = hook then (bindings.entriesOf hook).dispatch else bindings.entriesOf hook' := by
  rw [dispatch]
  cases h : bindings.hooks.lookup hook with
  | none =>
    split_ifs with heq
    · rw [heq, entriesOf_eq_empty h, HookEntries.dispatch_empty]
    · rfl
  | some array => rw [entriesOf_store, entriesOf_eq h]; rfl

theorem command_isSome : (bindings.command hook).isSome ↔ bindings.entriesOf hook ≠ ∅ := by
  rw [command]
  cases h : bindings.hooks.lookup hook with
  | none => simp [entriesOf_eq_empty h]
  | some array => rw [entriesOf_eq h]; exact HookArray.command_isSome

theorem oneShotIndices_eq :
    bindings.oneShotIndices hook = HookArray.oneShotIndices ⟨bindings.entriesOf hook⟩ := by
  rw [oneShotIndices]
  cases h : bindings.hooks.lookup hook with
  | none => rw [entriesOf_eq_empty h]; rfl
  | some array => rw [entriesOf_eq h]

end HookBindings

/-! ## Bindings by key -/

namespace HookScopes

variable {K : Type} [DecidableEq K] {scopes : HookScopes K} {key key' : K} {hook hook' : HookName}
  (bindings : HookBindings)

def bindingsOf (scopes : HookScopes K) (key : K) : HookBindings := (scopes.lookup key).getD .empty

theorem bindingsOf_eq {bindings : HookBindings} (h : scopes.lookup key = some bindings) :
    scopes.bindingsOf key = bindings := by rw [bindingsOf, h]; rfl

theorem bindingsOf_eq_empty (h : scopes.lookup key = none) : scopes.bindingsOf key = .empty := by
  rw [bindingsOf, h]; rfl

theorem bindingsOf_insert : bindingsOf (scopes.insert key bindings) key' =
      if key' = key then bindings else scopes.bindingsOf key' := by
  by_cases h : key' = key
  · subst h
    rw [if_pos rfl, bindingsOf, AList.lookup_insert]; rfl
  · rw [if_neg h, bindingsOf, AList.lookup_insert_ne h, bindingsOf]

theorem bindingsOf_store : (scopes.store key bindings).bindingsOf key' =
      if key' = key then bindings else scopes.bindingsOf key' := by
  rw [store]
  split_ifs with hemp h h
  · subst h
    rw [bindingsOf, AList.lookup_erase, HookBindings.eq_empty_of_isEmpty hemp]; rfl
  · rw [bindingsOf, AList.lookup_erase_ne h, bindingsOf]
  · rw [bindingsOf_insert, if_pos h]
  · rw [bindingsOf_insert, if_neg h]

theorem lookup_store_eq_none (h : key' ≠ key) (hn : scopes.lookup key' = none) :
    (scopes.store key bindings).lookup key' = none := by
  rw [store]
  split_ifs
  · rw [AList.lookup_erase_ne h, hn]
  · rw [AList.lookup_insert_ne h, hn]

/-- The array of one key and one hook is replaced, and no bindings come where there were none. -/
structure Rewrites (scopes scopes' : HookScopes K) (key : K) (hook : HookName)
    (entries : HookEntries) : Prop where
  here : (scopes'.bindingsOf key).entriesOf hook = entries
  elsewhere : ∀ key' hook', ¬ (key' = key ∧ hook' = hook) →
    (scopes'.bindingsOf key').entriesOf hook' = (scopes.bindingsOf key').entriesOf hook'
  absent : ∀ key', key' ≠ key → scopes.lookup key' = none → scopes'.lookup key' = none

theorem Rewrites.refl (scopes : HookScopes K) (key : K) (hook : HookName) :
    Rewrites scopes scopes key hook ((scopes.bindingsOf key).entriesOf hook) :=
  ⟨rfl, fun _ _ _ => rfl, fun _ _ h => h⟩

theorem rewrites_store {bindings : HookBindings} {entries : HookEntries}
    (h : ∀ hook', bindings.entriesOf hook' =
      if hook' = hook then entries else (scopes.bindingsOf key).entriesOf hook') :
    Rewrites scopes (scopes.store key bindings) key hook entries where
  here := by rw [bindingsOf_store, if_pos rfl, h, if_pos rfl]
  elsewhere key' hook' hne := by
    rw [bindingsOf_store]
    split_ifs with hkey
    · subst hkey
      rw [h, if_neg fun heq => hne ⟨rfl, heq⟩]
    · rfl
  absent key' hne hn := lookup_store_eq_none bindings hne hn

theorem rewrites_unset (i : Option ArrayIndex) :
    Rewrites scopes (scopes.unset key hook i) key hook
      (((scopes.bindingsOf key).entriesOf hook).unset i) := by
  rw [unset]
  cases h : scopes.lookup key with
  | none =>
    have hrefl := Rewrites.refl scopes key hook
    rw [bindingsOf_eq_empty h, HookBindings.entriesOf_empty] at hrefl ⊢
    rwa [HookEntries.unset_empty]
  | some bindings =>
    refine rewrites_store fun hook' => ?_
    rw [bindingsOf_eq h, HookBindings.entriesOf_unset]

theorem dispatch_fst : (scopes.dispatch key hook).1 = ((scopes.bindingsOf key).entriesOf hook).values := by
  rw [dispatch]
  cases h : scopes.lookup key with
  | none => rw [bindingsOf_eq_empty h]; rfl
  | some bindings => rw [bindingsOf_eq h]; exact HookBindings.dispatch_fst

theorem rewrites_dispatch : Rewrites scopes (scopes.dispatch key hook).2 key hook
      ((scopes.bindingsOf key).entriesOf hook).dispatch := by
  rw [dispatch]
  cases h : scopes.lookup key with
  | none =>
    have hrefl := Rewrites.refl scopes key hook
    rw [bindingsOf_eq_empty h] at hrefl ⊢
    exact hrefl
  | some bindings =>
    refine rewrites_store fun hook' => ?_
    rw [bindingsOf_eq h, HookBindings.entriesOf_dispatch]

theorem rewrites_set (registered : RegisteredHook) (o : HookSetOptions) :
    Rewrites scopes (scopes.set key hook registered o).2 key hook
      (((scopes.bindingsOf key).entriesOf hook).set registered o) where
  here := by rw [set, bindingsOf_insert, if_pos rfl, HookBindings.entriesOf_set, if_pos rfl]; rfl
  elsewhere key' hook' hne := by
    rw [set, bindingsOf_insert]
    split_ifs with hkey
    · subst hkey
      rw [HookBindings.entriesOf_set, if_neg fun heq => hne ⟨rfl, heq⟩]; rfl
    · rfl
  absent key' hne hn := by rw [set, AList.lookup_insert_ne hne, hn]

theorem command_isSome :
    (scopes.command key hook).isSome ↔ (scopes.bindingsOf key).entriesOf hook ≠ ∅ := by
  rw [command]
  cases h : scopes.lookup key with
  | none => simp [bindingsOf_eq_empty h]
  | some bindings => rw [bindingsOf_eq h]; exact HookBindings.command_isSome

theorem oneShotIndices_eq : scopes.oneShotIndices key hook =
      HookArray.oneShotIndices ⟨(scopes.bindingsOf key).entriesOf hook⟩ := by
  rw [oneShotIndices]
  cases h : scopes.lookup key with
  | none => rw [bindingsOf_eq_empty h]; rfl
  | some bindings => rw [bindingsOf_eq h]; exact HookBindings.oneShotIndices_eq

end HookScopes

/-! ## Slots -/

/-- The key under which a store keeps bindings. -/
inductive HookSlot
  | root (root : HookGlobalRoot)
  | session (name : SessionName)
  | windowPlace (target : WindowTarget)
  | panePlace (target : PaneTarget)
  | window (windowId : WindowId)
  | pane (paneId : PaneId)
deriving DecidableEq

namespace HookStore

variable {st st' st'' : HookStore} {slot slot' : HookSlot} {hook hook' : HookName}
  {entries : HookEntries} {target : WindowTarget} (scope : HookScopeIdentity)

def bindingsAt (store : HookStore) : HookSlot → HookBindings
  | .root root => store.globalBindings root
  | .session name => store.sessions.bindingsOf name
  | .windowPlace target => store.windows.bindingsOf target
  | .panePlace target => store.panes.bindingsOf target
  | .window windowId => store.windowsById.bindingsOf windowId
  | .pane paneId => store.panesById.bindingsOf paneId

def entriesAt (store : HookStore) (slot : HookSlot) (hook : HookName) : HookEntries :=
  (store.bindingsAt slot).entriesOf hook

def windowSlot (store : HookStore) (target : WindowTarget) : HookSlot :=
  match store.windowAliases.lookup target with
  | some windowId => .window windowId
  | none => .windowPlace target

def paneSlot (store : HookStore) (target : PaneTarget) : HookSlot :=
  match store.paneIdAt target with
  | some paneId => .pane paneId
  | none => .panePlace target

theorem windowSlot_eq_place (h : st.windowAliases.lookup target = none) :
    st.windowSlot target = .windowPlace target := by rw [windowSlot, h]

theorem windowSlot_eq_id {windowId : WindowId}
    (h : st.windowAliases.lookup target = some windowId) :
    st.windowSlot target = .window windowId := by rw [windowSlot, h]

theorem paneSlot_eq_place {target : PaneTarget} (h : st.paneIdAt target = none) :
    st.paneSlot target = .panePlace target := by rw [paneSlot, h]

theorem paneSlot_eq_id {target : PaneTarget} {paneId : PaneId}
    (h : st.paneIdAt target = some paneId) : st.paneSlot target = .pane paneId := by
  rw [paneSlot, h]

def slotOf (store : HookStore) (hook : HookName) : ScopeSelector → HookSlot
  | .global => .root (rootForHook hook)
  | .session name => .session name
  | .window target => store.windowSlot target
  | .pane target => store.paneSlot target

def identitySlot (hook : HookName) : HookScopeIdentity → HookSlot
  | .global => .root (rootForHook hook)
  | .session name => .session name
  | .window _ windowId => .window windowId
  | .pane _ _ paneId => .pane paneId

/-- No window or pane that has an identity has hooks under its place. -/
structure Separate (store : HookStore) : Prop where
  window : ∀ target windowId, store.windowAliases.lookup target = some windowId →
    store.windows.lookup target = none
  pane : ∀ target paneId, store.paneIdAt target = some paneId → store.panes.lookup target = none

/-! ## Rewriting one array -/

/-- The array of one slot and one hook is replaced. The aliases stay, and so does that they have no
target in common with the hooks kept by place. -/
structure Rewrites (store store' : HookStore) (slot : HookSlot) (hook : HookName)
    (entries : HookEntries) : Prop where
  here : store'.entriesAt slot hook = entries
  elsewhere : ∀ slot' hook', ¬ (slot' = slot ∧ hook' = hook) →
    store'.entriesAt slot' hook' = store.entriesAt slot' hook'
  windowAliases : store'.windowAliases = store.windowAliases
  paneAliases : store'.paneAliases = store.paneAliases
  separate : store.Separate → store'.Separate

/-- An operation on bindings, and on bindings by key, that rewrites the array of a hook. -/
structure Changes (hook : HookName) (bound : HookBindings → HookBindings)
    (keyed : ∀ {K : Type} [DecidableEq K], HookScopes K → K → HookScopes K)
    (entries : HookEntries → HookEntries) : Prop where
  bound : ∀ bindings hook', (bound bindings).entriesOf hook' =
    if hook' = hook then entries (bindings.entriesOf hook) else bindings.entriesOf hook'
  keyed : ∀ {K : Type} [DecidableEq K] (scopes : HookScopes K) (key : K),
    scopes.Rewrites (keyed scopes key) key hook (entries ((scopes.bindingsOf key).entriesOf hook))

/-- The operation at one slot. -/
def atSlot (store : HookStore) (bound : HookBindings → HookBindings)
    (keyed : ∀ {K : Type} [DecidableEq K], HookScopes K → K → HookScopes K) :
    HookSlot → HookStore
  | .root root => store.setGlobalBindings (bound (store.globalBindings root)) root
  | .session name => { store with sessions := keyed store.sessions name }
  | .windowPlace target => { store with windows := keyed store.windows target }
  | .panePlace target => { store with panes := keyed store.panes target }
  | .window windowId => { store with windowsById := keyed store.windowsById windowId }
  | .pane paneId => { store with panesById := keyed store.panesById paneId }

/-- A place has no identity. -/
def Unaliased (store : HookStore) : HookSlot → Prop
  | .windowPlace target => store.windowAliases.lookup target = none
  | .panePlace target => store.paneIdAt target = none
  | _ => True

section Changes

variable {bound : HookBindings → HookBindings}
  {keyed : ∀ {K : Type} [DecidableEq K], HookScopes K → K → HookScopes K}
  {entries : HookEntries → HookEntries} (h : Changes hook bound keyed entries)

include h

theorem Changes.here (slot : HookSlot) :
    (st.atSlot bound keyed slot).entriesAt slot hook = entries (st.entriesAt slot hook) := by
  cases slot with
  | root root => cases root <;> exact (h.bound _ hook).trans (if_pos rfl)
  | _ => exact (h.keyed _ _).here

theorem Changes.elsewhere (hne : ¬ (slot' = slot ∧ hook' = hook)) :
    (st.atSlot bound keyed slot).entriesAt slot' hook' = st.entriesAt slot' hook' := by
  by_cases hsl : slot' = slot
  · subst hsl
    have hhook : ¬ hook' = hook := fun heq => hne ⟨rfl, heq⟩
    cases slot' with
    | root root => cases root <;> exact (h.bound _ hook').trans (if_neg hhook)
    | _ => exact (h.keyed _ _).elsewhere _ hook' fun heq => hhook heq.2
  · -- another key of the same map, or another map
    cases slot <;> cases slot' <;>
      first
      | rfl
      | exact (h.keyed _ _).elsewhere _ hook' fun heq => hsl (by rw [heq.1])
      | (rename_i root root'; cases root <;> cases root' <;> first | rfl | exact absurd rfl hsl)

theorem Changes.rewrites (slot : HookSlot) (hsl : st.Unaliased slot) :
    Rewrites st (st.atSlot bound keyed slot) slot hook
      (entries (st.entriesAt slot hook)) where
  here := h.here slot
  elsewhere _ _ hne := h.elsewhere hne
  windowAliases := by rcases slot with (_ | _) | _ | _ | _ | _ | _ <;> rfl
  paneAliases := by rcases slot with (_ | _) | _ | _ | _ | _ | _ <;> rfl
  separate hsep := by
    cases slot with
    | root root => cases root <;> exact ⟨hsep.window, hsep.pane⟩
    | windowPlace target =>
      refine ⟨fun t id ht => (h.keyed _ _).absent t ?_ (hsep.window t id ht), hsep.pane⟩
      rintro rfl
      exact absurd (hsl.symm.trans ht) nofun
    | panePlace target =>
      refine ⟨hsep.window, fun t id ht => (h.keyed _ _).absent t ?_ (hsep.pane t id ht)⟩
      rintro rfl
      exact absurd (hsl.symm.trans ht) nofun
    | _ => exact ⟨hsep.window, hsep.pane⟩

end Changes

theorem changes_set (registered : RegisteredHook) (options : HookSetOptions) :
    Changes hook (fun bindings => (bindings.set hook registered options).2)
      (fun scopes key => (scopes.set key hook registered options).2)
      fun entries => entries.set registered options :=
  ⟨fun _ _ => HookBindings.entriesOf_set registered options,
    fun _ _ => HookScopes.rewrites_set registered options⟩

theorem changes_unset (index : Option ArrayIndex) :
    Changes hook (fun bindings => bindings.unset hook index)
      (fun scopes key => scopes.unset key hook index) fun entries => entries.unset index :=
  ⟨fun _ _ => HookBindings.entriesOf_unset index, fun _ _ => HookScopes.rewrites_unset index⟩

theorem changes_dispatch : Changes hook (fun bindings => (bindings.dispatch hook).2)
      (fun scopes key => (scopes.dispatch key hook).2) HookEntries.dispatch :=
  ⟨fun _ _ => HookBindings.entriesOf_dispatch, fun _ _ => HookScopes.rewrites_dispatch⟩

/-! ## Setting and unsetting -/

theorem unaliased_windowSlot (target : WindowTarget) :
    st.Unaliased (st.windowSlot target) := by
  rw [windowSlot]
  cases h : st.windowAliases.lookup target with
  | some windowId => trivial
  | none => exact h

theorem unaliased_paneSlot (target : PaneTarget) : st.Unaliased (st.paneSlot target) := by
  rw [paneSlot]
  cases h : st.paneIdAt target with
  | some p => trivial
  | none => exact h

theorem unaliased_slotOf (scope : ScopeSelector) : st.Unaliased (st.slotOf hook scope) := by
  cases scope with
  | window target => exact unaliased_windowSlot target
  | pane target => exact unaliased_paneSlot target
  | _ => trivial

theorem unaliased_identitySlot : st.Unaliased (identitySlot hook scope) := by
  cases scope <;> trivial

theorem setWithOptions_rewrites (scope : ScopeSelector) (registered : RegisteredHook)
    (o : HookSetOptions) :
    Rewrites st (st.setWithOptions scope hook registered o).2 (st.slotOf hook scope)
      hook ((st.entriesAt (st.slotOf hook scope) hook).set registered o) := by
  convert (changes_set registered o).rewrites _ (unaliased_slotOf scope) using 1
  cases scope with
  | window target =>
    rw [setWithOptions, slotOf, windowSlot]
    cases st.windowAliases.lookup target <;> rfl
  | pane target =>
    rw [setWithOptions, slotOf, paneSlot]
    cases st.paneIdAt target <;> rfl
  | _ => rfl

theorem setWithIdentity_rewrites (registered : RegisteredHook) (o : HookSetOptions) :
    Rewrites st (st.setWithIdentity scope hook registered o).2 (identitySlot hook scope)
      hook ((st.entriesAt (identitySlot hook scope) hook).set registered o) := by
  convert (changes_set registered o).rewrites _ (unaliased_identitySlot scope) using 1
  cases scope <;> rfl

theorem unset_rewrites (scope : ScopeSelector) (i : Option ArrayIndex) :
    Rewrites st (st.unset scope hook i) (st.slotOf hook scope) hook
      ((st.entriesAt (st.slotOf hook scope) hook).unset i) := by
  convert (changes_unset i).rewrites _ (unaliased_slotOf scope) using 1
  cases scope with
  | window target =>
    rw [unset, slotOf, windowSlot]
    cases st.windowAliases.lookup target <;> rfl
  | pane target =>
    rw [unset, slotOf, paneSlot]
    cases st.paneIdAt target <;> rfl
  | _ => rfl

theorem unsetWithIdentity_rewrites (i : Option ArrayIndex) :
    Rewrites st (st.unsetWithIdentity scope hook i) (identitySlot hook scope) hook
      ((st.entriesAt (identitySlot hook scope) hook).unset i) := by
  convert (changes_unset i).rewrites _ (unaliased_identitySlot scope) using 1
  cases scope <;> rfl

/-! ## Dispatching -/

/-- The first slot of a chain with the hook, else the global root. -/
def firstBound (store : HookStore) (hook : HookName) : List HookSlot → HookSlot
  | [] => .root (rootForHook hook)
  | slot :: slots =>
    if store.entriesAt slot hook = ∅ then store.firstBound hook slots else slot

/-- The result of a dispatch that takes the hook at `slot`. -/
structure Takes (store : HookStore) (result : List HookDispatch × HookStore) (slot : HookSlot)
    (hook : HookName) : Prop where
  returned : result.1 = (store.entriesAt slot hook).values
  rewrites : Rewrites store result.2 slot hook (store.entriesAt slot hook).dispatch

theorem Rewrites.same (h : Rewrites st st' slot hook (st.entriesAt slot hook))
    (slot' : HookSlot) (hook' : HookName) :
    st'.entriesAt slot' hook' = st.entriesAt slot' hook' := by
  by_cases heq : slot' = slot ∧ hook' = hook
  · rw [heq.1, heq.2, h.here]
  · exact h.elsewhere slot' hook' heq

theorem Rewrites.after_same (h : Rewrites st st' slot hook (st.entriesAt slot hook))
    (h' : Rewrites st' st'' slot' hook' entries) :
    Rewrites st st'' slot' hook' entries where
  here := h'.here
  elsewhere s k hne := (h'.elsewhere s k hne).trans (h.same s k)
  windowAliases := h'.windowAliases.trans h.windowAliases
  paneAliases := h'.paneAliases.trans h.paneAliases
  separate := h'.separate ∘ h.separate

theorem firstBound_congr
    (h : ∀ slot, st'.entriesAt slot hook = st.entriesAt slot hook) (slots : List HookSlot) :
    st'.firstBound hook slots = st.firstBound hook slots := by
  induction slots with
  | nil => rfl
  | cons slot slots ih => rw [firstBound, firstBound, h, ih]

/-- A dispatch goes on along the chain when it has found nothing. -/
theorem Takes.orElse {dispatches : List HookDispatch} {next : List HookDispatch × HookStore}
    {slots : List HookSlot} (h : Takes st (dispatches, st') slot hook)
    (hnx : Takes st' next (st'.firstBound hook slots) hook) :
    Takes st (if dispatches = [] then next else (dispatches, st'))
      (st.firstBound hook (slot :: slots)) hook := by
  rw [firstBound]
  have hret : dispatches = _ := h.returned
  by_cases hemp : st.entriesAt slot hook = ∅
  · rw [if_pos hemp, if_pos (by rw [hret]; exact HookEntries.values_eq_nil.mpr hemp)]
    have hrw := h.rewrites
    rw [hemp, HookEntries.dispatch_empty, ← hemp] at hrw
    rw [firstBound_congr fun s => hrw.same s hook] at hnx
    refine ⟨?_, ?_⟩
    · rw [hnx.returned, hrw.same]
    · have := hrw.after_same hnx.rewrites
      rwa [hrw.same] at this
  · rw [if_neg hemp, if_neg]
    · exact h
    · intro hnil
      exact hemp (HookEntries.values_eq_nil.mp (hret.symm.trans hnil))

theorem takes_global {root : HookGlobalRoot} (hrt : rootForHook hook = root) :
    Takes st (st.dispatchGlobal hook root) (st.firstBound hook []) hook := by
  subst hrt
  exact ⟨HookBindings.dispatch_fst, changes_dispatch.rewrites (.root _) trivial⟩

theorem erase_insert {K : Type} [DecidableEq K] (scopes : HookScopes K) (key : K)
    (bindings : HookBindings) : (scopes.insert key bindings).erase key = scopes.erase key :=
  AList.ext (kerase_cons_eq rfl)

/-- A place without an identity. -/
theorem dispatchPlace_none {K I : Type} [DecidableEq K] [DecidableEq I] (places : HookScopes K)
    (byId : HookScopes I) (target : K) : dispatchPlace places byId target none hook =
      ((places.dispatch target hook).1, (places.dispatch target hook).2, byId) := by
  rw [dispatchPlace, HookScopes.dispatch]
  cases places.lookup target with
  | none => rfl
  | some bindings =>
    simp only [store, erase_insert]
    split_ifs <;> rfl

/-- A place with an identity, and no hooks of its own. -/
theorem dispatchPlace_some {K I : Type} [DecidableEq K] [DecidableEq I] {places : HookScopes K}
    (byId : HookScopes I) {target : K} (id : I) (h : places.lookup target = none) :
    dispatchPlace places byId target (some id) hook =
      ((byId.dispatch id hook).1, places, (byId.dispatch id hook).2) := by
  rw [dispatchPlace, HookScopes.dispatch, h]
  cases byId.lookup id with
  | none => rfl
  | some bindings =>
    simp only [store, erase_insert]
    split_ifs <;> rfl

theorem takes_session (name : SessionName) : Takes st ((st.sessions.dispatch name hook).1,
      { st with sessions := (st.sessions.dispatch name hook).2 }) (.session name) hook :=
  ⟨HookScopes.dispatch_fst, changes_dispatch.rewrites (.session name) trivial⟩

theorem takes_windowId (windowId : WindowId) :
    Takes st ((st.windowsById.dispatch windowId hook).1,
      { st with windowsById := (st.windowsById.dispatch windowId hook).2 })
      (.window windowId) hook :=
  ⟨HookScopes.dispatch_fst, changes_dispatch.rewrites (.window windowId) trivial⟩

theorem takes_paneId (p : PaneId) : Takes st ((st.panesById.dispatch p hook).1,
      { st with panesById := (st.panesById.dispatch p hook).2 }) (.pane p) hook :=
  ⟨HookScopes.dispatch_fst, changes_dispatch.rewrites (.pane p) trivial⟩

theorem takes_window (hsep : st.Separate) (target : WindowTarget) : Takes st
      (let result := dispatchPlace st.windows st.windowsById target
        (st.windowAliases.lookup target) hook
       (result.1, { st with windows := result.2.1, windowsById := result.2.2 }))
      (st.windowSlot target) hook := by
  rw [windowSlot]
  cases h : st.windowAliases.lookup target with
  | none =>
    rw [dispatchPlace_none]
    exact ⟨HookScopes.dispatch_fst, changes_dispatch.rewrites (.windowPlace target) h⟩
  | some windowId =>
    rw [dispatchPlace_some _ _ (hsep.window target windowId h)]
    exact takes_windowId windowId

theorem takes_pane (hsep : st.Separate) (target : PaneTarget) : Takes st
      (let result := dispatchPlace st.panes st.panesById target (st.paneIdAt target) hook
       (result.1, { st with panes := result.2.1, panesById := result.2.2 }))
      (st.paneSlot target) hook := by
  rw [paneSlot]
  cases h : st.paneIdAt target with
  | none =>
    rw [dispatchPlace_none]
    exact ⟨HookScopes.dispatch_fst, changes_dispatch.rewrites (.panePlace target) h⟩
  | some p =>
    rw [dispatchPlace_some _ _ (hsep.pane target p h)]
    exact takes_paneId p

/-- The slots a dispatch looks at before the global root. -/
def chain (store : HookStore) (hook : HookName) (scope : ScopeSelector) : List HookSlot :=
  match hookClass hook with
  | .session => ((scopeSessionName scope).map .session).toList
  | .window => ((scopeWindowTarget scope).map store.windowSlot).toList
  | .pane =>
    match scope with
    | .pane target => [store.paneSlot target, store.windowSlot target.windowTarget]
    | .window target => [store.windowSlot target]
    | .global | .session _ => []

def identityChain (hook : HookName) (scope : HookScopeIdentity) : List HookSlot :=
  match hookClass hook with
  | .session => (scope.sessionName.map .session).toList
  | .window => ((identityWindowId scope).map .window).toList
  | .pane =>
    match scope with
    | .pane _ windowId paneId => [.pane paneId, .window windowId]
    | .window _ windowId => [.window windowId]
    | .global | .session _ => []

theorem takes_dispatchWindow (hsep : st.Separate) (hrt : rootForHook hook = .window)
    (scope : ScopeSelector) : Takes st (st.dispatchWindow scope hook)
      (st.firstBound hook ((scopeWindowTarget scope).map st.windowSlot).toList) hook := by
  rw [dispatchWindow]
  cases scopeWindowTarget scope with
  | none => exact takes_global hrt
  | some target => exact (takes_window hsep target).orElse (takes_global hrt)

theorem windowSlot_congr (h : st'.windowAliases = st.windowAliases) (target : WindowTarget) :
    st'.windowSlot target = st.windowSlot target := by
  rw [windowSlot, windowSlot, h]

theorem takes_dispatch (hsep : st.Separate) (scope : ScopeSelector) (hook : HookName) :
    Takes st (st.dispatch scope hook) (st.firstBound hook (st.chain hook scope))
      hook := by
  rw [dispatch, chain.eq_def]
  cases hcls : hookClass hook with
  | session =>
    have hrt : rootForHook hook = .session := by rw [rootForHook, hcls]
    simp only [dispatchSession]
    cases scopeSessionName scope with
    | none => exact takes_global hrt
    | some name => exact (takes_session name).orElse (takes_global hrt)
  | window => exact takes_dispatchWindow hsep (by rw [rootForHook, hcls]) scope
  | pane =>
    have hrt : rootForHook hook = .window := by rw [rootForHook, hcls]
    cases scope with
    | pane target =>
      have hp : Takes st _ (st.paneSlot target) hook := takes_pane hsep target
      refine hp.orElse ?_
      have hw := takes_dispatchWindow (hp.rewrites.separate hsep) hrt (.pane target)
      rwa [scopeWindowTarget, map_some, toList_some,
        windowSlot_congr hp.rewrites.windowAliases] at hw
    | window target => exact takes_dispatchWindow hsep hrt (.window target)
    | session name => exact takes_dispatchWindow hsep hrt (.session name)
    | global => exact takes_dispatchWindow hsep hrt .global

theorem takes_dispatchWithIdentity (hook : HookName) :
    Takes st (st.dispatchWithIdentity scope hook)
      (st.firstBound hook (identityChain hook scope)) hook := by
  have hw {st : HookStore} (hrt : rootForHook hook = .window) :
      Takes st (st.dispatchIdentityWindow scope hook)
        (st.firstBound hook ((identityWindowId scope).map .window).toList) hook := by
    rw [dispatchIdentityWindow]
    cases identityWindowId scope with
    | none => exact takes_global hrt
    | some windowId => exact (takes_windowId windowId).orElse (takes_global hrt)
  rw [dispatchWithIdentity, identityChain.eq_def]
  cases hcls : hookClass hook with
  | session =>
    have hrt : rootForHook hook = .session := by rw [rootForHook, hcls]
    simp only [dispatchIdentitySession]
    cases scope.sessionName with
    | none => exact takes_global hrt
    | some name => exact (takes_session name).orElse (takes_global hrt)
  | window => exact hw (by rw [rootForHook, hcls])
  | pane =>
    have hrt : rootForHook hook = .window := by rw [rootForHook, hcls]
    cases scope with
    | pane name windowId paneId => exact (takes_paneId paneId).orElse (hw hrt)
    | _ => exact hw hrt

/-! ## Resolving -/

/-- The slots the resolver of a deferred dispatch looks at before the global root. -/
def ownChain (store : HookStore) (hook : HookName) (scope : ScopeSelector) : List HookSlot :=
  ((localScope scope hook).map (store.slotOf hook)).toList

def identityOwnChain (hook : HookName) (scope : HookScopeIdentity) : List HookSlot :=
  (localIdentities scope hook).map (identitySlot hook)

theorem oneShotIndicesForExactScope_eq (hsep : st.Separate) (scope : ScopeSelector) :
    st.oneShotIndicesForExactScope scope hook =
      HookArray.oneShotIndices ⟨st.entriesAt (st.slotOf hook scope) hook⟩ := by
  cases scope with
  | global => exact HookBindings.oneShotIndices_eq
  | session name => exact HookScopes.oneShotIndices_eq
  | window target =>
    rw [oneShotIndicesForExactScope, slotOf, windowSlot]
    cases hali : st.windowAliases.lookup target with
    | some windowId =>
      rw [hsep.window target windowId hali]
      exact HookScopes.oneShotIndices_eq
    | none =>
      have hpl : st.windows.oneShotIndices target hook = _ := HookScopes.oneShotIndices_eq
      exact hpl
  | pane target =>
    rw [oneShotIndicesForExactScope, slotOf, paneSlot]
    cases hali : st.paneIdAt target with
    | some p =>
      rw [hsep.pane target p hali]
      exact HookScopes.oneShotIndices_eq
    | none =>
      have hpl : st.panes.oneShotIndices target hook = _ := HookScopes.oneShotIndices_eq
      exact hpl

theorem command_eq_none {K : Type} [DecidableEq K] {scopes : HookScopes K} {key : K}
    (h : scopes.lookup key = none) : scopes.command key hook = none := by
  rw [HookScopes.command, h]; rfl

theorem scopeHasBinding_iff (hsep : st.Separate) {scope : ScopeSelector} (h : scope ≠ .global) :
    st.scopeHasBinding scope hook ↔ st.entriesAt (st.slotOf hook scope) hook ≠ ∅ := by
  cases scope with
  | global => exact absurd rfl h
  | session name => exact HookScopes.command_isSome
  | window target =>
    rw [scopeHasBinding, slotOf, windowSlot, windowCommand]
    cases hali : st.windowAliases.lookup target with
    | some windowId =>
      rw [command_eq_none (hsep.window target windowId hali)]
      exact HookScopes.command_isSome
    | none =>
      simp only [bind_eq_bind, bind_none, orElse_eq_orElse, orElse_eq_or, or_none]
      exact HookScopes.command_isSome
  | pane target =>
    rw [scopeHasBinding, slotOf, paneSlot, paneCommand]
    cases hali : st.paneIdAt target with
    | some p =>
      rw [command_eq_none (hsep.pane target p hali)]
      exact HookScopes.command_isSome
    | none =>
      simp only [bind_eq_bind, bind_none, orElse_eq_orElse, orElse_eq_or, or_none]
      exact HookScopes.command_isSome

theorem localScope_ne_global {scope own : ScopeSelector} (h : localScope scope hook = some own) :
    own ≠ .global := by
  rintro rfl
  unfold localScope at h
  cases hcls : hookClass hook <;> cases scope <;> simp [hcls, scopeSessionName,
    scopeWindowTarget] at h

theorem resolvedDispatchBinding_eq (hsep : st.Separate) (scope : ScopeSelector)
    (hook : HookName) : st.slotOf hook (st.resolvedDispatchBinding scope hook).1 =
        st.firstBound hook (st.ownChain hook scope) ∧
      (st.resolvedDispatchBinding scope hook).2 = HookArray.oneShotIndices
        ⟨st.entriesAt (st.firstBound hook (st.ownChain hook scope)) hook⟩ := by
  rw [resolvedDispatchBinding, ownChain]
  cases hlocal : localScope scope hook with
  | none => exact ⟨rfl, oneShotIndicesForExactScope_eq hsep .global⟩
  | some own =>
    have hbd : st.scopeHasBinding own hook ↔ _ :=
      scopeHasBinding_iff hsep (localScope_ne_global hlocal)
    simp only [map_some, toList_some, firstBound]
    by_cases hown : st.entriesAt (st.slotOf hook own) hook = ∅
    · rw [if_pos hown, if_neg (by rw [hbd]; exact not_not_intro hown)]
      exact ⟨rfl, oneShotIndicesForExactScope_eq hsep .global⟩
    · rw [if_neg hown, if_pos (hbd.mpr hown)]
      exact ⟨rfl, oneShotIndicesForExactScope_eq hsep own⟩

theorem identityScopeHasBinding_iff : st.identityScopeHasBinding scope hook ↔
      st.entriesAt (identitySlot hook scope) hook ≠ ∅ := by
  cases scope with
  | global => exact HookBindings.command_isSome
  | _ => exact HookScopes.command_isSome

theorem oneShotIndicesForIdentity_eq : st.oneShotIndicesForIdentity scope hook =
      HookArray.oneShotIndices ⟨st.entriesAt (identitySlot hook scope) hook⟩ := by
  cases scope with
  | global => exact HookBindings.oneShotIndices_eq
  | _ => exact HookScopes.oneShotIndices_eq

theorem identitySlot_find? (scopes : List HookScopeIdentity) :
    identitySlot hook ((scopes.find? fun own => st.identityScopeHasBinding own hook).getD
      .global) = st.firstBound hook (scopes.map (identitySlot hook)) := by
  induction scopes with
  | nil => rfl
  | cons own scopes ih =>
    rw [map_cons, firstBound]
    by_cases hown : st.entriesAt (identitySlot hook own) hook = ∅
    · rw [find?_cons_of_neg, if_pos hown, ih]
      rw [identityScopeHasBinding_iff]
      exact not_not_intro hown
    · have hbd := (identityScopeHasBinding_iff own).mpr hown
      rw [find?_cons_of_pos (p := fun own => st.identityScopeHasBinding own hook) hbd, if_neg hown]
      rfl

theorem resolvedIdentityBinding_eq (st : HookStore) (scope : HookScopeIdentity)
    (hook : HookName) : identitySlot hook (st.resolvedIdentityBinding scope hook).1 =
        st.firstBound hook (identityOwnChain hook scope) ∧
      (st.resolvedIdentityBinding scope hook).2 = HookArray.oneShotIndices
        ⟨st.entriesAt (st.firstBound hook (identityOwnChain hook scope)) hook⟩ := by
  have hsl : _ = st.firstBound hook _ := identitySlot_find? (localIdentities scope hook)
  refine ⟨hsl, ?_⟩
  rw [identityOwnChain, ← hsl]
  exact oneShotIndicesForIdentity_eq _

end HookStore

end Rmux
