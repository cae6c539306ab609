import Rmux.OptionStore

/-!
# Rejected option changes

A lookup depends only on the texts of the entries (`OptionStore.lookup_congr`), so a rejected change
that leaves them alone has no effect. Arrays are changed in place and item by item, and only the
items of `pane-colours` can be refused (`array_row_cases`). `setByName_error_keeps_iff` says when a
refused change of it is seen by no lookup.
-/

namespace Rmux

open List Option Nat

variable {name : Text} {query : OptionQuery}

/-! ## Lookups -/

/-- What can be asked. -/
inductive OptionLookup
  | resolve (sessionName : Option SessionName) (option : OptionName)
  | resolveForWindow (name : SessionName) (windowIndex : ℕ) (option : OptionName)
  | resolveForPane (name : SessionName) (windowIndex paneIndex : ℕ) (option : OptionName)
  | resolveArrayValues (sessionName : Option SessionName) (option : OptionName)
  | resolveName (sessionName : Option SessionName) (name : Text)
  | resolveNameForFormat (sessionName : Option SessionName) (name : Text)
  | resolveNameForWindow (sessionName : SessionName) (windowIndex : ℕ) (name : Text)
  | resolveNameForWindowFormat (sessionName : SessionName) (windowIndex : ℕ) (name : Text)
  | resolveNameForPane (sessionName : SessionName) (windowIndex paneIndex : ℕ) (name : Text)
  | resolveNameForPaneFormat (sessionName : SessionName) (windowIndex paneIndex : ℕ) (name : Text)
  | explicitValueByName (scope : OptionScopeSelector) (name : Text)

/-- What is answered. -/
inductive OptionAnswer
  | known (value : Option (Option Text))
  | values (values : Option (List Text))
  | named (value : Option Text)
  | explicit (value : Except OptionError (Text × Option Text))

def OptionStore.lookup (store : OptionStore) : OptionLookup → OptionAnswer
  | .resolve sessionName option => .known (store.resolve sessionName option)
  | .resolveForWindow name windowIndex option =>
    .known (store.resolveForWindow name windowIndex option)
  | .resolveForPane name windowIndex paneIndex option =>
    .known (store.resolveForPane name windowIndex paneIndex option)
  | .resolveArrayValues sessionName option => .values (store.resolveArrayValues sessionName option)
  | .resolveName sessionName name => .named (store.resolveName sessionName name)
  | .resolveNameForFormat sessionName name => .named (store.resolveNameForFormat sessionName name)
  | .resolveNameForWindow sessionName windowIndex name =>
    .named (store.resolveNameForWindow sessionName windowIndex name)
  | .resolveNameForWindowFormat sessionName windowIndex name =>
    .named (store.resolveNameForWindowFormat sessionName windowIndex name)
  | .resolveNameForPane sessionName windowIndex paneIndex name =>
    .named (store.resolveNameForPane sessionName windowIndex paneIndex name)
  | .resolveNameForPaneFormat sessionName windowIndex paneIndex name =>
    .named (store.resolveNameForPaneFormat sessionName windowIndex paneIndex name)
  | .explicitValueByName scope name => .explicit (store.explicitValueByName scope name)

/-- The texts of an entry : its own, and those of an array's items. -/
structure EntryTexts where
  rendered : Text
  items : Option (OrderedMap ArrayIndex Text)

namespace EntryTexts

def valueAt (texts : EntryTexts) (index : Option ArrayIndex) : Option Text :=
  match texts.items, index with
  | _, none => some texts.rendered
  | some items, some index => items.get? index
  | none, some _ => none

def arrayValues (texts : EntryTexts) : List Text :=
  match texts.items with
  | some items => items.entries.map Prod.snd
  | none => []

/-- Texts of the same kind that show the same. -/
theorem ext_valueAt {texts texts' : EntryTexts} (hkind : texts.items.isSome = texts'.items.isSome)
    (h : ∀ i, texts.valueAt i = texts'.valueAt i) : texts = texts' := by
  obtain ⟨rendered, items⟩ := texts
  obtain ⟨rendered', items'⟩ := texts'
  have hrend : rendered = rendered' := by
    have hn := h none
    cases items <;> cases items' <;> exact some.inj hn
  rw [hrend, EntryTexts.mk.injEq]
  refine ⟨rfl, ?_⟩
  cases items with
  | none =>
    cases items' with
    | none => rfl
    | some items' => cases hkind
  | some items =>
    cases items' with
    | none => cases hkind
    | some items' => rw [OrderedMap.ext_get? fun i => h (some i)]

end EntryTexts

namespace OptionEntry

variable (entry : OptionEntry)

def texts : EntryTexts where
  rendered := entry.rendered
  items := match entry.value with
    | .scalar _ => none
    | .array items => some (items.mapValues ArrayItem.rendered)

theorem valueAt_eq (index : Option ArrayIndex) :
    entry.valueAt index = entry.texts.valueAt index := by
  obtain ⟨name, knownOption, scope, valueType, value, rendered⟩ := entry
  cases value with
  | scalar value => cases index <;> rfl
  | array items =>
    cases index with
    | none => rfl
    | some index => exact (OrderedMap.get?_mapValues items _ index).symm

theorem arrayValues_eq : entry.arrayValues = entry.texts.arrayValues := by
  obtain ⟨name, knownOption, scope, valueType, value, rendered⟩ := entry
  cases value with
  | scalar value => rfl
  | array items =>
    show itemTexts items = (items.entries.map fun e => (e.1, e.2.rendered)).map Prod.snd
    rw [List.map_map]
    rfl

end OptionEntry

namespace OptionStore

variable (store : OptionStore)

def entryAt (scope : OptionScopeSelector) (name : Text) : Option OptionEntry :=
  (store.nodeForExactScope scope).bind fun node => node.entry name

def textsAt (scope : OptionScopeSelector) (name : Text) : Option EntryTexts :=
  (store.entryAt scope name).map OptionEntry.texts

theorem explicitValueForScope_eq (scope : OptionScopeSelector) (query : OptionQuery) :
    store.explicitValueForScope scope query =
      (store.textsAt scope query.name).bind fun texts => texts.valueAt query.index := by
  rw [explicitValueForScope, textsAt, entryAt]
  cases store.nodeForExactScope scope with
  | none => rfl
  | some node =>
    simp only [bind_some, OptionNode.value]
    cases node.entry query.name with
    | none => rfl
    | some entry => exact entry.valueAt_eq query.index

variable (context : ResolveContext)

/-- The scopes of a context with whether they may hold the option. -/
def scopesOfContext (query : OptionQuery) : List (Bool × OptionScopeSelector) :=
  let roots := match query.metadata with
    | none => [(true, .windowGlobal), (true, .sessionGlobal), (true, .serverGlobal)]
    | some metadata => match metadata.globalRoot with
      | .server => [(true, .serverGlobal)]
      | .session => [(true, .sessionGlobal)]
      | .window => [(true, .windowGlobal)]
  match context with
  | .server => [(true, .serverGlobal)]
  | .sessionGlobal =>
    if query.isUser then [(true, .sessionGlobal), (true, .serverGlobal)] else [(true, .sessionGlobal)]
  | .windowGlobal =>
    if query.isUser then [(true, .windowGlobal), (true, .sessionGlobal), (true, .serverGlobal)]
    else [(true, .windowGlobal)]
  | .session name => (scopeAllowsSession query, .session name) :: roots
  | .window name windowIndex =>
    (scopeAllowsWindow query, .window ⟨name, windowIndex⟩) ::
      (scopeAllowsSession query, .session name) :: roots
  | .pane name windowIndex paneIndex =>
    (scopeAllowsPane query, .pane ⟨name, windowIndex, paneIndex⟩) ::
      (scopeAllowsWindow query, .window ⟨name, windowIndex⟩) ::
      (scopeAllowsSession query, .session name) :: roots

theorem chainForContext_eq (query : OptionQuery) : store.chainForContext context query =
      (scopesOfContext context query).flatMap fun s =>
        allowedNode s.1 query (store.nodeForExactScope s.2) := by
  have hglobal : ∀ node, allowedNode true query (some node) = [node] := fun node => rfl
  -- the roots are the scopes of a session without its own
  have hroots (name : SessionName) : store.knownGlobalRoots query =
      (scopesOfContext (.session name) query).tail.flatMap fun s =>
        allowedNode s.1 query (store.nodeForExactScope s.2) := by
    rw [knownGlobalRoots, scopesOfContext, tail_cons]
    cases query.metadata with
    | none => rfl
    | some metadata => cases hrt : metadata.globalRoot <;> simp [hrt, nodeForExactScope, hglobal]
  cases context with
  | server => rfl
  | sessionGlobal | windowGlobal =>
    cases h : query.isUser <;>
      simp [chainForContext, scopesOfContext, h, nodeForExactScope, hglobal]
  | session name =>
    rw [chainForContext, hroots name]
    rfl
  | window name windowIndex =>
    rw [chainForContext, hroots name, append_assoc]
    rfl
  | pane name windowIndex paneIndex =>
    rw [chainForContext, hroots name, append_assoc, append_assoc]
    rfl

/-- Whether the entry of a scope is the one that is found. -/
def answers (query : OptionQuery) (allowed : Bool) (texts : EntryTexts) : Bool :=
  (allowed || (texts.valueAt query.index).isSome) &&
    (query.index.isNone || (texts.valueAt query.index).isSome)

theorem findSome?_allowedNode (query : OptionQuery) (allowed : Bool) (scope : OptionScopeSelector) :
    ((allowedNode allowed query (store.nodeForExactScope scope)).findSome? fun node =>
        (node.entry query.name).filter fun entry =>
          query.index.isNone || (entry.valueAt query.index).isSome) =
      (store.entryAt scope query.name).filter fun entry => answers query allowed entry.texts := by
  rw [entryAt]
  cases store.nodeForExactScope scope with
  | none => rfl
  | some node =>
    simp only [allowedNode, toList_some, filter_cons, filter_nil, bind_some,
      OptionNode.contains, OptionNode.value, answers]
    cases hent : node.entry query.name with
    | none => cases allowed <;> simp [hent]
    | some entry =>
      simp only [bind_some, filter_some, ← OptionEntry.valueAt_eq]
      by_cases hcontains : allowed || (entry.valueAt query.index).isSome
      · simp [hcontains, hent, filter_some]
      · simp [hcontains]

theorem resolveQuery_eq (query : OptionQuery) :
    store.resolveQuery context query = (scopesOfContext context query).findSome? fun s =>
      (store.entryAt s.2 query.name).filter fun entry => answers query s.1 entry.texts := by
  rw [resolveQuery, chainForContext_eq]
  induction scopesOfContext context query with
  | nil => rfl
  | cons s scopes ih =>
    rw [flatMap_cons, findSome?_append, findSome?_allowedNode, ih, findSome?_cons]
    cases (store.entryAt s.2 query.name).filter fun entry => answers query s.1 entry.texts <;> rfl

theorem map_texts_resolveQuery (query : OptionQuery) :
    (store.resolveQuery context query).map OptionEntry.texts =
      (scopesOfContext context query).findSome? fun s =>
        (store.textsAt s.2 query.name).filter fun texts => answers query s.1 texts := by
  rw [resolveQuery_eq]
  induction scopesOfContext context query with
  | nil => rfl
  | cons s scopes ih =>
    rw [findSome?_cons, findSome?_cons, textsAt]
    cases hent : store.entryAt s.2 query.name with
    | none => exact ih
    | some entry =>
      cases hans : answers query s.1 entry.texts with
      | true => simp [Option.filter, hans]
      | false => simpa [Option.filter, hans] using ih

variable {store} {store' : OptionStore}

theorem resolveIn_eq (option : OptionName) :
    store.resolveIn context option = (OptionQuery.known option).map fun query =>
      (((store.resolveQuery context query).map OptionEntry.texts).map EntryTexts.rendered).or
        (defaultRenderedValue query) := by
  rw [resolveIn]
  congr 1
  funext query
  rw [Option.map_map]
  rfl

/-- Lookups depend only on the texts. -/
theorem lookup_congr (h : ∀ scope name, store'.textsAt scope name = store.textsAt scope name)
    (l : OptionLookup) : store'.lookup l = store.lookup l := by
  have hres : ∀ context query, (store'.resolveQuery context query).map OptionEntry.texts =
      (store.resolveQuery context query).map OptionEntry.texts := by
    intro context query
    simp only [map_texts_resolveQuery, h]
  have hin : ∀ context option, store'.resolveIn context option = store.resolveIn context option := by
    intro context option
    simp only [resolveIn_eq, hres]
  have harr : ∀ context query, (store'.resolveQuery context query).map OptionEntry.arrayValues =
      (store.resolveQuery context query).map OptionEntry.arrayValues := by
    intro context query
    have hfun : OptionEntry.arrayValues = EntryTexts.arrayValues ∘ OptionEntry.texts :=
      funext OptionEntry.arrayValues_eq
    rw [hfun, ← Option.map_map, ← Option.map_map, hres]
  have hexplicit : ∀ scope query, store'.explicitValueForScope scope query =
      store.explicitValueForScope scope query := by
    intro scope query
    rw [explicitValueForScope_eq, explicitValueForScope_eq, h]
  have hnodes : ∀ query scopes, store'.resolveNameFromNodes query scopes =
      store.resolveNameFromNodes query scopes := by
    intro query scopes
    simp only [resolveNameFromNodes, hexplicit]
  cases l with
  | resolve | resolveForWindow | resolveForPane =>
    simp only [lookup, resolve, resolveForWindow, resolveForPane, hin]
  | resolveArrayValues => simp only [lookup, resolveArrayValues, harr]
  | resolveName | resolveNameForFormat | resolveNameForWindow | resolveNameForWindowFormat
  | resolveNameForPane | resolveNameForPaneFormat =>
    simp only [lookup, resolveName, resolveNameForFormat, resolveNameForWindow,
      resolveNameForWindowFormat, resolveNameForPane, resolveNameForPaneFormat, hnodes]
  | explicitValueByName => simp only [lookup, explicitValueByName, hexplicit]

/-! ## What a call changes -/

theorem nodeForExactScope_setNode (store : OptionStore) (scope scope' : OptionScopeSelector)
    (node : OptionNode) : (store.setNode scope node).nodeForExactScope scope' =
      if scope' = scope then some node else store.nodeForExactScope scope' := by
  by_cases h : scope' = scope
  · subst h
    rw [if_pos rfl]
    cases scope' <;> simp [setNode, nodeForExactScope]
  · rw [if_neg h]
    cases scope <;> cases scope' <;>
      first
      | exact absurd rfl h
      | rfl
      | exact AList.lookup_insert_ne fun heq => h (by rw [heq])

theorem entryAt_setNode (store : OptionStore) (scope scope' : OptionScopeSelector)
    (node : OptionNode) (name : Text) : (store.setNode scope node).entryAt scope' name =
      if scope' = scope then node.entry name else store.entryAt scope' name := by
  rw [entryAt, nodeForExactScope_setNode]
  split_ifs <;> rfl

theorem entry_nodeForExactScopeMut (store : OptionStore) (scope : OptionScopeSelector) (name : Text) :
    (store.nodeForExactScopeMut scope).1.entry name = store.entryAt scope name := by
  rw [nodeForExactScopeMut, entryAt]
  cases store.nodeForExactScope scope with
  | none | some node => rfl

/-- A missing tree that is made has no entries. -/
theorem entryAt_nodeForExactScopeMut (store : OptionStore) (scope scope' : OptionScopeSelector)
    (name : Text) : (store.nodeForExactScopeMut scope).2.entryAt scope' name =
      store.entryAt scope' name := by
  rw [← entry_nodeForExactScopeMut store scope', nodeForExactScopeMut, entryAt_setNode]
  split_ifs with h
  · rw [h]
    rfl
  · exact (entry_nodeForExactScopeMut store scope' name).symm

end OptionStore

theorem OptionNode.entry_insert (node : OptionNode) (name name' : Text) (entry : OptionEntry) :
    (node.insert name entry).entry name' = if name' = name then some entry else node.entry name' := by
  rw [OptionNode.entry, OptionNode.insert]
  split_ifs with h
  · rw [h, AList.lookup_insert]
  · exact AList.lookup_insert_ne h

namespace OptionStore

/-- Only one entry differs. -/
def Writes (store store' : OptionStore) (scope : OptionScopeSelector) (name : Text)
    (entry : OptionEntry) : Prop :=
  ∀ scope' name', store'.entryAt scope' name' =
    if scope' = scope ∧ name' = name then some entry else store.entryAt scope' name'

variable {parsers : ScalarParsers} {store store' : OptionStore} {scope : OptionScopeSelector}
  {query : OptionQuery} {value current : Option Text} {mode : SetOptionMode} {error : OptionError}
  {result : Except OptionError Unit}

theorem setArray_eq_some {explicitBefore : Option Text} {defaultEntry : Option OptionEntry}
    (h : store.setArray parsers scope query value mode explicitBefore defaultEntry =
      some (result, store')) : ∃ entry, applyArrayMutation parsers
        (arrayEntry (store.nodeForExactScopeMut scope).1 query scope defaultEntry) query
        (value.getD []) mode explicitBefore = some (result, entry) ∧
      store.Writes store' scope query.name entry := by
  rw [setArray] at h
  simp only [bind_eq_bind, bind_eq_some_iff] at h
  obtain ⟨⟨result', entry⟩, hap, heq⟩ := h
  cases heq
  refine ⟨entry, hap, fun scope' name' => ?_⟩
  rw [entryAt_setNode, OptionNode.entry_insert, entryAt_nodeForExactScopeMut]
  by_cases hscope : scope' = scope
  · rw [hscope, if_pos rfl, entry_nodeForExactScopeMut]
    simp
  · simp [hscope]

theorem setScalar_error (h : store.setScalar parsers scope query value current =
    some (.error error, store')) :
    ∀ scope' name, store'.entryAt scope' name = store.entryAt scope' name := by
  rw [setScalar] at h
  obtain ⟨normalized, -, heq⟩ := bind_eq_some_iff.mp h
  cases normalized with
  | error error' =>
    cases heq
    exact entryAt_nodeForExactScopeMut store scope
  | ok value => simp at heq

/-- A refused change of a query leaves everything, or writes the entry of an array. -/
theorem setQuery_error {onlyIfUnset : Bool}
    (h : store.setQuery parsers scope query value mode onlyIfUnset = some (.error error, store')) :
    (query.isArray = false ∨ onlyIfUnset = true ∧ (store.explicitValueForScope scope query).isSome) ∧
        (∀ scope' name, store'.entryAt scope' name = store.entryAt scope' name) ∨
      (query.isArray = true ∧
        ¬(onlyIfUnset = true ∧ (store.explicitValueForScope scope query).isSome)) ∧
        ∃ defaultEntry entry, applyArrayMutation parsers
            (arrayEntry (store.nodeForExactScopeMut scope).1 query scope defaultEntry) query
            (value.getD []) mode (store.explicitValueForScope scope query) =
              some (.error error, entry) ∧
          store.Writes store' scope query.name entry := by
  rw [setQuery] at h
  obtain ⟨defaultEntry, -, h⟩ := bind_eq_some_iff.mp h
  split_ifs at h with hset hemp harr
  · cases h
    exact .inl ⟨.inr (by simpa using hset), entryAt_nodeForExactScopeMut store scope⟩
  · simp at h
  all_goals
    -- the error is that of the call
    obtain ⟨⟨_ | _, store₁⟩, hc, heq⟩ := bind_eq_some_iff.mp h <;> cases heq
  · obtain ⟨entry, hap, hwrites⟩ := setArray_eq_some hc
    exact .inr ⟨⟨harr, by simpa using hset⟩, defaultEntry, entry, hap, hwrites⟩
  · exact .inl ⟨.inl (by simpa using harr), setScalar_error hc⟩

theorem unsetQuery_error {onlyIfUnset : Bool}
    (h : store.unsetQuery parsers scope query onlyIfUnset = some (.error error, store')) :
    ∀ scope' name, store'.entryAt scope' name = store.entryAt scope' name := by
  rw [unsetQuery] at h
  simp only [bind_eq_bind, bind_eq_some_iff] at h
  obtain ⟨defaultEntry, -, h⟩ := h
  split_ifs at h
  · cases h
    exact entryAt_nodeForExactScopeMut store scope
  · simp at h

end OptionStore

/-! ## The table -/

def paneColours : Text := "pane-colours".toList

/-- The items of every other array are strings that are not checked. -/
theorem array_row_cases : ∀ row ∈ OptionTable.options, row.isArray = true →
    row.name = paneColours ∨ row.valueType = .string ∧ row.name ≠ "default-size".toList ∧
      OptionChangeMask.contains row.effects effectStyleParse = false := by
  decide +kernel

/-- The row of `pane-colours`. -/
def paneColoursRow : OptionMetadata := OptionTable.options.get ⟨124, by decide +kernel⟩

theorem filter_paneColours :
    OptionTable.options.filter (fun row => row.name = paneColours) = [paneColoursRow] := by
  decide +kernel

theorem paneColours_row {row : OptionMetadata} (h : row ∈ OptionTable.options)
    (hname : row.name = paneColours) :
    row.isArray = true ∧ row.valueType = .colour ∧ row.separator = [','] := by
  have hmem : row ∈ OptionTable.options.filter (fun row => row.name = paneColours) :=
    mem_filter.mpr ⟨h, decide_eq_true hname⟩
  rw [filter_paneColours] at hmem
  rw [mem_singleton.mp hmem]
  decide +kernel

theorem mem_of_lookupRow {p : OptionMetadata → Bool} {row : OptionMetadata}
    (h : lookupRow p = some row) : row ∈ OptionTable.options :=
  mem_of_mem_filter (mem_of_getLast? h)

theorem mem_of_exactRow {row : OptionMetadata} (h : exactRow name = some row) :
    row ∈ OptionTable.options := by
  rw [exactRow, or_eq_some_iff] at h
  rcases h with h | ⟨-, h⟩
  · exact mem_of_lookupRow h
  · exact mem_of_lookupRow h

/-- A name is that of a row or of a user option. -/
theorem resolveOptionName_cases (h : resolveOptionName name = .ok query) :
    (query.metadata = none ∧ query.name.head? = some '@') ∨
      ∃ row ∈ OptionTable.options, query.metadata = some row ∧ query.name = row.name := by
  have hok : resolveOptionNameTyped name = .ok query := by
    rw [resolveOptionName] at h
    cases htyped : resolveOptionNameTyped name with
    | error error => rw [htyped] at h; cases h
    | ok query' => rw [htyped] at h; cases h; rfl
  rw [resolveOptionNameTyped] at hok
  split at hok
  · cases hok
  · rename_i baseName index hspl
    split_ifs at hok with huser hidx
    · cases hok
      exact .inl ⟨rfl, huser⟩
    · split at hok
      · rename_i row hrow
        cases hok
        exact .inr ⟨row, mem_of_exactRow hrow, rfl, rfl⟩
      · split at hok
        · rename_i row hrw
          cases hok
          have hmem : row ∈ dedupRows (OptionTable.options.filter fun metadata =>
              baseName.isPrefixOf metadata.name || metadata.aliases.any baseName.isPrefixOf) := by
            rw [hrw]
            exact mem_singleton_self row
          exact .inr ⟨row, mem_of_mem_filter ((destutter_sublist _ _).subset hmem), rfl, rfl⟩
        · cases hok
        · cases hok

/-- Values are strings that are not checked. -/
def OptionQuery.Unchecked (query : OptionQuery) : Prop :=
  query.valueType = .string ∧ query.name ≠ "default-size".toList ∧
    OptionChangeMask.contains query.effects effectStyleParse = false

/-- An array that is not `pane-colours` has unchecked strings. -/
theorem array_query_cases (h : resolveOptionName name = .ok query) (harr : query.isArray = true) :
    query.name = paneColours ∨ query.Unchecked := by
  rcases resolveOptionName_cases h with ⟨hn, -⟩ | ⟨row, hrow, hs, hnm⟩
  · rw [OptionQuery.isArray, hn] at harr
    cases harr
  · rw [OptionQuery.isArray, hs] at harr
    rw [OptionQuery.Unchecked, hnm, OptionQuery.valueType, OptionQuery.effects, hs]
    exact array_row_cases row hrow harr

theorem paneColours_query (h : resolveOptionName name = .ok query)
    (hnm : query.name = paneColours) :
    query.isArray = true ∧ query.valueType = .colour ∧ query.separator = [','] := by
  rcases resolveOptionName_cases h with ⟨-, huser⟩ | ⟨row, hrow, hs, hrowname⟩
  · rw [hnm] at huser
    exact absurd huser (by decide)
  · rw [OptionQuery.isArray, OptionQuery.valueType, OptionQuery.separator, hs]
    exact paneColours_row hrow (hrowname.symm.trans hnm)

/-- The name of one colour of `pane-colours`. -/
def indexedName (index : ArrayIndex) : Text :=
  paneColours ++ '[' :: (Nat.toDigits 10 index.val ++ [']'])

theorem splitArrayIndexTyped_indexedName (index : ArrayIndex) :
    splitArrayIndexTyped (indexedName index) = .ok (paneColours, some index) := by
  have hdigs : ∀ c ∈ toDigits 10 index.val ++ [']'], c ≠ '[' := by
    intro c hc
    rcases mem_append.mp hc with hc | hc
    · rintro rfl
      exact absurd (isDigit_of_mem_toDigits (by omega) (by omega) hc) (by decide)
    · rw [mem_singleton.mp hc]
      decide
  have hreverse : (indexedName index).reverse =
      (toDigits 10 index.val ++ [']']).reverse ++ '[' :: paneColours.reverse := by
    rw [indexedName, reverse_append, reverse_cons, append_assoc]
    rfl
  have hpos : ∀ c ∈ (toDigits 10 index.val ++ [']']).reverse, decide (c ≠ '[') = true :=
    fun c hc => decide_eq_true (hdigs c (mem_reverse.mp hc))
  have hbr : splitAtLastBracket (indexedName index) =
      some (paneColours, toDigits 10 index.val ++ [']']) := by
    have hmem : '[' ∈ indexedName index := by
      rw [indexedName]
      exact mem_append_right _ mem_cons_self
    rw [splitAtLastBracket, if_pos hmem, rdropWhile, rtakeWhile, hreverse,
      dropWhile_append_of_pos hpos, takeWhile_append_of_pos hpos,
      dropWhile_cons_of_neg (by simp), takeWhile_cons_of_neg (by simp),
      append_nil, reverse_reverse, reverse_cons, reverse_reverse,
      dropLast_concat]
  have hl : (indexedName index).getLast? = some ']' := by
    rw [indexedName, ← cons_append, ← append_assoc, getLast?_concat]
  have hidx : index.val ≤ MachineInt.u32Max := by
    rw [MachineInt.u32Max]
    omega
  have hne : ¬(paneColours = [] ∨ toDigits 10 index.val = []) :=
    fun h => h.elim (by decide) toDigits_ne_nil
  rw [splitArrayIndexTyped, hbr]
  simp only [hl, ne_eq, not_true_eq_false, if_false, dropLast_concat, parseUnsigned_toDigits hidx]
  rw [if_neg hne]
  exact congrArg (fun i => Except.ok (paneColours, some i)) (Fin.ofNat_val_eq_self index)

theorem splitArrayIndexTyped_paneColours :
    splitArrayIndexTyped paneColours = .ok (paneColours, none) := by
  decide

theorem resolveOptionName_paneColours {i : Option ArrayIndex}
    (h : splitArrayIndexTyped name = .ok (paneColours, i)) :
    resolveOptionName name = .ok ⟨paneColours, some paneColoursRow, i⟩ := by
  have huser : ¬paneColours.head? = some '@' := by decide
  have hrow : exactRow paneColours = some paneColoursRow := by
    rw [exactRow, lookupRow, filter_paneColours]
    rfl
  have hnm : paneColoursRow.name = paneColours := by decide +kernel
  rw [resolveOptionName, resolveOptionNameTyped, h]
  simp only [if_neg huser, hrow, hnm]
  rfl

namespace OptionStore

variable {store store' : OptionStore}

/-- Lookups show the texts of `pane-colours` at every scope. -/
theorem textsAt_of_lookup (h : ∀ l, store'.lookup l = store.lookup l) (scope : OptionScopeSelector)
    (index : Option ArrayIndex) :
    ((store'.textsAt scope paneColours).bind fun texts => texts.valueAt index) =
      (store.textsAt scope paneColours).bind fun texts => texts.valueAt index := by
  obtain ⟨name, hnm⟩ : ∃ name, splitArrayIndexTyped name = .ok (paneColours, index) := by
    cases index with
    | none => exact ⟨paneColours, splitArrayIndexTyped_paneColours⟩
    | some index => exact ⟨indexedName index, splitArrayIndexTyped_indexedName index⟩
  have hres := resolveOptionName_paneColours hnm
  have hlk := h (.explicitValueByName scope name)
  simp only [lookup, explicitValueByName, hres, OptionAnswer.explicit.injEq, Except.map,
    Except.ok.injEq, Prod.mk.injEq, true_and] at hlk
  rwa [explicitValueForScope_eq, explicitValueForScope_eq] at hlk

end OptionStore

/-! ## Colours put into an array -/

/-- The colours before the first text that is not one. -/
def goodColours : List Text → List Text
  | [] => []
  | value :: values =>
    match normalizeColour value with
    | some (some colour) => colour :: goodColours values
    | _ => []

def colourItem (colour : Text) : ArrayItem := .new (.colour colour)

def nextIndex (items : OrderedMap ArrayIndex ArrayItem) : ArrayIndex :=
  match items.keys.getLast? with
  | some index => index + 1
  | none => 0

def pushColour (items : OrderedMap ArrayIndex ArrayItem) (colour : Text) :
    OrderedMap ArrayIndex ArrayItem :=
  items.insert (nextIndex items) (colourItem colour)

def OptionEntry.withColours (entry : OptionEntry) (colours : List Text) : OptionEntry :=
  colours.foldl (fun entry colour =>
    entry.setArrayItem entry.nextArrayIndex (colourItem colour) [',']) entry

section Colours

variable {parsers : ScalarParsers} {query : OptionQuery} {result : Except OptionError Unit}
  {entry : OptionEntry} {items items' : OrderedMap ArrayIndex ArrayItem}

theorem arrayItemFromValue_colour (hcol : query.valueType = .colour) (value : Text)
    (current : Option Text) : arrayItemFromValue parsers query (some value) current =
      (normalizeColour value).map fun colour => match colour with
        | none => .error (invalidInteger query.name "colour value")
        | some colour => .ok (colourItem colour) := by
  have hsc : normalizeScalarValue parsers query (some value) none =
      (normalizeColour value).map fun colour => match colour with
        | none => .error (invalidInteger query.name "colour value")
        | some colour => .ok (.colour colour) := by
    rewrite [normalizeScalarValue, hcol]
    rfl
  have hitem : arrayItemFromValue parsers query (some value) current =
      (normalizeScalarValue parsers query (some value) none).map fun result =>
        result.map ArrayItem.new := by
    cases current with
    | none => rfl
    | some current =>
      have hstr : ¬(query.index.isSome = true ∧ query.valueType = OptionValueType.string) := by
        simp [hcol]
      unfold arrayItemFromValue
      simp only [if_neg hstr]
  rw [hitem, hsc]
  cases normalizeColour value with
  | none => rfl
  | some colour => cases colour <;> rfl

theorem pushItems_eq_some (hcol : query.valueType = .colour)
    (hsep : query.separator = [',']) {values : List Text} {entry' : OptionEntry}
    (h : pushItems parsers query values entry = some (result, entry')) :
    entry' = entry.withColours (goodColours values) := by
  induction values generalizing entry with
  | nil =>
    cases h
    rfl
  | cons value values ih =>
    rw [pushItems, arrayItemFromValue_colour hcol, hsep] at h
    rw [goodColours]
    cases hval : normalizeColour value with
    | none => rw [hval] at h; cases h
    | some colour =>
      rw [hval] at h
      cases colour with
      | none => cases h; rfl
      | some colour => exact ih h

theorem OptionEntry.withColours_scalar {value : StoredOptionValue} (h : entry.value = .scalar value)
    (cols : List Text) : entry.withColours cols = entry := by
  induction cols with
  | nil => rfl
  | cons colour cols ih =>
    have hset : ∀ i item, entry.setArrayItem i item [','] = entry := by
      intro i item
      rw [setArrayItem, h]
    rw [withColours, foldl_cons, hset]
    exact ih

theorem OptionEntry.withColours_array (h : entry.value = .array items) (cols : List Text) :
    (entry.withColours cols).texts =
      ⟨if cols = [] then entry.rendered else renderArray (cols.foldl pushColour items) [','],
        some ((cols.foldl pushColour items).mapValues ArrayItem.rendered)⟩ := by
  induction cols generalizing entry items with
  | nil =>
    rw [withColours, foldl_nil, texts, h]
    rfl
  | cons colour cols ih =>
    have hset : entry.setArrayItem entry.nextArrayIndex (colourItem colour) [','] =
        { entry with
          value := .array (pushColour items colour)
          rendered := renderArray (pushColour items colour) [','] } := by
      rw [setArrayItem, nextArrayIndex, h]
      rfl
    have hr := @ih { entry with
          value := .array (pushColour items colour)
          rendered := renderArray (pushColour items colour) [','] } _ rfl
    rw [withColours, foldl_cons, hset, ← withColours, hr, foldl_cons, if_neg (cons_ne_nil _ _)]
    split_ifs with hnil
    · rw [hnil, foldl_nil]
    · rfl

/-- The text at a number after colours were put into an empty array. Behind the last number every
colour is put at 0. -/
def storedAt (colours : List Text) (index : ArrayIndex) : Option Text :=
  if index = 0 ∧ 4294967296 < colours.length then colours.getLast? else colours[index.val]?

/-- The last number. -/
def maxIndex : ArrayIndex := Fin.last 4294967295

theorem nextIndex_of_max (h : maxIndex ∈ items) : nextIndex items = 0 := by
  have hl : items.keys.getLast? = some maxIndex :=
    OrderedMap.getLast?_keys.mpr ⟨h, fun i _ => Fin.le_last i⟩
  rw [nextIndex, hl]
  rfl

/-- The next number is not used yet, unless the last one is. -/
theorem nextIndex_not_mem (h : maxIndex ∉ items) : nextIndex items ∉ items := by
  rw [nextIndex]
  cases hl : items.keys.getLast? with
  | none =>
    rw [getLast?_eq_none_iff] at hl
    rw [← OrderedMap.mem_keys, hl]
    exact not_mem_nil
  | some i =>
    obtain ⟨hmem, hmax⟩ := OrderedMap.getLast?_keys.mp hl
    intro hnx
    have hne : i ≠ maxIndex := fun heq => h (heq ▸ hmem)
    have hlt : i < Fin.last 4294967295 := lt_of_le_of_ne (Fin.le_last i) hne
    exact absurd (hmax _ hnx) (not_le.mpr (Fin.lt_add_one_iff.mpr hlt))

/-- Numbers that are used up to one, which is next. -/
theorem nextIndex_val {n : ℕ} (h : ∀ i, i ∈ items ↔ i.val < n) (hn : n < 4294967296) :
    (nextIndex items).val = n := by
  cases n with
  | zero =>
    have hl : items.keys.getLast? = none := by
      refine eq_none_iff_forall_not_mem.mpr fun i hidx => ?_
      exact absurd ((h i).mp (OrderedMap.getLast?_keys.mp hidx).1) (not_lt_zero _)
    rw [nextIndex, hl]
    rfl
  | succ m =>
    have hm : m < 4294967296 := by omega
    have hl : items.keys.getLast? = some ⟨m, hm⟩ :=
      OrderedMap.getLast?_keys.mpr ⟨(h _).mpr (lt_succ_self m), fun i hidx =>
        Fin.le_def.mpr (le_of_lt_succ ((h i).mp hidx))⟩
    rw [nextIndex, hl]
    simp only [Fin.val_add]
    exact mod_eq_of_lt hn

theorem storedAt_push {cols : List Text}
    (h : ∀ index, (items.get? index).map ArrayItem.rendered = storedAt cols index)
    (colour : Text) (index : ArrayIndex) :
    ((pushColour items colour).get? index).map ArrayItem.rendered =
      storedAt (cols ++ [colour]) index := by
  have hmem : ∀ index, index ∈ items ↔ index.val < cols.length := by
    intro index
    rw [OrderedMap.mem_iff_isSome, ← isSome_map (f := ArrayItem.rendered), h, storedAt]
    split_ifs with hz
    · have hne : cols ≠ [] := fun hnil => by simp [hnil] at hz
      simp [hne, hz.1]
      omega
    · simp
  rw [pushColour, OrderedMap.get?_insert]
  by_cases hf : 4294967296 ≤ cols.length
  · -- every number is used, so the colour is put at 0
    have hnx : nextIndex items = 0 := nextIndex_of_max ((hmem _).mpr (by
      rw [maxIndex, Fin.val_last]
      omega))
    have hlen : 4294967296 < (cols ++ [colour]).length := by
      rw [length_append, length_singleton]
      omega
    rw [hnx, storedAt]
    by_cases hz : index = 0
    · rw [if_pos hz, if_pos ⟨hz, hlen⟩, getLast?_concat]
      rfl
    · rw [if_neg hz, if_neg (fun hand => hz hand.1), h, storedAt,
        if_neg (fun hand => hz hand.1), getElem?_append_left (by omega)]
  · have hnx := nextIndex_val hmem (by omega)
    have hlen : ¬4294967296 < (cols ++ [colour]).length := by
      rw [length_append, length_singleton]
      omega
    have hstored : storedAt (cols ++ [colour]) index = (cols ++ [colour])[index.val]? :=
      if_neg fun hand => hlen hand.2
    rw [hstored]
    split_ifs with heq
    · rw [heq, hnx, getElem?_concat_length]
      rfl
    · have hne : index.val ≠ cols.length := fun hval => heq (Fin.ext (hval.trans hnx.symm))
      rw [h, storedAt, if_neg (fun hand => hf hand.2.le)]
      rcases lt_or_gt_of_ne hne with hlt | hgt
      · rw [getElem?_append_left hlt]
      · rw [getElem?_eq_none hgt.le, getElem?_eq_none (by
          rw [length_append, length_singleton]
          omega)]

theorem storedAt_foldl (cols : List Text) (index : ArrayIndex) :
    ((cols.foldl pushColour ∅).get? index).map ArrayItem.rendered = storedAt cols index := by
  induction cols using reverseRecOn generalizing index with
  | nil => simp [storedAt]
  | append_singleton cols colour ih =>
    rw [foldl_append]
    exact storedAt_push ih colour index

/-- With the last number used, only the item at 0 changes. -/
theorem foldl_pushColour_of_max (h : maxIndex ∈ items) (cols : List Text) (last : Text) :
    (cols ++ [last]).foldl pushColour items = items.insert 0 (colourItem last) := by
  induction cols generalizing items with
  | nil => rw [nil_append, foldl_cons, foldl_nil, pushColour, nextIndex_of_max h]
  | cons colour cols ih =>
    have hpu : pushColour items colour = items.insert 0 (colourItem colour) := by
      rw [pushColour, nextIndex_of_max h]
    rw [cons_append, foldl_cons, hpu, ih (OrderedMap.mem_insert.mpr (.inr h))]
    refine OrderedMap.ext_get? fun i => ?_
    rw [OrderedMap.get?_insert, OrderedMap.get?_insert, OrderedMap.get?_insert]
    split_ifs <;> rfl

theorem mem_foldl_pushColour {i : ArrayIndex}
    (h : i ∈ items) (cols : List Text) : i ∈ cols.foldl pushColour items := by
  induction cols generalizing items with
  | nil => exact h
  | cons colour cols ih => exact ih (OrderedMap.mem_insert.mpr (.inr h))

theorem mapValues_eq_iff :
    items.mapValues ArrayItem.rendered = items'.mapValues ArrayItem.rendered ↔
      ∀ i, (items.get? i).map ArrayItem.rendered =
        (items'.get? i).map ArrayItem.rendered := by
  simp only [← OrderedMap.get?_mapValues]
  exact ⟨fun h i => by rw [h], OrderedMap.ext_get?⟩

theorem renderArray_congr
    (h : items.mapValues ArrayItem.rendered = items'.mapValues ArrayItem.rendered)
    (separator : Text) : renderArray items separator = renderArray items' separator := by
  have hents := congrArg (fun m => m.entries.map Prod.snd) h
  simp only [OrderedMap.mapValues, List.map_map] at hents
  rw [renderArray, renderArray, itemTexts, itemTexts]
  exact congrArg _ hents

/-- The colours of a value that are put in before it is refused. -/
def acceptedColours (value : Text) : List Text := goodColours (splitArrayAssignment value [','])

/-- The entry shows the same texts after a refused change. -/
def OptionEntry.KeepsColours (entry : OptionEntry) (index : Option ArrayIndex) (value : Text)
    (mode : SetOptionMode) : Prop :=
  match entry.value, index, mode with
  | .array items, none, .replace =>
    (∀ i, (items.get? i).map ArrayItem.rendered = storedAt (acceptedColours value) i) ∧
      entry.rendered = renderArray items [',']
  | .array items, none, .append =>
    acceptedColours value = [] ∨ maxIndex ∈ items ∧
      (items.get? 0).map ArrayItem.rendered = (acceptedColours value).getLast? ∧
      entry.rendered = renderArray items [',']
  | _, _, _ => True

theorem texts_replace_iff (h : entry.value = .array items) (cols : List Text) :
    (entry.clearArray.withColours cols).texts = entry.texts ↔
      (∀ i, (items.get? i).map ArrayItem.rendered = storedAt cols i) ∧
        entry.rendered = renderArray items [','] := by
  have hclr : entry.clearArray = { entry with value := .array ∅, rendered := [] } := by
    rw [OptionEntry.clearArray, h]
  have htexts : (entry.clearArray.withColours cols).texts =
      ⟨renderArray (cols.foldl pushColour ∅) [','],
        some ((cols.foldl pushColour ∅).mapValues ArrayItem.rendered)⟩ := by
    rw [hclr, OptionEntry.withColours_array rfl]
    split_ifs with hnil
    · rw [hnil]
      rfl
    · rfl
  rw [htexts, OptionEntry.texts, h]
  simp only [EntryTexts.mk.injEq, some.injEq, mapValues_eq_iff, storedAt_foldl]
  rw [and_comm, forall_congr' fun i => eq_comm, and_congr_right_iff]
  intro hits
  have hrender : renderArray items [','] = renderArray (cols.foldl pushColour ∅) [','] :=
    renderArray_congr (mapValues_eq_iff.mpr fun i => by rw [storedAt_foldl, hits]) _
  rw [hrender, eq_comm]

theorem texts_append_iff (h : entry.value = .array items) (cols : List Text) :
    (entry.withColours cols).texts = entry.texts ↔
      cols = [] ∨ maxIndex ∈ items ∧
        (items.get? 0).map ArrayItem.rendered = cols.getLast? ∧
        entry.rendered = renderArray items [','] := by
  by_cases hnil : cols = []
  · rw [hnil]
    exact ⟨fun _ => .inl rfl, fun _ => rfl⟩
  rw [OptionEntry.withColours_array h, if_neg hnil, OptionEntry.texts, h]
  simp only [EntryTexts.mk.injEq, some.injEq, hnil, false_or]
  by_cases hmax : maxIndex ∈ items
  · obtain ⟨init, last, rfl⟩ := (eq_nil_or_concat' cols).resolve_left hnil
    rw [foldl_pushColour_of_max hmax, getLast?_concat]
    constructor
    · rintro ⟨hrend, hits⟩
      have hz := mapValues_eq_iff.mp hits 0
      rw [OrderedMap.get?_insert, if_pos rfl] at hz
      exact ⟨hmax, hz.symm, hrend.symm.trans (renderArray_congr hits _)⟩
    · rintro ⟨-, hz, hrend⟩
      have hits : (items.insert 0 (colourItem last)).mapValues ArrayItem.rendered =
          items.mapValues ArrayItem.rendered := by
        refine mapValues_eq_iff.mpr fun i => ?_
        rw [OrderedMap.get?_insert]
        split_ifs with hi
        · rw [hi, hz]
          rfl
        · rfl
      exact ⟨(renderArray_congr hits _).trans hrend.symm, hits⟩
  · -- the first colour gets a number that was not used
    refine ⟨fun hand => ?_, fun hand => absurd hand.1 hmax⟩
    obtain ⟨colour, r, rfl⟩ := exists_cons_of_ne_nil hnil
    have hmem : nextIndex items ∈ (colour :: r).foldl pushColour items :=
      mem_foldl_pushColour (OrderedMap.mem_insert.mpr (.inl rfl)) r
    have heq := mapValues_eq_iff.mp hand.2 (nextIndex items)
    rw [OrderedMap.not_mem_iff.mp (nextIndex_not_mem hmax), map_none, map_eq_none_iff] at heq
    exact absurd hmem (OrderedMap.not_mem_iff.mpr heq)

/-- The entry after a refused change. -/
def OptionEntry.afterRefused (entry : OptionEntry) (index : Option ArrayIndex) (value : Text)
    (mode : SetOptionMode) : OptionEntry :=
  match index, mode with
  | some _, _ => entry
  | none, .replace => entry.clearArray.withColours (acceptedColours value)
  | none, .append => entry.withColours (acceptedColours value)

theorem eq_afterRefused (hcol : query.valueType = .colour) (hsep : query.separator = [','])
    {entry' : OptionEntry} {value : Text} {mode : SetOptionMode} {current : Option Text}
    {error : OptionError}
    (h : applyArrayMutation parsers entry query value mode current = some (.error error, entry')) :
    entry' = entry.afterRefused query.index value mode := by
  rw [applyArrayMutation.eq_def] at h
  cases hidx : query.index with
  | some i =>
    rw [hidx] at h
    obtain ⟨item, -, h⟩ := bind_eq_some_iff.mp h
    cases item with
    | ok item => cases h
    | error error' =>
      cases h
      rfl
  | none =>
    rw [hidx, hsep] at h
    cases mode <;> exact pushItems_eq_some hcol hsep h

/-- It is an array exactly if the entry was one, and then it shows the same texts exactly as
`KeepsColours` says. -/
theorem OptionEntry.texts_afterRefused (entry : OptionEntry) (i : Option ArrayIndex)
    (value : Text) (mode : SetOptionMode) :
    (entry.afterRefused i value mode).texts.items.isSome = entry.texts.items.isSome ∧
      ((entry.afterRefused i value mode).texts = entry.texts ↔
        entry.KeepsColours i value mode) := by
  cases hval : entry.value with
  | scalar stored =>
    have hclr : entry.clearArray = entry := by rw [clearArray, hval]
    have hsm : entry.afterRefused i value mode = entry := by
      rw [afterRefused.eq_def, hclr, withColours_scalar hval]
      cases i <;> cases mode <;> rfl
    rw [hsm]
    refine ⟨rfl, fun _ => ?_, fun _ => rfl⟩
    simp [KeepsColours, hval]
  | array items =>
    have hclr : entry.clearArray.value = .array ∅ := by rw [clearArray, hval]
    have hits : entry.texts.items.isSome = true := by rw [texts, hval]; rfl
    cases i with
    | some i =>
      refine ⟨rfl, fun _ => ?_, fun _ => rfl⟩
      simp [KeepsColours, hval]
    | none =>
      cases mode with
      | replace =>
        refine ⟨?_, ?_⟩
        · rw [afterRefused, withColours_array hclr, hits]
          rfl
        · rw [afterRefused, texts_replace_iff hval]
          simp only [KeepsColours, hval]
      | append =>
        refine ⟨?_, ?_⟩
        · rw [afterRefused, withColours_array hval, hits]
          rfl
        · rw [afterRefused, texts_append_iff hval]
          simp only [KeepsColours, hval]

variable (parsers)

/-- An item of an unchecked array is not refused. -/
theorem arrayItemFromValue_string (h : query.Unchecked) (value : Text) (current : Option Text) :
    ∃ item, arrayItemFromValue parsers query (some value) current = some (.ok item) := by
  obtain ⟨hstr, hsz, hstyle⟩ := h
  have hok : ∀ text : Text, normalizeScalarValue parsers query (some text) none =
      some (.ok (.string text)) := by
    intro text
    rw [normalizeScalarValue, hstr]
    exact (if_neg fun h => hsz h.1).trans (if_neg fun h => by rw [hstyle] at h; cases h.1)
  unfold arrayItemFromValue
  cases current with
  | none =>
    dsimp only
    exact ⟨_, by rw [hok]; rfl⟩
  | some current =>
    dsimp only
    split_ifs
    all_goals exact ⟨_, by rw [hok]; rfl⟩

theorem pushItems_string (h : query.Unchecked) (values : List Text) (entry : OptionEntry) :
    ∃ entry', pushItems parsers query values entry = some (.ok (), entry') := by
  induction values generalizing entry with
  | nil => exact ⟨entry, rfl⟩
  | cons value values ih =>
    obtain ⟨item, hitem⟩ := arrayItemFromValue_string parsers h value none
    obtain ⟨entry', h⟩ := ih (entry.setArrayItem entry.nextArrayIndex item query.separator)
    exact ⟨entry', by rw [pushItems, hitem]; exact h⟩

theorem applyArrayMutation_string (h : query.Unchecked) (entry : OptionEntry) (value : Text)
    (mode : SetOptionMode) (current : Option Text) :
    ∃ entry', applyArrayMutation parsers entry query value mode current =
      some (.ok (), entry') := by
  rw [applyArrayMutation.eq_def]
  cases query.index with
  | some i =>
    cases mode with
    | replace =>
      obtain ⟨item, hitem⟩ := arrayItemFromValue_string parsers h value none
      exact ⟨_, by simp only [hitem]; rfl⟩
    | append =>
      obtain ⟨item, hitem⟩ := arrayItemFromValue_string parsers h value current
      exact ⟨_, by simp only [hitem]; rfl⟩
  | none =>
    cases mode <;> exact pushItems_string parsers h _ _

end Colours

/-! ## Refused changes -/

namespace OptionStore

variable {store store' : OptionStore}

theorem lookup_of_entryAt
    (h : ∀ scope name, store'.entryAt scope name = store.entryAt scope name) (l : OptionLookup) :
    store'.lookup l = store.lookup l :=
  lookup_congr (fun scope name => by rw [textsAt, textsAt, h]) l

/-- A written entry of `pane-colours` is seen unless it shows the texts of the one before. -/
theorem lookup_of_writes {scope : OptionScopeSelector} {entry : OptionEntry}
    (h : store.Writes store' scope paneColours entry)
    (hkind : ∀ old, store.entryAt scope paneColours = some old →
      entry.texts.items.isSome = old.texts.items.isSome) : (∀ l, store'.lookup l = store.lookup l) ↔
      ∃ old, store.entryAt scope paneColours = some old ∧ entry.texts = old.texts := by
  have hent : store'.entryAt scope paneColours = some entry := by
    rw [h, if_pos ⟨rfl, rfl⟩]
  constructor
  · intro hlk
    have hval := textsAt_of_lookup hlk scope
    simp only [textsAt, hent, map_some, bind_some] at hval
    cases hold : store.entryAt scope paneColours with
    | none =>
      have hn := hval none
      rw [hold] at hn
      cases hits : entry.texts.items <;> simp [EntryTexts.valueAt] at hn
    | some old =>
      refine ⟨old, rfl, ?_⟩
      simp only [hold, map_some, bind_some] at hval
      exact EntryTexts.ext_valueAt (hkind old hold) hval
  · rintro ⟨old, hold, htexts⟩
    refine lookup_congr fun scope' name => ?_
    rw [textsAt, textsAt, h]
    split_ifs with hhere
    · rw [hhere.1, hhere.2, hold, map_some, map_some, htexts]
    · rfl

variable {parsers : ScalarParsers} {scope : OptionScopeSelector} {name : Text}
  {value : Option Text} {mode : SetOptionMode} {onlyIfUnset unset unsetPaneOverrides : Bool}
  {error : OptionError} {query : OptionQuery}

/-- A refused call stops at its name, at its value, or in `setQuery` or `unsetQuery`. -/
theorem setByName_error_cases
    (h : store.setByName parsers scope name value mode onlyIfUnset unset unsetPaneOverrides =
      some (.error error, store')) : store' = store ∧ (∀ query, resolveOptionName name = .ok query →
        unset = false ∧ query.isArray = false) ∨
      ∃ query, resolveOptionName name = .ok query ∧
        (unset = true ∧ store.unsetQuery parsers scope query onlyIfUnset =
            some (.error error, store') ∨
          unset = false ∧ store.setQuery parsers scope query value mode onlyIfUnset =
            some (.error error, store')) := by
  rw [setByName] at h
  cases hnm : resolveOptionName name with
  | error error' =>
    rw [hnm] at h
    cases h
    exact .inl ⟨rfl, fun query hquery => by cases hquery⟩
  | ok query =>
    rw [hnm] at h
    obtain ⟨valid, hvalid, h⟩ := bind_eq_some_iff.mp h
    cases valid with
    | error error' =>
      cases h
      refine .inl ⟨rfl, fun query' hquery => ?_⟩
      cases hquery
      rw [validateQueryMutation] at hvalid
      by_cases hsc : (!unset && !query.isArray) = true
      · simpa using hsc
      · rw [if_neg hsc] at hvalid
        cases hvalid
    | ok _ =>
      refine .inr ⟨query, rfl, ?_⟩
      cases unset
      all_goals
        obtain ⟨⟨result, store₁⟩, hc, h⟩ := bind_eq_some_iff.mp h
        cases result with
        | ok outcome =>
          split at h
          · split_ifs at h <;> cases h
          · cases h
        | error error' =>
          cases h
          simpa using hc

theorem setQuery_error_keeps_iff (hnm : resolveOptionName name = .ok query)
    (h : store.setQuery parsers scope query value mode onlyIfUnset = some (.error error, store')) :
    (∀ l, store'.lookup l = store.lookup l) ↔
      (query.name = paneColours →
        ¬(onlyIfUnset = true ∧ (store.explicitValueForScope scope query).isSome) →
        ∃ entry, store.entryAt scope paneColours = some entry ∧
          entry.KeepsColours query.index (value.getD []) mode) := by
  rcases setQuery_error h with ⟨hwhy, hsm⟩ | ⟨⟨harr, hfree⟩, defaultEntry, entry, hap, hwrites⟩
  · refine ⟨fun _ hcols hfree => ?_, fun _ => lookup_of_entryAt hsm⟩
    rcases hwhy with hsc | hset
    · rw [(paneColours_query hnm hcols).1] at hsc
      cases hsc
    · exact absurd hset hfree
  · have hcols : query.name = paneColours := by
      rcases array_query_cases hnm harr with hcols | hunchecked
      · exact hcols
      · obtain ⟨entry', hok⟩ := applyArrayMutation_string parsers hunchecked
          (arrayEntry (store.nodeForExactScopeMut scope).1 query scope defaultEntry)
          (value.getD []) mode (store.explicitValueForScope scope query)
        rw [hok] at hap
        cases hap
    obtain ⟨-, hcol, hsep⟩ := paneColours_query hnm hcols
    have hrefused := eq_afterRefused hcol hsep hap
    rw [hcols] at hwrites
    -- an entry that exists is the one that is changed
    have hst : ∀ old, store.entryAt scope paneColours = some old →
        arrayEntry (store.nodeForExactScopeMut scope).1 query scope defaultEntry = old := by
      intro old hold
      rw [arrayEntry, hcols, entry_nodeForExactScopeMut, hold]
      rfl
    rw [lookup_of_writes hwrites fun old hold => by
      rw [hrefused, hst old hold]
      exact (old.texts_afterRefused _ _ _).1]
    constructor
    · rintro ⟨old, hold, htexts⟩ - -
      rw [hrefused, hst old hold] at htexts
      exact ⟨old, hold, (old.texts_afterRefused _ _ _).2.mp htexts⟩
    · intro hkeeps
      obtain ⟨old, hold, hold'⟩ := hkeeps hcols hfree
      refine ⟨old, hold, ?_⟩
      rw [hrefused, hst old hold]
      exact (old.texts_afterRefused _ _ _).2.mpr hold'

/-- A refused change is seen by no lookup unless it sets `pane-colours`, is not refused as being set
already, and there is no entry at the scope or one whose texts the accepted colours change. -/
theorem setByName_error_keeps_iff
    (h : store.setByName parsers scope name value mode onlyIfUnset unset unsetPaneOverrides =
      some (.error error, store')) :
    (∀ l, store'.lookup l = store.lookup l) ↔
      ∀ query, resolveOptionName name = .ok query → query.name = paneColours → unset = false →
        ¬(onlyIfUnset = true ∧ (store.explicitValueForScope scope query).isSome) →
        ∃ entry, store.entryAt scope paneColours = some entry ∧
          entry.KeepsColours query.index (value.getD []) mode := by
  rcases setByName_error_cases h with
    ⟨rfl, hscalar⟩ | ⟨query, hname, ⟨hunset, hcall⟩ | ⟨hunset, hcall⟩⟩
  · refine ⟨fun _ query hname hcolours => ?_, fun _ _ => rfl⟩
    have harray := (paneColours_query hname hcolours).1
    rw [(hscalar query hname).2] at harray
    cases harray
  · refine ⟨fun _ _ _ _ hset => ?_, fun _ => lookup_of_entryAt (unsetQuery_error hcall)⟩
    rw [hunset] at hset
    cases hset
  · rw [setQuery_error_keeps_iff hname hcall]
    constructor
    · rintro hkeeps query' hname' hcolours - hfree
      rw [hname] at hname'
      cases hname'
      exact hkeeps hcolours hfree
    · intro hkeeps hcolours hfree
      exact hkeeps query hname hcolours hunset hfree

/-- Readers that take every text. -/
def plainParsers : ScalarParsers := ⟨fun key => some (some key), fun _ => some true,
  fun command => some (.ok command)⟩

def workWindow : WindowTarget := ⟨⟨"work".toList⟩, 0⟩

/-- `set-option -w pane-colours red,bogus` in an empty store is refused, and `red` is set. -/
theorem setByName_error_sets_colour :
    ∃ store', OptionStore.new.setByName plainParsers (.window workWindow) paneColours
        (some "red,bogus".toList) .replace false false false =
          some (.error (.invalidSetOption "pane-colours expects a colour value".toList), store') ∧
      OptionStore.new.lookup (.explicitValueByName (.window workWindow) paneColours) =
        .explicit (.ok (paneColours, none)) ∧
      store'.lookup (.explicitValueByName (.window workWindow) paneColours) =
        .explicit (.ok (paneColours, some "red".toList)) := by
  have hrun : ((OptionStore.new.setByName plainParsers (.window workWindow) paneColours
      (some "red,bogus".toList) .replace false false false).map fun r =>
        (r.1, r.2.explicitValueByName (.window workWindow) paneColours)) =
      some (.error (.invalidSetOption "pane-colours expects a colour value".toList),
        .ok (paneColours, some "red".toList)) := by
    simp only [setByName, explicitValueByName,
      resolveOptionName_paneColours splitArrayIndexTyped_paneColours]
    decide +kernel
  have hnew : OptionStore.new.explicitValueByName (.window workWindow) paneColours =
      .ok (paneColours, none) := by
    rw [explicitValueByName, resolveOptionName_paneColours splitArrayIndexTyped_paneColours]
    rfl
  obtain ⟨⟨result, store'⟩, hcall, heq⟩ := map_eq_some_iff.mp hrun
  simp only [Prod.mk.injEq] at heq
  exact ⟨store', by rw [hcall, heq.1], congrArg OptionAnswer.explicit hnew,
    congrArg OptionAnswer.explicit heq.2⟩

/-- A window whose panes have one colour. -/
def redStore : OptionStore :=
  { OptionStore.new with
    windows := AList.singleton workWindow
      ⟨AList.singleton paneColours
        ⟨paneColours, none, .window workWindow, .colour,
          .array ((∅ : OrderedMap ArrayIndex ArrayItem).insert 0 (colourItem "red".toList)), "red".toList⟩⟩ }

/-- A bad second colour is refused, and no lookup sees it. -/
theorem setByName_error_keeps_red :
    ∃ error store', redStore.setByName plainParsers (.window workWindow) (indexedName 1)
        (some "bogus".toList) .replace false false false = some (.error error, store') ∧
      ∀ l, store'.lookup l = redStore.lookup l := by
  have hrun : ((redStore.setByName plainParsers (.window workWindow) (indexedName 1)
      (some "bogus".toList) .replace false false false).map fun r => r.1) =
      some (.error (.invalidSetOption "pane-colours expects a colour value".toList)) := by
    simp only [setByName, resolveOptionName_paneColours (splitArrayIndexTyped_indexedName 1)]
    decide +kernel
  obtain ⟨⟨result, store'⟩, hcall, rfl⟩ := map_eq_some_iff.mp hrun
  refine ⟨_, store', hcall, (setByName_error_keeps_iff hcall).mpr fun query hname _ _ _ => ?_⟩
  rw [resolveOptionName_paneColours (splitArrayIndexTyped_indexedName 1)] at hname
  cases hname
  exact ⟨_, rfl, trivial⟩

end OptionStore

end Rmux
