import Mathlib.Data.List.AList
import Mathlib.Order.Fin.Basic
import Rmux.Identity
import Rmux.OptionTable
import Rmux.OrderedMap
import Rmux.Window

/-!
# Hooks

Commands that run on an event. The hooks of an event are looked for at a session, a window or a
pane, and then at a global root. A deferred dispatch resolves an event in an earlier copy of the
store, and takes the one-shots it consumed from the store itself (`HookStore.dispatchDeferredFrom`).

An entry carries the number of the call that set it. The code keeps no such number : it says which
entry is which.
-/

namespace Rmux

/-! ## Events -/

/-- The events. -/
inductive HookName
  | clientAttached | clientDetached | clientSessionChanged | sessionCreated | sessionClosed
  | sessionRenamed | sessionWindowChanged | windowLinked | windowUnlinked | windowRenamed
  | windowLayoutChanged | windowPaneChanged | paneExited | paneModeChanged | pasteBufferChanged
  | pasteBufferDeleted | afterSelectWindow | afterSelectPane | afterSendKeys | afterSetOption
  | afterBindKey | afterCapturePane | afterCopyMode | afterDisplayMessage | afterDisplayPanes
  | afterKillPane | afterListBuffers | afterListClients | afterListKeys | afterListPanes
  | afterListSessions | afterListWindows | afterLoadBuffer | afterLockServer | afterNewSession
  | afterNewWindow | afterPasteBuffer | afterPipePane | afterQueue | afterRefreshClient
  | afterRenameSession | afterRenameWindow | afterResizePane | afterResizeWindow | afterSaveBuffer
  | afterSelectLayout | afterSetBuffer | afterSetEnvironment | afterSetHook | afterShowEnvironment
  | afterShowMessages | afterShowOptions | afterSplitWindow | afterUnbindKey | alertActivity
  | alertBell | alertSilence | clientActive | clientFocusIn | clientFocusOut | clientResized
  | clientLightTheme | clientDarkTheme | commandError | paneDied | paneFocusIn | paneFocusOut
  | paneSetClipboard | paneTitleChanged | windowResized
deriving DecidableEq

/-- At what scopes the hooks of an event are looked for, before the global root. -/
inductive HookClass
  | session
  | window
  | pane
deriving DecidableEq

def hookClass : HookName → HookClass
  | .windowLayoutChanged | .windowPaneChanged | .windowRenamed | .windowResized => .window
  | .paneDied | .paneExited | .paneFocusIn | .paneFocusOut | .paneModeChanged | .paneSetClipboard
  | .paneTitleChanged => .pane
  | _ => .session

/-- The two global roots. -/
inductive HookGlobalRoot
  | session
  | window
deriving DecidableEq

def rootForHook (hook : HookName) : HookGlobalRoot :=
  match hookClass hook with
  | .session => .session
  | .window | .pane => .window

/-- A scope, with windows and panes given by their place. -/
inductive ScopeSelector
  | global
  | session (name : SessionName)
  | window (target : WindowTarget)
  | pane (target : PaneTarget)
deriving DecidableEq

/-- A scope after its target has been resolved. -/
inductive HookScopeIdentity
  | global
  | session (name : SessionName)
  | window (name : SessionName) (windowId : WindowId)
  | pane (name : SessionName) (windowId : WindowId) (paneId : PaneId)
deriving DecidableEq

def HookScopeIdentity.sessionName : HookScopeIdentity → Option SessionName
  | .global => none
  | .session name | .window name _ | .pane name _ _ => some name

def PaneTarget.windowTarget (target : PaneTarget) : WindowTarget :=
  ⟨target.sessionName, target.windowIndex⟩

/-! ## Arrays of commands -/

/-- A one-shot goes once it has been dispatched. -/
inductive HookLifecycle
  | persistent
  | oneShot
deriving DecidableEq

/-- An entry of a hook. -/
structure RegisteredHook where
  command : Text
  lifecycle : HookLifecycle
  /-- The number of the call that set the entry. -/
  call : ℕ
deriving DecidableEq

/-- What a dispatch returns of an entry : all that it holds. -/
abbrev HookDispatch := RegisteredHook

/-- Where in the array an entry is set. -/
structure HookSetOptions where
  append : Bool
  index : Option ArrayIndex
deriving DecidableEq

/-- The entries of a hook by their index. -/
structure HookArray where
  entries : OrderedMap ArrayIndex RegisteredHook

namespace HookArray

variable (array : HookArray)

def isEmpty : Bool := array.entries.entries.isEmpty

/-- The index after the greatest one. -/
def nextIndex : ArrayIndex :=
  match array.entries.keys.getLast? with
  | none => 0
  | some maxKey =>
    if h : maxKey.val + 1 < 4294967296 then ⟨maxKey.val + 1, h⟩
    else
      -- the greatest index is in use : take the first that is not
      (((List.finRange 4294967295).map Fin.castSucc).find? fun index =>
        decide (index ∉ array.entries)).getD (Fin.last _)

/-- Append an entry, write the one of an index, or replace all. -/
def set (registered : RegisteredHook) (options : HookSetOptions) : ArrayIndex × HookArray :=
  match options.append, options.index with
  | true, none => (array.nextIndex, ⟨array.entries.insert array.nextIndex registered⟩)
  | _, some index => (index, ⟨array.entries.insert index registered⟩)
  | false, none => (0, ⟨(∅ : OrderedMap ArrayIndex RegisteredHook).insert 0 registered⟩)

/-- Drop the entry of an index, or all. -/
def unset : Option ArrayIndex → HookArray
  | some index => ⟨array.entries.erase index⟩
  | none => ⟨∅⟩

def command : Option Text := array.entries.entries.head?.map fun e => e.2.command

def oneShotIndices : List ArrayIndex :=
  array.entries.entries.filterMap fun e =>
    if e.2.lifecycle = .oneShot then some e.1 else none

/-- All commands in the order of their indices. The one-shots go. -/
def dispatch : List HookDispatch × HookArray :=
  (array.entries.entries.map Prod.snd,
    ⟨array.oneShotIndices.foldl OrderedMap.erase array.entries⟩)

end HookArray

/-! ## The hooks of one scope -/

/-- The hooks of one scope. -/
structure HookBindings where
  hooks : AList fun _ : HookName => HookArray

namespace HookBindings

def empty : HookBindings := ⟨∅⟩

variable (bindings : HookBindings)

def isEmpty : Bool := bindings.hooks.entries.isEmpty

def set (hook : HookName) (registered : RegisteredHook) (options : HookSetOptions) :
    ArrayIndex × HookBindings :=
  let (index, array) := ((bindings.hooks.lookup hook).getD ⟨∅⟩).set registered options
  (index, ⟨bindings.hooks.insert hook array⟩)

/-- Put a changed array back, or drop it with its last entry. -/
def store (hook : HookName) (array : HookArray) : HookBindings :=
  if array.isEmpty then ⟨bindings.hooks.erase hook⟩ else ⟨bindings.hooks.insert hook array⟩

def unset (hook : HookName) (index : Option ArrayIndex) : HookBindings :=
  match bindings.hooks.lookup hook with
  | some array => bindings.store hook (array.unset index)
  | none => bindings

def command (hook : HookName) : Option Text :=
  (bindings.hooks.lookup hook).bind HookArray.command

def dispatch (hook : HookName) : List HookDispatch × HookBindings :=
  match bindings.hooks.lookup hook with
  | some array => (array.dispatch.1, bindings.store hook array.dispatch.2)
  | none => ([], bindings)

def oneShotIndices (hook : HookName) : List ArrayIndex :=
  match bindings.hooks.lookup hook with
  | some array => array.oneShotIndices
  | none => []

end HookBindings

/-! ## Hooks by key -/

/-- The hooks of all sessions, windows or panes with own ones. -/
abbrev HookScopes (K : Type) := AList fun _ : K => HookBindings

namespace HookScopes

variable {K : Type} [DecidableEq K] (scopes : HookScopes K) (key : K)

/-- Put changed bindings back, or drop them with their last hook. -/
def store (bindings : HookBindings) : HookScopes K :=
  if bindings.isEmpty then scopes.erase key else scopes.insert key bindings

def unset (hook : HookName) (index : Option ArrayIndex) : HookScopes K :=
  match scopes.lookup key with
  | some bindings => store scopes key (bindings.unset hook index)
  | none => scopes

def dispatch (hook : HookName) : List HookDispatch × HookScopes K :=
  match scopes.lookup key with
  | some bindings => ((bindings.dispatch hook).1, store scopes key (bindings.dispatch hook).2)
  | none => ([], scopes)

def set (hook : HookName) (registered : RegisteredHook) (options : HookSetOptions) :
    ArrayIndex × HookScopes K :=
  let (index, bindings) := ((scopes.lookup key).getD .empty).set hook registered options
  (index, scopes.insert key bindings)

def command (hook : HookName) : Option Text := (scopes.lookup key).bind fun b => b.command hook

def oneShotIndices (hook : HookName) : List ArrayIndex :=
  match scopes.lookup key with
  | some bindings => bindings.oneShotIndices hook
  | none => []

end HookScopes

/-! ## The store -/

/-- Hooks of windows and panes are kept under the place a window or pane has, or, once it is known,
under its identity. The aliases say which places have which identity. -/
structure HookStore where
  sessionGlobal : HookBindings
  windowGlobal : HookBindings
  sessions : HookScopes SessionName
  windows : HookScopes WindowTarget
  panes : HookScopes PaneTarget
  windowsById : HookScopes WindowId
  panesById : HookScopes PaneId
  windowAliases : AList fun _ : WindowTarget => WindowId
  paneAliases : AList fun _ : PaneTarget => WindowId × PaneId

namespace HookStore

def new : HookStore := ⟨.empty, .empty, ∅, ∅, ∅, ∅, ∅, ∅, ∅⟩

variable (store : HookStore)

def globalBindings : HookGlobalRoot → HookBindings
  | .session => store.sessionGlobal
  | .window => store.windowGlobal

def setGlobalBindings (bindings : HookBindings) : HookGlobalRoot → HookStore
  | .session => { store with sessionGlobal := bindings }
  | .window => { store with windowGlobal := bindings }

def paneIdAt (target : PaneTarget) : Option PaneId :=
  (store.paneAliases.lookup target).map Prod.snd

variable (scope : ScopeSelector)

/-- Set a hook. The scope is never refused. -/
def setWithOptions (hook : HookName) (registered : RegisteredHook) (options : HookSetOptions) :
    ArrayIndex × HookStore :=
  match scope with
  | .global =>
    let (index, bindings) := (store.globalBindings (rootForHook hook)).set hook registered options
    (index, store.setGlobalBindings bindings (rootForHook hook))
  | .session name =>
    let (index, sessions) := store.sessions.set name hook registered options
    (index, { store with sessions })
  | .window target =>
    match store.windowAliases.lookup target with
    | some windowId =>
      let (index, windowsById) := store.windowsById.set windowId hook registered options
      (index, { store with windowsById })
    | none =>
      let (index, windows) := store.windows.set target hook registered options
      (index, { store with windows })
  | .pane target =>
    match store.paneIdAt target with
    | some paneId =>
      let (index, panesById) := store.panesById.set paneId hook registered options
      (index, { store with panesById })
    | none =>
      let (index, panes) := store.panes.set target hook registered options
      (index, { store with panes })

/-- Drop an entry or all of a hook, under the identity of the place if it is known. -/
def unset (hook : HookName) (index : Option ArrayIndex) : HookStore :=
  match scope with
  | .global =>
    store.setGlobalBindings ((store.globalBindings (rootForHook hook)).unset hook index)
      (rootForHook hook)
  | .session name => { store with sessions := store.sessions.unset name hook index }
  | .window target =>
    match store.windowAliases.lookup target with
    | some windowId => { store with windowsById := store.windowsById.unset windowId hook index }
    | none => { store with windows := store.windows.unset target hook index }
  | .pane target =>
    match store.paneIdAt target with
    | some paneId => { store with panesById := store.panesById.unset paneId hook index }
    | none => { store with panes := store.panes.unset target hook index }

/-- The hooks of the slot come before those of the window in it. -/
def windowCommand (target : WindowTarget) (hook : HookName) : Option Text :=
  store.windows.command target hook <|> do
    store.windowsById.command (← store.windowAliases.lookup target) hook

/-- The hooks of the place come before those of the pane in it. -/
def paneCommand (target : PaneTarget) (hook : HookName) : Option Text :=
  store.panes.command target hook <|> do
    store.panesById.command (← store.paneIdAt target) hook

/-! ## Dispatch by scope -/

/-- Run the hooks of a global table. -/
def dispatchGlobal (hook : HookName) (root : HookGlobalRoot) : List HookDispatch × HookStore :=
  let (dispatches, bindings) := (store.globalBindings root).dispatch hook
  (dispatches, store.setGlobalBindings bindings root)

/-- The hooks of the place if it has any, else those of its identity. What is left empty is dropped
under the identity if there is one. -/
def dispatchPlace {K I : Type} [DecidableEq K] [DecidableEq I] (places : HookScopes K)
    (byId : HookScopes I) (target : K) (identity : Option I) (hook : HookName) :
    List HookDispatch × HookScopes K × HookScopes I :=
  let drop (left : HookBindings) (places : HookScopes K) (byId : HookScopes I) :
      HookScopes K × HookScopes I :=
    if left.isEmpty then
      match identity with
      | some id => (places, byId.erase id)
      | none => (places.erase target, byId)
    else (places, byId)
  match places.lookup target with
  | some bindings =>
    let (dispatches, left) := bindings.dispatch hook
    (dispatches, drop left (places.insert target left) byId)
  | none =>
    match identity with
    | some id =>
      match byId.lookup id with
      | some bindings =>
        let (dispatches, left) := bindings.dispatch hook
        (dispatches, drop left places (byId.insert id left))
      | none => ([], places, byId)
    | none => ([], places, byId)

def scopeSessionName : ScopeSelector → Option SessionName
  | .session name => some name
  | .window target => some target.sessionName
  | .pane target => some target.sessionName
  | .global => none

def scopeWindowTarget : ScopeSelector → Option WindowTarget
  | .window target => some target
  | .pane target => some target.windowTarget
  | .global | .session _ => none

/-- Run the hooks of the session, the global ones if it has none. -/
def dispatchSession (hook : HookName) : List HookDispatch × HookStore :=
  match scopeSessionName scope with
  | some name =>
    let (dispatches, sessions) := store.sessions.dispatch name hook
    let store := { store with sessions }
    if dispatches = [] then store.dispatchGlobal hook .session else (dispatches, store)
  | none => store.dispatchGlobal hook .session

/-- Run the hooks of the window, the global ones if it has none. -/
def dispatchWindow (hook : HookName) : List HookDispatch × HookStore :=
  match scopeWindowTarget scope with
  | some target =>
    let (dispatches, windows, windowsById) := dispatchPlace store.windows store.windowsById target
      (store.windowAliases.lookup target) hook
    let store := { store with windows, windowsById }
    if dispatches = [] then store.dispatchGlobal hook .window else (dispatches, store)
  | none => store.dispatchGlobal hook .window

/-- Run the hooks of the pane, those of its window if it has none. -/
def dispatchPane (hook : HookName) : List HookDispatch × HookStore :=
  match scope with
  | .pane target =>
    let (dispatches, panes, panesById) := dispatchPlace store.panes store.panesById target
      (store.paneIdAt target) hook
    let store := { store with panes, panesById }
    if dispatches = [] then store.dispatchWindow scope hook else (dispatches, store)
  | _ => store.dispatchWindow scope hook

/-- The class of the hook says where the search begins. -/
def dispatch (hook : HookName) : List HookDispatch × HookStore :=
  match hookClass hook with
  | .session => store.dispatchSession scope hook
  | .window => store.dispatchWindow scope hook
  | .pane => store.dispatchPane scope hook

/-! ## Scopes by identity -/

/-- Set a hook of a window or a pane wherever it is. -/
def setWithIdentity (scope : HookScopeIdentity) (hook : HookName) (registered : RegisteredHook)
    (options : HookSetOptions) : ArrayIndex × HookStore :=
  match scope with
  | .global =>
    let (index, bindings) := (store.globalBindings (rootForHook hook)).set hook registered options
    (index, store.setGlobalBindings bindings (rootForHook hook))
  | .session name =>
    let (index, sessions) := store.sessions.set name hook registered options
    (index, { store with sessions })
  | .window _ windowId =>
    let (index, windowsById) := store.windowsById.set windowId hook registered options
    (index, { store with windowsById })
  | .pane _ _ paneId =>
    let (index, panesById) := store.panesById.set paneId hook registered options
    (index, { store with panesById })

def unsetWithIdentity (scope : HookScopeIdentity) (hook : HookName) (index : Option ArrayIndex) :
    HookStore :=
  match scope with
  | .global =>
    store.setGlobalBindings ((store.globalBindings (rootForHook hook)).unset hook index)
      (rootForHook hook)
  | .session name => { store with sessions := store.sessions.unset name hook index }
  | .window _ windowId =>
    { store with windowsById := store.windowsById.unset windowId hook index }
  | .pane _ _ paneId => { store with panesById := store.panesById.unset paneId hook index }

def identityWindowId : HookScopeIdentity → Option WindowId
  | .window _ windowId | .pane _ windowId _ => some windowId
  | .global | .session _ => none

def dispatchIdentitySession (scope : HookScopeIdentity) (hook : HookName) :
    List HookDispatch × HookStore :=
  match scope.sessionName with
  | some name =>
    let (dispatches, sessions) := store.sessions.dispatch name hook
    let store := { store with sessions }
    if dispatches = [] then store.dispatchGlobal hook .session else (dispatches, store)
  | none => store.dispatchGlobal hook .session

def dispatchIdentityWindow (scope : HookScopeIdentity) (hook : HookName) :
    List HookDispatch × HookStore :=
  match identityWindowId scope with
  | some windowId =>
    let (dispatches, windowsById) := store.windowsById.dispatch windowId hook
    let store := { store with windowsById }
    if dispatches = [] then store.dispatchGlobal hook .window else (dispatches, store)
  | none => store.dispatchGlobal hook .window

def dispatchIdentityPane (scope : HookScopeIdentity) (hook : HookName) :
    List HookDispatch × HookStore :=
  match scope with
  | .pane _ _ paneId =>
    let (dispatches, panesById) := store.panesById.dispatch paneId hook
    let store := { store with panesById }
    if dispatches = [] then store.dispatchIdentityWindow scope hook else (dispatches, store)
  | _ => store.dispatchIdentityWindow scope hook

def dispatchWithIdentity (scope : HookScopeIdentity) (hook : HookName) :
    List HookDispatch × HookStore :=
  match hookClass hook with
  | .session => store.dispatchIdentitySession scope hook
  | .window => store.dispatchIdentityWindow scope hook
  | .pane => store.dispatchIdentityPane scope hook

/-! ## Resolution -/

def oneShotIndicesForExactScope (hook : HookName) : List ArrayIndex :=
  match scope with
  | .global => (store.globalBindings (rootForHook hook)).oneShotIndices hook
  | .session name => store.sessions.oneShotIndices name hook
  | .window target =>
    match store.windows.lookup target with
    | some bindings => bindings.oneShotIndices hook
    | none =>
      match store.windowAliases.lookup target with
      | some windowId => store.windowsById.oneShotIndices windowId hook
      | none => []
  | .pane target =>
    match store.panes.lookup target with
    | some bindings => bindings.oneShotIndices hook
    | none =>
      match store.paneIdAt target with
      | some paneId => store.panesById.oneShotIndices paneId hook
      | none => []

/-- The scope whose own hooks come before the global ones. -/
def localScope (hook : HookName) : Option ScopeSelector :=
  match hookClass hook with
  | .session => (scopeSessionName scope).map .session
  | .window => (scopeWindowTarget scope).map .window
  | .pane =>
    match scope with
    | .pane target => some (.pane target)
    | .global | .session _ | .window _ => none

def scopeHasBinding (hook : HookName) : Bool :=
  match scope with
  | .session name => (store.sessions.command name hook).isSome
  | .window target => (store.windowCommand target hook).isSome
  | .pane target => (store.paneCommand target hook).isSome
  | .global => false

/-- The scope a dispatch is taken to come from, and its one-shots. -/
def resolvedDispatchBinding (hook : HookName) : ScopeSelector × List ArrayIndex :=
  match localScope scope hook with
  | some own =>
    if store.scopeHasBinding own hook then (own, store.oneShotIndicesForExactScope own hook)
    else (.global, store.oneShotIndicesForExactScope .global hook)
  | none => (.global, store.oneShotIndicesForExactScope .global hook)

def identityScopeHasBinding (scope : HookScopeIdentity) (hook : HookName) : Bool :=
  match scope with
  | .global => ((store.globalBindings (rootForHook hook)).command hook).isSome
  | .session name => (store.sessions.command name hook).isSome
  | .window _ windowId => (store.windowsById.command windowId hook).isSome
  | .pane _ _ paneId => (store.panesById.command paneId hook).isSome

def oneShotIndicesForIdentity (scope : HookScopeIdentity) (hook : HookName) : List ArrayIndex :=
  match scope with
  | .global => (store.globalBindings (rootForHook hook)).oneShotIndices hook
  | .session name => store.sessions.oneShotIndices name hook
  | .window _ windowId => store.windowsById.oneShotIndices windowId hook
  | .pane _ _ paneId => store.panesById.oneShotIndices paneId hook

/-- The scopes whose own hooks come before the global ones. -/
def localIdentities (scope : HookScopeIdentity) (hook : HookName) : List HookScopeIdentity :=
  match hookClass hook with
  | .session => (scope.sessionName.map .session).toList
  | .window =>
    match scope with
    | .window name windowId | .pane name windowId _ => [.window name windowId]
    | .global | .session _ => []
  | .pane =>
    match scope with
    | .pane name windowId paneId => [.pane name windowId paneId, .window name windowId]
    | .global | .session _ | .window _ _ => []

def resolvedIdentityBinding (scope : HookScopeIdentity) (hook : HookName) :
    HookScopeIdentity × List ArrayIndex :=
  let resolved := ((localIdentities scope hook).find? fun own =>
    store.identityScopeHasBinding own hook).getD .global
  (resolved, store.oneShotIndicesForIdentity resolved hook)

/-- Run the hooks of the identities if there are any, else those of the places. -/
def dispatchWithIdentityOrScope (identity : HookScopeIdentity) (scope : ScopeSelector)
    (hook : HookName) : List HookDispatch × HookStore :=
  if (store.resolvedIdentityBinding identity hook).1 ≠ .global then
    store.dispatchWithIdentity identity hook
  else if (store.resolvedDispatchBinding scope hook).1 ≠ .global then store.dispatch scope hook
  else store.dispatchWithIdentity identity hook

/-! ## Deferred dispatch -/

/-- Dispatch from `snapshot`, and take the one-shots out of the store. The store comes before the
snapshot. -/
def dispatchDeferredFrom (snapshot : HookStore) (scope : ScopeSelector) (hook : HookName) :
    List HookDispatch × HookStore × HookStore :=
  let (resolvedScope, oneShots) := snapshot.resolvedDispatchBinding scope hook
  let (dispatches, snapshot) := snapshot.dispatch scope hook
  if dispatches = [] then (dispatches, store, snapshot)
  else
    (dispatches, oneShots.foldl (fun store index => store.unset resolvedScope hook (some index)) store,
      snapshot)

/-- The same for identities. -/
def dispatchDeferredWithIdentity (snapshot : HookStore) (scope : HookScopeIdentity)
    (hook : HookName) : List HookDispatch × HookStore × HookStore :=
  let (resolvedScope, oneShots) := snapshot.resolvedIdentityBinding scope hook
  let (dispatches, snapshot) := snapshot.dispatchWithIdentity scope hook
  if dispatches = [] then (dispatches, store, snapshot)
  else
    (dispatches,
      oneShots.foldl (fun store index => store.unsetWithIdentity resolvedScope hook (some index))
        store,
      snapshot)

def dispatchDeferredWithIdentityOrScope (snapshot : HookStore) (identity : HookScopeIdentity)
    (scope : ScopeSelector) (hook : HookName) : List HookDispatch × HookStore × HookStore :=
  if (snapshot.resolvedIdentityBinding identity hook).1 ≠ .global then
    store.dispatchDeferredWithIdentity snapshot identity hook
  else if (snapshot.resolvedDispatchBinding scope hook).1 ≠ .global then
    store.dispatchDeferredFrom snapshot scope hook
  else store.dispatchDeferredWithIdentity snapshot identity hook

/-! ## Aliases -/

/-- Move the hooks of places with an identity to it, unless it has hooks of its own. -/
def adoptLegacy {K I : Type} [DecidableEq K] [DecidableEq I] (identity : K → Option I)
    (legacy : List (K × HookBindings)) (byId : HookScopes I) : HookScopes K × HookScopes I :=
  legacy.foldl (fun (places, byId) e =>
    match identity e.1 with
    | some id => (places, if id ∈ byId then byId else byId.insert id e.2)
    | none => (places.insert e.1 e.2, byId)) (∅, byId)

def retainKeys {I : Type} [DecidableEq I] (scopes : HookScopes I) (live : List I) : HookScopes I :=
  ⟨scopes.entries.filter fun e => e.1 ∈ live, by
    exact List.Nodup.sublist (List.filter_sublist.map _) scopes.nodupKeys⟩

/-- Drop the hooks of windows and panes that are gone. -/
def retainIdentities (windowIds : List WindowId) (paneIds : List PaneId) : HookStore :=
  { store with
    windowsById := retainKeys store.windowsById windowIds
    panesById := retainKeys store.panesById paneIds }

/-- Take over the identities of all windows and panes. The hooks kept by place are visited in the
orders given. -/
def replaceIdentityAliases (legacyWindows : List (WindowTarget × HookBindings))
    (legacyPanes : List (PaneTarget × HookBindings))
    (windowAliases : AList fun _ : WindowTarget => WindowId)
    (paneAliases : AList fun _ : PaneTarget => WindowId × PaneId) : HookStore :=
  let (windows, windowsById) := adoptLegacy windowAliases.lookup legacyWindows store.windowsById
  let (panes, panesById) := adoptLegacy (fun target => (paneAliases.lookup target).map Prod.snd)
    legacyPanes store.panesById
  let store := { store with windows, windowsById, panes, panesById }
  let store := store.retainIdentities (windowAliases.entries.map Sigma.snd)
    (paneAliases.entries.map fun e => e.2.2)
  { store with windowAliases, paneAliases }

end HookStore

end Rmux
