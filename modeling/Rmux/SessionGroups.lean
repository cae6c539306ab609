import Mathlib.Data.Char
import Mathlib.Data.List.Lex
import Rmux.Identity
import Rmux.Session

/-!
# Sessions in groups

The sessions of a group show the same windows (`session/store.rs`). A group has a name of its own,
that of the session it was first made for.

A request returns its result and the store after it, or nothing where the source panics : when the
identities are used up. A session loads the shared counter of window identities from the store
before it uses it. Timestamps and working directories are left out.
-/

namespace Rmux

open MachineInt

theorem SessionName.text_injective : Function.Injective SessionName.text := by
  rintro ⟨a⟩ ⟨b⟩ h
  exact congrArg SessionName.mk h

/-- Names are in the order of their texts. -/
instance : LinearOrder SessionName := LinearOrder.lift' SessionName.text SessionName.text_injective

def SessionName.display (name : SessionName) : String := String.ofList name.text

/-- A session with its identity and the group it is in. -/
structure GroupedSession extends Session where
  id : ℕ
  groupName : Option SessionName

def GroupedSession.sessionName (session : GroupedSession) : SessionName := ⟨session.name.toList⟩

/-- Why a request is refused. -/
inductive StoreError
  | duplicateSession (name : String)
  | sessionNotFound (name : String)
  | server (text : String)
deriving DecidableEq

/-- The sessions by name, the counters for identities, and for each group the session that owns the
processes of its panes. -/
structure GroupStore where
  sessions : OrderedMap SessionName GroupedSession
  nextSessionId : ℕ
  nextPaneId : PaneId
  nextWindowId : WindowId
  groupRuntimeOwners : OrderedMap SessionName SessionName

/-- What a new session of a group is made from. -/
structure GroupedSessionCreation where
  sessionName : SessionName
  groupName : SessionName
  templateSession : Option SessionName
  runtimeOwner : SessionName

/-- Where the windows of a new session in a group come from. -/
inductive GroupTemplate
  | existing (groupName templateSession runtimeOwner : SessionName)
  | standalone (groupName : SessionName)

/-- Any change to a session that keeps its name. -/
structure WindowChange where
  apply : Session → Session
  name_eq : ∀ session, (apply session).name = session.name

/-- A request to the store. -/
inductive GroupRequest
  | createSession (name : SessionName) (size : TerminalSize) (baseIndex : ℕ)
  | createAutoNamedSession (size : TerminalSize) (baseIndex : ℕ)
  | createGroupedSession (name : SessionName) (size : TerminalSize) (baseIndex : ℕ)
    (groupTarget : SessionName)
  | createAutoGroupedSession (size : TerminalSize) (baseIndex : ℕ) (groupTarget : SessionName)
  | renameSession (name newName : SessionName)
  | removeSession (name : SessionName)
  | allocatePaneId
  | changeWindows (name : SessionName) (change : WindowChange)

/-- The name for an automatic session. -/
def automaticName (group : Option SessionName) (sessionId : ℕ) : Text :=
  match group with
  | some group => group.text ++ '-' :: Nat.toDigits 10 sessionId
  | none => Nat.toDigits 10 sessionId

namespace GroupStore

def new : GroupStore := ⟨∅, 0, 0, 0, ∅⟩

variable (store : GroupStore) (name : SessionName) (size : TerminalSize)

def session : Option GroupedSession := store.sessions.get? name

def sessionById (id : ℕ) : Option GroupedSession :=
  (store.sessions.entries.find? fun e => e.2.id = id).map Prod.snd

/-- The sessions of a group in the order of their names. -/
def sessionsInGroup (groupName : SessionName) : List SessionName :=
  (store.sessions.entries.filter fun e => e.2.groupName = some groupName).map Prod.fst

/-- The sessions of the group of a session, itself alone if it has none. -/
def sessionGroupMembers : List SessionName :=
  match (store.session name).bind GroupedSession.groupName with
  | some groupName => store.sessionsInGroup groupName
  | none => [name]

/-! ## Identities -/

/-- The first identity from `id` on that no session has, of as many as are left. -/
def freeSessionId : ℕ → ℕ → Option ℕ
  | 0, _ => none
  | left + 1, id => if (store.sessionById id).isNone then some id else freeSessionId left (id + 1)

def allocateSessionId : Option (ℕ × GroupStore) :=
  (store.freeSessionId (u32Max + 1 - store.nextSessionId) store.nextSessionId).map fun id =>
    (id, { store with nextSessionId := satAdd id 1 })

/-- The first identity from `id` on whose name is free, of as many as are left. -/
def freeIdentity (group : Option SessionName) : ℕ → ℕ → Option (SessionName × ℕ)
  | 0, _ => none
  | left + 1, id =>
    (SessionName.new (automaticName group id)).bind fun candidate =>
      if candidate ∈ store.sessions then freeIdentity group left (id + 1) else some (candidate, id)

def nextAutomaticSessionIdentity (group : Option SessionName) : Option (SessionName × ℕ) :=
  store.freeIdentity group (u32Max + 1 - store.nextSessionId) store.nextSessionId

def allocatePaneId : PaneId × GroupStore :=
  (store.nextPaneId, { store with nextPaneId := Session.idAfter store.nextPaneId })

def allocateWindowId : Option (WindowId × GroupStore) :=
  if store.nextWindowId.toNat = u32Max then none
  else some (store.nextWindowId, { store with nextWindowId := store.nextWindowId + 1 })

/-! ## Creation -/

/-- Insert a session with one window of one pane. -/
def insertFirst (baseIndex sessionId : ℕ) (groupName : Option SessionName) : Option GroupStore :=
  let (paneId, store) := store.allocatePaneId
  store.allocateWindowId.map fun (windowId, store) =>
    let session := Session.newWithInitialWindow name.display size baseIndex paneId windowId
    { store with
      nextSessionId := max store.nextSessionId (satAdd sessionId 1)
      sessions := store.sessions.insert name
        ⟨{ session with nextWindowId := store.nextWindowId }, sessionId, groupName⟩ }

/-- Why a session cannot be inserted under a name and an identity. -/
def refusal (sessionId : ℕ) : Option StoreError :=
  if name ∈ store.sessions then some (.duplicateSession name.display)
  else if (store.sessionById sessionId).isSome then
    some (.server s!"session id {sessionId} already exists")
  else none

/-- A new session without a group. It fails if the name or the identity is taken. -/
def createSessionWithBaseIndexAndId (baseIndex sessionId : ℕ) :
    Option (Except StoreError Unit × GroupStore) :=
  match store.refusal name sessionId with
  | some error => some (.error error, store)
  | none => (store.insertFirst name size baseIndex sessionId none).map fun store => (.ok (), store)

def createSessionWithBaseIndex (baseIndex : ℕ) : Option (Except StoreError Unit × GroupStore) :=
  store.allocateSessionId.bind fun (sessionId, store) =>
    store.createSessionWithBaseIndexAndId name size baseIndex sessionId

def createAutoNamedSessionWithBaseIndex (baseIndex : ℕ) :
    Option (Except StoreError SessionName × GroupStore) :=
  (store.nextAutomaticSessionIdentity none).bind fun (name, sessionId) =>
    (store.createSessionWithBaseIndexAndId name size baseIndex sessionId).map fun (result, store) =>
      (result.map fun _ => name, store)

/-- What a new member of a group starts from : a session of the group, or a window of its own. -/
def groupTemplate (groupTarget : SessionName) : Except StoreError GroupTemplate :=
  match store.session groupTarget with
  | some source =>
    let groupName := source.groupName.getD groupTarget
    .ok (.existing groupName groupTarget
      ((store.groupRuntimeOwners.get? groupName).getD groupTarget))
  | none =>
    match store.groupRuntimeOwners.get? groupTarget with
    | some runtimeOwner =>
      if runtimeOwner ∈ store.sessions then .ok (.existing groupTarget runtimeOwner runtimeOwner)
      else
        match (store.sessionsInGroup groupTarget).head? with
        | some templateSession => .ok (.existing groupTarget templateSession runtimeOwner)
        | none => .error (.server s!"session group {groupTarget.display} has no template session")
    | none => .ok (.standalone groupTarget)

/-- Put a session without a group into one. -/
def joinGroup (source : GroupedSession) (groupName : SessionName) : GroupStore :=
  { store with
    sessions := store.sessions.insert name { source with groupName := some groupName }
    groupRuntimeOwners :=
      if groupName ∈ store.groupRuntimeOwners then store.groupRuntimeOwners
      else store.groupRuntimeOwners.insert groupName name }

/-- A new session with the windows of another one. -/
def insertClone (source : GroupedSession) (name : SessionName) (groupName : SessionName)
    (sessionId : ℕ) : GroupStore :=
  { store with
    sessions := store.sessions.insert name
      { source with
        id := sessionId
        name := name.display
        groupName := some groupName
        groupInitialWindowId := source.windows.entries.head?.map fun e => e.2.id }
    nextSessionId := max store.nextSessionId (satAdd sessionId 1) }

/-- A new session with the windows of its group. A target without a group joins it. -/
def createGroupedSessionWithBaseIndexAndId (baseIndex : ℕ) (groupTarget : SessionName)
    (sessionId : ℕ) : Option (Except StoreError GroupedSessionCreation × GroupStore) :=
  match store.refusal name sessionId with
  | some error => some (.error error, store)
  | none =>
    match store.groupTemplate groupTarget with
    | .error error => some (.error error, store)
    | .ok (.existing groupName templateSession runtimeOwner) =>
      (store.session templateSession).map fun source =>
        let joined :=
          if source.groupName.isNone then store.joinGroup templateSession source groupName
          else store
        (.ok ⟨name, groupName, some templateSession, runtimeOwner⟩,
          joined.insertClone source name groupName sessionId)
    | .ok (.standalone groupName) =>
      (store.insertFirst name size baseIndex sessionId (some groupName)).map fun store =>
        (.ok ⟨name, groupName, none, name⟩,
          { store with groupRuntimeOwners := store.groupRuntimeOwners.insert groupName name })

def createGroupedSessionWithBaseIndex (baseIndex : ℕ) (groupTarget : SessionName) :
    Option (Except StoreError GroupedSessionCreation × GroupStore) :=
  store.allocateSessionId.bind fun (sessionId, store) =>
    store.createGroupedSessionWithBaseIndexAndId name size baseIndex groupTarget sessionId

def createAutoGroupedSessionWithBaseIndex (baseIndex : ℕ) (groupTarget : SessionName) :
    Option (Except StoreError GroupedSessionCreation × GroupStore) :=
  let groupName := ((store.session groupTarget).bind GroupedSession.groupName).getD groupTarget
  (store.nextAutomaticSessionIdentity (some groupName)).bind fun (name, sessionId) =>
    store.createGroupedSessionWithBaseIndexAndId name size baseIndex groupTarget sessionId

/-! ## Removal and renaming -/

/-- Make a member of a group its owner, and forget a group without members. -/
def repairGroupRuntimeOwner (groupName : Option SessionName) : GroupStore :=
  match groupName with
  | none => store
  | some groupName =>
    let sessions := store.sessionsInGroup groupName
    match sessions with
    | [] => { store with groupRuntimeOwners := store.groupRuntimeOwners.erase groupName }
    | first :: _ =>
      let owner := ((store.groupRuntimeOwners.get? groupName).filter (· ∈ sessions)).getD first
      { store with groupRuntimeOwners := store.groupRuntimeOwners.insert groupName owner }

/-- Remove a session. Its group gets another owner if it was the owner. -/
def removeSession : Except StoreError GroupedSession × GroupStore :=
  match store.session name with
  | none => (.error (.sessionNotFound name.display), store)
  | some removed =>
    (.ok removed, { store with sessions := store.sessions.erase name }.repairGroupRuntimeOwner
      removed.groupName)

/-- Rename a session. An owner stays the owner. -/
def renameSession (newName : SessionName) : Except StoreError Unit × GroupStore :=
  match store.session name with
  | none => (.error (.sessionNotFound name.display), store)
  | some session =>
    if newName ∈ store.sessions then (.error (.duplicateSession newName.display), store)
    else
      let owners :=
        match session.groupName with
        | some groupName =>
          if store.groupRuntimeOwners.get? groupName = some name then
            store.groupRuntimeOwners.insert groupName newName
          else store.groupRuntimeOwners
        | none => store.groupRuntimeOwners
      (.ok (), { store with
        sessions := (store.sessions.erase name).insert newName
          { session with name := newName.display }
        groupRuntimeOwners := owners })

/-! ## Changes to windows -/

/-- Let a session follow the windows of another one. -/
def synchronize (source : Session) (name : SessionName) : GroupStore :=
  { store with sessions := store.sessions.modify name fun session =>
      { session with toSession := session.toSession.synchronizeGroupFrom source } }

/-- Change the windows of a session, and let the other members of its group follow. -/
def changeWindows (change : WindowChange) : GroupStore :=
  match store.session name with
  | none => store
  | some session =>
    let changed := change.apply { session.toSession with nextWindowId := store.nextWindowId }
    let store' := { store with
      sessions := store.sessions.insert name { session with toSession := changed }
      nextWindowId := changed.nextWindowId }
    ((store.sessionGroupMembers name).filter (· ≠ name)).foldl
      (fun store peer => store.synchronize changed peer) store'

/-! ## Runs -/

/-- A request; none where the source panics. -/
def step : GroupRequest → Option GroupStore
  | .createSession name size baseIndex =>
    (store.createSessionWithBaseIndex name size baseIndex).map Prod.snd
  | .createAutoNamedSession size baseIndex =>
    (store.createAutoNamedSessionWithBaseIndex size baseIndex).map Prod.snd
  | .createGroupedSession name size baseIndex groupTarget =>
    (store.createGroupedSessionWithBaseIndex name size baseIndex groupTarget).map Prod.snd
  | .createAutoGroupedSession size baseIndex groupTarget =>
    (store.createAutoGroupedSessionWithBaseIndex size baseIndex groupTarget).map Prod.snd
  | .renameSession name newName => some (store.renameSession name newName).2
  | .removeSession name => some (store.removeSession name).2
  | .allocatePaneId => some store.allocatePaneId.2
  | .changeWindows name change => some (store.changeWindows name change)

def after (requests : List GroupRequest) : Option GroupStore := requests.foldlM step new

end GroupStore

end Rmux
