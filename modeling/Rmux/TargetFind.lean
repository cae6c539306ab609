import Mathlib.Data.Char
import Mathlib.Data.List.AList
import Mathlib.Data.List.Lex
import Rmux.Session
import Rmux.TargetSyntax

/-!
# Finding a target

`SessionStore.resolveUnresolvedTarget` gives the session, window or pane that a text stands for. The
session part is an id, a name, the start of a name or a pattern, and what is missing is taken from
the context or from the active window and pane. Matches are sorted before they are counted. The
order is left out : of two matches none is taken.
-/

namespace Rmux

open MachineInt

/-- A session as it is stored. -/
structure StoredSession extends Session where
  id : UInt32
  recency : ℕ
  lastAttachedAt : Option ℤ

def StoredSession.sessionName (session : StoredSession) : SessionName := ⟨session.name.toList⟩

/-- The sessions by name, in some order. Indices are unsigned numbers of 32 bits. -/
structure SessionStore where
  sessions : AList fun _ : SessionName => StoredSession
  named : ∀ name session, sessions.lookup name = some session → session.sessionName = name
  windowIndex_le : ∀ name session, sessions.lookup name = some session →
    ∀ index ∈ session.windows, index ≤ u32Max
  paneIndex_le : ∀ name session, sessions.lookup name = some session →
    ∀ index window, session.windowAt index = some window → ∀ pane ∈ window.panes,
      pane.index ≤ u32Max

/-- What to do about an omitted target whose current target is gone. -/
inductive MissingCurrentTargetFallback
  | allowDefaultSession
  | forbidDefaultSession
deriving DecidableEq

/-- The current target, those of the mouse and the mark, and the base index of each window's panes.
-/
structure TargetFindContext where
  current : Option Target
  missingCurrentTargetFallback : MissingCurrentTargetFallback
  mouseTarget : Option Target
  markedTarget : Option Target
  paneBaseIndices : AList fun _ : SessionName × ℕ => ℕ

def TargetFindContext.paneBaseIndex (context : TargetFindContext) (sessionName : SessionName)
    (windowIndex : ℕ) : ℕ :=
  (context.paneBaseIndices.lookup (sessionName, windowIndex)).getD 0

def Target.sessionName : Target → SessionName
  | .session name => name
  | .window target => target.sessionName
  | .pane target => target.sessionName

/-- A pane by its session, window and index. -/
structure ResolvedParts where
  sessionName : SessionName
  windowIndex : ℕ
  paneIndex : ℕ
deriving DecidableEq

namespace ResolvedParts

def window (sessionName : SessionName) (windowIndex : ℕ) : ResolvedParts :=
  ⟨sessionName, windowIndex, 0⟩

def pane (sessionName : SessionName) (windowIndex paneIndex : ℕ) : ResolvedParts :=
  ⟨sessionName, windowIndex, paneIndex⟩

end ResolvedParts

def targetForType (findType : TargetFindType) (parts : ResolvedParts) : Target :=
  match findType with
  | .session => .session parts.sessionName
  | .window => .window ⟨parts.sessionName, parts.windowIndex⟩
  | .pane => .pane ⟨parts.sessionName, parts.windowIndex, parts.paneIndex⟩

/-! ## Matches -/

/-- How a name is compared. -/
inductive MatchMode
  | exactMatch
  | prefixMatch
  | patternMatch

def MatchMode.accepts (mode : MatchMode) (value name : Text) : Bool :=
  match mode with
  | .exactMatch => name = value
  | .prefixMatch => value.isPrefixOf name
  | .patternMatch => fnmatch value name

def uniqueMatch {α : Type} (found : List α) (value : Text) (kind : String) :
    Except RmuxError (Option α) :=
  if 1 < found.length then .error (invalidTargetText value ("ambiguous " ++ kind ++ " match"))
  else .ok found.head?

namespace Session

variable (session : Session)

def cyclicWindowOffset (offset : ℤ) : Option ℕ :=
  cyclicOffset session.windows.keys session.activeWindow offset

def specialWindowIndex (value : Text) : Option ℕ :=
  if value = "!".toList then session.lastWindow
  else if value = "^".toList then session.windows.keys.head?
  else if value = "$".toList then session.windows.keys.getLast?
  else none

def uniqueWindowNameMatch (value : Text) (mode : MatchMode) : Except RmuxError (Option ℕ) :=
  uniqueMatch (session.windows.entries.filterMap fun e =>
    e.2.name.bind fun name => if mode.accepts value name.toList then some e.1 else none)
    value "window"

/-- The first window with an id. -/
def windowIndexForId (windowId : WindowId) : Option ℕ :=
  (session.windows.entries.find? fun e => e.2.id = windowId).map Prod.fst

def findPaneIdInSession (paneId : PaneId) : Option (ℕ × ℕ) :=
  session.windows.entries.findSome? fun e =>
    (e.2.panes.find? fun pane => pane.id = paneId).map fun pane => (e.1, pane.index)

end Session

def Window.cyclicPaneOffset (window : Window) (offset : ℤ) : Option ℕ :=
  cyclicOffset (window.panes.map Pane.index) window.activePane offset

def windowText (name : SessionName) (windowIndex : ℕ) : Text :=
  WindowTarget.display ⟨name, windowIndex⟩

def paneText (name : SessionName) (windowIndex paneIndex : ℕ) : Text :=
  PaneTarget.display ⟨name, windowIndex, paneIndex⟩

namespace SessionStore

variable (store : SessionStore)

def session (name : SessionName) : Option StoredSession := store.sessions.lookup name

def iter : List (SessionName × StoredSession) := store.sessions.entries.map fun e => (e.1, e.2)

def sessionById (id : UInt32) : Option StoredSession :=
  (store.iter.map Prod.snd).find? fun session => session.id = id

def expectSession (name : SessionName) : Except RmuxError StoredSession :=
  match store.session name with
  | some session => .ok session
  | none => .error (targetNotFound name.text "session")

/-! ## Sessions -/

variable (raw value : Text)

def uniqueSessionMatch (mode : MatchMode) : Except RmuxError (Option SessionName) :=
  uniqueMatch ((store.iter.map Prod.fst).filter fun name => mode.accepts value name.text)
    value "session"

def resolveSessionPart (flags : TargetFindFlags) : Except RmuxError SessionName := do
  match ← parsePrefixedId value '$' with
  | some id =>
    match store.sessionById id with
    | some session => .ok session.sessionName
    | none => .error (targetNotFound value "session")
  | none =>
    match (SessionName.new value).bind store.session with
    | some session => .ok session.sessionName
    | none =>
      if flags.contains .exactSession then .error (targetNotFound value "session")
      else
        match ← store.uniqueSessionMatch value .prefixMatch with
        | some name => .ok name
        | none =>
          match ← store.uniqueSessionMatch value .patternMatch with
          | some name => .ok name
          | none => .error (targetNotFound value "session")

-- the most recent one; of several the one with the least name
def defaultSessionName (flags : TargetFindFlags) : Except RmuxError SessionName :=
  let preferred := if flags.contains .preferUnattached then
    store.iter.filter fun e => e.2.lastAttachedAt.isNone else []
  let candidates := if preferred.isEmpty then store.iter else preferred
  match candidates.reverse.argmax fun e =>
    toLex (e.2.recency, OrderDual.toDual e.1.text) with
  | some e => .ok e.1
  | none => .error (.server "no current target")

def partsForSessionCurrent (sessionName : SessionName) : Except RmuxError ResolvedParts := do
  let session ← store.expectSession sessionName
  let windowIndex := session.activeWindow
  match (session.windowAt windowIndex).bind Window.activePane? with
  | some pane => .ok (.pane sessionName windowIndex pane.index)
  | none => .error (targetNotFound (windowText sessionName windowIndex) "pane")

/-! ## The context -/

def partsForTarget (current : Target) : Except RmuxError ResolvedParts := do
  let sessionName := current.sessionName
  let session ← store.expectSession sessionName
  let windowIndex := match current with
    | .session _ => session.activeWindow
    | .window target => target.windowIndex
    | .pane target => target.windowIndex
  match session.windowAt windowIndex with
  | none => .error (targetNotFound (windowText sessionName windowIndex) "window")
  | some window =>
    let paneIndex := match current with
      | .pane target => target.paneIndex
      | _ => window.activePane
    if (window.pane paneIndex).isNone then
      .error (targetNotFound (paneText sessionName windowIndex paneIndex) "pane")
    else .ok (.pane sessionName windowIndex paneIndex)

def currentParts (context : TargetFindContext) : Except RmuxError ResolvedParts :=
  match context.current with
  | some current => store.partsForTarget current
  | none => .error (.server "no current target")

def currentTargetForType (findType : TargetFindType) (flags : TargetFindFlags)
    (context : TargetFindContext) : Except RmuxError Target :=
  match (if flags.contains .defaultMarked then context.markedTarget else none) with
  | some marked => (store.partsForTarget marked).map (targetForType findType)
  | none =>
    match store.currentParts context with
    | .ok current => .ok (targetForType findType current)
    | .error error =>
      if context.missingCurrentTargetFallback = .allowDefaultSession then do
        let sessionName ← store.defaultSessionName flags
        (store.partsForSessionCurrent sessionName).map (targetForType findType)
      else .error error

def mouseTargetForType (findType : TargetFindType) (context : TargetFindContext) :
    Except RmuxError Target :=
  match context.mouseTarget with
  | some target => (store.partsForTarget target).map (targetForType findType)
  | none => .error (.server ("target form {mouse} is recognized but deferred until mouse event " ++
      "state reaches the command queue"))

def markedTargetForType (findType : TargetFindType) (context : TargetFindContext) :
    Except RmuxError Target :=
  match context.markedTarget with
  | some target => (store.partsForTarget target).map (targetForType findType)
  | none => .error (targetNotFound "{marked}".toList "pane")

def targetForSessionCurrent (findType : TargetFindType) (sessionName : SessionName) :
    Except RmuxError Target :=
  (store.partsForSessionCurrent sessionName).map (targetForType findType)

/-- The active pane of a window. -/
def windowCurrentPane (window : ResolvedParts) : Except RmuxError ResolvedParts := do
  let session ← store.expectSession window.sessionName
  match (session.windowAt window.windowIndex).bind Window.activePane? with
  | some pane => .ok (.pane window.sessionName window.windowIndex pane.index)
  | none => .error (targetNotFound (windowText window.sessionName window.windowIndex) "pane")

def targetForWindowCurrent (findType : TargetFindType) (window : ResolvedParts) :
    Except RmuxError Target :=
  if findType ≠ .pane then .ok (targetForType findType window)
  else (store.windowCurrentPane window).map (targetForType .pane)

def partsForWindow (sessionName : SessionName) (windowIndex : ℕ) :
    Except RmuxError ResolvedParts := do
  let session ← store.expectSession sessionName
  if (session.windowAt windowIndex).isNone then
    .error (targetNotFound (windowText sessionName windowIndex) "window")
  else .ok (.window sessionName windowIndex)

/-! ## Windows -/

def resolveAbsoluteWindowIndexSlot : Except RmuxError (Option ℕ) :=
  if value = [] ∨ value.head? = some '+' ∨ value.head? = some '-' ∨ value = "!".toList ∨
      value = "^".toList ∨ value = "$".toList then .ok none
  else
    match parseUnsigned u32Max value with
    | some index => .ok (some index)
    | none => .error (invalidTargetText value "window index must fit in an unsigned integer")

/-- An offset from the active window, or one of `!`, `^` and `$`. -/
def resolveRelativeWindow (session : StoredSession) (value : Text) (flags : TargetFindFlags) :
    Except RmuxError (Option ResolvedParts) := do
  let sessionName := session.sessionName
  if flags.contains .exactWindow then .ok none
  else
    match ← parseOffset value with
    | some offset =>
      let windowIndex := if flags.contains .windowIndex then
        offsetIndex session.activeWindow offset else session.cyclicWindowOffset offset
      match windowIndex with
      | some windowIndex => .ok (some (.window sessionName windowIndex))
      | none => .error (targetNotFound value "window")
    | none =>
      match session.specialWindowIndex value with
      | some windowIndex => (store.partsForWindow sessionName windowIndex).map some
      | none => .ok none

/-- The number of a window, or with the flag of a free slot. -/
def resolveNumberedWindow (session : StoredSession) (value : Text) (flags : TargetFindFlags) :
    Except RmuxError (Option ResolvedParts) :=
  if value.head? = some '+' ∨ value.head? = some '-' then .ok none
  else
    match parseUnsigned u32Max value with
    | none => .ok none
    | some windowIndex =>
      if (session.windowAt windowIndex).isSome then
        (store.partsForWindow session.sessionName windowIndex).map some
      else if flags.contains .windowIndex then
        .ok (some (.window session.sessionName windowIndex))
      else .ok none

def resolveNamedWindow (session : StoredSession) (value : Text) (flags : TargetFindFlags) :
    Except RmuxError ResolvedParts := do
  match ← session.uniqueWindowNameMatch value .exactMatch with
  | some windowIndex => store.partsForWindow session.sessionName windowIndex
  | none =>
    if flags.contains .exactWindow then .error (targetNotFound value "window")
    else
      match ← session.uniqueWindowNameMatch value .prefixMatch with
      | some windowIndex => store.partsForWindow session.sessionName windowIndex
      | none =>
        match ← session.uniqueWindowNameMatch value .patternMatch with
        | some windowIndex => store.partsForWindow session.sessionName windowIndex
        | none => .error (invalidTargetText raw ("can't find window: " ++ String.ofList value))

def resolveWindowInSession (sessionName : SessionName) (value : Text) (flags : TargetFindFlags) :
    Except RmuxError ResolvedParts := do
  let session ← store.expectSession sessionName
  if value.head? = some '@' then
    if value = "@".toList then .error (targetNotFound value "window")
    else do
      let windowId ← parseRequiredPrefixedId value '@'
      match session.windowIndexForId windowId with
      | some windowIndex => store.partsForWindow sessionName windowIndex
      | none => .error (targetNotFound value "window")
  else do
    let slot ← if flags.contains .windowIndex then resolveAbsoluteWindowIndexSlot value else .ok none
    match slot with
    | some windowIndex => .ok (.window sessionName windowIndex)
    | none => do
      match ← store.resolveRelativeWindow session value flags with
      | some window => .ok window
      | none =>
        match ← store.resolveNumberedWindow session value flags with
        | some window => .ok window
        | none => store.resolveNamedWindow raw session value flags

def resolveWindowGlobally (flags : TargetFindFlags) :
    Except RmuxError ResolvedParts := do
  let found := store.iter.filterMap fun e =>
    (store.resolveWindowInSession raw e.1 value flags).toOption
  match ← uniqueMatch found raw "window" with
  | some window => .ok window
  | none => .error (targetNotFound value "window")

def resolveWindowId (context : TargetFindContext) :
    Except RmuxError ResolvedParts := do
  if value = "@".toList then .error (targetNotFound value "window")
  else do
    let windowId ← parseRequiredPrefixedId value '@'
    let here := do
      let current ← (store.currentParts context).toOption
      let session ← store.session current.sessionName
      let windowIndex ← session.windowIndexForId windowId
      some (ResolvedParts.window current.sessionName windowIndex)
    match here with
    | some window => .ok window
    | none =>
      let found := store.iter.flatMap fun e =>
        (e.2.windows.entries.filter fun w => w.2.id = windowId).map fun w =>
          ResolvedParts.window e.1 w.1
      match ← uniqueMatch found raw "window" with
      | some window => .ok window
      | none => .error (targetNotFound value "window")

/-- A session part instead of a window, or the error. -/
def resolveSessionInstead (flags : TargetFindFlags) (error : RmuxError) :
    Except RmuxError ResolvedParts :=
  match store.resolveSessionPart value flags with
  | .ok sessionName => store.partsForSessionCurrent sessionName
  | .error _ => .error error

def resolveWindowFromContext (onlyWindow : Bool) (flags : TargetFindFlags)
    (context : TargetFindContext) : Except RmuxError ResolvedParts :=
  if value.head? = some '@' then store.resolveWindowId raw value context
  else
    match store.currentParts context with
    | .ok current =>
      match store.resolveWindowInSession raw current.sessionName value flags with
      | .ok window => .ok window
      | .error error =>
        if onlyWindow then .error error else store.resolveSessionInstead value flags error
    | .error error =>
      if onlyWindow then store.resolveWindowGlobally raw value flags
      else
        match store.resolveWindowGlobally raw value flags with
        | .ok window => .ok window
        | .error _ => (store.resolveSessionInstead value flags error).mapError fun _ => error

/-! ## Panes -/

/-- The parts of `resolvePaneInWindow` that name a pane. -/
def paneIndexInWindow (window : Window) (value : Text) (paneBaseIndex : ℕ) :
    Except RmuxError (Option ℕ) := do
  if value.head? = some '%' then
    let paneId ← parseRequiredPrefixedId value '%'
    match window.panes.find? fun pane => pane.id = paneId with
    | some pane => .ok (some pane.index)
    | none => .error (targetNotFound value "pane")
  else if value = "!".toList then
    match window.lastPane with
    | some paneIndex => .ok (some paneIndex)
    | none => .error (targetNotFound value "pane")
  else
    match window.directionalPane value with
    | some paneIndex => .ok (some paneIndex)
    | none =>
      match ← parseOffset value with
      | some offset =>
        match window.cyclicPaneOffset offset with
        | some paneIndex => .ok (some paneIndex)
        | none => .error (targetNotFound value "pane")
      | none =>
        let visible := (parseUnsigned u32Max value).bind fun visible =>
          if paneBaseIndex ≤ visible ∧ (window.pane (visible - paneBaseIndex)).isSome then
            some (visible - paneBaseIndex)
          else if paneBaseIndex = 0 ∧ (window.pane visible).isSome then some visible
          else none
        match visible with
        | some paneIndex => .ok (some paneIndex)
        | none => .ok (window.paneDescription value)

def resolvePaneInWindow (sessionName : SessionName) (windowIndex : ℕ) (value : Text)
    (context : TargetFindContext) : Except RmuxError ResolvedParts := do
  let session ← store.expectSession sessionName
  match session.windowAt windowIndex with
  | none => .error (targetNotFound (windowText sessionName windowIndex) "window")
  | some window =>
    match ← paneIndexInWindow window value (context.paneBaseIndex sessionName windowIndex) with
    | some paneIndex => .ok (.pane sessionName windowIndex paneIndex)
    | none => .error (invalidTargetText raw ("can't find pane: " ++ String.ofList value))

def resolvePaneInSession (sessionName : SessionName) (value : Text) (context : TargetFindContext) :
    Except RmuxError ResolvedParts := do
  if value.head? = some '%' then
    let paneId ← parseRequiredPrefixedId value '%'
    let session ← store.expectSession sessionName
    match session.findPaneIdInSession paneId with
    | some (windowIndex, paneIndex) => .ok (.pane sessionName windowIndex paneIndex)
    | none => .error (targetNotFound value "pane")
  else
    let session ← store.expectSession sessionName
    store.resolvePaneInWindow raw sessionName session.activeWindow value context

def resolvePaneId (context : TargetFindContext) :
    Except RmuxError ResolvedParts := do
  let paneId ← parseRequiredPrefixedId value '%'
  let here := do
    let current ← (store.currentParts context).toOption
    let session ← store.session current.sessionName
    let window ← session.windowAt current.windowIndex
    let pane ← window.pane current.paneIndex
    if pane.id = paneId then some current else none
  match here with
  | some current => .ok current
  | none =>
    let found := store.iter.flatMap fun e =>
      e.2.windows.entries.flatMap fun w =>
        (w.2.panes.filter fun pane => pane.id = paneId).map fun pane =>
          ResolvedParts.pane e.1 w.1 pane.index
    match ← uniqueMatch found raw "pane" with
    | some pane => .ok pane
    | none => .error (targetNotFound value "pane")

/-- The active pane of a window part, when the text is no pane part. -/
def resolveWindowInstead (flags : TargetFindFlags) (context : TargetFindContext) :
    Except RmuxError ResolvedParts := do
  store.windowCurrentPane (← store.resolveWindowFromContext raw value false flags context)

def resolvePaneFromContext (onlyPane : Bool) (flags : TargetFindFlags)
    (context : TargetFindContext) : Except RmuxError ResolvedParts :=
  if value.head? = some '%' then store.resolvePaneId raw value context
  else
    match store.currentParts context with
    | .ok current =>
      match store.resolvePaneInWindow raw current.sessionName current.windowIndex value context with
      | .ok pane => .ok pane
      | .error error =>
        if onlyPane then .error error
        else
          match store.resolveWindowFromContext raw value false flags context with
          | .ok window => store.windowCurrentPane window
          | .error _ => .error error
    | .error error =>
      if onlyPane then .error error
      else (store.resolveWindowInstead raw value flags context).mapError fun _ => error

/-! ## Targets -/

def resolveEmptyWindowIndexTarget (sessionPart : Option Text) (findType : TargetFindType)
    (flags : TargetFindFlags) (context : TargetFindContext) :
    Except RmuxError Target := do
  let sessionName ← match sessionPart.filter (· ≠ []) with
    | some part => store.resolveSessionPart part flags
    | none =>
      match store.currentParts context with
      | .ok parts => .ok parts.sessionName
      | .error _ => store.defaultSessionName flags
  match store.session sessionName with
  | none => .error (targetNotFound raw "session")
  | some session => do
    let windowIndex ← session.lowestAvailableWindowIndexAtOrAbove 0
    .ok (targetForType findType (.window sessionName windowIndex))

def resolveParts (parts : TargetParts) (findType : TargetFindType) (flags : TargetFindFlags)
    (context : TargetFindContext) : Except RmuxError Target :=
  match parts.session, parts.window, parts.pane with
  | some session, none, none => do
    let sessionName ← store.resolveSessionPart session flags
    store.targetForSessionCurrent findType sessionName
  | some session, some window, pane => do
    let sessionName ← store.resolveSessionPart session flags
    let window ← store.resolveWindowInSession raw sessionName window flags
    match pane with
    | some pane =>
      (store.resolvePaneInWindow raw window.sessionName window.windowIndex pane context).map
        (targetForType findType)
    | none => store.targetForWindowCurrent findType window
  | some session, none, some pane => do
    let sessionName ← store.resolveSessionPart session flags
    (store.resolvePaneInSession raw sessionName pane context).map (targetForType findType)
  | none, some window, pane => do
    let window ← store.resolveWindowFromContext raw window parts.windowOnly flags context
    match pane with
    | some pane =>
      (store.resolvePaneInWindow raw window.sessionName window.windowIndex pane context).map
        (targetForType findType)
    | none => store.targetForWindowCurrent findType window
  | none, none, some pane =>
    (store.resolvePaneFromContext raw pane parts.paneOnly flags context).map (targetForType findType)
  | none, none, none => store.currentTargetForType findType flags context

def isCurrentToken : Bool :=
  raw = [] || raw = ".".toList || raw = "{active}".toList || raw = "{current}".toList

def isMouseToken : Bool := raw = "=".toList || raw = "{mouse}".toList

def isMarkedToken : Bool := raw = "~".toList || raw = "{marked}".toList

def resolveUnresolvedTarget (target : Option Text) (findType : TargetFindType)
    (flags : TargetFindFlags) (context : TargetFindContext) : Except RmuxError Target :=
  match target with
  | none => store.currentTargetForType findType flags context
  | some raw =>
    if isCurrentToken raw then store.currentTargetForType findType flags context
    else if isMouseToken raw then store.mouseTargetForType findType context
    else if isMarkedToken raw then store.markedTargetForType findType context
    else
      let (parts, flags) := (TargetParts.parse raw findType).applyExactPrefixes flags
      if flags.contains .windowIndex ∧ parts.windowOnly ∧ parts.window = some [] ∧
          parts.pane = none then
        store.resolveEmptyWindowIndexTarget raw parts.session findType flags context
      else
        let parts := parts.dropEmpty.mapTokens
        if flags.contains .windowIndex ∧ parts.pane.isSome then
          .error (invalidTargetText raw "can't specify pane here")
        else store.resolveParts raw parts findType flags context

end SessionStore

end Rmux
