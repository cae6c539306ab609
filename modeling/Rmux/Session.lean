import Rmux.OrderedMap
import Rmux.Window

/-!
# Sessions

The model is of `session.rs`, the creation of windows in `session/window_ops.rs` and the group
synchronisation of `session/accessors.rs`. Where the source panics (an identity counter that runs
out) the operation here goes on with what it has. Timestamps, the working directory, the terminal
size and the name of the group are left out, since no modelled function reads them. Sessions of one
store share the counter for window identities; here each has its own.
-/

namespace Rmux

open MachineInt

/-- The alert bits of a slot. -/
structure AlertFlags where
  bits : UInt8
  deriving DecidableEq

namespace AlertFlags

def empty : AlertFlags := ⟨0⟩

end AlertFlags

/-- Windows in numbered slots, the alerts of every slot, and the numbers of the active and the last
window. -/
structure Session where
  name : String
  windows : OrderedMap ℕ Window
  winlinkAlertFlags : OrderedMap ℕ AlertFlags
  activeWindow : ℕ
  lastWindow : Option ℕ
  groupInitialWindowId : Option WindowId
  nextPaneId : PaneId
  nextWindowId : WindowId

/-- The slot before a removed one, the greatest slot if there is none before it. -/
def cyclicPreviousWindowIndex (windows : OrderedMap ℕ Window) (removedIndex : ℕ) : Option ℕ :=
  (windows.keyBelow removedIndex).or (windows.lastKeyAbove removedIndex)

/-- The first free slot from `next` on, given the occupied ones in order. -/
def lowestAvailable (exhausted : RmuxError) : List ℕ → ℕ → Except RmuxError ℕ
  | [], next => .ok next
  | index :: rest, next =>
    if index < next then lowestAvailable exhausted rest next
    else if next < index then .ok next
    else if next = u32Max then .error exhausted
    else lowestAvailable exhausted rest (next + 1)

/-- The first identity from `id` on that is not in use. With more steps than identities in use
there is one, unless the counter runs over. -/
def nextFreePaneId (used : List PaneId) : ℕ → PaneId → PaneId
  | 0, id => id
  | steps + 1, id => if id ∈ used then nextFreePaneId used steps (id + 1) else id

namespace Session

variable (s : Session)

/-! ## Errors and lookups -/

variable (windowIndex : ℕ) (size : TerminalSize)

def indexSpaceExhausted : RmuxError :=
  .server s!"window index space exhausted for session {s.name}"

def windowAt : Option Window := s.windows.get? windowIndex

/-- The identities of all panes, window by window. -/
def paneIds : List PaneId := s.windows.entries.flatMap fun e => e.2.panes.map Pane.id

def lowestAvailableWindowIndexAtOrAbove (minimumIndex : ℕ) : Except RmuxError ℕ :=
  lowestAvailable s.indexSpaceExhausted s.windows.keys minimumIndex

/-! ## Small changes -/

/-- Put a window and its alerts into a slot. -/
def setSlot (window : Window) (flags : AlertFlags) : Session :=
  { s with
    windows := s.windows.insert windowIndex window
    winlinkAlertFlags := s.winlinkAlertFlags.insert windowIndex flags }

def allocateWindowId : WindowId × Session :=
  (s.nextWindowId, { s with nextWindowId := s.nextWindowId + 1 })

/-- The identity after a given one, the greatest one after itself. -/
def idAfter (id : UInt32) : UInt32 := if id = UInt32.ofNat u32Max then id else id + 1

def allocatePaneId : PaneId × Session :=
  let id := nextFreePaneId s.paneIds (s.paneIds.length + 1) s.nextPaneId
  (id, { s with nextPaneId := idAfter id })

/-! ## Creation -/

/-- A session with one window of one pane. -/
def newWithInitialWindow (name : String) (size : TerminalSize) (windowIndex : ℕ) (paneId : PaneId)
    (windowId : WindowId) : Session where
  name := name
  windows := .singleton windowIndex (.newWithInitialPane size paneId windowId)
  winlinkAlertFlags := .singleton windowIndex .empty
  activeWindow := windowIndex
  lastWindow := none
  groupInitialWindowId := none
  nextPaneId := idAfter paneId
  nextWindowId := idAfter windowId

/-! ## Adding windows -/

/-- A new window with a given pane in a slot. -/
def addNewWindow (paneId : PaneId) : Session :=
  let (windowId, s) := s.allocateWindowId
  s.setSlot windowIndex (.newWithInitialPane size paneId windowId) .empty

/-- A new window in the first free slot, for a pane that has its identity already. -/
def createWindowAtOrAboveWithPaneId (minimumIndex : ℕ) (paneId : PaneId) :
    Except RmuxError (ℕ × Session) := do
  let windowIndex ← s.lowestAvailableWindowIndexAtOrAbove minimumIndex
  .ok (windowIndex, s.addNewWindow windowIndex size paneId)

/-- A new window in the first free slot. The counter for panes moves on even if there is none. -/
def createWindowAtOrAbove (minimumIndex : ℕ) : Except RmuxError (ℕ × PaneId) × Session :=
  let (paneId, s) := s.allocatePaneId
  match s.createWindowAtOrAboveWithPaneId size minimumIndex paneId with
  | .error e => (.error e, s)
  | .ok (windowIndex, s) => (.ok (windowIndex, paneId), s)

def createWindow : Except RmuxError (ℕ × PaneId) × Session :=
  s.createWindowAtOrAbove size 0

end Session

/-! ## Groups -/

/-- The slot of a window identity : the preferred slot, or the only one. -/
def windowIndexForId (windows : OrderedMap ℕ Window) (windowId : WindowId) (preferredIndex : ℕ) :
    Option ℕ :=
  if (windows.get? preferredIndex).any (·.id = windowId) then some preferredIndex
  else
    match windows.entries.filterMap fun e => if e.2.id = windowId then some e.1 else none with
    | [only] => some only
    | _ => none

/-- The active slot in a group that does not have the active window any more. -/
def synchronizedActiveWindow (windows : OrderedMap ℕ Window) (previousActive : ℕ)
    (previousLast : Option ℕ) : ℕ :=
  if previousActive ∈ windows then previousActive
  else
    ((previousLast.filter fun last => last ≠ previousActive ∧ last ∈ windows).or
      (cyclicPreviousWindowIndex windows previousActive)).getD previousActive

/-- New slots of old ones : the pairs claimed so far. -/
abbrev SlotClaims := OrderedMap ℕ ℕ

/-- Claim a slot for an old one, unless either is taken. -/
def SlotClaims.claim (claims : SlotClaims) (previousIndex : ℕ) (nextIndex : Option ℕ) :
    SlotClaims :=
  match nextIndex with
  | none => claims
  | some nextIndex =>
    if previousIndex ∈ claims ∨ nextIndex ∈ claims.entries.map Prod.snd then claims
    else claims.insert previousIndex nextIndex

/-- Where every slot has gone : by the map, to the same slot, or to a free slot with the same
window. -/
def synchronizedIndices (previousWindows synchronizedWindows : OrderedMap ℕ Window)
    (winlinkAlertMap : Option (OrderedMap ℕ ℕ)) : SlotClaims :=
  let holds (window : Window) (index : ℕ) : Bool :=
    (synchronizedWindows.get? index).any (·.id = window.id)
  let mapped := previousWindows.entries.foldl (fun claims e =>
    claims.claim e.1 ((winlinkAlertMap.bind (·.get? e.1)).filter (holds e.2))) ∅
  let kept := previousWindows.entries.foldl (fun claims e =>
    claims.claim e.1 ((some e.1).filter (holds e.2))) mapped
  previousWindows.entries.foldl (fun claims e =>
    claims.claim e.1 (synchronizedWindows.keys.find? fun index =>
      holds e.2 index ∧ index ∉ claims.entries.map Prod.snd)) kept

/-- The alerts of a grouped session follow its own slots, or come from the source. -/
def remapLocalWinlinkAlertFlags (previousWindows : OrderedMap ℕ Window)
    (previousFlags : OrderedMap ℕ AlertFlags) (synchronizedWindows : OrderedMap ℕ Window)
    (sourceFlags : OrderedMap ℕ AlertFlags) (winlinkAlertMap : Option (OrderedMap ℕ ℕ)) :
    OrderedMap ℕ AlertFlags :=
  let indices := synchronizedIndices previousWindows synchronizedWindows winlinkAlertMap
  let remapped := OrderedMap.ofList (previousFlags.entries.filterMap fun e =>
    (indices.get? e.1).map fun next => (next, e.2))
  synchronizedWindows.keys.foldl (fun flags windowIndex =>
    if windowIndex ∈ flags then flags
    else flags.insert windowIndex ((sourceFlags.get? windowIndex).getD .empty)) remapped

namespace Session

variable (s : Session) (source : Session)

/-- Take over the windows of another session. The selection and the alerts stay local. -/
def synchronizeGroupWindows (activeWindow : ℕ) (lastWindow : Option ℕ)
    (winlinkAlertMap : Option (OrderedMap ℕ ℕ)) : Session :=
  { s with
    windows := source.windows
    winlinkAlertFlags := remapLocalWinlinkAlertFlags s.windows s.winlinkAlertFlags source.windows
      source.winlinkAlertFlags winlinkAlertMap
    nextPaneId := source.nextPaneId
    activeWindow := activeWindow
    lastWindow := lastWindow }

/-- Take over the windows of another session of the group, and find the active and the last window
again by identity. -/
def synchronizeGroupFromWithOptionalWinlinkAlertMap (winlinkAlertMap : Option (OrderedMap ℕ ℕ)) :
    Session :=
  let find (windowIndex : ℕ) : Option ℕ := (s.windowAt windowIndex).bind fun window =>
    windowIndexForId source.windows window.id windowIndex
  let active := (find s.activeWindow).getD
    (synchronizedActiveWindow source.windows s.activeWindow s.lastWindow)
  let last := ((s.lastWindow.bind find).filter (· ≠ active)).or
    (if s.activeWindow ≠ active ∧ s.activeWindow ∈ source.windows then some s.activeWindow
    else none)
  s.synchronizeGroupWindows source active last winlinkAlertMap

def synchronizeGroupFrom : Session :=
  s.synchronizeGroupFromWithOptionalWinlinkAlertMap source none

def synchronizeGroupFromWithWinlinkAlertMap (winlinkAlertMap : OrderedMap ℕ ℕ) : Session :=
  s.synchronizeGroupFromWithOptionalWinlinkAlertMap source (some winlinkAlertMap)

/-- The same, with a map that says where the selected slots have gone. -/
def synchronizeGroupFromWithWindowSelectionAndWinlinkAlertMaps
    (windowSelectionMap winlinkAlertMap : OrderedMap ℕ ℕ) : Session :=
  let mapped (windowIndex : ℕ) : ℕ := (windowSelectionMap.get? windowIndex).getD windowIndex
  let active :=
    if mapped s.activeWindow ∈ source.windows then mapped s.activeWindow
    else synchronizedActiveWindow source.windows s.activeWindow s.lastWindow
  let last := (s.lastWindow.map mapped).filter fun windowIndex =>
    windowIndex ≠ active ∧ windowIndex ∈ source.windows
  s.synchronizeGroupWindows source active last (some winlinkAlertMap)

def synchronizeGroupFromWithWindowSelectionMap (indexMap : OrderedMap ℕ ℕ) : Session :=
  s.synchronizeGroupFromWithWindowSelectionAndWinlinkAlertMaps source indexMap indexMap

end Session

end Rmux
