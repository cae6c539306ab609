import Mathlib.Data.List.AList
import Mathlib.Order.Fin.Basic
import Rmux.Colour
import Rmux.Identity
import Rmux.OptionTable
import Rmux.OrderedMap

/-!
# The store of options

`OptionStore.setByName` sets or unsets an option at one scope. A lookup goes from the tree of its
context to wider ones and to the default. Keys, styles and command lists are read by functions that
are given (`ScalarParsers`). What would panic is `none`.
-/

namespace Rmux

/-- The readers of keys, styles and command lists. A key or a list of commands is given as the text it
is stored as. -/
structure ScalarParsers where
  key : Text → Option (Option Text)
  style : Text → Option Bool
  command : Text → Option (Except Text Text)

/-- Where an option is set. -/
inductive OptionScopeSelector
  | serverGlobal
  | sessionGlobal
  | windowGlobal
  | session (name : SessionName)
  | window (target : WindowTarget)
  | pane (target : PaneTarget)
deriving DecidableEq

/-- Whether a value replaces the old one or is appended to it. -/
inductive SetOptionMode
  | replace
  | append
deriving DecidableEq

/-! ## Entries -/

/-- A checked value. -/
inductive StoredOptionValue
  | string (value : Text)
  | number (value : ℕ)
  | key (value : Text)
  | colour (value : Text)
  | flag (value : Bool)
  | choice (value : Text)
  | command (value : Text)
deriving DecidableEq

def StoredOptionValue.rendered : StoredOptionValue → Text
  | .string value => value
  | .number value => Nat.toDigits 10 value
  | .key value => value
  | .colour value => value
  | .flag true => "on".toList
  | .flag false => "off".toList
  | .choice value => value
  | .command value => value

/-- An item of an array with its text. -/
structure ArrayItem where
  value : StoredOptionValue
  rendered : Text
deriving DecidableEq

def ArrayItem.new (value : StoredOptionValue) : ArrayItem := ⟨value, value.rendered⟩

/-- The value of an entry. -/
inductive OptionEntryValue
  | scalar (value : StoredOptionValue)
  | array (items : OrderedMap ArrayIndex ArrayItem)
deriving DecidableEq

/-- An option that is set at some scope. -/
structure OptionEntry where
  name : Text
  knownOption : Option OptionName
  scope : OptionScopeSelector
  valueType : OptionValueType
  value : OptionEntryValue
  rendered : Text
deriving DecidableEq

def itemTexts (items : OrderedMap ArrayIndex ArrayItem) : List Text :=
  items.entries.map fun e => e.2.rendered

def renderArray (items : OrderedMap ArrayIndex ArrayItem) (separator : Text) : Text :=
  separator.intercalate (itemTexts items)

namespace OptionEntry

def newScalar (query : OptionQuery) (scope : OptionScopeSelector) (value : StoredOptionValue) :
    OptionEntry :=
  ⟨query.name, query.knownOption, scope, query.valueType, .scalar value, value.rendered⟩

def newArray (query : OptionQuery) (scope : OptionScopeSelector)
    (items : OrderedMap ArrayIndex ArrayItem) : OptionEntry :=
  ⟨query.name, query.knownOption, scope, query.valueType, .array items,
    renderArray items query.separator⟩

def newEmptyArray (query : OptionQuery) (scope : OptionScopeSelector) : OptionEntry :=
  ⟨query.name, query.knownOption, scope, query.valueType, .array ∅, []⟩

variable (entry : OptionEntry)

/-- The text of the entry or of one of its items. -/
def valueAt (index : Option ArrayIndex) : Option Text :=
  match entry.value, index with
  | .scalar _, none => some entry.rendered
  | .array items, some index => (items.get? index).map ArrayItem.rendered
  | .array _, none => some entry.rendered
  | .scalar _, some _ => none

def arrayValues : List Text :=
  match entry.value with
  | .array items => itemTexts items
  | .scalar _ => []

def setArrayItem (index : ArrayIndex) (item : ArrayItem) (separator : Text) : OptionEntry :=
  match entry.value with
  | .array items =>
    { entry with
      value := .array (items.insert index item)
      rendered := renderArray (items.insert index item) separator }
  | .scalar _ => entry

-- the next number wraps around in a release build
def nextArrayIndex : ArrayIndex :=
  match entry.value with
  | .array items =>
    match items.keys.getLast? with
    | some index => index + 1
    | none => 0
  | .scalar _ => 0

def clearArray : OptionEntry :=
  match entry.value with
  | .array _ => { entry with value := .array ∅, rendered := [] }
  | .scalar _ => entry

def removeArrayIndex (index : ArrayIndex) (separator : Text) : OptionEntry :=
  match entry.value with
  | .array items =>
    { entry with
      value := .array (items.erase index)
      rendered := renderArray (items.erase index) separator }
  | .scalar _ => entry

def isEmpty : Bool :=
  match entry.value with
  | .array items => items.entries.isEmpty
  | .scalar _ => false

end OptionEntry

/-- The entries of one tree, by name. -/
structure OptionNode where
  entries : AList fun _ : Text => OptionEntry
deriving DecidableEq

namespace OptionNode

def empty : OptionNode := ⟨∅⟩

variable (node : OptionNode)

def entry (name : Text) : Option OptionEntry := node.entries.lookup name

def value (name : Text) (index : Option ArrayIndex) : Option Text :=
  (node.entry name).bind fun entry => entry.valueAt index

def contains (name : Text) (index : Option ArrayIndex) : Bool := (node.value name index).isSome

def insert (name : Text) (entry : OptionEntry) : OptionNode := ⟨node.entries.insert name entry⟩

def remove (name : Text) : OptionNode := ⟨node.entries.erase name⟩

end OptionNode

/-- A tree of the server, one each of the session and window defaults, and one for every session,
window and pane with own values. -/
structure OptionStore where
  serverGlobal : OptionNode
  sessionGlobal : OptionNode
  windowGlobal : OptionNode
  sessions : AList fun _ : SessionName => OptionNode
  windows : AList fun _ : WindowTarget => OptionNode
  panes : AList fun _ : PaneTarget => OptionNode
deriving DecidableEq

def OptionStore.new : OptionStore := ⟨.empty, .empty, .empty, ∅, ∅, ∅⟩

/-! ## Values -/

def matchesFlagTrue (value : Text) : Bool :=
  ["on".toList, "1".toList, "yes".toList].contains (toAsciiLowercase value)

def matchesFlagFalse (value : Text) : Bool :=
  ["off".toList, "0".toList, "no".toList].contains (toAsciiLowercase value)

/-- Two numbers with an `x` between them. -/
def matchesDefaultSizePattern (value : Text) : Bool :=
  let width := value.takeWhile (· ≠ 'x')
  match value.dropWhile (· ≠ 'x') with
  | [] => false
  | _ :: height => !width.isEmpty && !height.isEmpty && width.all Char.isDigit &&
      height.all Char.isDigit

def emptyValue : OptionError := .invalidSetOption "empty value".toList

def invalidInteger (name : Text) (label : String) : OptionError :=
  .invalidSetOption (name ++ " expects a ".toList ++ label.toList)

def i32MaxNumber : ℤ := 2147483647

section Values

variable (parsers : ScalarParsers) (query : OptionQuery)

def normalizeString (value current : Option Text) : Option (Except OptionError StoredOptionValue) :=
  match value with
  | none => some (.error emptyValue)
  | some raw => do
    let next := match current with
      | some current => current ++ query.separator ++ raw
      | none => raw
    if query.name = "default-size".toList ∧ ¬matchesDefaultSizePattern next then
      some (.error (.invalidSetOption ("value is invalid: ".toList ++ next)))
    else if OptionChangeMask.contains query.effects effectStyleParse ∧
        ¬containsText "#\x7b".toList next then do
      if ← parsers.style next then some (.ok (.string next))
      else some (.error (.invalidSetOption ("invalid style: ".toList ++ next)))
    else some (.ok (.string next))

def normalizeNumber (minimum : ℕ) (value : Option Text) : Except OptionError StoredOptionValue :=
  match value with
  | none => .error emptyValue
  | some raw =>
    match parseI64 raw with
    | none => .error (.invalidSetOption ("value is invalid: ".toList ++ raw))
    | some parsed =>
      if parsed < minimum then .error (.invalidSetOption ("value is too small: ".toList ++ raw))
      else if parsed > i32MaxNumber then
        .error (.invalidSetOption ("value is too large: ".toList ++ raw))
      else .ok (.number parsed.toNat)

def normalizeFlag (value current : Option Text) : Except OptionError StoredOptionValue :=
  match value.map trim with
  | none => .ok (.flag (current ≠ some "on".toList))
  | some [] => .ok (.flag (current ≠ some "on".toList))
  | some raw =>
    if matchesFlagTrue raw then .ok (.flag true)
    else if matchesFlagFalse raw then .ok (.flag false)
    else .error (.invalidSetOption ("bad value: ".toList ++ raw))

def normalizeChoice (choices : List Text) (value current : Option Text) :
    Option (Except OptionError StoredOptionValue) :=
  match value with
  | some raw =>
    if choices.contains raw then some (.ok (.choice raw))
    else some (.error (.invalidSetOption ("unknown value: ".toList ++ raw)))
  | none => do
    let current ← match current with
      | some current => some current
      | none => choices[0]?
    match choices.idxOf? current with
    | none => some (.ok (.choice current))
    | some index => do
      let next ← choices[if index < 2 then 1 - index else index]?
      some (.ok (.choice next))

def normalizeScalarValue (value current : Option Text) :
    Option (Except OptionError StoredOptionValue) :=
  match query.valueType with
  | .string => normalizeString parsers query value current
  | .number minimum => some (normalizeNumber minimum value)
  | .key =>
    match value with
    | none => some (.error emptyValue)
    | some raw => (parsers.key raw).map fun key => match key with
      | none => .error (invalidInteger query.name "key code")
      | some key => .ok (.key key)
  | .colour =>
    match value with
    | none => some (.error emptyValue)
    | some raw => (normalizeColour raw).map fun colour => match colour with
      | none => .error (invalidInteger query.name "colour value")
      | some colour => .ok (.colour colour)
  | .flag => some (normalizeFlag value current)
  | .choice choices => normalizeChoice choices value current
  | .command =>
    match value with
    | none => some (.error emptyValue)
    | some raw => (parsers.command raw).map fun commands => match commands with
      | .error error =>
        .error (.invalidSetOption (query.name ++ " expects a command list: ".toList ++ error))
      | .ok commands => .ok (.command commands)

def validateQueryMutation (value : Option Text) (unset : Bool) : Option (Except OptionError Unit) :=
  if !unset && !query.isArray then
    match query.valueType with
    | .flag => some (.ok ())
    | .choice _ => some (.ok ())
    | _ =>
      if value = none then some (.error emptyValue)
      else (normalizeScalarValue parsers query value none).map fun result => result.map fun _ => ()
  else some (.ok ())

/-! ## Arrays -/

def splitArrayAssignment (value separator : Text) : List Text :=
  if separator = [] then [value]
  else
    let pieces := if ',' ∈ separator then splitText [','] value else splitText separator value
    (pieces.map trim).filter (· ≠ [])

def arrayItemFromValue (value current : Option Text) : Option (Except OptionError ArrayItem) :=
  let value := match current with
    | some current =>
      if query.index.isSome ∧ query.valueType = OptionValueType.string then
        some (current ++ value.getD [])
      else value
    | none => value
  (normalizeScalarValue parsers query value none).map fun result => result.map ArrayItem.new

/-- Items put after the others, one by one. -/
def pushItems (query : OptionQuery) : List Text → OptionEntry →
    Option (Except OptionError Unit × OptionEntry)
  | [], entry => some (.ok (), entry)
  | value :: values, entry => do
    match ← arrayItemFromValue parsers query (some value) none with
    | .error error => some (.error error, entry)
    | .ok item =>
      pushItems query values (entry.setArrayItem entry.nextArrayIndex item query.separator)

/-- The entry is changed in place, also when the change fails. -/
def applyArrayMutation (entry : OptionEntry) (query : OptionQuery) (value : Text)
    (mode : SetOptionMode) (current : Option Text) :
    Option (Except OptionError Unit × OptionEntry) :=
  match query.index, mode with
  | some index, _ => do
    let current := match mode with
      | .replace => none
      | .append => current
    match ← arrayItemFromValue parsers query (some value) current with
    | .error error => some (.error error, entry)
    | .ok item => some (.ok (), entry.setArrayItem index item query.separator)
  | none, .replace =>
    pushItems parsers query (splitArrayAssignment value query.separator) entry.clearArray
  | none, .append => pushItems parsers query (splitArrayAssignment value query.separator) entry

/-- Items numbered from 0. -/
def numberItems (query : OptionQuery) : ℕ → List Text → OrderedMap ArrayIndex ArrayItem →
    Option (Except OptionError (OrderedMap ArrayIndex ArrayItem))
  | _, [], items => some (.ok items)
  | n, value :: values, items => do
    match ← arrayItemFromValue parsers query (some value) none with
    | .error error => some (.error error)
    | .ok item => numberItems query (n + 1) values (items.insert (Fin.ofNat _ n) item)

def defaultArrayItems (default : DefaultValue) :
    Option (Except OptionError (OrderedMap ArrayIndex ArrayItem)) :=
  match default with
  | .scalar value => numberItems parsers query 0 (splitArrayAssignment value query.separator) ∅
  | .array values => numberItems parsers query 0 values ∅

def defaultScalarText : DefaultValue → Text
  | .scalar value => value
  | .array _ => []

/-- The entry of the default. It is missing when the default is not a value of the option. -/
def defaultEntryForScope (scope : OptionScopeSelector) : Option (Option OptionEntry) :=
  match query.defaultValue with
  | none => some none
  | some default =>
    if query.isArray then
      (defaultArrayItems parsers query default).map fun items =>
        items.toOption.map (.newArray query scope)
    else
      (normalizeScalarValue parsers query (some (defaultScalarText default)) none).map fun value =>
        value.toOption.map (.newScalar query scope)

end Values

/-! ## Trees and lookups -/

/-- From where an option is looked up. -/
inductive ResolveContext
  | server
  | sessionGlobal
  | windowGlobal
  | session (name : SessionName)
  | window (name : SessionName) (windowIndex : ℕ)
  | pane (name : SessionName) (windowIndex paneIndex : ℕ)

def scopeAllows (mask : ℕ) (query : OptionQuery) : Bool :=
  match query.metadata with
  | none => true
  | some metadata => metadata.scopeMask &&& mask ≠ 0

variable (query : OptionQuery)

def scopeAllowsSession : Bool := scopeAllows scopeSession query

def scopeAllowsWindow : Bool := scopeAllows scopeWindow query

def scopeAllowsPane : Bool := scopeAllows scopePane query

def defaultValueAsString : Option Text :=
  query.defaultValue.map fun default => match default with
    | .scalar value => value
    | .array values => query.separator.intercalate values

def defaultRenderedValue : Option Text :=
  if query.index.isSome then none
  else
    match query.defaultValue with
    | some (.scalar value) => some value
    | _ => none

def formatRenderedOptionValue (value : Text) : Text :=
  match query.valueType with
  | .flag => if value = "on".toList then "1".toList else "0".toList
  | _ => value

namespace OptionStore

variable (store : OptionStore)

def nodeForExactScope : OptionScopeSelector → Option OptionNode
  | .serverGlobal => some store.serverGlobal
  | .sessionGlobal => some store.sessionGlobal
  | .windowGlobal => some store.windowGlobal
  | .session name => store.sessions.lookup name
  | .window target => store.windows.lookup target
  | .pane target => store.panes.lookup target

def setNode (scope : OptionScopeSelector) (node : OptionNode) : OptionStore :=
  match scope with
  | .serverGlobal => { store with serverGlobal := node }
  | .sessionGlobal => { store with sessionGlobal := node }
  | .windowGlobal => { store with windowGlobal := node }
  | .session name => { store with sessions := store.sessions.insert name node }
  | .window target => { store with windows := store.windows.insert target node }
  | .pane target => { store with panes := store.panes.insert target node }

/-- The tree of a scope, and the store that has it : a missing tree is made. -/
def nodeForExactScopeMut (scope : OptionScopeSelector) : OptionNode × OptionStore :=
  let node := (store.nodeForExactScope scope).getD .empty
  (node, store.setNode scope node)

/-- The trees of the global values of an option. -/
def knownGlobalRoots (query : OptionQuery) : List OptionNode :=
  match query.metadata with
  | none => [store.windowGlobal, store.sessionGlobal, store.serverGlobal]
  | some metadata =>
    match metadata.globalRoot with
    | .server => [store.serverGlobal]
    | .session => [store.sessionGlobal]
    | .window => [store.windowGlobal]

/-- A tree that exists and may hold the option, or does. -/
def allowedNode (allowed : Bool) (query : OptionQuery) (node : Option OptionNode) : List OptionNode :=
  node.toList.filter fun node => allowed || node.contains query.name query.index

def chainForContext (context : ResolveContext) (query : OptionQuery) : List OptionNode :=
  match context with
  | .server => [store.serverGlobal]
  | .sessionGlobal =>
    if query.isUser then [store.sessionGlobal, store.serverGlobal] else [store.sessionGlobal]
  | .windowGlobal =>
    if query.isUser then [store.windowGlobal, store.sessionGlobal, store.serverGlobal]
    else [store.windowGlobal]
  | .session name =>
    allowedNode (scopeAllowsSession query) query (store.sessions.lookup name) ++
      store.knownGlobalRoots query
  | .window name windowIndex =>
    allowedNode (scopeAllowsWindow query) query (store.windows.lookup ⟨name, windowIndex⟩) ++
      allowedNode (scopeAllowsSession query) query (store.sessions.lookup name) ++
      store.knownGlobalRoots query
  | .pane name windowIndex paneIndex =>
    allowedNode (scopeAllowsPane query) query (store.panes.lookup ⟨name, windowIndex, paneIndex⟩) ++
      allowedNode (scopeAllowsWindow query) query (store.windows.lookup ⟨name, windowIndex⟩) ++
      allowedNode (scopeAllowsSession query) query (store.sessions.lookup name) ++
      store.knownGlobalRoots query

def resolveQuery (context : ResolveContext) (query : OptionQuery) : Option OptionEntry :=
  (store.chainForContext context query).findSome? fun node =>
    (node.entry query.name).filter fun entry =>
      query.index.isNone || (entry.valueAt query.index).isSome

def contextOfScope : OptionScopeSelector → ResolveContext
  | .serverGlobal => .server
  | .sessionGlobal => .sessionGlobal
  | .windowGlobal => .windowGlobal
  | .session name => .session name
  | .window target => .window target.sessionName target.windowIndex
  | .pane target => .pane target.sessionName target.windowIndex target.paneIndex

def effectiveValueForScope (scope : OptionScopeSelector) (query : OptionQuery) : Option Text :=
  (store.resolveQuery (contextOfScope scope) query).bind fun entry => entry.valueAt query.index

def explicitValueForScope (scope : OptionScopeSelector) (query : OptionQuery) : Option Text :=
  (store.nodeForExactScope scope).bind fun node => node.value query.name query.index

def sessionContext : Option SessionName → ResolveContext
  | some name => .session name
  | none => .server

/-- The value of a known option in a context. -/
def resolveIn (context : ResolveContext) (option : OptionName) : Option (Option Text) :=
  (OptionQuery.known option).map fun query =>
    ((store.resolveQuery context query).map OptionEntry.rendered).or (defaultRenderedValue query)

def resolve (sessionName : Option SessionName) (option : OptionName) : Option (Option Text) :=
  store.resolveIn (sessionContext sessionName) option

def resolveForWindow (name : SessionName) (windowIndex : ℕ) (option : OptionName) :
    Option (Option Text) :=
  store.resolveIn (.window name windowIndex) option

def resolveForPane (name : SessionName) (windowIndex paneIndex : ℕ) (option : OptionName) :
    Option (Option Text) :=
  store.resolveIn (.pane name windowIndex paneIndex) option

def resolveArrayValues (sessionName : Option SessionName) (option : OptionName) :
    Option (List Text) :=
  (OptionQuery.known option).map fun query =>
    if query.isArray then
      ((store.resolveQuery (sessionContext sessionName) query).map OptionEntry.arrayValues).getD
        (match query.defaultValue with
          | some (.scalar value) => splitArrayAssignment value query.separator
          | some (.array values) => values
          | none => [])
    else []

/-- The first text that the trees of some scopes have, or the default. -/
def resolveNameFromNodes (query : OptionQuery) (scopes : List OptionScopeSelector) : Option Text :=
  (scopes.findSome? fun scope => store.explicitValueForScope scope query).or
    (defaultValueAsString query)

def resolveName (sessionName : Option SessionName) (name : Text) : Option Text :=
  (resolveOptionName name).toOption.bind fun query =>
    match sessionName with
    | some sessionName =>
      store.resolveNameFromNodes query [.serverGlobal, .session sessionName, .sessionGlobal]
    | none => store.resolveNameFromNodes query [.serverGlobal]

def resolveNameForFormat (sessionName : Option SessionName) (name : Text) : Option Text :=
  (resolveExactOptionName name).toOption.bind fun query =>
    (match sessionName with
      | some sessionName =>
        store.resolveNameFromNodes query [.serverGlobal, .session sessionName, .sessionGlobal]
      | none =>
        store.resolveNameFromNodes query [.serverGlobal, .sessionGlobal, .windowGlobal]).map
      (formatRenderedOptionValue query)

/-- The scopes that a name is looked up at for a window. -/
def windowScopes (sessionName : SessionName) (windowIndex : ℕ) : List OptionScopeSelector :=
  [.window ⟨sessionName, windowIndex⟩, .windowGlobal, .session sessionName, .sessionGlobal]

def resolveNameForWindow (sessionName : SessionName) (windowIndex : ℕ) (name : Text) :
    Option Text :=
  (resolveOptionName name).toOption.bind fun query =>
    store.resolveNameFromNodes query (.serverGlobal :: windowScopes sessionName windowIndex)

def resolveNameForWindowFormat (sessionName : SessionName) (windowIndex : ℕ) (name : Text) :
    Option Text :=
  (resolveExactOptionName name).toOption.bind fun query =>
    (store.resolveNameFromNodes query (.serverGlobal :: windowScopes sessionName windowIndex)).map
      (formatRenderedOptionValue query)

def resolveNameForPane (sessionName : SessionName) (windowIndex paneIndex : ℕ) (name : Text) :
    Option Text :=
  (resolveOptionName name).toOption.bind fun query =>
    store.resolveNameFromNodes query
      (.serverGlobal :: .pane ⟨sessionName, windowIndex, paneIndex⟩ ::
        windowScopes sessionName windowIndex)

def resolveNameForPaneFormat (sessionName : SessionName) (windowIndex paneIndex : ℕ) (name : Text) :
    Option Text :=
  (resolveExactOptionName name).toOption.bind fun query =>
    (store.resolveNameFromNodes query
      (.serverGlobal :: .pane ⟨sessionName, windowIndex, paneIndex⟩ ::
        windowScopes sessionName windowIndex)).map (formatRenderedOptionValue query)

def explicitValueByName (scope : OptionScopeSelector) (name : Text) :
    Except OptionError (Text × Option Text) :=
  (resolveOptionName name).map fun query => (query.name, store.explicitValueForScope scope query)

end OptionStore

/-! ## Mutations -/

/-- What the rest of the program is told of a change. -/
structure OptionNotification where
  name : Text
  scope : OptionScopeSelector
  effects : OptionChangeMask
deriving DecidableEq

/-- The outcome of a change. -/
structure OptionMutation where
  name : Text
  scope : OptionScopeSelector
  knownOption : Option OptionName
  oldExplicit : Option Text
  newExplicit : Option Text
  changed : Bool
  notifications : List OptionNotification
deriving DecidableEq

/-- What a mutation did, and the mutations of panes that came with it. -/
structure OptionMutationOutcome extends OptionMutation where
  related : List OptionMutation
deriving DecidableEq

def buildMutation (scope : OptionScopeSelector) (oldExplicit newExplicit : Option Text) :
    OptionMutation :=
  ⟨query.name, scope, query.knownOption, oldExplicit, newExplicit, oldExplicit ≠ newExplicit,
    if query.effects = 0 then [] else [⟨query.name, scope, query.effects⟩]⟩

def isGlobalScope : OptionScopeSelector → Bool
  | .serverGlobal => true
  | .sessionGlobal => true
  | .windowGlobal => true
  | _ => false

def alreadySet : OptionError :=
  .invalidSetOption (query.name ++ " is already set".toList)

namespace OptionStore

variable (parsers : ScalarParsers) (store : OptionStore)

/-- What a call returns, and the store after it. -/
abbrev Return (α : Type) : Type := Except OptionError α × OptionStore

/-- The entry that an array mutation changes : the one of the tree, or a new one. -/
def arrayEntry (node : OptionNode) (query : OptionQuery) (scope : OptionScopeSelector)
    (defaultEntry : Option OptionEntry) : OptionEntry :=
  (node.entry query.name).getD
    (if isGlobalScope scope then defaultEntry.getD (.newEmptyArray query scope)
      else .newEmptyArray query scope)

variable (scope : OptionScopeSelector)

def setArray (query : OptionQuery) (value : Option Text) (mode : SetOptionMode)
    (explicitBefore : Option Text) (defaultEntry : Option OptionEntry) :
    Option (Return Unit) := do
  let (node, store) := store.nodeForExactScopeMut scope
  let entry := arrayEntry node query scope defaultEntry
  let (result, entry) ← applyArrayMutation parsers entry query (value.getD []) mode explicitBefore
  some (result, store.setNode scope (node.insert query.name entry))

/-- The text that a scalar value is put behind or toggled from. -/
def scalarCurrent (query : OptionQuery) (mode : SetOptionMode)
    (explicitBefore effectiveBefore : Option Text) : Option Text :=
  match query.valueType, mode with
  | .string, .append =>
    if explicitBefore.isSome ∨ isGlobalScope scope then explicitBefore.or effectiveBefore else none
  | .string, .replace => none
  | _, _ => effectiveBefore

def setScalar (query : OptionQuery) (value current : Option Text) :
    Option (Return Unit) := do
  let (node, store) := store.nodeForExactScopeMut scope
  match ← normalizeScalarValue parsers query value current with
  | .error error => some (.error error, store)
  | .ok normalized =>
    some (.ok (), store.setNode scope (node.insert query.name (.newScalar query scope normalized)))

def setQuery (query : OptionQuery) (value : Option Text) (mode : SetOptionMode)
    (onlyIfUnset : Bool) : Option (Return OptionMutation) := do
  let effectiveBefore := (store.effectiveValueForScope scope query).or (defaultValueAsString query)
  let explicitBefore := store.explicitValueForScope scope query
  let defaultEntry ← defaultEntryForScope parsers query scope
  if onlyIfUnset && explicitBefore.isSome then
    some (.error (alreadySet query), (store.nodeForExactScopeMut scope).2)
  else if query.isArray && mode = .append && query.index.isNone && (value.getD []).isEmpty then
    some (.ok (buildMutation query scope explicitBefore explicitBefore),
      (store.nodeForExactScopeMut scope).2)
  else do
    let (result, store) ←
      if query.isArray then
        store.setArray parsers scope query value mode explicitBefore defaultEntry
      else
        store.setScalar parsers scope query value
          (scalarCurrent scope query mode explicitBefore effectiveBefore)
    let explicitAfter := store.explicitValueForScope scope query
    some (result.map fun _ => buildMutation query scope explicitBefore explicitAfter, store)

/-- The tree without the option or the item. -/
def unsetNode (node : OptionNode) (scope : OptionScopeSelector) (query : OptionQuery)
    (defaultEntry : Option OptionEntry) : OptionNode :=
  match query.isArray, query.index with
  | true, some index =>
    match node.entry query.name with
    | none => node
    | some entry =>
      let entry := entry.removeArrayIndex index query.separator
      if entry.isEmpty then node.remove query.name else node.insert query.name entry
  | _, _ =>
    if isGlobalScope scope then
      match defaultEntry with
      | some entry => node.insert query.name entry
      | none => node.remove query.name
    else node.remove query.name

def unsetQuery (query : OptionQuery) (onlyIfUnset : Bool) :
    Option (Return OptionMutation) := do
  let explicitBefore := store.explicitValueForScope scope query
  let defaultEntry ← defaultEntryForScope parsers query scope
  let (node, store) := store.nodeForExactScopeMut scope
  if onlyIfUnset && node.contains query.name query.index then
    some (.error (alreadySet query), store)
  else
    let store := store.setNode scope (unsetNode node scope query defaultEntry)
    let explicitAfter := store.explicitValueForScope scope query
    some (.ok (buildMutation query scope explicitBefore explicitAfter), store)

def paneInWindow (target : WindowTarget) (pane : PaneTarget) : Bool :=
  pane.sessionName = target.sessionName && pane.windowIndex = target.windowIndex

/-- The panes of a window without the option. Trees that are then empty are dropped. -/
def unsetWindowPaneOverrides (target : WindowTarget) (query : OptionQuery) :
    List OptionMutation × OptionStore :=
  let outcomes := store.panes.entries.filterMap fun e =>
    if paneInWindow target e.1 then
      (e.2.value query.name query.index).map fun old =>
        buildMutation query (.pane e.1) (some old) none
    else none
  let clear : (Sigma fun _ : PaneTarget => OptionNode) → Sigma fun _ : PaneTarget => OptionNode :=
    fun e => ⟨e.1, if paneInWindow target e.1 then e.2.remove query.name else e.2⟩
  let panes := ((store.panes.entries.map clear).filter fun e => !e.2.entries.entries.isEmpty)
  (outcomes, { store with panes := panes.toAList })

def setByName (name : Text) (value : Option Text) (mode : SetOptionMode)
    (onlyIfUnset unset unsetPaneOverrides : Bool) : Option (Return OptionMutationOutcome) :=
  match resolveOptionName name with
  | .error error => some (.error error, store)
  | .ok query => do
    match ← validateQueryMutation parsers query value unset with
    | .error error => some (.error error, store)
    | .ok () => do
      let (result, store) ←
        if unset then store.unsetQuery parsers scope query onlyIfUnset
        else store.setQuery parsers scope query value mode onlyIfUnset
      match result with
      | .error error => some (.error error, store)
      | .ok outcome =>
        match scope with
        | .window target =>
          if unsetPaneOverrides then
            let (related, store) := store.unsetWindowPaneOverrides target query
            some (.ok ⟨outcome, related⟩, store)
          else some (.ok ⟨outcome, []⟩, store)
        | _ => some (.ok ⟨outcome, []⟩, store)

end OptionStore

end Rmux
