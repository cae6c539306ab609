import Mathlib.Data.List.Basic
import Rmux.MachineInt

/-!
# Command lists and the command table

Command lists are those of `command_parser.rs`. `lookupCommandAt` finds the entry of the command
table that a name stands for (`command_parser/lookup.rs`) : the exact alias of an entry, or the
beginning of one name only.
-/

namespace Rmux

open MachineInt List Except

variable (p : ParsedCommands)

/-! ## Errors -/

/-- What went wrong : the structure of the text, the lookup of a name, or anything else. -/
inductive CommandParseErrorKind
  | structural
  | lookup
  | other
deriving DecidableEq

/-- An error with its line. -/
structure CommandParseError where
  line : ℕ
  message : String
  kind : CommandParseErrorKind
deriving DecidableEq

namespace CommandParseError

def new (line : ℕ) (message : String) : CommandParseError := ⟨line, message, .other⟩

def structural (line : ℕ) (message : String) : CommandParseError := ⟨line, message, .structural⟩

def lookup (line : ℕ) (message : String) : CommandParseError := ⟨line, message, .lookup⟩

def withLine (e : CommandParseError) (line : ℕ) : CommandParseError := { e with line }

end CommandParseError

/-! ## Command lists -/

/-- A parse-time `name=value` assignment; `%hidden` precedes a hidden one. -/
structure EnvironmentAssignment where
  name : String
  value : String
  hidden : Bool
deriving DecidableEq

/-- Which commands of a list share a queue group. -/
inductive CommandGrouping
  | byLine
  | oneGroup
deriving DecidableEq

mutual

/-- A command list with the assignments made while it was read. -/
inductive ParsedCommands
  | mk (commands : List ParsedCommand) (assignments : List EnvironmentAssignment)
      (grouping : CommandGrouping)

/-- A command with its arguments and the lines it starts and ends on. -/
inductive ParsedCommand
  | mk (name : String) (arguments : List CommandArgument) (startLine line : ℕ)

/-- A string, or a list of commands in braces. -/
inductive CommandArgument
  | string (value : String)
  | commands (commands : ParsedCommands)

end

namespace ParsedCommand

variable (n : String) (as : List CommandArgument)

def name : ParsedCommand → String
  | mk name _ _ _ => name

def arguments : ParsedCommand → List CommandArgument
  | mk _ arguments _ _ => arguments

def startLine : ParsedCommand → ℕ
  | mk _ _ startLine _ => startLine

def line : ParsedCommand → ℕ
  | mk _ _ _ line => line

@[simp] theorem name_mk (s l : ℕ) : (mk n as s l).name = n := rfl

@[simp] theorem arguments_mk (s l : ℕ) : (mk n as s l).arguments = as := rfl

@[simp] theorem startLine_mk (s l : ℕ) : (mk n as s l).startLine = s := rfl

@[simp] theorem line_mk (s l : ℕ) : (mk n as s l).line = l := rfl

end ParsedCommand

namespace ParsedCommands

variable (cs : List ParsedCommand) (as : List EnvironmentAssignment) (g : CommandGrouping)

def commands : ParsedCommands → List ParsedCommand
  | mk commands _ _ => commands

def assignments : ParsedCommands → List EnvironmentAssignment
  | mk _ assignments _ => assignments

def grouping : ParsedCommands → CommandGrouping
  | mk _ _ grouping => grouping

@[simp] theorem commands_mk : (mk cs as g).commands = cs := rfl

@[simp] theorem assignments_mk : (mk cs as g).assignments = as := rfl

@[simp] theorem grouping_mk : (mk cs as g).grouping = g := rfl

def withGrouping (grouping : CommandGrouping) : ParsedCommands := mk [] [] grouping

def pushAssignment (p : ParsedCommands) (assignment : EnvironmentAssignment) : ParsedCommands :=
  mk p.commands (p.assignments ++ [assignment]) p.grouping

def append (p other : ParsedCommands) : ParsedCommands :=
  mk (p.commands ++ other.commands) (p.assignments ++ other.assignments) p.grouping

end ParsedCommands

namespace CommandArgument

/-- The assignments of a nested list. -/
def assignments : CommandArgument → List EnvironmentAssignment
  | string _ => []
  | commands list => list.assignments

/-- The argument with the assignments of a nested list taken out. -/
def drained : CommandArgument → CommandArgument
  | string value => string value
  | commands list => commands (.mk list.commands [] list.grouping)

end CommandArgument

/-- Move the assignments of nested lists to `assignments`. -/
def ParsedCommand.drainNestedAssignmentsInto (c : ParsedCommand)
    (assignments : List EnvironmentAssignment) : ParsedCommand × List EnvironmentAssignment :=
  (.mk c.name (c.arguments.map CommandArgument.drained) c.startLine c.line,
    assignments ++ c.arguments.flatMap CommandArgument.assignments)

def ParsedCommands.pushCommand (p : ParsedCommands) (c : ParsedCommand) : ParsedCommands :=
  let (command, assignments) := c.drainNestedAssignmentsInto p.assignments
  .mk (p.commands ++ [command]) assignments p.grouping

/-! ## All commands of a list -/

section Collect

variable {β : Type} (F : String → List CommandArgument → List β) (p : ParsedCommands)

mutual

/-- What `F` gives for each command of a list, at every depth, in order. -/
def collect : ParsedCommands → List β
  | .mk commands _ _ => collectOf commands

def collectOf : List ParsedCommand → List β
  | [] => []
  | .mk name arguments _ _ :: cs => F name arguments ++ collectIn arguments ++ collectOf cs

def collectIn : List CommandArgument → List β
  | [] => []
  | a :: arguments => collectArgument a ++ collectIn arguments

def collectArgument : CommandArgument → List β
  | .string _ => []
  | .commands list => collect list

end

theorem collect_eq : collect F p = collectOf F p.commands := by
  cases p
  rfl

theorem collectOf_append (xs ys : List ParsedCommand) :
    collectOf F (xs ++ ys) = collectOf F xs ++ collectOf F ys := by
  induction xs with
  | nil => rfl
  | cons x xs ih =>
    cases x
    simp [collectOf, ih]

theorem collectIn_append (xs ys : List CommandArgument) :
    collectIn F (xs ++ ys) = collectIn F xs ++ collectIn F ys := by
  induction xs with
  | nil => rfl
  | cons x xs ih => simp [collectIn, ih]

theorem collect_append (q : ParsedCommands) :
    collect F (p.append q) = collect F p ++ collect F q := by
  simp [collect_eq, ParsedCommands.append, collectOf_append]

@[simp] theorem collect_pushAssignment (a : EnvironmentAssignment) :
    collect F (p.pushAssignment a) = collect F p := by
  simp [collect_eq, ParsedCommands.pushAssignment]

/-- Taking the assignments out of nested lists does not change their commands. -/
theorem collectIn_map_drained (arguments : List CommandArgument) :
    collectIn F (arguments.map .drained) = collectIn F arguments := by
  induction arguments with
  | nil => rfl
  | cons a arguments ih =>
    have ha : collectArgument F a.drained = collectArgument F a := by
      rcases a with _ | ⟨⟨_, _, _⟩⟩ <;> rfl
    simp [collectIn, ha, ih]

theorem collect_pushCommand (c : ParsedCommand) : collect F (p.pushCommand c) =
      collect F p ++ F c.name (c.arguments.map .drained) ++ collectIn F c.arguments := by
  simp [collect_eq, ParsedCommands.pushCommand, ParsedCommand.drainNestedAssignmentsInto,
    collectOf_append, collectOf, collectIn_map_drained]

end Collect

/-- The names of all commands. -/
def ParsedCommands.names : ParsedCommands → List String := collect fun name _ => [name]

/-- The assignments that nested lists carry, at every depth. -/
def ParsedCommands.carried : ParsedCommands → List EnvironmentAssignment :=
  collect fun _ arguments => arguments.flatMap CommandArgument.assignments

abbrev namesOf : List ParsedCommand → List String := collectOf fun name _ => [name]

abbrev namesIn : List CommandArgument → List String := collectIn fun name _ => [name]

abbrev carriedOf : List ParsedCommand → List EnvironmentAssignment :=
  collectOf fun _ arguments => arguments.flatMap CommandArgument.assignments

abbrev carriedIn : List CommandArgument → List EnvironmentAssignment :=
  collectIn fun _ arguments => arguments.flatMap CommandArgument.assignments

theorem names_eq : p.names = namesOf p.commands := collect_eq _ p

theorem carried_eq : p.carried = carriedOf p.commands := collect_eq _ p

theorem flatMap_assignments_map_drained (args : List CommandArgument) :
    (args.map CommandArgument.drained).flatMap CommandArgument.assignments = [] := by
  rw [flatMap_map, flatMap_eq_nil_iff]
  rintro (_ | ⟨_, _, _⟩) _ <;> rfl

theorem carried_pushCommand (c : ParsedCommand) :
    (p.pushCommand c).carried = p.carried ++ carriedIn c.arguments := by
  rw [ParsedCommands.carried, collect_pushCommand, flatMap_assignments_map_drained, append_nil]

/-! ## Bytes of a text -/

/-- The length of a string in bytes. -/
def byteLength (s : String) : ℕ := (s.toList.map Char.utf8Size).sum

/-! ## The command table -/

/-- A row of the command table. -/
structure CommandEntry where
  name : String
  aliasName : Option String
deriving DecidableEq

def commandTable : List CommandEntry :=
  [⟨"attach-session", some "attach"⟩, ⟨"bind-key", some "bind"⟩, ⟨"break-pane", some "breakp"⟩,
   ⟨"capture-pane", some "capturep"⟩, ⟨"choose-buffer", none⟩, ⟨"choose-client", none⟩,
   ⟨"choose-tree", none⟩, ⟨"clear-history", some "clearhist"⟩,
   ⟨"clear-prompt-history", some "clearphist"⟩, ⟨"clock-mode", none⟩, ⟨"command-prompt", none⟩,
   ⟨"confirm-before", some "confirm"⟩, ⟨"copy-mode", none⟩, ⟨"customize-mode", none⟩,
   ⟨"delete-buffer", some "deleteb"⟩, ⟨"detach-client", some "detach"⟩,
   ⟨"display-menu", some "menu"⟩, ⟨"display-message", some "display"⟩,
   ⟨"display-popup", some "popup"⟩, ⟨"display-panes", some "displayp"⟩,
   ⟨"find-window", some "findw"⟩, ⟨"has-session", some "has"⟩, ⟨"if-shell", some "if"⟩,
   ⟨"join-pane", some "joinp"⟩, ⟨"kill-pane", some "killp"⟩, ⟨"kill-server", none⟩,
   ⟨"kill-session", none⟩, ⟨"kill-window", some "killw"⟩, ⟨"last-pane", some "lastp"⟩,
   ⟨"last-window", some "last"⟩, ⟨"link-window", some "linkw"⟩, ⟨"list-buffers", some "lsb"⟩,
   ⟨"list-clients", some "lsc"⟩, ⟨"list-commands", some "lscm"⟩, ⟨"list-keys", some "lsk"⟩,
   ⟨"list-panes", some "lsp"⟩, ⟨"list-sessions", some "ls"⟩, ⟨"list-windows", some "lsw"⟩,
   ⟨"load-buffer", some "loadb"⟩, ⟨"lock-client", some "lockc"⟩, ⟨"lock-server", some "lock"⟩,
   ⟨"lock-session", some "locks"⟩, ⟨"move-pane", some "movep"⟩, ⟨"move-window", some "movew"⟩,
   ⟨"new-session", some "new"⟩, ⟨"new-window", some "neww"⟩, ⟨"next-layout", some "nextl"⟩,
   ⟨"next-window", some "next"⟩, ⟨"paste-buffer", some "pasteb"⟩, ⟨"pipe-pane", some "pipep"⟩,
   ⟨"previous-layout", some "prevl"⟩, ⟨"previous-window", some "prev"⟩,
   ⟨"refresh-client", some "refresh"⟩, ⟨"rename-session", some "rename"⟩,
   ⟨"rename-window", some "renamew"⟩, ⟨"resize-pane", some "resizep"⟩,
   ⟨"resize-window", some "resizew"⟩, ⟨"respawn-pane", some "respawnp"⟩,
   ⟨"respawn-window", some "respawnw"⟩, ⟨"rotate-window", some "rotatew"⟩,
   ⟨"run-shell", some "run"⟩, ⟨"save-buffer", some "saveb"⟩, ⟨"select-layout", some "selectl"⟩,
   ⟨"select-pane", some "selectp"⟩, ⟨"select-window", some "selectw"⟩, ⟨"send-keys", some "send"⟩,
   ⟨"send-prefix", none⟩, ⟨"server-access", none⟩, ⟨"set-buffer", some "setb"⟩,
   ⟨"set-environment", some "setenv"⟩, ⟨"set-hook", none⟩, ⟨"set-option", some "set"⟩,
   ⟨"set-window-option", some "setw"⟩, ⟨"show-buffer", some "showb"⟩,
   ⟨"show-environment", some "showenv"⟩, ⟨"show-hooks", none⟩, ⟨"show-messages", some "showmsgs"⟩,
   ⟨"show-options", some "show"⟩, ⟨"show-prompt-history", some "showphist"⟩,
   ⟨"show-window-options", some "showw"⟩, ⟨"source-file", some "source"⟩,
   ⟨"split-window", some "splitw"⟩, ⟨"start-server", some "start"⟩,
   ⟨"suspend-client", some "suspendc"⟩, ⟨"swap-pane", some "swapp"⟩,
   ⟨"swap-window", some "swapw"⟩, ⟨"switch-client", some "switchc"⟩,
   ⟨"unbind-key", some "unbind"⟩, ⟨"unlink-window", some "unlinkw"⟩, ⟨"wait-for", some "wait"⟩]

/-- Scan entries for those whose name starts with `name` : the last one seen, and whether there was
another before it. An entry of exactly this name ends the scan. -/
def scanPrefixes (name : String) :
    List CommandEntry → Option CommandEntry → Bool → Option CommandEntry × Bool
  | [], found, ambiguous => (found, ambiguous)
  | entry :: entries, found, ambiguous =>
    if name.toList.isPrefixOf entry.name.toList then
      if entry.name = name then (some entry, false)
      else scanPrefixes name entries (some entry) (ambiguous || found.isSome)
    else scanPrefixes name entries found ambiguous

def lookupCommandAt (name : String) (line : ℕ) (exactCommands : List CommandEntry) :
    Except CommandParseError CommandEntry :=
  match commandTable.find? (·.aliasName = some name) with
  | some entry => .ok entry
  | none =>
    match exactCommands.find? fun entry => entry.aliasName = some name ∨ entry.name = name with
    | some entry => .ok entry
    | none =>
      match scanPrefixes name commandTable none false with
      | (_, true) =>
        let candidates := commandTable.filter fun entry =>
          name.toList.isPrefixOf entry.name.toList
        .error (.lookup line ("ambiguous command: " ++ name ++ ", could be: " ++
          ", ".intercalate (candidates.map CommandEntry.name)))
      | (some entry, false) => .ok entry
      | (none, false) => .error (.lookup line ("unknown command: " ++ name))

theorem mem_of_scanPrefixes {name : String} {entry : CommandEntry} :
    ∀ {es : List CommandEntry} {found : Option CommandEntry} {ambiguous : Bool},
      (scanPrefixes name es found ambiguous).1 = some entry → entry ∈ es ∨
        found = some entry
  | [], _, _, h => .inr h
  | e :: es, found, ambiguous, h => by
    rw [scanPrefixes] at h
    split_ifs at h
    · exact .inl (List.mem_cons.mpr (.inl (Option.some.inj h).symm))
    · rcases mem_of_scanPrefixes h with hmem | heq
      · exact .inl (List.mem_cons_of_mem e hmem)
      · exact .inl (List.mem_cons.mpr (.inl (Option.some.inj heq).symm))
    · exact (mem_of_scanPrefixes h).imp_left (List.mem_cons_of_mem e)

/-- What is found is an entry of one of the tables. -/
theorem mem_of_lookupCommandAt {name : String} {line : ℕ} {exactCommands : List CommandEntry}
    {e : CommandEntry} (h : lookupCommandAt name line exactCommands = .ok e) :
    e ∈ commandTable ∨ e ∈ exactCommands := by
  unfold lookupCommandAt at h
  split at h
  · obtain rfl := ok.inj h
    exact .inl (mem_of_find?_eq_some ‹_›)
  · split at h
    · obtain rfl := ok.inj h
      exact .inr (mem_of_find?_eq_some ‹_›)
    · split at h
      · cases h
      · obtain rfl := ok.inj h
        exact .inl ((mem_of_scanPrefixes (congrArg Prod.fst ‹_›)).resolve_right (by simp))
      · cases h

end Rmux
