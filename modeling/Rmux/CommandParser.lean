import Rmux.CommandGrammar

/-!
# Parsing and resolving command lists

A command text is read by the grammar, its commands are checked for length, and then resolved in one
recursive pass (`expand_and_lookup` in `command_parser.rs`) : a command whose name is an alias is
replaced by what the text of the alias parses to; any other name is looked up in the command tables,
after its nested lists are resolved.
-/

namespace Rmux

open MachineInt

/-! ## Length -/

def ensureCommandLength (bytes line maxCommandBytes : ℕ) : Except CommandParseError Unit :=
  if maxCommandBytes < bytes then .error (.new line "command too long") else .ok ()

mutual

def ensureParsedCommandLengths (maxCommandBytes : ℕ) :
    ParsedCommands → Except CommandParseError Unit
  | .mk commands _ _ => ensureEachLength maxCommandBytes commands

def ensureEachLength (maxCommandBytes : ℕ) : List ParsedCommand → Except CommandParseError Unit
  | [] => .ok ()
  | c :: cs => do
    ensureParsedCommandLength maxCommandBytes c
    ensureEachLength maxCommandBytes cs

def ensureParsedCommandLength (maxCommandBytes : ℕ) :
    ParsedCommand → Except CommandParseError Unit
  | .mk name arguments _ line => do
    let bytes ← argumentBytes maxCommandBytes (byteLength name) arguments
    ensureCommandLength bytes line maxCommandBytes

/-- The bytes of a command, `bytes` and those of its arguments; a nested list is checked for
itself. -/
def argumentBytes (maxCommandBytes : ℕ) :
    ℕ → List CommandArgument → Except CommandParseError ℕ
  | bytes, [] => .ok bytes
  | bytes, a :: arguments => do
    let bytes ← oneArgumentBytes maxCommandBytes (satAdd64 bytes 1) a
    argumentBytes maxCommandBytes bytes arguments

def oneArgumentBytes (maxCommandBytes bytes : ℕ) :
    CommandArgument → Except CommandParseError ℕ
  | .string value => .ok (satAdd64 bytes (byteLength value))
  | .commands list => do
    ensureParsedCommandLengths maxCommandBytes list
    .ok bytes

end

/-! ## Resolving -/

/-- The commands with `arguments` after those of the last one. -/
def appendToLast (arguments : List CommandArgument) : List ParsedCommand → List ParsedCommand
  | [] => []
  | [last] => [.mk last.name (last.arguments ++ arguments) last.startLine last.line]
  | c :: cs => c :: appendToLast arguments cs

/-- What an alias was replaced by takes the place of the command `c`. -/
def replaceCommand (c : ParsedCommand) (replacement : ParsedCommands) : ParsedCommands :=
  .mk (appendToLast c.arguments
      (replacement.commands.map fun r => .mk r.name r.arguments c.startLine c.line))
    replacement.assignments replacement.grouping

section Resolve

/-- What a name stands for if it is an alias, given the assignments of its list. -/
abbrev Replacement :=
  List EnvironmentAssignment → String → Option (Except CommandParseError ParsedCommands)

variable (exactCommands : List CommandEntry) (replacement : Replacement)

mutual

def resolve : ParsedCommands → Except CommandParseError ParsedCommands
  | .mk commands assignments grouping =>
    resolveCommands assignments commands (.mk [] assignments grouping)

/-- The loop over the commands of a list with these assignments, after `output`. -/
def resolveCommands (assignments : List EnvironmentAssignment) :
    List ParsedCommand → ParsedCommands → Except CommandParseError ParsedCommands
  | [], output => .ok output
  | .mk name arguments startLine line :: cs, output =>
    match replacement assignments name with
    | some (.ok replaced) =>
      resolveCommands assignments cs
        (output.append (replaceCommand (.mk name arguments startLine line) replaced))
    | some (.error e) => .error (e.withLine line)
    | none => do
      let arguments ← resolveArguments arguments
      let entry ← lookupCommandAt name line exactCommands
      resolveCommands assignments cs
        (output.pushCommand (.mk entry.name arguments startLine line))

def resolveArguments : List CommandArgument → Except CommandParseError (List CommandArgument)
  | [] => .ok []
  | a :: arguments => do
    let a ← resolveArgument a
    let arguments ← resolveArguments arguments
    .ok (a :: arguments)

def resolveArgument : CommandArgument → Except CommandParseError CommandArgument
  | .string value => .ok (.string value)
  | .commands list => do
    let list ← resolve list
    .ok (.commands list)

end

end Resolve

/-- The aliases there are without any set by the user. -/
def CommandAlias.builtin : List CommandAlias :=
  [⟨"split-pane", "split-window"⟩, ⟨"splitp", "split-window"⟩,
   ⟨"server-info", "show-messages -JT"⟩, ⟨"info", "show-messages -JT"⟩,
   ⟨"choose-window", "choose-tree -w"⟩, ⟨"choose-session", "choose-tree -s"⟩]

def defaultMaxCommandBytes : ℕ := 16 * 1024

namespace CommandParser

/-- A parser without environment, home directories or aliases of the user, not built for Windows. -/
def new (conditionIsTrue : String → Bool) : CommandParser where
  windows := false
  environment := []
  conditionIsTrue := conditionIsTrue
  homeDir := none
  userHomeDirs := []
  commandAliases := CommandAlias.builtin
  exactCommands := []
  maxCommandBytes := defaultMaxCommandBytes

variable (parser : CommandParser) (input : String)

/-- Read a command text, without resolving it. -/
def readStructure (grouping : CommandGrouping) :
    Except CommandParseError ParsedCommands := do
  let commands ← (GrammarParser.new (Lexer.new input parser) grouping).parseAll
  ensureParsedCommandLengths parser.maxCommandBytes commands
  .ok commands

def readSourceFileStructure (grouping : CommandGrouping) :
    Except CommandParseError ParsedCommands := do
  let commands ← (GrammarParser.newSourceFile (Lexer.newSourceFile input parser) grouping).parseAll
  ensureParsedCommandLengths parser.maxCommandBytes commands
  .ok commands

/-- The text of an alias is parsed in the environment of the list, and without aliases. -/
def aliasReplacement : Replacement := fun assignments name =>
  (parser.findCommandAlias name).map fun value => do
    let values := assignments.map fun a : EnvironmentAssignment => (a.name, a.value)
    let aliasParser := { parser with environment := parser.environment ++ values }
    let commands ← aliasParser.readStructure value .oneGroup
    resolve parser.exactCommands (fun _ _ => none) commands

def expandAndLookup (commands : ParsedCommands) (noAlias : Bool) :
    Except CommandParseError ParsedCommands :=
  resolve parser.exactCommands (if noAlias then fun _ _ => none else parser.aliasReplacement)
    commands

def parseInner (noAlias : Bool) (grouping : CommandGrouping) :
    Except CommandParseError ParsedCommands := do
  let commands ← parser.readStructure input grouping
  parser.expandAndLookup commands noAlias

def parse : Except CommandParseError ParsedCommands :=
  parser.parseInner input false .byLine

def parseOneGroup : Except CommandParseError ParsedCommands :=
  parser.parseInner input false .oneGroup

def parseSourceFile : Except CommandParseError ParsedCommands := do
  let commands ← parser.readSourceFileStructure input .byLine
  parser.expandAndLookup commands false

end CommandParser

/-! ## Argument vectors -/

def commandFromArguments (arguments : List CommandArgument) (line : ℕ) :
    Except CommandParseError ParsedCommand :=
  match arguments with
  | .string name :: arguments => .ok (.mk name arguments line line)
  | _ => .error (.new line "no command")

/-- An argument without its trailing semicolon, and whether that ends a command. -/
def splitSemicolon (argument : String) : String × Bool :=
  if argument.toList.getLast? = some ';' then
    let value := argument.toList.dropLast
    if value.getLast? = some '\\' then (String.ofList (value.dropLast ++ [';']), false)
    else (String.ofList value, true)
  else (argument, false)

/-- What is collected of an argument vector. -/
structure ArgumentsState where
  commands : ParsedCommands
  current : List CommandArgument
  groupHasAssignment : Bool

/-- An argument without its semicolon is an assignment, if these are looked for and one may stand
here, or belongs to the command being read. -/
def putArgument (classifyAssignments : Bool) (s : ArgumentsState) (value : String) :
    ArgumentsState :=
  if classifyAssignments ∧ s.current.isEmpty ∧ ¬s.groupHasAssignment ∧
      isParseTimeAssignment value.toList then
    { s with
      commands := s.commands.pushAssignment (.fromEquals value false), groupHasAssignment := true }
  else { s with current := s.current ++ [.string value] }

def endCommand (s : ArgumentsState) : Except CommandParseError ArgumentsState :=
  if s.current.isEmpty then .ok { s with groupHasAssignment := false }
  else do
    let command ← commandFromArguments s.current 1
    .ok ⟨s.commands.pushCommand command, [], false⟩

def takeArgument (classifyAssignments : Bool) (s : ArgumentsState) (argument : String) :
    Except CommandParseError ArgumentsState :=
  let (value, endsCommand) := splitSemicolon argument
  let s := if endsCommand ∧ value = "" then s else putArgument classifyAssignments s value
  if endsCommand then endCommand s else .ok s

namespace CommandParser

variable (parser : CommandParser)

/-- Read an argument vector, without resolving it. -/
def readArguments (arguments : List String) (classifyAssignments : Bool) :
    Except CommandParseError ParsedCommands := do
  let commandBytes := satAdd64 (arguments.map byteLength).sum (arguments.length - 1)
  ensureCommandLength commandBytes 0 parser.maxCommandBytes
  let s ← arguments.foldlM (takeArgument classifyAssignments) ⟨.withGrouping .byLine, [], false⟩
  if s.current.isEmpty then .ok s.commands
  else do
    let command ← commandFromArguments s.current 1
    .ok (s.commands.pushCommand command)

def parseArgumentsInner (arguments : List String) (classifyAssignments : Bool) :
    Except CommandParseError ParsedCommands := do
  let commands ← parser.readArguments arguments classifyAssignments
  parser.expandAndLookup commands false

def parseArguments (arguments : List String) : Except CommandParseError ParsedCommands :=
  parser.parseArgumentsInner arguments false

end CommandParser

end Rmux
