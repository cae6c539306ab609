import Rmux.CommandLexer

/-!
# The command grammar

A recursive-descent parser over the tokens of the lexer (`command_parser/grammar.rs`). Assignments
are handed back to the lexer as they are read, since later words may expand them. Braces and `%if`
branches nest up to a fixed depth. What stands in a branch that is not taken is read and dropped.

The functions call each other with decreasing fuel; every round of a loop and every call reads a
token, so that `4 * size + 16` is more than they use.
-/

namespace Rmux

def maxNestingDepth : ℕ := 124

/-- The directive a branch ends with. -/
inductive ConditionStop
  | elseStop
  | elifStop
  | endifStop
deriving DecidableEq

/-- Which line a command is reported on. -/
inductive CommandLineMode
  | start
  | stop
deriving DecidableEq

/-- The parser reads one token ahead and counts how deep it is nested. -/
structure GrammarParser where
  lexer : Lexer
  grouping : CommandGrouping
  commandLineMode : CommandLineMode
  peeked : Option SpannedToken
  depth : ℕ

namespace GrammarParser

def new (lexer : Lexer) (grouping : CommandGrouping) : GrammarParser :=
  ⟨lexer, grouping, .start, none, 0⟩

def newSourceFile (lexer : Lexer) (grouping : CommandGrouping) : GrammarParser :=
  ⟨lexer, grouping, .stop, none, 0⟩

/-! ## One token ahead -/

variable (g : GrammarParser)

/-- Look at the next token. -/
def peekToken : Except CommandParseError (SpannedToken × GrammarParser) :=
  match g.peeked with
  | some token => .ok (token, g)
  | none => do
    let (token, lexer) ← g.lexer.nextToken
    .ok (token, { g with lexer, peeked := some token })

def peek : Except CommandParseError (LexToken × GrammarParser) := do
  let (token, g) ← g.peekToken
  .ok (token.token, g)

/-- Fail at the line of the next token. -/
def fail {α : Type} (g : GrammarParser) (message : String) : Except CommandParseError α := do
  let (token, _) ← g.peekToken
  .error (.structural token.line message)

def advance : Except CommandParseError GrammarParser := do
  let (_, g) ← g.peekToken
  .ok { g with peeked := none }

/-- Read the token `expected`, which carries no text. -/
def expect (expected : LexToken) (message : String) :
    Except CommandParseError GrammarParser := do
  let (token, g) ← g.peek
  if token = expected then g.advance else g.fail message

def expectTokenWithLine (message : String) :
    Except CommandParseError ((String × ℕ) × GrammarParser) := do
  let (token, g) ← g.peekToken
  match token.token with
  | .token value => do
    let g ← g.advance
    .ok ((value, token.line), g)
  | _ => .error (.structural token.line message)

def expectEquals (message : String) :
    Except CommandParseError (String × GrammarParser) := do
  let (token, g) ← g.peek
  match token with
  | .equals value => do
    let g ← g.advance
    .ok (value, g)
  | _ => g.fail message

def expectConditionValue (message : String) :
    Except CommandParseError (String × GrammarParser) := do
  let (token, g) ← g.peek
  match token with
  | .token value | .format value => do
    let g ← g.advance
    .ok (value, g)
  | _ => g.fail message

/-- The tokens that end a statement. -/
def isStatementBoundary : LexToken → Bool
  | .newline | .semicolon | .closeBrace | .eof | .elseDirective | .elifDirective
  | .endifDirective => true
  | _ => false

def ensureStatementBoundary (message : String) :
    Except CommandParseError GrammarParser := do
  let (token, g) ← g.peek
  if isStatementBoundary token then .ok g else g.fail message

def putAssignment (assignment : EnvironmentAssignment) : GrammarParser :=
  { g with lexer := g.lexer.putAssignment assignment }

/-! ## Statements -/

def parseHiddenAssignment (active : Bool) :
    Except CommandParseError (Option EnvironmentAssignment × GrammarParser) := do
  let g ← g.expect .hidden "expected %hidden"
  let (equals, g) ← g.expectEquals "%hidden must be followed by name=value"
  let g ← g.ensureStatementBoundary "%hidden name=value must be a complete statement"
  let assignment := EnvironmentAssignment.fromEquals equals true
  if active then .ok (some assignment, g.putAssignment assignment) else .ok (none, g)

/-- The directive at which a list of statements stops. -/
def stopsAt (stops : List ConditionStop) : LexToken → Bool
  | .elseDirective => stops.contains .elseStop
  | .elifDirective => stops.contains .elifStop
  | .endifDirective => stops.contains .endifStop
  | _ => false

def branchStops : List ConditionStop := [.elseStop, .elifStop, .endifStop]

mutual

/-- The statements up to the end of the input, a closing brace or a directive. -/
def parseUntil : ℕ → List ConditionStop → Bool → Bool → GrammarParser →
    Except CommandParseError (ParsedCommands × GrammarParser)
  | 0, _, _, _, g => g.fail "command nesting too deep"
  | fuel + 1, stops, stopOnCloseBrace, active, g =>
    if maxNestingDepth < g.depth + 1 then
      match g.peekToken with
      | .ok (token, _) => .error (.structural token.line "command nesting too deep")
      | .error _ => .error (.structural 0 "command nesting too deep")
    else do
      let (commands, g) ← parseStatements fuel stops stopOnCloseBrace active
        (.withGrouping g.grouping) { g with depth := g.depth + 1 }
      .ok (commands, { g with depth := g.depth - 1 })

/-- The loop over statements, after `commands`. -/
def parseStatements : ℕ → List ConditionStop → Bool → Bool → ParsedCommands → GrammarParser →
    Except CommandParseError (ParsedCommands × GrammarParser)
  | 0, _, _, _, _, g => g.fail "command nesting too deep"
  | fuel + 1, stops, stopOnCloseBrace, active, commands, g => do
    let (token, g) ← g.peek
    match token with
    | .eof => .ok (commands, g)
    | .closeBrace => if stopOnCloseBrace then .ok (commands, g) else g.fail "unmatched \x7d"
    | .elseDirective | .elifDirective | .endifDirective =>
      if stopsAt stops token then .ok (commands, g) else g.fail "unexpected condition directive"
    | .newline | .semicolon => do
      let g ← g.advance
      parseStatements fuel stops stopOnCloseBrace active commands g
    | .hidden => do
      let (assignment, g) ← g.parseHiddenAssignment active
      parseStatements fuel stops stopOnCloseBrace active
        (assignment.elim commands commands.pushAssignment) g
    | .equals _ => do
      let ((assignment, command), g) ← parseAssignmentOrCommand fuel active g
      let commands := assignment.elim commands commands.pushAssignment
      let commands := if active then command.elim commands commands.pushCommand else commands
      parseStatements fuel stops stopOnCloseBrace active commands g
    | .ifDirective => do
      let (selected, g) ← parseCondition fuel active g
      parseStatements fuel stops stopOnCloseBrace active (commands.append selected) g
    | .token _ => do
      let (command, g) ← parseCommand fuel active g
      parseStatements fuel stops stopOnCloseBrace active
        (if active then commands.pushCommand command else commands) g
    | .openBrace => g.fail "unexpected \x7b"
    | .format _ => g.fail "unexpected format"

def parseAssignmentOrCommand : ℕ → Bool → GrammarParser → Except CommandParseError
    ((Option EnvironmentAssignment × Option ParsedCommand) × GrammarParser)
  | 0, _, g => g.fail "command nesting too deep"
  | fuel + 1, active, g => do
    let (equals, g) ← g.expectEquals "expected name=value assignment"
    let assignment := EnvironmentAssignment.fromEquals equals false
    let g := if active then g.putAssignment assignment else g
    let (token, g) ← g.peek
    match token with
    | .token _ => do
      let (command, g) ← parseCommand fuel active g
      .ok ((if active then some assignment else none, some command), g)
    | _ =>
      if isStatementBoundary token then
        .ok ((if active then some assignment else none, none), g)
      else
        g.fail "name=value assignment must be followed by a command or statement boundary"

/-- An `%if` with its branches; the first one whose condition is true is selected. -/
def parseCondition : ℕ → Bool → GrammarParser →
    Except CommandParseError (ParsedCommands × GrammarParser)
  | 0, _, g => g.fail "command nesting too deep"
  | fuel + 1, active, g => do
    let g ← g.expect .ifDirective "expected %if"
    let (condition, g) ← g.expectConditionValue "%if must be followed by a condition"
    let matched := g.lexer.context.conditionIsTrue condition
    let (branch, g) ← parseUntil fuel branchStops false (active && matched) g
    let selected := if matched then branch else .withGrouping g.grouping
    let ((selected, matched), g) ← parseElifs fuel active selected matched g
    let (token, g) ← g.peek
    if token = .elseDirective then do
      let g ← g.advance
      let (branch, g) ← parseUntil fuel [.endifStop] false (active && !matched) g
      let g ← g.expect .endifDirective "expected %endif"
      .ok (if active && !matched then branch else selected, g)
    else do
      let g ← g.expect .endifDirective "expected %endif"
      .ok (selected, g)

/-- The `%elif` branches, with what is selected so far and whether a condition was true. -/
def parseElifs : ℕ → Bool → ParsedCommands → Bool → GrammarParser →
    Except CommandParseError ((ParsedCommands × Bool) × GrammarParser)
  | 0, _, _, _, g => g.fail "command nesting too deep"
  | fuel + 1, active, selected, matched, g => do
    let (token, g) ← g.peek
    if token = .elifDirective then do
      let g ← g.advance
      let (condition, g) ← g.expectConditionValue "%elif must be followed by a condition"
      let branchMatches := !matched && g.lexer.context.conditionIsTrue condition
      let (branch, g) ← parseUntil fuel branchStops false (active && branchMatches) g
      parseElifs fuel active (if branchMatches then branch else selected) (matched || branchMatches) g
    else .ok ((selected, matched), g)

def parseCommand : ℕ → Bool → GrammarParser →
    Except CommandParseError (ParsedCommand × GrammarParser)
  | 0, _, g => g.fail "command nesting too deep"
  | fuel + 1, active, g => do
    let ((name, startLine), g) ← g.expectTokenWithLine "expected command name"
    let (arguments, g) ← parseArguments fuel active [] g
    match g.commandLineMode with
    | .start => .ok (.mk name arguments startLine startLine, g)
    | .stop => do
      let (token, g) ← g.peekToken
      .ok (.mk name arguments startLine token.line, g)

/-- The loop over the arguments of a command, after `arguments`. -/
def parseArguments : ℕ → Bool → List CommandArgument → GrammarParser →
    Except CommandParseError (List CommandArgument × GrammarParser)
  | 0, _, _, g => g.fail "command nesting too deep"
  | fuel + 1, active, arguments, g => do
    let (token, g) ← g.peek
    match token with
    | .token value | .equals value => do
      let g ← g.advance
      parseArguments fuel active (arguments ++ [.string value]) g
    | .openBrace => do
      let g ← g.advance
      let (nested, g) ← parseUntil fuel [] true active g
      let g ← g.expect .closeBrace "missing \x7d"
      parseArguments fuel active (arguments ++ [.commands nested]) g
    | .hidden | .ifDirective | .format _ => g.fail "unexpected token in command"
    | .newline | .semicolon | .closeBrace | .eof | .elseDirective | .elifDirective
    | .endifDirective => .ok (arguments, g)

end

def parseAll : Except CommandParseError ParsedCommands := do
  let (commands, _) ← parseUntil (4 * g.lexer.size + 16) [] false true g
  .ok commands

end GrammarParser

end Rmux
