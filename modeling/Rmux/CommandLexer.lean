import Rmux.CommandTree

/-!
# The command lexer

The lexer turns the characters of a command text into words, separators and `%` directives
(`command_parser/lexer.rs`, `command_parser/lexer/word.rs`). A backslash before a newline joins two
lines; which backslashes do so is decided by `nextRaw` from the length of their run. Words expand
`~` and `$name` outside single quotes. A build for Windows keeps the backslashes of paths.

Loops over characters are run with as much fuel as there are characters left.
-/

namespace Rmux

open MachineInt

/-- A name and the text it stands for. -/
structure CommandAlias where
  name : String
  value : String
deriving DecidableEq

/-- A parser with its expansion context. Whether the condition of an `%if` is true is decided by
formats, which are not modelled : it is a function of the text of the condition. `windows` says what
the program was built for. -/
structure CommandParser where
  windows : Bool
  environment : List (String × String)
  conditionIsTrue : String → Bool
  homeDir : Option String
  userHomeDirs : List (String × String)
  commandAliases : List CommandAlias
  exactCommands : List CommandEntry
  maxCommandBytes : ℕ

/-- The value given to a name last. -/
def lookupLast (environment : List (String × String)) (name : String) : Option String :=
  (environment.reverse.find? (·.1 = name)).map Prod.snd

namespace CommandParser

variable (parser : CommandParser)

def lookupEnvironment (name : String) : Option String := lookupLast parser.environment name

def expandTilde (user : String) : Option String :=
  if user = "" then
    ((parser.lookupEnvironment "HOME").filter (· ≠ "")).or parser.homeDir
  else (parser.userHomeDirs.find? (·.1 = user)).map Prod.snd

def findCommandAlias (name : String) : Option String :=
  (parser.commandAliases.find? (·.name = name)).map CommandAlias.value

end CommandParser

/-! ## Characters -/

/-- A token of a command text. -/
inductive LexToken
  | token (value : String)
  | equals (value : String)
  | format (value : String)
  | hidden
  | ifDirective
  | elseDirective
  | elifDirective
  | endifDirective
  | semicolon
  | openBrace
  | closeBrace
  | newline
  | eof
deriving DecidableEq

/-- A token and its line. -/
structure SpannedToken where
  token : LexToken
  line : ℕ
deriving DecidableEq

/-- What an unquoted `#` before a brace starts outside a condition. -/
inductive HashFormatMode
  | tokenOutsideCondition
  | commentOutsideCondition
deriving DecidableEq

/-- The lexer; `rest` is the input from its offset on. -/
structure Lexer where
  rest : List Char
  ungot : List Char
  pendingBackslashes : ℕ
  hashFormatMode : HashFormatMode
  localEnvironment : List (String × String)
  condition : Bool
  eol : Bool
  eof : Bool
  line : ℕ
  context : CommandParser

/-- Line ends are made `\n`, in quotes as well. -/
def normalizeNewlines : List Char → List Char
  | [] => []
  | '\r' :: '\n' :: rest => '\n' :: normalizeNewlines rest
  | '\r' :: rest => '\n' :: normalizeNewlines rest
  | c :: rest => c :: normalizeNewlines rest

/-- What the next character is read from. -/
structure RawInput where
  rest : List Char
  pendingBackslashes : ℕ
  line : ℕ

/-- The next character of the input, after a run of `count` backslashes. An odd run before a newline
loses its last backslash and the newline; of what is left of a run one backslash is returned and the
others are pending. -/
def nextRaw (line : ℕ) : ℕ → List Char → Option Char × RawInput
  | 0, [] => (none, ⟨[], 0, line⟩)
  | count + 1, [] => (some '\\', ⟨[], count, line⟩)
  | count, c :: rest =>
    if c = '\\' then nextRaw line (count + 1) rest
    else if count = 0 then (some c, ⟨rest, 0, line⟩)
    else if c = '\n' ∧ count % 2 = 1 then
      if count = 1 then nextRaw (line + 1) 0 rest
      else (some '\\', ⟨rest, count - 2, line + 1⟩)
    else (some '\\', ⟨c :: rest, count - 1, line⟩)

namespace Lexer

def withHashFormatMode (input : String) (context : CommandParser) (mode : HashFormatMode) :
    Lexer where
  rest := normalizeNewlines input.toList
  ungot := []
  pendingBackslashes := 0
  hashFormatMode := mode
  localEnvironment := []
  condition := false
  eol := false
  eof := false
  line := 1
  context := context

def new (input : String) (context : CommandParser) : Lexer :=
  withHashFormatMode input context .tokenOutsideCondition

def newSourceFile (input : String) (context : CommandParser) : Lexer :=
  withHashFormatMode input context .commentOutsideCondition

variable (lexer : Lexer)

/-- No more characters than this are left. -/
def size : ℕ := lexer.ungot.length + lexer.pendingBackslashes + lexer.rest.length

def getChar : Option Char × Lexer :=
  match lexer.ungot with
  | c :: ungot => (some c, { lexer with ungot })
  | [] =>
    match lexer.pendingBackslashes with
    | count + 1 => (some '\\', { lexer with pendingBackslashes := count })
    | 0 =>
      let (c, raw) := nextRaw lexer.line 0 lexer.rest
      (c, { lexer with
        rest := raw.rest, pendingBackslashes := raw.pendingBackslashes, line := raw.line })

def ungetChar (c : Char) : Lexer := { lexer with ungot := c :: lexer.ungot }

def putAssignment (assignment : EnvironmentAssignment) : Lexer :=
  { lexer with
    localEnvironment := lexer.localEnvironment ++ [(assignment.name, assignment.value)] }

def lookupEnvironment (name : String) : Option String :=
  (lookupLast lexer.localEnvironment name).or (lexer.context.lookupEnvironment name)

def expandTilde (user : String) : Option String :=
  if user = "" then
    ((lexer.lookupEnvironment "HOME").filter (· ≠ "")).or (lexer.context.expandTilde user)
  else lexer.context.expandTilde user

def spanned (token : LexToken) : SpannedToken := ⟨token, lexer.line⟩

def error (message : String) : CommandParseError := .new lexer.line message

/-! ## Words -/

end Lexer

variable (c : Char)

def isAsciiAlphabetic : Bool := c.isAlpha

def isAsciiAlphanumeric : Bool := c.isAlphanum

/-- The form `name=value` of an assignment. -/
def isParseTimeAssignment (argument : List Char) : Bool :=
  match argument.span (· ≠ '=') with
  | (first :: name, '=' :: _) =>
    (isAsciiAlphabetic first || first = '_') &&
      name.all fun c => isAsciiAlphanumeric c || c = '_'
  | _ => false

def EnvironmentAssignment.fromEquals (value : String) (hidden : Bool) : EnvironmentAssignment where
  name := String.ofList (value.toList.takeWhile (· ≠ '='))
  value := String.ofList ((value.toList.dropWhile (· ≠ '=')).drop 1)
  hidden := hidden

def classifyWord (word : List Char) : LexToken :=
  if isParseTimeAssignment word then .equals (String.ofList word) else .token (String.ofList word)

def isVarChar (first : Bool) : Bool :=
  if c = '=' then false
  else if first && c.isDigit then false
  else isAsciiAlphanumeric c || c = '_'

/-- The part of a word that may be a path : an option name before `=` is not. -/
def windowsPathValue (buffer : List Char) : List Char :=
  match buffer.span (· ≠ '=') with
  | (_, _ :: value) => value
  | _ => buffer

def canStartWindowsPathPrefix (buffer : List Char) : Bool := (windowsPathValue buffer).isEmpty

def hasWindowsDrivePrefix : List Char → Bool
  | drive :: ':' :: _ => isAsciiAlphabetic drive
  | _ => false

/-- A word so far whose next backslash separates the parts of a path. -/
def isWindowsPathEscapeContext (buffer : List Char) : Bool :=
  let value := windowsPathValue buffer
  ['\\', '\\'].isPrefixOf value || hasWindowsDrivePrefix value || value = ['.'] ||
    value = ['.', '.'] || ['.', '\\'].isPrefixOf value || ['.', '.', '\\'].isPrefixOf value ||
    value.getLast?.any (fun c => c = '\\' || c = '/') ||
    match value.reverse with
    | [':', drive] => isAsciiAlphabetic drive
    | _ => false

def isOctalDigit : Bool := '0' ≤ c && c ≤ '7'

def isHexDigit : Bool :=
  c.isDigit || ('a' ≤ c && c ≤ 'f') || ('A' ≤ c && c ≤ 'F')

def hexValue : ℕ :=
  if c.isDigit then c.toNat - '0'.toNat
  else if 'a' ≤ c && c ≤ 'f' then c.toNat - 'a'.toNat + 10
  else c.toNat - 'A'.toNat + 10

/-- The simple escapes; any other character stands for itself. -/
def escapedChar : Char :=
  if c = 'a' then '\x07' else if c = 'b' then '\x08' else if c = 'e' then '\x1b'
  else if c = 'f' then '\x0c' else if c = 's' then ' ' else if c = 'v' then '\x0b'
  else if c = 'r' then '\r' else if c = 'n' then '\n' else if c = 't' then '\t' else c

/-- Whether a character of a word is in quotes, and in which. -/
inductive QuoteState
  | start
  | none
  | doubleQuotes
  | singleQuotes
deriving DecidableEq

namespace Lexer

/-- Read `size` hexadecimal digits after `value`. -/
def readHexDigits (escapeType : Char) : ℕ → ℕ → Lexer → Except CommandParseError (ℕ × Lexer)
  | 0, value, lexer => .ok (value, lexer)
  | size + 1, value, lexer =>
    match lexer.getChar with
    | (none, lexer) => .error (lexer.error ("invalid \\" ++ escapeType.toString ++ " argument"))
    | (some c, lexer) =>
      if isHexDigit c then readHexDigits escapeType size (16 * value + hexValue c) lexer
      else .error (lexer.error ("invalid \\" ++ escapeType.toString ++ " argument"))

variable (lexer : Lexer)

def readUnicodeEscape (buffer : List Char) (size : ℕ) (escapeType : Char) :
    Except CommandParseError (List Char × Lexer) := do
  let (value, lexer) ← readHexDigits escapeType size 0 lexer
  if value.isValidChar then .ok (buffer ++ [Char.ofNat value], lexer)
  else .error (lexer.error ("invalid \\" ++ escapeType.toString ++ " argument"))

def readOctalEscape (buffer : List Char) (o1 : Char) :
    Except CommandParseError (List Char × Lexer) :=
  match lexer.getChar with
  | (none, lexer) => .error (lexer.error "invalid octal escape")
  | (some o2, lexer) =>
    match lexer.getChar with
    | (none, lexer) => .error (lexer.error "invalid octal escape")
    | (some o3, lexer) =>
      if isOctalDigit o2 && isOctalDigit o3 then
        let value := 64 * (o1.toNat - '0'.toNat) + 8 * (o2.toNat - '0'.toNat) +
          (o3.toNat - '0'.toNat)
        .ok (buffer ++ [Char.ofNat value], lexer)
      else .error (lexer.error "invalid octal escape")

def readEscape (buffer : List Char) : Except CommandParseError (List Char × Lexer) :=
  match lexer.getChar with
  | (none, lexer) => .error (lexer.error "invalid escape")
  | (some c, lexer) =>
    if lexer.context.windows ∧ isWindowsPathEscapeContext buffer ∧
        ¬(c = '\\' ∨ c = '\'' ∨ c = '"') then
      .ok (buffer ++ ['\\', c], lexer)
    else if '4' ≤ c && c ≤ '7' then .error (lexer.error "invalid octal escape")
    else if '0' ≤ c && c ≤ '3' then lexer.readOctalEscape buffer c
    else if c = 'u' then lexer.readUnicodeEscape buffer 4 'u'
    else if c = 'U' then lexer.readUnicodeEscape buffer 8 'U'
    else .ok (buffer ++ [escapedChar c], lexer)

/-- Put characters back, the first of them in front. -/
def restoreConsumedChars (consumed : List Char) : Lexer :=
  { lexer with ungot := consumed ++ lexer.ungot }

/-- Look for a separator before the end of the word, and return the characters looked at. -/
def findSeparator : ℕ → List Char → Lexer → Bool × List Char × Lexer
  | 0, consumed, lexer => (false, consumed, lexer)
  | fuel + 1, consumed, lexer =>
    match lexer.getChar with
    | (none, lexer) => (false, consumed, lexer)
    | (some next, lexer) =>
      if next = '\\' ∨ next = '/' then (true, consumed ++ [next], lexer)
      else if next ∈ ['"', '\'', ' ', '\t', '\r', '\n', ';', '}'] then
        (false, consumed ++ [next], lexer)
      else findSeparator fuel (consumed ++ [next]) lexer

/-- After a backslash : read the start of a network path, written with two backslashes or with four,
as two backslashes. Anything else is put back. -/
def readWindowsPathPrefix (buffer : List Char) : Bool × List Char × Lexer :=
  match lexer.getChar with
  | (none, lexer) => (false, buffer, lexer)
  | (some second, lexer) =>
    if second ≠ '\\' then (false, buffer, lexer.restoreConsumedChars [second])
    else
      match lexer.getChar with
      | (none, lexer) => (false, buffer, lexer.restoreConsumedChars [second])
      | (some '\\', lexer) =>
        match lexer.getChar with
        | (none, lexer) => (false, buffer, lexer.restoreConsumedChars [second, '\\'])
        | (some fourth, lexer) =>
          if fourth = '\\' then (true, buffer ++ ['\\', '\\'], lexer)
          else (false, buffer, lexer.restoreConsumedChars [second, '\\', fourth])
      | (some third, lexer) =>
        match findSeparator (lexer.size + 1) [second, third] lexer with
        | (true, consumed, lexer) =>
          (true, buffer ++ ['\\', '\\'], lexer.restoreConsumedChars (consumed.drop 1))
        | (false, consumed, lexer) => (false, buffer, lexer.restoreConsumedChars consumed)

/-- The rest of the name of a variable. -/
def readVariableName (brackets : Bool) :
    ℕ → Lexer → List Char → Except CommandParseError (List Char × Lexer)
  | 0, lexer, _ => .error (lexer.error "invalid environment variable")
  | fuel + 1, lexer, name =>
    match lexer.getChar with
    | (none, lexer) =>
      if brackets then .error (lexer.error "invalid environment variable") else .ok (name, lexer)
    | (some next, lexer) =>
      if brackets && next = '}' then .ok (name, lexer)
      else if ¬isVarChar next false then
        if brackets then .error (lexer.error "invalid environment variable")
        else .ok (name, lexer.ungetChar next)
      else if 1022 ≤ name.length then .error (lexer.error "environment variable is too long")
      else readVariableName brackets fuel lexer (name ++ [next])

def readVariable (buffer : List Char) : Except CommandParseError (List Char × Lexer) :=
  match lexer.getChar with
  | (none, lexer) => .error (lexer.error "invalid environment variable")
  | (some c, lexer) =>
    if c ≠ '{' ∧ ¬isVarChar c true then .ok (buffer ++ ['$'], lexer.ungetChar c)
    else do
      let (name, lexer) ←
        readVariableName (c = '{') (lexer.size + 1) lexer (if c = '{' then [] else [c])
      let value := (lexer.lookupEnvironment (String.ofList name)).getD ""
      .ok (buffer ++ value.toList, lexer)

/-- The user name after a tilde, and the character that ended it, which is not consumed. -/
def readUserName :
    ℕ → Lexer → List Char → Except CommandParseError (List Char × Option Char × Lexer)
  | 0, lexer, user => .ok (user, none, lexer)
  | fuel + 1, lexer, user =>
    match lexer.getChar with
    | (none, lexer) => .ok (user, none, lexer)
    | (some c, lexer) =>
      if c = '/' ∨ c = ' ' ∨ c = '\t' ∨ c = '\n' ∨ c = '"' ∨ c = '\'' then
        .ok (user, some c, lexer.ungetChar c)
      else if 1022 ≤ (user.map Char.utf8Size).sum then
        .error (lexer.error "user name is too long")
      else readUserName fuel lexer (user ++ [c])

def readTilde (buffer : List Char) :
    Except CommandParseError (List Char × Lexer) := do
  let (user, delimiter, lexer) ← readUserName (lexer.size + 1) lexer []
  if user = [] ∧ delimiter ≠ some '/' then .ok (buffer ++ ['~'], lexer)
  else
    match lexer.expandTilde (String.ofList user) with
    | none => .error (lexer.error ("unknown user: ~" ++ String.ofList user))
    | some home => .ok (buffer ++ home.toList, lexer)

/-- The next character that is no blank. -/
def skipBlanks : ℕ → Lexer → Option Char × Lexer
  | 0, lexer => (none, lexer)
  | fuel + 1, lexer =>
    match lexer.getChar with
    | (some c, lexer) => if c = ' ' ∨ c = '\t' then skipBlanks fuel lexer else (some c, lexer)
    | (none, lexer) => (none, lexer)

/-- Skip characters up to a newline, which is returned. -/
def skipLine : ℕ → Lexer → Option Char × Lexer
  | 0, lexer => (none, lexer)
  | fuel + 1, lexer =>
    match lexer.getChar with
    | (some c, lexer) => if c = '\n' then (some c, lexer) else skipLine fuel lexer
    | (none, lexer) => (none, lexer)

/-- After a newline in quotes blanks are skipped, and a comment up to the end of its line. -/
def getCharAfterQuotedNewline : Option Char × Lexer :=
  match skipBlanks (lexer.size + 1) lexer with
  | (none, lexer) => (none, lexer)
  | (some c, lexer) =>
    if c ≠ '#' then (some c, lexer)
    else
      match lexer.getChar with
      | (none, lexer) => (none, lexer)
      | (some next, lexer) =>
        if next = ',' ∨ next = '#' ∨ next = '{' ∨ next = '}' ∨ next = ':' then
          (some '#', lexer.ungetChar next)
        else skipLine (lexer.size + 1) lexer

/-- A carriage return, with a newline after it, is a newline. -/
def joinCarriageReturn (c : Char) : Char × Lexer :=
  if c = '\r' then
    match lexer.getChar with
    | (some '\n', lexer) => ('\n', lexer)
    | (some next, lexer) => ('\r', lexer.ungetChar next)
    | (none, lexer) => ('\r', lexer)
  else (c, lexer)

/-- The loop of `readToken`, at the character `current`. -/
def readTokenLoop : ℕ → Lexer → List Char → QuoteState → QuoteState → Option Char →
    Except CommandParseError (List Char × Lexer)
  | 0, lexer, buffer, _, _, _ => .ok (buffer, lexer)
  | _ + 1, lexer, buffer, _, _, none => .ok (buffer, lexer)
  | fuel + 1, lexer, buffer, state, last, some c =>
    let (c, lexer) := if state = .none then lexer.joinCarriageReturn c else (c, lexer)
    if state = .none ∧ (c = '\n' ∨ c = ' ' ∨ c = '\t' ∨ c = ';' ∨ c = '}') then
      .ok (buffer, lexer.ungetChar c)
    else if c = '\n' then
      let (next, lexer) := { lexer with line := lexer.line + 1 }.getCharAfterQuotedNewline
      readTokenLoop fuel lexer (buffer ++ ['\n']) state last next
    else if c = '\\' ∧ state ≠ .singleQuotes then do
      let (isPath, buffer, lexer) :=
        if lexer.context.windows ∧ canStartWindowsPathPrefix buffer then
          lexer.readWindowsPathPrefix buffer
        else (false, buffer, lexer)
      let (buffer, lexer) ← if isPath then .ok (buffer, lexer) else lexer.readEscape buffer
      let (next, lexer) := lexer.getChar
      readTokenLoop fuel lexer buffer state state next
    else if c = '~' ∧ last ≠ state ∧ state ≠ .singleQuotes then do
      let (buffer, lexer) ← lexer.readTilde buffer
      let (next, lexer) := lexer.getChar
      readTokenLoop fuel lexer buffer state state next
    else if c = '$' ∧ state ≠ .singleQuotes then do
      let (buffer, lexer) ← lexer.readVariable buffer
      let (next, lexer) := lexer.getChar
      readTokenLoop fuel lexer buffer state state next
    else if c = '\'' ∧ (state = .none ∨ state = .singleQuotes) then
      let (next, lexer) := lexer.getChar
      readTokenLoop fuel lexer buffer (if state = .none then .singleQuotes else .none) last next
    else if c = '"' ∧ (state = .none ∨ state = .doubleQuotes) then
      let (next, lexer) := lexer.getChar
      readTokenLoop fuel lexer buffer (if state = .none then .doubleQuotes else .none) last next
    else
      let (next, lexer) := lexer.getChar
      readTokenLoop fuel lexer (buffer ++ [c]) state state next

/-- A word that starts with `c`, which is already read. -/
def readToken (c : Char) : Except CommandParseError (List Char × Lexer) :=
  readTokenLoop (lexer.size + 2) lexer [] .none .start (some c)

/-! ## Tokens -/

/-- A word without quotes, up to a blank. -/
def readWordLoop : ℕ → Lexer → List Char → List Char × Lexer
  | 0, lexer, word => (word, lexer)
  | fuel + 1, lexer, word =>
    match lexer.getChar with
    | (none, lexer) => (word, lexer)
    | (some c, lexer) =>
      if c = ' ' ∨ c = '\t' ∨ c = '\n' then (word, lexer.ungetChar c)
      else readWordLoop fuel lexer (word ++ [c])

def readWord (first : Char) : List Char × Lexer :=
  readWordLoop (lexer.size + 1) lexer [first]

def readPercentWord : Except CommandParseError (LexToken × Lexer) :=
  let (word, lexer) := lexer.readWord '%'
  if word.all fun c => c = '%' || c.isDigit then .ok (.token (String.ofList word), lexer)
  else if word = "%hidden".toList then .ok (.hidden, { lexer with condition := true })
  else if word = "%if".toList then .ok (.ifDirective, { lexer with condition := true })
  else if word = "%else".toList then .ok (.elseDirective, lexer)
  else if word = "%elif".toList then .ok (.elifDirective, { lexer with condition := true })
  else if word = "%endif".toList then .ok (.endifDirective, lexer)
  else .error (.structural lexer.line "syntax error")

/-- A format after its first `#{`, up to the brace that closes it. -/
def readFormatLoop : ℕ → Lexer → List Char → ℕ → Except CommandParseError (List Char × Lexer)
  | 0, lexer, _, _ => .error (lexer.error "invalid format")
  | fuel + 1, lexer, value, brackets =>
    match lexer.getChar with
    | (none, lexer) => .error (lexer.error "invalid format")
    | (some c, lexer) =>
      if c = '\n' then .error (lexer.error "invalid format")
      else if c = '#' then
        match lexer.getChar with
        | (none, lexer) => .error (lexer.error "invalid format")
        | (some next, lexer) =>
          if next = '\n' then .error (lexer.error "invalid format")
          else if next = '{' ∧ u32Max < brackets + 1 then .error (lexer.error "invalid format")
          else
            readFormatLoop fuel lexer (value ++ ['#', next])
              (if next = '{' then brackets + 1 else brackets)
      else if c = '}' then
        if brackets - 1 = 0 then .ok (value ++ ['}'], lexer)
        else readFormatLoop fuel lexer (value ++ ['}']) (brackets - 1)
      else readFormatLoop fuel lexer (value ++ [c]) brackets

def readFormat : Except CommandParseError (List Char × Lexer) :=
  readFormatLoop (lexer.size + 1) lexer ['#', '{'] 1

/-- Skip a comment whose first character is read; whether it ended with a newline. -/
def consumeComment (first : Option Char) : Bool × Lexer :=
  match first with
  | none => (false, lexer)
  | some '\n' => (true, lexer)
  | some _ =>
    let (last, lexer) := skipLine (lexer.size + 1) lexer
    (last.isSome, lexer)

/-- What `#` starts : a format, or a comment up to the end of its line. -/
def readHash (condition : Bool) : Except CommandParseError (LexToken × Lexer) :=
  let (next, lexer) := lexer.getChar
  if condition ∧ next = some '{' then do
    let (value, lexer) ← lexer.readFormat
    .ok (.format (String.ofList value), lexer)
  else if next = some '{' ∧ lexer.hashFormatMode = .tokenOutsideCondition then do
    let (value, lexer) ← lexer.readFormat
    .ok (.token (String.ofList value), lexer)
  else
    let (ended, lexer) := lexer.consumeComment next
    .ok (.newline, if ended then { lexer with line := lexer.line + 1 } else lexer)

/-- The token that starts with `c`. -/
def readTokenAt (condition : Bool) (c : Char) : Except CommandParseError (LexToken × Lexer) :=
  if c = '\n' then .ok (.newline, { lexer with eol := true })
  else if c = ';' then .ok (.semicolon, lexer)
  else if c = '{' then .ok (.openBrace, lexer)
  else if c = '}' then .ok (.closeBrace, lexer)
  else if c = '#' then lexer.readHash condition
  else if c = '%' then lexer.readPercentWord
  else do
    let (word, lexer) ← lexer.readToken c
    .ok (classifyWord word, lexer)

/-- The next token. At the end of the input there is one newline, and then the end. -/
def nextToken : Except CommandParseError (SpannedToken × Lexer) :=
  let condition := lexer.condition
  let lexer := { lexer with
    line := if lexer.eol then lexer.line + 1 else lexer.line, eol := false, condition := false }
  match skipBlanks (lexer.size + 1) lexer with
  | (none, lexer) =>
    if lexer.eof then .ok (lexer.spanned .eof, lexer)
    else .ok (lexer.spanned .newline, { lexer with eof := true })
  | (some c, lexer) => do
    let (c, lexer) := lexer.joinCarriageReturn c
    let (token, lexer) ← lexer.readTokenAt condition c
    .ok (lexer.spanned token, lexer)

end Lexer

end Rmux
