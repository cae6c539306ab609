import Rmux.CommandTree

/-!
# Command lists as text

A command list is written as a text to be parsed again (`to_tmux_reparse_string` in
`command_parser.rs`) : its assignments first, then its commands, each argument bare, in single or in
double quotes, with escapes that depend on which. Two semicolons stand between commands of different
lines.
-/

namespace Rmux

/-! ## Arguments -/

variable (c : Char)

/-- The characters of Unicode property White_Space. -/
def isWhitespace : Bool :=
  let n := c.toNat
  (0x9 ≤ n && n ≤ 0xd) || n = 0x20 || n = 0x85 || n = 0xa0 || n = 0x1680 ||
    (0x2000 ≤ n && n ≤ 0x200a) || n = 0x2028 || n = 0x2029 || n = 0x202f || n = 0x205f || n = 0x3000

def isAsciiControl : Bool := c.toNat < 0x20 || c.toNat = 0x7f

/-- Three octal digits. -/
def octalDigits (n : ℕ) : List Char :=
  [Char.ofNat (48 + n / 64), Char.ofNat (48 + n / 8 % 8), Char.ofNat (48 + n % 8)]

def escapeControlArgumentChar : List Char :=
  if c = '\x07' then ['\\', 'a'] else if c = '\x08' then ['\\', 'b']
  else if c = '\x0b' then ['\\', 'v'] else if c = '\x0c' then ['\\', 'f']
  else if c = '\x1b' then ['\\', '0', '3', '3']
  else if isAsciiControl c then '\\' :: octalDigits c.toNat
  else [c]

/-- Line ends, tabs and backslashes, which are escaped in the same way everywhere. -/
def escapeLineChar : List Char :=
  if c = '\n' then ['\\', 'n'] else if c = '\r' then ['\\', 'r'] else if c = '\t' then ['\\', 't']
  else if c = '\\' then ['\\', '\\'] else escapeControlArgumentChar c

/-- The characters that stand for something outside quotes. -/
def isSpecial : Bool :=
  c = ';' || c = '{' || c = '}' || c = '\'' || c = '"' || c = '#' || c = '$' || c = '%'

def isSingleCharEscapedArgument : List Char → Bool
  | [c] => isSpecial c
  | _ => false

def argumentNeedsDoubleQuotes : Bool :=
  c = ' ' || c = ';' || c = '{' || c = '}' || c = '\'' || c = '#' || c = '$' || c = '%' ||
    (isWhitespace c && !(c = '\n' || c = '\r' || c = '\t'))

def escapeUnquotedChar (first : Bool) (c : Char) : List Char :=
  if c = '~' ∧ first then ['\\', '~'] else if isSpecial c then ['\\', c] else escapeLineChar c

def escapeUnquotedArgument : List Char → List Char
  | [] => []
  | c :: rest => escapeUnquotedChar true c ++ rest.flatMap (escapeUnquotedChar false)

def escapeSingleQuotedArgument (value : List Char) : List Char := value.flatMap escapeLineChar

def dollarStartsVariable : Bool := c = '{' || c = '_' || c.isAlpha

def escapeDoubleQuotedChar (first : Bool) (c : Char) (next : Option Char) : List Char :=
  if c = '~' ∧ first then ['\\', '~']
  else if c = '$' ∧ next.any dollarStartsVariable then ['\\', '$']
  else if c = '"' then ['\\', '"']
  else escapeLineChar c

def escapeDoubleQuotedFrom (first : Bool) : List Char → List Char
  | [] => []
  | c :: rest => escapeDoubleQuotedChar first c rest.head? ++ escapeDoubleQuotedFrom false rest

def escapeDoubleQuotedArgument (value : List Char) : List Char := escapeDoubleQuotedFrom true value

def escapeArgument (value : List Char) : List Char :=
  if value.isEmpty then ['\'', '\'']
  else if isSingleCharEscapedArgument value then escapeUnquotedArgument value
  else if ¬value.any argumentNeedsDoubleQuotes then
    if value.contains '"' then '\'' :: (escapeSingleQuotedArgument value ++ ['\''])
    else escapeUnquotedArgument value
  else '"' :: (escapeDoubleQuotedArgument value ++ ['"'])

def escapeArgumentForReparse (value : List Char) : List Char :=
  let singleQuotedDisplay := value.contains '"' && !value.any argumentNeedsDoubleQuotes
  if singleQuotedDisplay && value.any fun c => c = '\\' || isAsciiControl c then
    '"' :: (escapeDoubleQuotedArgument value ++ ['"'])
  else escapeArgument value

/-! ## Lists -/

/-- The word of an assignment. -/
def EnvironmentAssignment.word (a : EnvironmentAssignment) : List Char :=
  a.name.toList ++ '=' :: a.value.toList

def EnvironmentAssignment.render (a : EnvironmentAssignment) : List Char :=
  if a.hidden then "%hidden ".toList ++ escapeArgumentForReparse a.word
  else escapeArgumentForReparse a.word

def assignmentsToTmuxReparseString : List EnvironmentAssignment → List Char
  | [] => []
  | [a] => a.render
  | a :: rest => a.render ++ " ; ".toList ++ assignmentsToTmuxReparseString rest

/-- What is written before a command on this line, if something was written before it. -/
def commandSeparator (started : Bool) (previousLine : Option ℕ) (line : ℕ) : List Char :=
  if started then if previousLine.any (· ≠ line) then " ;; ".toList else " ; ".toList else []

mutual

def renderList : ParsedCommands → List Char
  | .mk commands assignments _ =>
    let rendered := assignmentsToTmuxReparseString assignments
    rendered ++ renderCommands (!rendered.isEmpty) none commands

/-- The loop over commands, with whether anything is written and the line of the last command. -/
def renderCommands : Bool → Option ℕ → List ParsedCommand → List Char
  | _, _, [] => []
  | started, previousLine, c :: cs =>
    commandSeparator started previousLine c.line ++ renderCommand c ++
      renderCommands (started || !(renderCommand c).isEmpty) (some c.line) cs

def renderCommand : ParsedCommand → List Char
  | .mk name arguments _ _ => name.toList ++ renderArguments arguments

/-- Each argument with a space before it. -/
def renderArguments : List CommandArgument → List Char
  | [] => []
  | a :: arguments => ' ' :: (renderArgument a ++ renderArguments arguments)

def renderArgument : CommandArgument → List Char
  | .string value => escapeArgumentForReparse value.toList
  | .commands list => '{' :: ' ' :: (renderList list ++ [' ', '}'])

end

def ParsedCommands.toTmuxReparseString (p : ParsedCommands) : String := String.ofList (renderList p)

end Rmux
