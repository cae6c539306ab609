import Rmux.Text

/-!
# Names and targets

In the name of a session `:` and `.` become `_` when it is made, and what would not show as itself
is escaped. `Target.display` is the text of a target.
-/

namespace Rmux

/-- The name of a session, as it is kept. -/
structure SessionName where
  text : Text
deriving DecidableEq

def octalByte (n : ℕ) : Text :=
  ['\\', Nat.digitChar (n / 64 % 8), Nat.digitChar (n / 8 % 8), Nat.digitChar (n % 8)]

/-- Characters of the class Cc. -/
def isControl (c : Char) : Bool := c.toNat < 0x20 || (0x7f ≤ c.toNat && c.toNat < 0xa0)

def isDisplayUnsafeFormatChar (c : Char) : Bool :=
  let n := c.toNat
  n = 0x00ad || n = 0x061c || (0x200b ≤ n && n ≤ 0x200f) || n = 0x2028 || n = 0x2029 ||
    (0x202a ≤ n && n ≤ 0x202e) || (0x2066 ≤ n && n ≤ 0x2069) || n = 0xfeff

def pushSessionNameCharacter (escapeBackslash : Bool) (c : Char) : Text :=
  if c.toNat = 0 then "\\000".toList
  else if c.toNat = 7 then "\\a".toList
  else if c.toNat = 8 then "\\b".toList
  else if c = '\t' then "\\t".toList
  else if c = '\n' then "\\n".toList
  else if c.toNat = 0xb then "\\v".toList
  else if c.toNat = 0xc then "\\f".toList
  else if c = '\r' then "\\r".toList
  else if c = '\\' ∧ escapeBackslash then "\\\\".toList
  else if isControl c then octalByte c.toNat
  else if isDisplayUnsafeFormatChar c then
    (String.utf8EncodeChar c).flatMap fun byte => octalByte byte.toNat
  else [c]

def sanitizeSessionNameWithBackslashPolicy (input : Text) (escapeBackslash : Bool) : Text :=
  input.flatMap fun c =>
    pushSessionNameCharacter escapeBackslash (if c = ':' ∨ c = '.' then '_' else c)

def sanitizeSessionName (input : Text) : Text := sanitizeSessionNameWithBackslashPolicy input true

/-- The name made of a text. An empty text is refused. -/
def SessionName.new (value : Text) : Option SessionName :=
  if value = [] then none else some ⟨sanitizeSessionName value⟩

/-- A window by its session and index. -/
structure WindowTarget where
  sessionName : SessionName
  windowIndex : ℕ
deriving DecidableEq

/-- A pane by its window and index. -/
structure PaneTarget where
  sessionName : SessionName
  windowIndex : ℕ
  paneIndex : ℕ
deriving DecidableEq

/-- A session, one of its windows or one of a window's panes. -/
inductive Target
  | session (name : SessionName)
  | window (target : WindowTarget)
  | pane (target : PaneTarget)
deriving DecidableEq

def WindowTarget.display (t : WindowTarget) : Text :=
  t.sessionName.text ++ ':' :: Nat.toDigits 10 t.windowIndex

def PaneTarget.display (t : PaneTarget) : Text :=
  t.sessionName.text ++ ':' :: (Nat.toDigits 10 t.windowIndex ++ '.' :: Nat.toDigits 10 t.paneIndex)

def Target.display : Target → Text
  | .session name => name.text
  | .window target => target.display
  | .pane target => target.display

end Rmux
