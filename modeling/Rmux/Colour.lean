import Rmux.LayoutParser
import Rmux.Text

/-!
# Colours

A colour is a number : one of the eight colours, the default, the terminal's, or none, a bright one,
or with a flag an entry of the palette or an RGB value. `parseColour` reads the text of a colour and
`colourToString` writes it. Reading slices the text by bytes, and a slice that cuts a character is
`none`.
-/

namespace Rmux

open MachineInt

abbrev Colour := Int32

def colourDefault : Colour := 8
def colourNone : Colour := -1
def colourTerminal : Colour := 9
def colourFlag256 : Colour := 0x01000000
def colourFlagRgb : Colour := 0x02000000

def colourJoinRgb (r g b : ℕ) : Colour :=
  colourFlagRgb ||| Int32.ofNat (r * 65536) ||| Int32.ofNat (g * 256) ||| Int32.ofNat b

/-- The text up to a byte and from it on. -/
def splitAtByte : ℕ → Text → Option (Text × Text)
  | 0, text => some ([], text)
  | _ + 1, [] => none
  | n + 1, c :: text =>
    if c.utf8Size ≤ n + 1 then (splitAtByte (n + 1 - c.utf8Size) text).map (Prod.map (c :: ·) id)
    else none

def utf8Length (text : Text) : ℕ := (text.map Char.utf8Size).sum

/-- The text after a beginning in any case. -/
def stripPrefixCi (value beginning : Text) : Option (Option Text) :=
  if utf8Length value ≥ utf8Length beginning then
    (splitAtByte (utf8Length beginning) value).map fun (head, rest) =>
      if toAsciiLowercase head = toAsciiLowercase beginning then some rest else none
  else some none

def paletteIndex (text : Text) : Option Colour :=
  match parseUnsigned u16Max text with
  | none => none
  | some index => if index > 255 then none else some (colourFlag256 ||| Int32.ofNat index)

def namedColour (name : String) : Option Colour :=
  if name = "none" then some colourNone
  else if name = "default" then some colourDefault
  else if name = "terminal" then some colourTerminal
  else if name = "black" then some 0
  else if name = "red" then some 1
  else if name = "green" then some 2
  else if name = "yellow" then some 3
  else if name = "blue" then some 4
  else if name = "magenta" then some 5
  else if name = "cyan" then some 6
  else if name = "white" then some 7
  else if name = "brightblack" then some 90
  else if name = "brightred" then some 91
  else if name = "brightgreen" then some 92
  else if name = "brightyellow" then some 93
  else if name = "brightblue" then some 94
  else if name = "brightmagenta" then some 95
  else if name = "brightcyan" then some 96
  else if name = "brightwhite" then some 97
  else none

/-- Two digits of base 16, which are known to be digits. -/
def hexByte (digits : Text) : ℕ :=
  digits.foldl (fun value c => value * 16 + (hexDigit c).getD 0) 0

/-- The colour of a text. `some none` is an error. -/
def parseColour (value : Text) : Option (Option Colour) :=
  let trimmed := trim value
  match trimmed with
  | [] => some none
  | '#' :: hex =>
    if utf8Length hex ≠ 6 ∨ ¬hex.all fun c => (hexDigit c).isSome then some none
    else some (some (colourJoinRgb (hexByte (hex.take 2)) (hexByte ((hex.drop 2).take 2))
      (hexByte (hex.drop 4))))
  | _ => do
    match ← stripPrefixCi trimmed "colour".toList with
    | some suffix => some (paletteIndex suffix)
    | none =>
      match ← stripPrefixCi trimmed "color".toList with
      | some suffix => some (paletteIndex suffix)
      | none =>
        if trimmed.all Char.isDigit then some (paletteIndex trimmed)
        else some (namedColour (String.ofList (toAsciiLowercase trimmed)))

def hex2 (n : ℕ) : Text := [Nat.digitChar (n / 16), Nat.digitChar (n % 16)]

def colourToString (colour : Colour) : Text :=
  if colour = colourNone then "none".toList
  else if colour &&& colourFlagRgb ≠ 0 then
    '#' :: (hex2 ((colour >>> 16) &&& 0xff).toNatClampNeg ++
      hex2 ((colour >>> 8) &&& 0xff).toNatClampNeg ++ hex2 (colour &&& 0xff).toNatClampNeg)
  else if colour &&& colourFlag256 ≠ 0 then
    "colour".toList ++ Nat.toDigits 10 (colour &&& 0xff).toNatClampNeg
  else if colour = 0 then "black".toList
  else if colour = 1 then "red".toList
  else if colour = 2 then "green".toList
  else if colour = 3 then "yellow".toList
  else if colour = 4 then "blue".toList
  else if colour = 5 then "magenta".toList
  else if colour = 6 then "cyan".toList
  else if colour = 7 then "white".toList
  else if colour = colourDefault then "default".toList
  else if colour = colourTerminal then "terminal".toList
  else if colour = 90 then "brightblack".toList
  else if colour = 91 then "brightred".toList
  else if colour = 92 then "brightgreen".toList
  else if colour = 93 then "brightyellow".toList
  else if colour = 94 then "brightblue".toList
  else if colour = 95 then "brightmagenta".toList
  else if colour = 96 then "brightcyan".toList
  else if colour = 97 then "brightwhite".toList
  else if (10 ≤ colour ∧ colour ≤ 89) ∨ (98 ≤ colour ∧ colour ≤ 255) then
    "colour".toList ++ Nat.toDigits 10 colour.toNatClampNeg
  else "default".toList

/-- The text that a colour is stored as. -/
def normalizeColour (value : Text) : Option (Option Text) :=
  let trimmed := trim value
  if trimmed = [] then some none else (parseColour trimmed).map (Option.map colourToString)

example : normalizeColour " Red ".toList = some (some "red".toList) ∧
    normalizeColour "#0aF0ff".toList = some (some "#0af0ff".toList) ∧
    normalizeColour "COLOUR214".toList = some (some "colour214".toList) ∧
    normalizeColour "reddish".toList = some none ∧ normalizeColour "abcdeé".toList = none := by
  decide +kernel

end Rmux
