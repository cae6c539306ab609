import Mathlib.Data.List.DropRight
import Rmux.CommandRender
import Rmux.MachineInt

/-!
# Operations on text

The string operations of the standard library that several parts of the program use, on lists of
characters. A number that is printed is parsed back (`parseUnsigned_toDigits`).
-/

namespace Rmux

open MachineInt Nat

abbrev Text := List Char

/-- Without the white space at both ends. -/
def trim (text : Text) : Text := (text.dropWhile isWhitespace).rdropWhile isWhitespace

def toAsciiLowercase (text : Text) : Text := text.map Char.toLower

def containsText (needle text : Text) : Bool := text.tails.any needle.isPrefixOf

/-- The pieces between the occurrences of a separator, from `piece` on. The separator is not empty, so
that as many rounds as there are characters are enough. -/
def splitFrom (separator : Text) : ℕ → Text → Text → List Text
  | 0, piece, _ => [piece]
  | _, piece, [] => [piece]
  | fuel + 1, piece, c :: text =>
    if separator.isPrefixOf (c :: text) then
      piece :: splitFrom separator fuel [] ((c :: text).drop separator.length)
    else splitFrom separator fuel (piece ++ [c]) text

def splitText (separator text : Text) : List Text := splitFrom separator text.length [] text

/-- An unsigned number up to `max`. A sign `+` is allowed. -/
def parseUnsigned (max : ℕ) (text : Text) : Option ℕ :=
  let digits := if text.head? = some '+' then text.tail else text
  if digits = [] ∨ ¬digits.all Char.isDigit then none
  else
    let value := Nat.ofDigitChars 10 digits 0
    if value ≤ max then some value else none

/-- A signed number of 64 bits. -/
def parseI64 (text : Text) : Option ℤ :=
  match text with
  | '-' :: digits =>
    if digits = [] ∨ ¬digits.all Char.isDigit then none
    else
      let value := Nat.ofDigitChars 10 digits 0
      if value ≤ 2 ^ 63 then some (-value) else none
  | _ => (parseUnsigned (2 ^ 63 - 1) text).map (↑)

theorem parseUnsigned_toDigits {max n : ℕ} (h : n ≤ max) :
    parseUnsigned max (Nat.toDigits 10 n) = some n := by
  have hdigs : ∀ c ∈ Nat.toDigits 10 n, c.isDigit = true := fun c hc =>
    isDigit_of_mem_toDigits (by omega) (by omega) hc
  have hsign : (Nat.toDigits 10 n).head? ≠ some '+' := by
    intro hplus
    exact absurd (hdigs '+' (List.mem_of_mem_head? hplus)) (by decide)
  have hall : (Nat.toDigits 10 n).all Char.isDigit = true := List.all_eq_true.mpr hdigs
  simp only [parseUnsigned, if_neg hsign, hall, not_true_eq_false, or_false,
    if_neg toDigits_ne_nil, ofDigitChars_toDigits (show 1 < 10 by omega) (show 10 ≤ 10 by omega),
    if_pos h]

end Rmux
