import Mathlib.Algebra.Group.Nat.Defs
import Mathlib.Data.List.Basic

/-!
# Text as bytes

Text is stored as UTF-8. Reading bytes as text either checks them (`fromUtf8`) or replaces what is not
UTF-8 (`fromUtf8Lossy`) : each longest beginning of a character, or byte that cannot begin one, becomes
one replacement character. Bytes of a text are read back by both.
-/

namespace Rmux

def textUtf8 (text : String) : List UInt8 := text.toUTF8.data.toList

def fromUtf8 (bytes : List UInt8) : Option String := String.fromUTF8? ⟨bytes.toArray⟩

theorem fromUtf8_textUtf8 (text : String) : fromUtf8 (textUtf8 text) = some text := by
  have hbs : (⟨(textUtf8 text).toArray⟩ : ByteArray) = text.toUTF8 := rfl
  have hvalid : text.toUTF8.IsValidUTF8 := text.isValidUTF8
  rw [fromUtf8, hbs, String.fromUTF8?, dif_pos hvalid]
  rfl

/-- The bytes that may follow a first byte : how many follow it, and the range of the second one. -/
def utf8Lead (b : UInt8) : Option (ℕ × UInt8 × UInt8) :=
  if 0xC2 ≤ b ∧ b ≤ 0xDF then some (1, 0x80, 0xBF)
  else if b = 0xE0 then some (2, 0xA0, 0xBF)
  else if b = 0xED then some (2, 0x80, 0x9F)
  else if 0xE1 ≤ b ∧ b ≤ 0xEF then some (2, 0x80, 0xBF)
  else if b = 0xF0 then some (3, 0x90, 0xBF)
  else if b = 0xF4 then some (3, 0x80, 0x8F)
  else if 0xF1 ≤ b ∧ b ≤ 0xF3 then some (3, 0x80, 0xBF)
  else none

/-- Up to `n` bytes of the range `low` to `high`, then of the range of continuation bytes. -/
def takeContinuation : ℕ → UInt8 → UInt8 → List UInt8 → List UInt8 × List UInt8
  | n + 1, low, high, b :: bytes =>
    if low ≤ b ∧ b ≤ high then
      let (taken, rest) := takeContinuation n 0x80 0xBF bytes
      (b :: taken, rest)
    else ([], b :: bytes)
  | _, _, _, bytes => ([], bytes)

/-- The code point of a character of `n + 1` bytes. -/
def utf8CodePoint (n : ℕ) (lead : UInt8) (taken : List UInt8) : ℕ :=
  taken.foldl (fun code b => code * 64 + b.toNat % 64) (lead.toNat % 2 ^ (6 - n))

def lossyChars : ℕ → List UInt8 → List Char
  | 0, _ => []
  | _, [] => []
  | fuel + 1, b :: bytes =>
    if b < 0x80 then Char.ofNat b.toNat :: lossyChars fuel bytes
    else
      match utf8Lead b with
      | none => '�' :: lossyChars fuel bytes
      | some (n, low, high) =>
        let (taken, rest) := takeContinuation n low high bytes
        (if taken.length = n then Char.ofNat (utf8CodePoint n b taken) else '�') ::
          lossyChars fuel rest

def fromUtf8Lossy (bytes : List UInt8) : String :=
  match fromUtf8 bytes with
  | some text => text
  | none => String.ofList (lossyChars bytes.length bytes)

theorem fromUtf8Lossy_textUtf8 (text : String) : fromUtf8Lossy (textUtf8 text) = text := by
  rw [fromUtf8Lossy, fromUtf8_textUtf8]

example : fromUtf8Lossy [0x61, 0xE2, 0x82, 0x28, 0xFF, 0xC3, 0xA9] = "a�(�é" := by
  decide

end Rmux
