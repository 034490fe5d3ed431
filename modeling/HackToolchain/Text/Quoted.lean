/-
**Quoted texts.**

A text in a message stands between quotation marks, with everything that is not printable written
as an escape, so that the message shows each byte of it.

Main definitions:

* `Text.escape` — a glyph as it stands between quotation marks;
* `Text.quote` — a text between double quotation marks;
* `Text.quoteByte` — one byte, taken as the character of that code, between single ones.
-/
import HackToolchain.Text.Utf8
import HackToolchain.Text.Printable

set_option relaxedAutoImplicit false
set_option autoImplicit false

namespace HackToolchain.Text

/-- The character that starts an escape. -/
def backslash : Char := Char.ofNat 92

/-- The mark around a quoted text. -/
def doubleQuote : Char := Char.ofNat 34

/-- The mark around a quoted byte. -/
def singleQuote : Char := Char.ofNat 39

/-- A hexadecimal digit, in lower case. -/
def hexDigit (n : Nat) : UInt8 := if n < 10 then 48 + n.toUInt8 else 87 + n.toUInt8

/-- The last `width` hexadecimal digits of `n`. -/
def hex : (width n : Nat) → Text
  | 0, _ => []
  | width + 1, n => hex width (n / 16) ++ [hexDigit (n % 16)]

/-- The letter that names a control character in an escape. -/
def controlLetter? (c : Char) : Option UInt8 :=
  ([(7, 97), (8, 98), (12, 102), (10, 110), (13, 114), (9, 116), (11, 118)] :
    List (Nat × UInt8)).lookup c.toNat

/-- A glyph as it stands between two quotation marks `mark`. -/
def escape (mark : Char) : Glyph → Text
  | .stray b => ascii "\\x" ++ hex 2 b.toNat
  | .char c =>
    if c = mark ∨ c = backslash then 92 :: String.utf8EncodeChar c
    else if isPrintable c then String.utf8EncodeChar c
    else match controlLetter? c with
      | some letter => [92, letter]
      | none =>
        if c.toNat < 0x80 then ascii "\\x" ++ hex 2 c.toNat
        else if c.toNat < 0x10000 then ascii "\\u" ++ hex 4 c.toNat
        else ascii "\\U" ++ hex 8 c.toNat

/-- The text between double quotation marks. -/
def quote (t : Text) : Text := 34 :: (decode t).flatMap (escape doubleQuote) ++ [34]

/-- The character with the code `b` between single quotation marks. -/
def quoteByte (b : UInt8) : Text := 39 :: escape singleQuote (.char (Char.ofNat b.toNat)) ++ [39]

end HackToolchain.Text
