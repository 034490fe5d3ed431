/-
**White space.**

Main definitions:

* `Text.isBlank` — the characters that count as white space;
* `Text.trim` — a text without the white space around it;
* `Text.tokens` — the parts of a text between white space.
-/
import HackToolchain.Text.Utf8

set_option relaxedAutoImplicit false
set_option autoImplicit false

namespace HackToolchain.Text

/-- The code points of white space: the horizontal and vertical spacing characters of ASCII, the
next-line control, and the separators of Unicode. -/
def blankRanges : List (Nat × Nat) :=
  [(0x09, 0x0D), (0x20, 0x20), (0x85, 0x85), (0xA0, 0xA0), (0x1680, 0x1680), (0x2000, 0x200A),
   (0x2028, 0x2029), (0x202F, 0x202F), (0x205F, 0x205F), (0x3000, 0x3000)]

/-- A character that counts as white space. -/
def isBlank (c : Char) : Bool :=
  blankRanges.any fun r => decide (r.1 ≤ c.toNat ∧ c.toNat ≤ r.2)

/-- The text without the white space at its two ends. -/
def trim (t : Text) : Text :=
  let inner := (decode t).dropWhile (Glyph.satisfies isBlank)
  encode (inner.reverse.dropWhile (Glyph.satisfies isBlank)).reverse

/-- The non-empty parts of a text between white space, from left to right. -/
def tokens (t : Text) : List Text :=
  ((pieces (Glyph.satisfies isBlank) (decode t)).filter (!·.isEmpty)).map encode

@[simp] theorem trim_nil : trim [] = [] := rfl

@[simp] theorem tokens_nil : tokens [] = [] := rfl

end HackToolchain.Text
