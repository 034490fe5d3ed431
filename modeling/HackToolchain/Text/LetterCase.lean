/-
**Letter case, as far as ASCII keywords see it.**

Keywords are ASCII words, compared after a change of case.  Few characters outside ASCII change
into an ASCII letter: the dotless `ı` and the long `ſ` have the capitals `I` and `S`, and the
dotted `İ` and the Kelvin sign have the small letters `i` and `k`.  Any other character outside
ASCII stays outside ASCII when its case changes, so it is left as it is: either way it matches no
keyword.
-/
import HackToolchain.Text.Utf8

set_option relaxedAutoImplicit false
set_option autoImplicit false

namespace HackToolchain.Text

/-- The capital of a character, where that is an ASCII letter. -/
def capital (c : Char) : Char :=
  if 'a' ≤ c ∧ c ≤ 'z' then Char.ofNat (c.toNat - 32)
  else if c = 'ı' then 'I'
  else if c = 'ſ' then 'S'
  else c

/-- The small letter of a character, where that is an ASCII letter. -/
def small (c : Char) : Char :=
  if 'A' ≤ c ∧ c ≤ 'Z' then Char.ofNat (c.toNat + 32)
  else if c = 'İ' then 'i'
  else if c = '\u212a' then 'k'
  else c

/-- The text in capitals. -/
def upper (t : Text) : Text := encode ((decode t).map (Glyph.map capital))

/-- The text in small letters. -/
def lower (t : Text) : Text := encode ((decode t).map (Glyph.map small))

end HackToolchain.Text
