/-
**Machine words.**

The machine computes on words of sixteen bits.  A word is read as a signed number when it is
compared with zero or shown, and as an unsigned number when it is an address.
-/
import HackToolchain.Text.Numeral

set_option relaxedAutoImplicit false
set_option autoImplicit false

namespace HackToolchain

/-- A word of the machine. -/
abbrev Word := BitVec 16

namespace Word

/-- The word with the low sixteen bits of a number. -/
def ofAddress (n : Nat) : Word := BitVec.ofNat 16 n

/-- The sixteen binary digits of a word. -/
def digits (w : Word) : Text := Numeral.binary w.toNat

end Word

end HackToolchain
