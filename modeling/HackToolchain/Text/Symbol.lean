/-
**Symbols.**

A symbol is a name that may be used both in stack code and in generated assembly: a letter,
underscore, dot or colon, followed by letters, digits, underscores, dots, colons and dollar signs.
A leading dollar sign is kept for generated labels.
-/
import HackToolchain.Text.Numeral

set_option relaxedAutoImplicit false
set_option autoImplicit false

namespace HackToolchain.Text

/-- The underscore. -/
def isUnderscore (b : UInt8) : Bool := b == 95

/-- An ASCII letter. -/
def isLetter (b : UInt8) : Bool := (97 ≤ b && b ≤ 122) || (65 ≤ b && b ≤ 90)

/-- A letter or the underscore. -/
def isWordStart (b : UInt8) : Bool := isLetter b || isUnderscore b

/-- A letter, the underscore or a digit. -/
def isWordByte (b : UInt8) : Bool := isWordStart b || Numeral.isDigit b

/-- A byte that may start a symbol. -/
def isSymbolStart (b : UInt8) : Bool := isWordStart b || b == 46 || b == 58

/-- A byte that may follow in a symbol. -/
def isSymbolByte (b : UInt8) : Bool := isSymbolStart b || Numeral.isDigit b || b == 36

/-- A name that may be used both in stack code and in generated assembly. -/
def isSymbol : Text → Bool
  | [] => false
  | b :: t => isSymbolStart b && t.all isSymbolByte

end HackToolchain.Text
