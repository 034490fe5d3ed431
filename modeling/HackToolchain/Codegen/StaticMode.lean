/-
**How static cells are named.**

By `index`, cell `i` of the static segment of a module is the symbol of the module and `i`.  By
`occurrence`, each use of the segment inside a function is a symbol of its own, numbered from the
start of the function.
-/
import HackToolchain.Text.LetterCase
import HackToolchain.Text.Numeral
import HackToolchain.Text.Quoted

set_option relaxedAutoImplicit false
set_option autoImplicit false

namespace HackToolchain

/-- A way of naming static cells. -/
inductive StaticMode where
  | index | occurrence
  deriving DecidableEq

namespace StaticMode

/-- The written form of a mode. -/
def name : StaticMode → Text
  | index => ascii "index"
  | occurrence => ascii "occurrence"

/-- The number of a mode. -/
def number : StaticMode → Nat
  | index => 0
  | occurrence => 1

/-- The mode that a number selects.  A number without a mode of its own selects `index`. -/
def ofNumber (n : Int) : StaticMode := if n = 1 then occurrence else index

/-- The printed form of a mode number. -/
def describe (n : Int) : Text :=
  if n = 0 then index.name
  else if n = 1 then occurrence.name
  else ascii "StaticMode(" ++ Numeral.ofInt n ++ ascii ")"

/-- The mode that a word names, in any letter case.  The empty word names `index`. -/
def parse? (word : Text) : Option StaticMode :=
  let w := Text.lower word
  if w = index.name ∨ w = [] then some index
  else if w = occurrence.name then some occurrence
  else none

/-- The message about a word that names no mode. -/
def unknownMessage (word : Text) : Text := ascii "unknown static mode " ++ Text.quote word

end StaticMode

end HackToolchain
