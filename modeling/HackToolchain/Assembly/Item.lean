/-
**Assembly as it is written.**

The generator writes items: instructions, labels, comments and empty lines.  An item becomes lines
of text when it is rendered.  Names come from outside and may hold anything, so an item is laid
out like any other text: its written form is cut at line feeds, and each part stands on a line of
its own without the white space around it, unless nothing is left.  An item whose name is a symbol
gives exactly one line.  Comments are not laid out: a comment is one element whatever it holds.

Main definitions:

* `Target` — what an address instruction refers to;
* `Item`, `Item.text`, `Item.lines` — items, their written form, their lines;
* `render` — the lines of a list of items.
-/
import HackToolchain.Assembly.Compute
import HackToolchain.Text.Blank

set_option relaxedAutoImplicit false
set_option autoImplicit false

namespace HackToolchain

/-- What an address instruction refers to. -/
inductive Target where
  | number (n : Int)
  | symbol (name : Text)
  deriving DecidableEq

/-- The written form of a target. -/
def Target.text : Target → Text
  | number n => Numeral.ofInt n
  | symbol name => name

/-- An element of written assembly. -/
inductive Item where
  | blank
  | comment (t : Text)
  | load (target : Target)
  | compute (c : Compute)
  | label (name : Text)
  deriving DecidableEq

namespace Item

/-- The written form of an item. -/
def text : Item → Text
  | blank => []
  | comment t => ascii "// " ++ t
  | load target => ascii "@" ++ target.text
  | compute c => c.text
  | label name => ascii "(" ++ name ++ ascii ")"

/-- The parts of a text between line feeds, without white space around them and without empty
ones. -/
def layOut (t : Text) : List Text :=
  ((Text.pieces (· == Text.lineFeed) t).map Text.trim).filter (!·.isEmpty)

/-- The lines of an item. -/
def lines : Item → List Text
  | blank => [[]]
  | comment t => [(comment t).text]
  | item => layOut item.text

/-- The instruction `@name`. -/
def address (name : String) : Item := load (.symbol (ascii name))

/-- The instruction `@n`. -/
def constant (n : Int) : Item := load (.number n)

/-- The instruction `dest=comp`. -/
def set (dest : Dest) (comp : Comp) : Item := compute { dest, comp }

/-- The instruction `comp;jump`. -/
def jump (comp : Comp) (jump : Jump) : Item := compute { comp, jump := some jump }

end Item

/-- The lines of a list of items. -/
def render (items : List Item) : List Text := items.flatMap Item.lines

end HackToolchain
