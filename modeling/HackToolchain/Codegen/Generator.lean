/-
**From commands to assembly.**

The stack machine lives in the data memory:

* cell 0 holds the stack pointer, cells 1 to 4 the bases of the segments `local`, `argument`,
  `this` and `that`;
* cells 5 to 12 are the segment `temp`, cells 13 and 14 are scratch space;
* cells 16 to 255 are static cells, and the stack starts at 256.

The generator turns commands into assembly one at a time.  It remembers the module it is in, the
current function, how many labels and how many uses of static cells it has numbered, and the
static symbols of the unit, each of which takes a cell.

Main definitions:

* `Generator` — what is remembered between commands;
* `Generator.place` — where a cell of a segment is found;
* `Generator.write` — the code of a command;
* `Generator.start` — the code that sets up the stack and calls the first function.

`Generator.write` gives the next state also for a command that has no code: a use of a static cell
is counted before the budget is looked at.

Sums and differences of numbers from outside are those of 64-bit arithmetic (`Numeral.wrap`).
-/
import HackToolchain.Assembly.Item
import HackToolchain.Codegen.StaticMode
import HackToolchain.Command.Fault

set_option relaxedAutoImplicit false
set_option autoImplicit false

namespace HackToolchain

/-- What the generator remembers between commands. -/
structure Generator where
  /-- The way of naming static cells. -/
  mode : StaticMode := .index
  /-- The module of the following commands, empty for an unnamed one. -/
  module : Text := []
  /-- The current function, empty before the first one. -/
  function : Text := []
  /-- How many labels have been numbered. -/
  labels : Nat := 0
  /-- How many uses of static cells have been numbered in the current function. -/
  staticUses : Nat := 0
  /-- The static symbols of the unit, in the order of their first use. -/
  statics : List Text := []
  deriving DecidableEq

/-- Where a cell of a segment is found. -/
inductive Place where
  /-- The value itself. -/
  | value (n : Int)
  /-- At a distance from the address in a register. -/
  | indexed (base : String) (index : Int)
  /-- At a known address. -/
  | direct (target : Target)
  deriving DecidableEq

namespace Code

open Item

/-! ### Pieces of code -/

/-- Push the data register. -/
def pushD : List Item :=
  [address "SP", set [.A] (.same .M), set [.M] (.same .D), address "SP", set [.M] (.succ .M)]

/-- Pop into the data register. -/
def popD : List Item := [address "SP", set [.A, .M] (.pred .M), set [.D] (.same .M)]

/-- Load a number into the data register.  An address instruction carries fifteen bits, so a
negative number is built from its magnitude. -/
def loadConstant (v : Int) : List Item :=
  if 0 ≤ v then [constant v, set [.D] (.same .A)]
  else if v = -32768 then [constant 32767, set [.D] (.neg .A), set [.D] (.pred .D)]
  else [constant (Numeral.wrap (-v)), set [.D] (.neg .A)]

/-- Push the cell at a place. -/
def push : Place → List Item
  | .value n => loadConstant n ++ pushD
  | .indexed base i =>
    [constant i, set [.D] (.same .A), address base, set [.A] (.dPlus .M), set [.D] (.same .M)]
      ++ pushD
  | .direct t => [load t, set [.D] (.same .M)] ++ pushD

/-- Pop into the cell at a place.  A value has no cell: the top of the stack is dropped. -/
def pop : Place → List Item
  | .value _ => [address "SP", set [.M] (.pred .M)]
  | .indexed base i =>
    [constant i, set [.D] (.same .A), address base, set [.D] (.dPlus .M), address "R13",
      set [.M] (.same .D)]
      ++ popD ++ [address "R13", set [.A] (.same .M), set [.M] (.same .D)]
  | .direct t => popD ++ [load t, set [.M] (.same .D)]

/-- Pop the second operand and replace the first by the result. -/
def binary (c : Comp) : List Item :=
  [address "SP", set [.A, .M] (.pred .M), set [.D] (.same .M), set [.A] (.pred .A), set [.M] c]

/-- Replace the operand by the result. -/
def unary (c : Comp) : List Item := [address "SP", set [.A] (.pred .M), set [.M] c]

/-- Replace two operands by minus one or zero.  The jump is taken if the comparison fails. -/
def compare (failing : Jump) (no yes : Text) : List Item :=
  [address "SP", set [.A, .M] (.pred .M), set [.D] (.same .M), set [.A] (.pred .A),
    set [.D] (.minusD .M), load (.symbol no), jump (.same .D) failing,
    address "SP", set [.A] (.pred .M), set [.M] .minusOne, load (.symbol yes), jump .zero .always,
    label no, address "SP", set [.A] (.pred .M), set [.M] .zero,
    label yes]

/-- Continue at a label. -/
def goto (name : Text) : List Item := [load (.symbol name), jump .zero .always]

/-- Pop, and continue at a label unless the value is zero. -/
def gotoIf (name : Text) : List Item := popD ++ [load (.symbol name), jump (.same .D) .ne]

/-- Start a function: its local cells are pushed, all zero. -/
def function (name : Text) (locals : Int) : List Item :=
  label name :: (List.replicate locals.toNat (loadConstant 0 ++ pushD)).flatten

/-- Push the contents of a register. -/
def pushRegister (name : String) : List Item :=
  [address name, set [.D] (.same .M)] ++ pushD

/-- Call a function: push the return address and the caller's segment bases, set the bases of the
callee, and jump. -/
def call (name : Text) (arguments : Int) (back : Text) : List Item :=
  [load (.symbol back), set [.D] (.same .A)] ++ pushD
    ++ ["LCL", "ARG", "THIS", "THAT"].flatMap pushRegister
    ++ [address "SP", set [.D] (.same .M), constant (Numeral.wrap (arguments + 5)),
      set [.D] (.dMinus .A), address "ARG", set [.M] (.same .D), address "SP", set [.D] (.same .M),
      address "LCL", set [.M] (.same .D)]
    ++ goto name ++ [label back]

/-- Restore a register from the frame, downwards. -/
def restore (name : String) : List Item :=
  [address "R13", set [.A, .M] (.pred .M), set [.D] (.same .M), address name, set [.M] (.same .D)]

/-- Leave a function: the frame's base and the return address are put aside, the result goes
where the arguments started, and the caller's registers are restored.  The return address is read
before the result is stored, because a call without arguments stores it over the return address. -/
def ret : List Item :=
  [address "LCL", set [.D] (.same .M), address "R13", set [.M] (.same .D), constant 5,
    set [.A] (.dMinus .A), set [.D] (.same .M), address "R14", set [.M] (.same .D)]
    ++ popD
    ++ [address "ARG", set [.A] (.same .M), set [.M] (.same .D), address "ARG",
      set [.D] (.succ .M), address "SP", set [.M] (.same .D)]
    ++ ["THAT", "THIS", "ARG", "LCL"].flatMap restore
    ++ [address "R14", set [.A] (.same .M), jump .zero .always]

/-- Set the stack pointer to the start of the stack. -/
def resetStack : List Item :=
  [constant 256, set [.D] (.same .A), address "SP", set [.M] (.same .D)]

/-- A comment after an empty line. -/
def annotation (t : Text) : List Item := [blank, comment t]

end Code

namespace Generator

/-! ### Places -/

/-- The static symbol, which takes a cell when it is used for the first time.  There are 240
cells. -/
def reserve (g : Generator) (symbol : Text) : Generator × Except Fault Target :=
  if symbol ∈ g.statics then (g, .ok (.symbol symbol))
  else if 240 ≤ g.statics.length then (g, .error (.staticBudget symbol))
  else ({ g with statics := g.statics ++ [symbol] }, .ok (.symbol symbol))

/-- Where a static cell is found. -/
def staticTarget (g : Generator) (i : Int) : Generator × Except Fault Target :=
  let address := Numeral.wrap (16 + i)
  if 255 < address then (g, .error (.staticBounds i))
  else match g.mode with
    | .occurrence =>
      if g.function.isEmpty then (g, .ok (.number address))
      else
        let owner := if g.module.isEmpty then ascii "Static" else g.module
        reserve { g with staticUses := g.staticUses + 1 }
          (owner ++ ascii ".static" ++ Numeral.ofNat g.staticUses)
    | .index =>
      if g.module.isEmpty then (g, .ok (.number address))
      else reserve g (g.module ++ ascii "." ++ Numeral.ofInt i)

/-- Where a cell of the pointer segment is found. -/
def pointerTarget (i : Int) : Except Fault Target :=
  if i = 0 then .ok (.symbol (ascii "THIS"))
  else if i = 1 then .ok (.symbol (ascii "THAT"))
  else .error (.pointerBounds i)

/-- Where a cell of the temp segment is found. -/
def tempTarget (i : Int) : Except Fault Target :=
  if 8 ≤ i then .error (.tempBounds i) else .ok (.number (Numeral.wrap (5 + i)))

/-- Where a cell of a segment is found. -/
def place (g : Generator) (s : Segment) (i : Int) : Generator × Except Fault Place :=
  match s with
  | .constant => (g, .ok (.value i))
  | .locals => (g, .ok (.indexed "LCL" i))
  | .arguments => (g, .ok (.indexed "ARG" i))
  | .this => (g, .ok (.indexed "THIS" i))
  | .that => (g, .ok (.indexed "THAT" i))
  | .pointer => (g, (pointerTarget i).map .direct)
  | .temp => (g, (tempTarget i).map .direct)
  | .statics =>
    let r := g.staticTarget i
    (r.1, r.2.map .direct)

/-! ### Commands -/

/-- A generated label.  No symbol of a source starts with a dollar sign. -/
def freshLabel (word : String) (n : Nat) : Text :=
  ascii "$" ++ ascii word ++ ascii "." ++ Numeral.ofNat n

/-- The code of a comparison, which takes two labels. -/
def compare (g : Generator) (failing : Jump) : Generator × List Item :=
  ({ g with labels := g.labels + 2 },
    Code.compare failing (freshLabel "FALSE" g.labels) (freshLabel "CONTINUE" (g.labels + 1)))

/-- The code of an operator. -/
def operate (g : Generator) : Operator → Generator × List Item
  | .add => (g, Code.binary (.plusD .M))
  | .sub => (g, Code.binary (.minusD .M))
  | .and => (g, Code.binary (.andD .M))
  | .or => (g, Code.binary (.orD .M))
  | .neg => (g, Code.unary (.neg .M))
  | .not => (g, Code.unary (.not .M))
  | .eq => g.compare .ne
  | .gt => g.compare .le
  | .lt => g.compare .ge

/-- The code of a call, which takes a label. -/
def call (g : Generator) (name : Text) (arguments : Int) : Generator × List Item :=
  ({ g with labels := g.labels + 1 }, Code.call name arguments (freshLabel "RETURN" g.labels))

/-- The state after a command, and the code of the command or the reason why it has none. -/
def write (g : Generator) : Command → Generator × Except Fault (List Item)
  | .push s i =>
    let r := g.place s i
    (r.1, r.2.map Code.push)
  | .pop s i =>
    let r := g.place s i
    (r.1, r.2.map Code.pop)
  | .operate o =>
    let r := g.operate o
    (r.1, .ok r.2)
  | .label name => (g, .ok [.label name])
  | .jump name => (g, .ok (Code.goto name))
  | .jumpIf name => (g, .ok (Code.gotoIf name))
  | .function name locals =>
    ({ g with function := name, staticUses := 0 }, .ok (Code.function name locals))
  | .call name arguments =>
    if 32767 < Numeral.wrap (arguments + 5) then (g, .error (.tooManyArguments arguments))
    else
      let r := g.call name arguments
      (r.1, .ok r.2)
  | .ret => if g.function.isEmpty then (g, .error .noFunction) else (g, .ok Code.ret)

/-- The code that sets up the stack and, unless `entry` is empty, calls the function `entry`. -/
def start (g : Generator) (entry : Text) : Generator × List Item :=
  if entry.isEmpty then (g, Code.resetStack)
  else
    let r := g.call entry 0
    (r.1, Code.resetStack ++ r.2)

end Generator

end HackToolchain
