/-
**Assembly as it is read.**

A line of assembly, without its comment and the white space around it, is an address instruction
`@…`, a label `(…)`, or a compute instruction.

Main definitions:

* `Address` — what an address instruction names: a number, a predefined cell, or a symbol that is
  resolved once all labels are known;
* `Operation`, `Statement` — what a line can be;
* `Statement.parse` — reading a line;
* `AssemblyFault` — the ways in which a line can be wrong.
-/
import HackToolchain.Assembly.Compute
import HackToolchain.Text.Symbol

set_option relaxedAutoImplicit false
set_option autoImplicit false

namespace HackToolchain

/-! ### What can be wrong -/

/-- A reason why a line of assembly is refused. -/
inductive AssemblyFault where
  /-- Nothing follows the sign `@`. -/
  | emptyAddress
  /-- What follows starts with a digit and is no number of fifteen bits. -/
  | badDecimal
  /-- What follows is no name. -/
  | badName
  /-- The line starts like a label and is none. -/
  | badLabel
  /-- The label has been declared before. -/
  | duplicateLabel (name : Text)
  /-- The part before the equals sign is no destination. -/
  | badDest (line : Text)
  /-- The part after the semicolon is no jump. -/
  | badJump (line : Text)
  /-- What is left is no expression. -/
  | badComp (line : Text)
  deriving DecidableEq

/-- The text of a fault. -/
def AssemblyFault.text : AssemblyFault → Text
  | emptyAddress => ascii "empty A command"
  | badDecimal => ascii "wrong decimal value format"
  | badName => ascii "wrong variable or label format"
  | badLabel => ascii "wrong label format"
  | duplicateLabel name => ascii "found duplicate label " ++ name
  | badDest line => ascii "wrong c command of dest code format near " ++ line
  | badJump line => ascii "wrong c command of jump code format near " ++ line
  | badComp line => ascii "wrong c command of comp code format near " ++ line

/-! ### Statements -/

/-- What an address instruction names. -/
inductive Address where
  | constant (n : Nat)
  | predefined (n : Nat)
  | symbol (name : Text)
  deriving DecidableEq

/-- What an instruction does. -/
inductive Operation where
  | load (a : Address)
  | compute (c : Compute)
  deriving DecidableEq

/-- What a line can be. -/
inductive Statement where
  | operation (o : Operation)
  | label (name : Text)
  deriving DecidableEq

/-- The cells with a name of their own: the registers of the stack machine, the first sixteen
cells, the screen and the keyboard. -/
def predefinedCells : List (Text × Nat) :=
  [(ascii "SP", 0), (ascii "LCL", 1), (ascii "ARG", 2), (ascii "THIS", 3), (ascii "THAT", 4)]
    ++ (List.range 16).map (fun n => (ascii "R" ++ Numeral.ofNat n, n))
    ++ [(ascii "SCREEN", 16384), (ascii "KBD", 24576)]

/-- A byte that may start the name of a label or a variable. -/
def isNameStart (b : UInt8) : Bool :=
  Text.isLetter b || b == 95 || b == 46 || b == 36 || b == 58

/-- A byte that may follow in the name of a label or a variable. -/
def isNameByte (b : UInt8) : Bool := isNameStart b || Numeral.isDigit b

/-- The name of a label or a variable. -/
def isName : Text → Bool
  | [] => false
  | b :: t => isNameStart b && t.all isNameByte

/-- The parts of a text before and after the first `b` in it. -/
def cutAt (b : UInt8) (t : Text) : Option (Text × Text) :=
  match t.dropWhile (· != b) with
  | [] => none
  | _ :: after => some (t.takeWhile (· != b), after)

namespace Statement

/-- What follows the sign `@`. -/
def parseAddress (t : Text) : Except AssemblyFault Address :=
  match t with
  | [] => .error .emptyAddress
  | b :: _ =>
    if Numeral.isDigit b then
      match Numeral.readNat? 32767 t with
      | some n => .ok (.constant n)
      | none => .error .badDecimal
    else
      match predefinedCells.lookup t with
      | some n => .ok (.predefined n)
      | none => if isName t then .ok (.symbol t) else .error .badName

/-- What follows the opening bracket of a label. -/
def parseLabel (t : Text) : Except AssemblyFault Text :=
  if t.getLast? = some 41 ∧ isName t.dropLast then .ok t.dropLast else .error .badLabel

/-- The destination of a compute instruction, and what follows it. -/
def parseDest (line : Text) : Except AssemblyFault (Dest × Text) :=
  match cutAt 61 line with
  | none => .ok ([], line)
  | some (before, after) =>
    match Dest.parse? before with
    | some d => .ok (d, after)
    | none => .error (.badDest line)

/-- The jump of a compute instruction, and what stands before it. -/
def parseJump (line rest : Text) : Except AssemblyFault (Option Jump × Text) :=
  match cutAt 59 rest with
  | none => .ok (none, rest)
  | some (before, after) =>
    match Jump.parse? after with
    | some j => .ok (some j, before)
    | none => .error (.badJump line)

/-- A compute instruction. -/
def parseCompute (line : Text) : Except AssemblyFault Compute :=
  match parseDest line with
  | .error f => .error f
  | .ok (dest, rest) =>
    match parseJump line rest with
    | .error f => .error f
    | .ok (jump, rest) =>
      match Comp.parse? rest with
      | some comp => .ok { dest, comp, jump }
      | none => .error (.badComp line)

/-- A line without comment and surrounding white space that is not empty. -/
def parse (line : Text) : Except AssemblyFault Statement :=
  match line with
  | 64 :: t => (parseAddress t).map fun a => .operation (.load a)
  | 40 :: t => (parseLabel t).map .label
  | _ => (parseCompute line).map fun c => .operation (.compute c)

end Statement

end HackToolchain
