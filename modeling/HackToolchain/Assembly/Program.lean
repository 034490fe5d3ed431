/-
**Assembled programs.**

Main definitions:

* `SymbolTable` — names with their addresses;
* `Instruction` — sixteen binary digits, and the line they come from;
* `Program` — instructions, labels and variables;
* `Program.checkVariables` — whether all variables lie below the stack.
-/
import HackToolchain.Word

set_option relaxedAutoImplicit false
set_option autoImplicit false

namespace HackToolchain

/-! ### Symbol tables -/

/-- Names with their addresses.  A name stands in a table at most once. -/
abbrev SymbolTable := List (Text × Nat)

namespace SymbolTable

/-- The address of a name. -/
def find? (t : SymbolTable) (name : Text) : Option Nat := t.lookup name

/-- The table with an address for a name, which replaces an earlier one. -/
def insert (t : SymbolTable) (name : Text) (address : Nat) : SymbolTable :=
  match t with
  | [] => [(name, address)]
  | (n, a) :: rest => if n = name then (n, address) :: rest else (n, a) :: insert rest name address

/-- The table in the order of addresses, and of names at one address. -/
def byAddress (t : SymbolTable) : SymbolTable :=
  t.mergeSort fun p q => if p.2 = q.2 then Text.le p.1 q.1 else decide (p.2 < q.2)

end SymbolTable

/-! ### Instructions -/

/-- What an instruction is: a number, a label, the cell of a variable, or a
computation. -/
inductive InstructionKind where
  | constant | label | cell | compute
  deriving DecidableEq

/-- The number of a kind. -/
def InstructionKind.number : InstructionKind → Nat
  | constant => 0
  | label => 1
  | cell => 2
  | compute => 3

/-- An instruction: its binary digits, and the number and text of the line it comes from. -/
structure Instruction where
  kind : InstructionKind
  code : Text
  line : Nat
  source : Text
  deriving DecidableEq

namespace Instruction

/-- The printed form of an instruction with the given fields. -/
def describe (kind : Int) (code : Text) (line : Int) (source : Text) : Text :=
  ascii "Instruction: \x7bTp: " ++ Numeral.ofInt kind ++ ascii ", Code: " ++ code
    ++ ascii ", Line: " ++ Numeral.ofInt line ++ ascii ", Source: " ++ source ++ ascii "\x7d"

/-- The machine word of an instruction. -/
def word (i : Instruction) : Word := Numeral.readBinary i.code

end Instruction

/-! ### Programs -/

/-- An assembled program: its instructions, the addresses of the instructions after its labels,
and the cells of its variables. -/
structure Program where
  instructions : List Instruction := []
  labels : SymbolTable := []
  cells : SymbolTable := []
  deriving DecidableEq

namespace Program

/-- The binary digits of the instructions. -/
def codes (p : Program) : List Text := p.instructions.map Instruction.code

/-- The machine words of the instructions. -/
def words (p : Program) : List Word := p.instructions.map Instruction.word

/-- The first cell of the stack.  Variables must lie below it. -/
def stackBase : Nat := 256

/-- The first cell of the variables. -/
def variableBase : Nat := 16

/-- A variable that was given a cell of the stack. -/
structure VariableError where
  name : Text
  address : Nat
  /-- How many variables there are. -/
  count : Nat
  deriving DecidableEq

/-- The message about a variable in the stack. -/
def VariableError.message (e : VariableError) : Text :=
  ascii "variable " ++ e.name ++ ascii " allocated at RAM[" ++ Numeral.ofNat e.address
    ++ ascii "], " ++ Numeral.ofNat e.count ++ ascii " variables don't fit below RAM["
    ++ Numeral.ofNat stackBase ++ ascii "]"

/-- The variables that were given a cell of the stack.  A table that is small enough to fit below
the stack is not looked at. -/
def misplaced (cells : SymbolTable) : SymbolTable :=
  if cells.length ≤ stackBase - variableBase then []
  else cells.filter fun p => decide (stackBase ≤ p.2)

/-- Whether all variables lie below the stack. -/
def checkTable (cells : SymbolTable) : Except VariableError Unit :=
  match misplaced cells with
  | [] => .ok ()
  | (name, address) :: _ => .error { name, address, count := cells.length }

/-- Whether all variables of a program lie below the stack. -/
def checkVariables (p : Program) : Except VariableError Unit := checkTable p.cells

end Program

end HackToolchain
