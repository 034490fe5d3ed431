/-
**What commands mean.**

Commands are given a meaning of their own, apart from the assembly they are turned into.  The stack
machine has a next command and the data memory, in which the stack and the registers live:

* cell 0 holds the stack pointer, which points past the top of the stack;
* cells 1 to 4 hold the bases of the segments `local`, `argument`, `this` and `that`;
* cells 5 to 12 are the segment `temp`.

Where the commands stand in the instruction memory matters in one place only: a call saves the
address of the command after it, and leaving a function continues at the saved address.

Main definitions:

* `Memory.push`, `Memory.top`, `Memory.drop`, `Memory.replaceTop` — the stack;
* `Memory.enter`, `Memory.leave` — the frame of a call;
* `Operator.apply` — the operators, in wrapping arithmetic of sixteen bits;
* `StackMachine.Image` — a program: its commands, their addresses, and its static cells;
* `StackMachine.Image.step?` — **one step of the stack machine**;
* `StackMachine.Image.Safe` — a step that stays inside the stack and clear of the scratch cells;
* `StackMachine.Image.Run` — any number of safe steps.
-/
import HackToolchain.Cpu.Memory
import HackToolchain.Proofs.Command.Operands
import HackToolchain.Unit.Compile

set_option relaxedAutoImplicit false
set_option autoImplicit false

namespace HackToolchain

/-! ### The stack and the registers in memory -/

namespace Memory

/-- The stack pointer. -/
def sp (ram : Memory) : Word := ram.get 0

/-- The base of the segment `local`. -/
def lcl (ram : Memory) : Word := ram.get 1

/-- The base of the segment `argument`. -/
def arg (ram : Memory) : Word := ram.get 2

/-- The base of the segment `this`. -/
def this (ram : Memory) : Word := ram.get 3

/-- The base of the segment `that`. -/
def that (ram : Memory) : Word := ram.get 4

/-- Push a word. -/
def push (ram : Memory) (v : Word) : Memory := (ram.set ram.sp.toNat v).set 0 (ram.sp + 1)

/-- The word on top of the stack. -/
def top (ram : Memory) : Word := ram.get (ram.sp - 1).toNat

/-- Drop the top of the stack. -/
def drop (ram : Memory) : Memory := ram.set 0 (ram.sp - 1)

/-- Replace the top of the stack. -/
def replaceTop (ram : Memory) (v : Word) : Memory := ram.set (ram.sp - 1).toNat v

/-- Push a number of zeros. -/
def pushZeros : Nat → Memory → Memory
  | 0, ram => ram
  | n + 1, ram => pushZeros n (ram.push 0)

/-- Enter a function on `n` arguments: the return address and the caller's bases are pushed, the
arguments start where the first of them was pushed, and the local cells start at the stack
pointer. -/
def enter (ram : Memory) (back : Word) (n : Int) : Memory :=
  let r : Memory := ((((ram.push back).push ram.lcl).push ram.arg).push ram.this).push ram.that
  (r.set 2 (r.sp - BitVec.ofInt 16 (n + 5))).set 1 r.sp

/-- The return address in the current frame. -/
def returnAddress (ram : Memory) : Word := ram.get (ram.lcl - 5).toNat

/-- Put the result where the arguments started and the stack pointer after it. -/
def yieldResult (ram : Memory) : Memory :=
  let r : Memory := ram.drop.set ram.arg.toNat ram.top
  r.set 0 (r.arg + 1)

/-- Restore a register from the cell at a distance below the frame. -/
def restore (frame : Word) (register : Nat) (distance : Word) (ram : Memory) : Memory :=
  ram.set register (ram.get (frame - distance).toNat)

/-- Leave a function: after the result has been put in place, the caller's bases are restored from
the frame, from the top of it downwards. -/
def leave (ram : Memory) : Memory :=
  restore ram.lcl 1 4 (restore ram.lcl 2 3 (restore ram.lcl 3 2 (restore ram.lcl 4 1
    ram.yieldResult)))

end Memory

/-! ### Operators -/

/-- The word of a truth value. -/
def truth (b : Bool) : Word := if b then -1 else 0

namespace Operator

/-- The result of an operator on the second word from the top and on the top.  Comparisons look at
the wrapped difference. -/
def result (x y : Word) : Operator → Word
  | add => x + y
  | sub => x - y
  | neg => -y
  | eq => truth (decide (x - y = 0))
  | gt => truth (decide (0 < (x - y).toInt))
  | lt => truth (decide ((x - y).toInt < 0))
  | and => x &&& y
  | or => x ||| y
  | not => ~~~y

/-- An operator with one operand. -/
def isUnary : Operator → Bool
  | neg | not => true
  | _ => false

/-- Replace the operands on the stack by the result. -/
def apply (o : Operator) (ram : Memory) : Memory :=
  if o.isUnary then ram.replaceTop (o.result 0 ram.top)
  else ram.drop.replaceTop (o.result ram.drop.top ram.top)

end Operator

/-! ### Programs and states -/

namespace StackMachine

/-- A program of the stack machine.  The address after the last command is the end of the
program. -/
structure Image where
  commands : List PlacedCommand
  /-- The address in the instruction memory at which the command with an index begins. -/
  address : Nat → Nat
  /-- The cell of the static segment of a module. -/
  staticCell : Text → Int → Nat

/-- The next command and the memory. -/
structure State where
  next : Nat
  ram : Memory

namespace Image

/-- The index of the command that declares a name. -/
def declaration? (P : Image) (name : Text) : Option Nat :=
  P.commands.findIdx? fun c => c.command.declared? == some name

/-- The index of the first command at an address. -/
def commandAt? (P : Image) (address : Nat) : Option Nat :=
  (List.range (P.commands.length + 1)).find? fun k => P.address k == address

/-- The address of a cell in a segment that has a base register. -/
def indexedCell? (ram : Memory) (i : Int) : Segment → Option Word
  | .locals => some (ram.lcl + BitVec.ofInt 16 i)
  | .arguments => some (ram.arg + BitVec.ofInt 16 i)
  | .this => some (ram.this + BitVec.ofInt 16 i)
  | .that => some (ram.that + BitVec.ofInt 16 i)
  | _ => none

/-- The address of a cell in a segment whose cells have fixed addresses. -/
def directCell? (P : Image) (module : Text) (i : Int) : Segment → Option Word
  | .pointer => some (BitVec.ofInt 16 (3 + i))
  | .temp => some (BitVec.ofInt 16 (5 + i))
  | .statics => some (BitVec.ofNat 16 (P.staticCell module i))
  | _ => none

/-- The address of a cell of a segment.  Constants have no cells. -/
def cell? (P : Image) (module : Text) (ram : Memory) (i : Int) (s : Segment) : Option Word :=
  (P.directCell? module i s).or (indexedCell? ram i s)

/-- The word that is pushed from a segment: the constant itself, or what the cell holds. -/
def fetch (P : Image) (module : Text) (ram : Memory) (s : Segment) (i : Int) : Word :=
  match P.cell? module ram i s with
  | none => BitVec.ofInt 16 i
  | some a => ram.get a.toNat

/-- Pop into a cell of a segment.  A constant has no cell, and the top is dropped. -/
def store (P : Image) (module : Text) (ram : Memory) (s : Segment) (i : Int) : Memory :=
  match P.cell? module ram i s with
  | none => ram.drop
  | some a => ram.drop.set a.toNat ram.top

/-- The state at the declaration of a name. -/
def continueAt? (P : Image) (name : Text) (ram : Memory) : Option State :=
  (P.declaration? name).map fun k => { next := k, ram }

/-- **One step of the stack machine.**  There is none past the last command, to a name that is not
declared, or back to an address at which no command begins. -/
def step? (P : Image) (s : State) : Option State :=
  match P.commands[s.next]? with
  | none => none
  | some c =>
    match c.command with
    | .push seg i => some ⟨s.next + 1, s.ram.push (P.fetch c.module s.ram seg i)⟩
    | .pop seg i => some ⟨s.next + 1, P.store c.module s.ram seg i⟩
    | .operate o => some ⟨s.next + 1, o.apply s.ram⟩
    | .label _ => some ⟨s.next + 1, s.ram⟩
    | .jump name => P.continueAt? name s.ram
    | .jumpIf name =>
      if s.ram.top = 0 then some ⟨s.next + 1, s.ram.drop⟩ else P.continueAt? name s.ram.drop
    | .function _ n => some ⟨s.next + 1, s.ram.pushZeros n.toNat⟩
    | .call name n =>
      P.continueAt? name (s.ram.enter (Word.ofAddress (P.address (s.next + 1))) n)
    | .ret => (P.commandAt? s.ram.returnAddress.toNat).map fun k => ⟨k, s.ram.leave⟩

/-! ### Safe steps and runs -/

/-- The cells of the stack and of the frame that a command touches. -/
def stackCells (ram : Memory) : Command → List Word
  | .push _ _ => [ram.sp]
  | .pop .constant _ => []
  | .pop _ _ => [ram.sp - 1]
  | .operate o => if o.isUnary then [ram.sp - 1] else [ram.sp - 1, ram.sp - 2]
  | .label _ | .jump _ => []
  | .jumpIf _ => [ram.sp - 1]
  | .function _ n => (List.range n.toNat).map fun k => ram.sp + BitVec.ofNat 16 k
  | .call _ _ => (List.range 5).map fun k => ram.sp + BitVec.ofNat 16 k
  | .ret => [ram.lcl - 5, ram.sp - 1, ram.arg, ram.lcl - 1, ram.lcl - 2, ram.lcl - 3, ram.lcl - 4]

/-- The effective address of a command that uses a segment with a base register. -/
def effective? (ram : Memory) : Command → Option Word
  | .push s i | .pop s i => indexedCell? ram i s
  | _ => none

/-- A command that reads the cell at its effective address. -/
def readsCell : Command → Bool
  | .push _ _ => true
  | _ => false

/-- A command is safe in a memory if the cells of the stack and of the frame that it touches lie in
`256, …, 32767`, its effective address is a cell, and it does not read a scratch cell, 13 or 14. -/
structure SafeCommand (ram : Memory) (c : Command) : Prop where
  stack : ∀ a ∈ stackCells ram c, 256 ≤ a.toNat ∧ a.toNat ≤ 32767
  cell : ∀ a ∈ effective? ram c, a.toNat ≤ 32767
  scratch : readsCell c = true → ∀ a ∈ effective? ram c, a.toNat ≠ 13 ∧ a.toNat ≠ 14

/-- The next step is safe. -/
def Safe (P : Image) (s : State) : Prop := ∀ c ∈ P.commands[s.next]?, SafeCommand s.ram c.command

/-- **A run of safe steps**, of any length. -/
inductive Run (P : Image) : State → State → Prop
  | refl (s : State) : Run P s s
  | step {s t u : State} (safe : P.Safe s) (next : P.step? s = some t) (rest : Run P t u) : Run P s u

end Image

end StackMachine

end HackToolchain
