/-
**The machine.**

The machine runs a program of words on an address register, a data register and the data memory.
An instruction whose highest bit is clear loads itself into the address register.  Any other
instruction computes: its bits select the second operand, drive the arithmetic unit, choose the
destinations, and say on which signs of the value to jump.

Main definitions:

* `alu` — the arithmetic unit;
* `Cpu`, `Cpu.exec` — registers and memory, and the effect of one instruction on them;
* `Machine`, `Machine.step` — a program with its registers, and one step of it;
* `Machine.runUntil`, `Machine.run` — running up to a place and a number of steps.

A memory access past the last cell is a fault: nothing changes but the count of steps.
-/
import HackToolchain.Cpu.Memory

set_option relaxedAutoImplicit false
set_option autoImplicit false

namespace HackToolchain

/-- The arithmetic unit.  From the highest on, the control bits clear the first operand, negate
it, clear the second, negate it, choose the sum rather than the conjunction, and negate the
result. -/
def alu (x y : Word) (control : BitVec 6) : Word :=
  let x := if control.getLsbD 5 then 0 else x
  let x := if control.getLsbD 4 then ~~~x else x
  let y := if control.getLsbD 3 then 0 else y
  let y := if control.getLsbD 2 then ~~~y else y
  let out := if control.getLsbD 1 then x + y else x &&& y
  if control.getLsbD 0 then ~~~out else out

/-- An access past the last cell of the memory. -/
inductive MemoryFault where
  | read (address : Nat) (pc : Int)
  | write (address : Nat) (pc : Int)
  deriving DecidableEq

/-- The message about a memory access. -/
def MemoryFault.message : MemoryFault → Text
  | read address pc => ascii "read of RAM[" ++ Numeral.ofNat address ++ ascii "] at pc "
      ++ Numeral.ofInt pc
  | write address pc => ascii "write of RAM[" ++ Numeral.ofNat address ++ ascii "] at pc "
      ++ Numeral.ofInt pc

/-- The registers and the memory. -/
structure Cpu where
  a : Word := 0
  d : Word := 0
  pc : Int := 0
  ram : Memory := Memory.zero

namespace Cpu

/-- Whether an instruction jumps on a value. -/
def jumps (ins v : Word) : Bool :=
  (ins.getLsbD 2 && decide (v.toInt < 0)) || (ins.getLsbD 1 && decide (v.toInt = 0))
    || (ins.getLsbD 0 && decide (0 < v.toInt))

/-- The effect of an instruction. -/
def exec (c : Cpu) (ins : Word) : Except MemoryFault Cpu :=
  if ins.getLsbD 15 = false then .ok { c with a := ins, pc := c.pc + 1 }
  else
    let address := c.a.toNat
    let outside := decide (Memory.size ≤ address)
    if ins.getLsbD 12 && outside then .error (.read address c.pc)
    else if ins.getLsbD 3 && outside then .error (.write address c.pc)
    else
      let y := if ins.getLsbD 12 then c.ram.get address else c.a
      let out := alu c.d y (ins.extractLsb' 6 6)
      .ok {
        a := if ins.getLsbD 5 then out else c.a
        d := if ins.getLsbD 4 then out else c.d
        pc := if jumps ins out then (address : Int) else c.pc + 1
        ram := if ins.getLsbD 3 then c.ram.set address out else c.ram }

end Cpu

/-- A program with its registers, its memory and the number of steps it has made. -/
structure Machine where
  cpu : Cpu := {}
  steps : Nat := 0
  rom : Array Word := #[]

/-- Why a run was not completed. -/
inductive RunError where
  | memory (f : MemoryFault)
  | stepLimit
  deriving DecidableEq

/-- The message about a run. -/
def RunError.message : RunError → Text
  | memory f => f.message
  | stepLimit => ascii "step limit reached"

namespace Machine

/-- The machine at the start of a program. -/
def load (words : List Word) : Machine := { rom := words.toArray }

/-- The next instruction, if the program counter is inside the program. -/
def fetch? (m : Machine) : Option Word :=
  if m.cpu.pc < 0 then none else m.rom[m.cpu.pc.toNat]?

/-- Whether the program counter has left the program. -/
def halted (m : Machine) : Bool := m.fetch?.isNone

/-- The machine after one instruction, and the fault of the instruction, if it has one.  A halted
machine stays as it is. -/
def step (m : Machine) : Machine × Except MemoryFault Unit :=
  match m.fetch? with
  | none => (m, .ok ())
  | some ins =>
    match m.cpu.exec ins with
    | .error f => ({ m with steps := m.steps + 1 }, .error f)
    | .ok cpu => ({ m with cpu, steps := m.steps + 1 }, .ok ())

/-- Whether the machine has halted or stands at `target`. -/
def stopped (m : Machine) (target : Int) : Bool := m.halted || m.cpu.pc == target

/-- The machine when it first has halted or stands at `target`, after at most `limit` steps. -/
def runUntil (target : Int) : (limit : Nat) → Machine → Machine × Except RunError Unit
  | 0, m => (m, if m.stopped target then .ok () else .error .stepLimit)
  | limit + 1, m =>
    if m.stopped target then (m, .ok ())
    else
      match m.step with
      | (m', .ok ()) => runUntil target limit m'
      | (m', .error f) => (m', .error (.memory f))

/-- The machine when it first has halted, after at most `limit` steps. -/
def run (limit : Nat) (m : Machine) : Machine × Except RunError Unit := m.runUntil (-1) limit

end Machine

end HackToolchain
