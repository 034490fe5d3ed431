/-
**Compute instructions.**

A compute instruction `dest=comp;jump` evaluates an expression over the registers, stores the
value, and jumps if the value satisfies a condition.  Destination and jump may be missing.

Expressions are kept as they are written: `D+M` and `M+D` are different expressions with the same
code.  So an expression and its text determine each other, and what the generator writes is a
value of the type that the assembler reads.

Main definitions:

* `Register`, `Operand`, `Comp`, `Jump`, `Compute` — instructions as they are written;
* `Comp.text`, `Jump.text`, `Compute.text` — their written forms;
* `Comp.parse?`, `Dest.parse?`, `Jump.parse?` — reading the three parts;
* `Compute.word` — the machine word;
* `Comp.eval`, `Jump.holds` — what an expression and a jump condition mean.
-/
import HackToolchain.Word

set_option relaxedAutoImplicit false
set_option autoImplicit false

namespace HackToolchain

/-! ### Expressions -/

/-- The registers: address, data, and the memory cell that the address register points to. -/
inductive Register where
  | A | D | M
  deriving DecidableEq

/-- The second operand of a binary expression, the first being `D`. -/
inductive Operand where
  | A | M
  deriving DecidableEq

/-- The name of a register. -/
def Register.byte : Register → UInt8
  | A => 65
  | D => 68
  | M => 77

/-- An operand as a register. -/
def Operand.register : Operand → Register
  | A => .A
  | M => .M

/-- An expression, as it is written. -/
inductive Comp where
  | zero | one | minusOne
  | same (x : Register) | not (x : Register) | neg (x : Register)
  | succ (x : Register) | onePlus (x : Register) | pred (x : Register)
  | dPlus (y : Operand) | plusD (y : Operand)
  | dMinus (y : Operand) | minusD (y : Operand)
  | dAnd (y : Operand) | andD (y : Operand)
  | dOr (y : Operand) | orD (y : Operand)
  deriving DecidableEq

namespace Comp

/-- All expressions. -/
def all : List Comp :=
  [zero, one, minusOne]
    ++ [Register.D, .A, .M].flatMap (fun x =>
      [same x, not x, neg x, succ x, onePlus x, pred x])
    ++ [Operand.A, .M].flatMap (fun y =>
      [dPlus y, plusD y, dMinus y, minusD y, dAnd y, andD y, dOr y, orD y])

/-- The written form of an expression. -/
def text : Comp → Text
  | zero => ascii "0"
  | one => ascii "1"
  | minusOne => ascii "-1"
  | same x => [x.byte]
  | not x => ascii "!" ++ [x.byte]
  | neg x => ascii "-" ++ [x.byte]
  | succ x => [x.byte] ++ ascii "+1"
  | onePlus x => ascii "1+" ++ [x.byte]
  | pred x => [x.byte] ++ ascii "-1"
  | dPlus y => ascii "D+" ++ [y.register.byte]
  | plusD y => [y.register.byte] ++ ascii "+D"
  | dMinus y => ascii "D-" ++ [y.register.byte]
  | minusD y => [y.register.byte] ++ ascii "-D"
  | dAnd y => ascii "D&" ++ [y.register.byte]
  | andD y => [y.register.byte] ++ ascii "&D"
  | dOr y => ascii "D|" ++ [y.register.byte]
  | orD y => [y.register.byte] ++ ascii "|D"

/-- The written forms of all expressions. -/
def table : List (Text × Comp) := all.map fun c => (c.text, c)

/-- The expression with a written form. -/
def parse? (t : Text) : Option Comp := table.lookup t

/-- Whether an expression reads memory. -/
def readsMemory : Comp → Bool
  | zero | one | minusOne => false
  | same x | not x | neg x | succ x | onePlus x | pred x => x == .M
  | dPlus y | plusD y | dMinus y | minusD y | dAnd y | andD y | dOr y | orD y => y == .M

/-- The control bits that make the arithmetic unit compute an expression.  From the highest on
they clear and negate the first operand, clear and negate the second, choose a sum rather than a
conjunction, and negate the result. -/
def control : Comp → BitVec 6
  | zero => 0b101010#6
  | one => 0b111111#6
  | minusOne => 0b111010#6
  | same .D => 0b001100#6
  | same _ => 0b110000#6
  | not .D => 0b001101#6
  | not _ => 0b110001#6
  | neg .D => 0b001111#6
  | neg _ => 0b110011#6
  | succ .D | onePlus .D => 0b011111#6
  | succ _ | onePlus _ => 0b110111#6
  | pred .D => 0b001110#6
  | pred _ => 0b110010#6
  | dPlus _ | plusD _ => 0b000010#6
  | dMinus _ => 0b010011#6
  | minusD _ => 0b000111#6
  | dAnd _ | andD _ => 0b000000#6
  | dOr _ | orD _ => 0b010101#6

/-- The value of an expression, given the values of the registers. -/
def eval (r : Register → Word) : Comp → Word
  | zero => 0
  | one => 1
  | minusOne => -1
  | same x => r x
  | not x => ~~~r x
  | neg x => -r x
  | succ x | onePlus x => r x + 1
  | pred x => r x - 1
  | dPlus y | plusD y => r .D + r y.register
  | dMinus y => r .D - r y.register
  | minusD y => r y.register - r .D
  | dAnd y | andD y => r .D &&& r y.register
  | dOr y | orD y => r .D ||| r y.register

end Comp

/-! ### Destinations -/

/-- A destination: the registers that receive the value, in the order in which they are written.
The empty list is no destination. -/
abbrev Dest := List Register

namespace Dest

/-- All destinations that can be written: the arrangements of one, two or three registers. -/
def all : List Dest :=
  [[.A], [.D], [.M], [.A, .D], [.A, .M], [.D, .A], [.D, .M], [.M, .A], [.M, .D],
   [.A, .D, .M], [.A, .M, .D], [.D, .A, .M], [.D, .M, .A], [.M, .A, .D], [.M, .D, .A]]

/-- The written form of a destination. -/
def text (d : Dest) : Text := d.map Register.byte

/-- The written forms of all destinations. -/
def table : List (Text × Dest) := all.map fun d => (d.text, d)

/-- The destination with a written form. -/
def parse? (t : Text) : Option Dest := table.lookup t

/-- The bits of a destination, for `A`, `D` and `M`. -/
def bits (d : Dest) : BitVec 3 :=
  BitVec.ofBool (decide (Register.A ∈ d)) ++ BitVec.ofBool (decide (Register.D ∈ d))
    ++ BitVec.ofBool (decide (Register.M ∈ d))

end Dest

/-! ### Jumps -/

/-- A condition on the value, under which the machine jumps. -/
inductive Jump where
  | gt | eq | ge | lt | ne | le | always
  deriving DecidableEq

namespace Jump

/-- All conditions. -/
def all : List Jump := [gt, eq, ge, lt, ne, le, always]

/-- The written form of a condition. -/
def text : Jump → Text
  | gt => ascii "JGT"
  | eq => ascii "JEQ"
  | ge => ascii "JGE"
  | lt => ascii "JLT"
  | ne => ascii "JNE"
  | le => ascii "JLE"
  | always => ascii "JMP"

/-- The written forms of all conditions. -/
def table : List (Text × Jump) := all.map fun j => (j.text, j)

/-- The condition with a written form. -/
def parse? (t : Text) : Option Jump := table.lookup t

/-- The bits of a condition: whether it holds of negative values, of zero, of positive values. -/
def bits : Jump → BitVec 3
  | gt => 0b001#3
  | eq => 0b010#3
  | ge => 0b011#3
  | lt => 0b100#3
  | ne => 0b101#3
  | le => 0b110#3
  | always => 0b111#3

/-- Whether a condition holds of a value, read as a signed number. -/
def holds (j : Jump) (v : Word) : Bool :=
  match j with
  | gt => decide (0 < v.toInt)
  | eq => decide (v.toInt = 0)
  | ge => decide (0 ≤ v.toInt)
  | lt => decide (v.toInt < 0)
  | ne => decide (v.toInt ≠ 0)
  | le => decide (v.toInt ≤ 0)
  | always => true

end Jump

/-! ### Instructions -/

/-- A compute instruction. -/
structure Compute where
  dest : Dest := []
  comp : Comp
  jump : Option Jump := none
  deriving DecidableEq

namespace Compute

/-- The written form of an instruction. -/
def text (c : Compute) : Text :=
  (if c.dest.isEmpty then [] else c.dest.text ++ ascii "=") ++ c.comp.text
    ++ (match c.jump with
      | none => []
      | some j => ascii ";" ++ j.text)

/-- The machine word of an instruction: three ones, the bit that selects memory as the second
operand, the control bits, the destination and the jump. -/
def word (c : Compute) : Word :=
  0b111#3 ++ BitVec.ofBool c.comp.readsMemory ++ c.comp.control ++ c.dest.bits
    ++ (match c.jump with
      | none => 0#3
      | some j => j.bits)

end Compute

end HackToolchain
