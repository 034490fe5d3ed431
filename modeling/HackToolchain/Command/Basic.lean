/-
**Commands of the stack machine.**

A command pushes or pops a cell of a memory segment, computes on the top of the stack, marks or
takes a jump, or declares, calls or leaves a function.

Main definitions:

* `Operator`, `Segment`, `Opcode` — the words of the language, with the lists of all of them and
  their names;
* `Command` — a command;
* `Record` — a command spread over four fields, in which kinds and segments are numbers;
* `Command.record`, `Record.command` — between the two;
* `Command.text` — a command as it is written.

The numbers of a record are open: a number that stands for no kind or segment still has a printed
form.  Reading a record as a command is where such a number is refused
(`HackToolchain.Command.Fault` holds the reasons).
-/
import HackToolchain.Text.Numeral

set_option relaxedAutoImplicit false
set_option autoImplicit false

namespace HackToolchain

/-! ### The words of the language -/

/-- An operation on the top of the stack. -/
inductive Operator where
  | add | sub | neg | eq | gt | lt | and | or | not
  deriving DecidableEq

namespace Operator

/-- All operators, in the order of their numbers. -/
def all : List Operator := [add, sub, neg, eq, gt, lt, and, or, not]

/-- The written form of an operator. -/
def name : Operator → Text
  | add => ascii "add"
  | sub => ascii "sub"
  | neg => ascii "neg"
  | eq => ascii "eq"
  | gt => ascii "gt"
  | lt => ascii "lt"
  | and => ascii "and"
  | or => ascii "or"
  | not => ascii "not"

end Operator

/-- A memory segment. -/
inductive Segment where
  | constant | locals | arguments | this | that | pointer | temp | statics
  deriving DecidableEq

namespace Segment

/-- All segments, in the order of their numbers. -/
def all : List Segment := [constant, locals, arguments, this, that, pointer, temp, statics]

/-- The written form of a segment. -/
def name : Segment → Text
  | constant => ascii "constant"
  | locals => ascii "local"
  | arguments => ascii "argument"
  | this => ascii "this"
  | that => ascii "that"
  | pointer => ascii "pointer"
  | temp => ascii "temp"
  | statics => ascii "static"

/-- The number of a segment.  Zero is left for "no segment". -/
def number (s : Segment) : Nat := all.idxOf s + 1

/-- The segment with a number. -/
def ofNumber? (n : Int) : Option Segment := if n < 1 then none else all[n.toNat - 1]?

/-- The printed form of a segment number.  The number zero prints as nothing. -/
def describe (n : Int) : Text :=
  match ofNumber? n with
  | some s => s.name
  | none => if n = 0 then [] else ascii "Segment(" ++ Numeral.ofInt n ++ ascii ")"

end Segment

/-- The first word of a command. -/
inductive Opcode where
  | push | pop
  | operate (o : Operator)
  | label | jump | jumpIf
  | function | call | ret
  deriving DecidableEq

namespace Opcode

/-- All opcodes, in the order of their numbers. -/
def all : List Opcode :=
  [push, pop] ++ Operator.all.map operate ++ [label, jump, jumpIf, function, call, ret]

/-- The written form of an opcode. -/
def name : Opcode → Text
  | push => ascii "push"
  | pop => ascii "pop"
  | operate o => o.name
  | label => ascii "label"
  | jump => ascii "goto"
  | jumpIf => ascii "if-goto"
  | function => ascii "function"
  | call => ascii "call"
  | ret => ascii "return"

/-- The number of an opcode. -/
def number (k : Opcode) : Nat := all.idxOf k

/-- The opcode with a number. -/
def ofNumber? (n : Int) : Option Opcode := if n < 0 then none else all[n.toNat]?

/-- The printed form of an opcode number. -/
def describe (n : Int) : Text :=
  match ofNumber? n with
  | some k => k.name
  | none => ascii "Kind(" ++ Numeral.ofInt n ++ ascii ")"

/-- An opcode that computes on the top of the stack. -/
def isOperator : Opcode → Bool
  | operate _ => true
  | _ => false

end Opcode

/-! ### Commands -/

/-- A command of the stack machine. -/
inductive Command where
  /-- Push a cell of a segment. -/
  | push (segment : Segment) (index : Int)
  /-- Pop into a cell of a segment. -/
  | pop (segment : Segment) (index : Int)
  /-- Replace the operands on the stack by a result. -/
  | operate (o : Operator)
  /-- Mark a place. -/
  | label (name : Text)
  /-- Continue at a mark. -/
  | jump (name : Text)
  /-- Pop, and continue at a mark unless the value is zero. -/
  | jumpIf (name : Text)
  /-- Start a function with a number of local cells. -/
  | function (name : Text) (locals : Int)
  /-- Call a function on a number of pushed arguments. -/
  | call (name : Text) (arguments : Int)
  /-- Leave the function. -/
  | ret
  deriving DecidableEq

/-- A command spread over four fields.  Fields that the kind does not use are zero or empty. -/
structure Record where
  kind : Int := 0
  segment : Int := 0
  index : Int := 0
  name : Text := []
  deriving DecidableEq

namespace Command

/-- The opcode of a command. -/
def opcode : Command → Opcode
  | push .. => .push
  | pop .. => .pop
  | operate o => .operate o
  | label _ => .label
  | jump _ => .jump
  | jumpIf _ => .jumpIf
  | function .. => .function
  | call .. => .call
  | ret => .ret

/-- The four fields of a command. -/
def record (c : Command) : Record :=
  match c with
  | push s i | pop s i => { kind := c.opcode.number, segment := s.number, index := i }
  | label name | jump name | jumpIf name => { kind := c.opcode.number, name }
  | function name n | call name n => { kind := c.opcode.number, index := n, name }
  | operate _ | ret => { kind := c.opcode.number }

end Command

namespace Record

/-- The printed form of a record: the kind, then the fields that the kind uses. -/
def text (r : Record) : Text :=
  let kind := Opcode.describe r.kind
  match Opcode.ofNumber? r.kind with
  | some .push | some .pop =>
    kind ++ ascii " " ++ Segment.describe r.segment ++ ascii " " ++ Numeral.ofInt r.index
  | some .label | some .jump | some .jumpIf => kind ++ ascii " " ++ r.name
  | some .function | some .call => kind ++ ascii " " ++ r.name ++ ascii " " ++ Numeral.ofInt r.index
  | _ => kind

end Record

/-- A command as it is written. -/
def Command.text (c : Command) : Text := c.record.text

end HackToolchain
