/-
**What can be wrong with a command.**

A fault is a reason why a line is no command, or why a command cannot be turned into assembly.
Faults fall into five kinds (`Fault.kind`), and each has a message that starts with the text of
its kind (`Fault.message`).
-/
import HackToolchain.Command.Basic

set_option relaxedAutoImplicit false
set_option autoImplicit false

namespace HackToolchain

/-- The kinds of faults. -/
inductive FaultKind where
  | unrecognizedCommand
  | invalidOperand
  | unknownSegment
  | segmentBounds
  | missingFrame
  deriving DecidableEq

/-- The text of a kind of faults. -/
def FaultKind.text : FaultKind → Text
  | unrecognizedCommand => ascii "unrecognized command"
  | invalidOperand => ascii "invalid operand"
  | unknownSegment => ascii "unknown segment"
  | segmentBounds => ascii "segment index out of bounds"
  | missingFrame => ascii "return outside of any function"

/-- A reason why a line is no command, or why a command has no code. -/
inductive Fault where
  /-- The line has no token. -/
  | emptyLine
  /-- The first word names no opcode. -/
  | unknownOpcode (word : Text)
  /-- Operands follow an opcode that has none. -/
  | takesNoOperands (k : Opcode)
  /-- Not one or two operands follow `push` or `pop`. -/
  | expectsCell (k : Opcode)
  /-- Not one operand follows a jump or a mark. -/
  | expectsLabel (k : Opcode)
  /-- Not one or two operands follow `function` or `call`. -/
  | expectsNameAndCount (k : Opcode)
  /-- The word names no segment. -/
  | unknownSegment (word : Text)
  /-- The segment has no index after it. -/
  | missingIndex (k : Opcode) (s : Segment)
  /-- The name has no count after it. -/
  | missingCount (k : Opcode) (name : Text)
  /-- The word is no integer of sixteen bits. -/
  | notInteger (word : Text)
  /-- Only constants may be negative. -/
  | negativeIndex (n : Int) (s : Segment)
  /-- A count of locals or arguments is not negative. -/
  | negativeCount (n : Int)
  /-- The word is no symbol. -/
  | badSymbol (word : Text)
  /-- The function to start with has a name that is no symbol. -/
  | badEntryPoint (name : Text)
  /-- The pointer segment has two cells. -/
  | pointerBounds (index : Int)
  /-- The temp segment ends at cell 12. -/
  | tempBounds (index : Int)
  /-- The static segment ends at cell 255. -/
  | staticBounds (index : Int)
  /-- All cells of the static segment have been given away. -/
  | staticBudget (symbol : Text)
  /-- The frame of the call would not be addressable. -/
  | tooManyArguments (n : Int)
  /-- No function has been started. -/
  | noFunction
  deriving DecidableEq

namespace Fault

/-- The kind of a fault. -/
def kind : Fault → FaultKind
  | emptyLine | unknownOpcode _ | takesNoOperands _ | expectsCell _ | expectsLabel _
  | expectsNameAndCount _ => .unrecognizedCommand
  | unknownSegment _ => .unknownSegment
  | missingIndex .. | missingCount .. | notInteger _ | negativeIndex .. | negativeCount _
  | badSymbol _ | badEntryPoint _ | tooManyArguments _ => .invalidOperand
  | pointerBounds _ | tempBounds _ | staticBounds _ | staticBudget _ => .segmentBounds
  | noFunction => .missingFrame

/-- The part of the message that tells faults of one kind apart. -/
def detail : Fault → Text
  | emptyLine => ascii "empty line"
  | unknownOpcode word => word
  | takesNoOperands k => k.name ++ ascii " takes no operands"
  | expectsCell k => k.name ++ ascii " expects a segment and an index"
  | expectsLabel k => k.name ++ ascii " expects a label name"
  | expectsNameAndCount k => k.name ++ ascii " expects a name and a count"
  | unknownSegment word => word
  | missingIndex k s => k.name ++ ascii " " ++ s.name ++ ascii " is missing its index"
  | missingCount k name => k.name ++ ascii " " ++ name ++ ascii " is missing its count"
  | notInteger word => word ++ ascii " is not a 16 bit integer"
  | negativeIndex n s => ascii "negative index " ++ Numeral.ofInt n ++ ascii " for " ++ s.name
  | negativeCount n => ascii "negative count " ++ Numeral.ofInt n
  | badSymbol word => ascii "bad symbol " ++ word
  | badEntryPoint name => ascii "bad entry point " ++ name
  | pointerBounds i => ascii "pointer " ++ Numeral.ofInt i
  | tempBounds i => ascii "temp " ++ Numeral.ofInt i ++ ascii " is past RAM[12]"
  | staticBounds i => ascii "static " ++ Numeral.ofInt i ++ ascii " is past RAM[255]"
  | staticBudget symbol =>
    symbol ++ ascii " is past RAM[255], the unit already has 240 statics"
  | tooManyArguments n => ascii "too many arguments " ++ Numeral.ofInt n
  | noFunction => ascii "no function declared before return"

/-- The message of a fault. -/
def message (f : Fault) : Text := f.kind.text ++ ascii ": " ++ f.detail

end Fault

/-- The command in the four fields of a record.  A kind or a segment that has no meaning is a
fault; fields that the kind does not use are not looked at. -/
def Record.command (r : Record) : Except Fault Command :=
  match Opcode.ofNumber? r.kind with
  | none => .error (.unknownOpcode (Opcode.describe r.kind))
  | some k =>
    match k with
    | .push | .pop =>
      match Segment.ofNumber? r.segment with
      | none => .error (.unknownSegment (Segment.describe r.segment))
      | some s => .ok (if k = .push then .push s r.index else .pop s r.index)
    | .operate o => .ok (.operate o)
    | .label => .ok (.label r.name)
    | .jump => .ok (.jump r.name)
    | .jumpIf => .ok (.jumpIf r.name)
    | .function => .ok (.function r.name r.index)
    | .call => .ok (.call r.name r.index)
    | .ret => .ok .ret

end HackToolchain
