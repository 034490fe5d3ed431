/-
**Reading a command.**

A line is cut into tokens at white space.  The first token is an opcode and, for `push` and `pop`,
the second a segment, both in any letter case.  What is checked first decides which fault a line
with several faults has: the opcode, the number of operands, the segment or the symbol, the
presence of the last operand, its form and range, and its sign.

Main definitions:

* `Opcode.keywords`, `Segment.keywords` — the tables of keywords;
* `Opcode.parse?`, `Segment.parse?` — the opcode or the segment that a word spells;
* `Command.ofTokens` — the command that a list of tokens stands for;
* `Command.parse` — the command on a line.
-/
import HackToolchain.Command.Fault
import HackToolchain.Text.Blank
import HackToolchain.Text.LetterCase
import HackToolchain.Text.Symbol

set_option relaxedAutoImplicit false
set_option autoImplicit false

namespace HackToolchain

/-! ### Keywords -/

/-- The keywords of the opcodes, in capital letters. -/
def Opcode.keywords : List (Text × Opcode) :=
  [(ascii "PUSH", .push), (ascii "POP", .pop), (ascii "ADD", .operate .add),
   (ascii "SUB", .operate .sub), (ascii "NEG", .operate .neg), (ascii "EQ", .operate .eq),
   (ascii "GT", .operate .gt), (ascii "LT", .operate .lt), (ascii "AND", .operate .and),
   (ascii "OR", .operate .or), (ascii "NOT", .operate .not), (ascii "LABEL", .label),
   (ascii "GOTO", .jump), (ascii "IF-GOTO", .jumpIf), (ascii "FUNCTION", .function),
   (ascii "CALL", .call), (ascii "RETURN", .ret)]

/-- The keywords of the segments, in capital letters. -/
def Segment.keywords : List (Text × Segment) :=
  [(ascii "CONSTANT", .constant), (ascii "LOCAL", .locals), (ascii "ARGUMENT", .arguments),
   (ascii "THIS", .this), (ascii "THAT", .that), (ascii "POINTER", .pointer),
   (ascii "TEMP", .temp), (ascii "STATIC", .statics)]

/-- The opcode that a word spells, in any letter case. -/
def Opcode.parse? (word : Text) : Option Opcode := Opcode.keywords.lookup (Text.upper word)

/-- The segment that a word spells, in any letter case. -/
def Segment.parse? (word : Text) : Option Segment := Segment.keywords.lookup (Text.upper word)

/-! ### Commands -/

namespace Command

/-- An integer of sixteen bits. -/
def parseInteger (word : Text) : Except Fault Int :=
  match Numeral.readInt? 32767 word with
  | some n => .ok n
  | none => .error (.notInteger word)

/-- A symbol. -/
def parseSymbol (word : Text) : Except Fault Text :=
  if Text.isSymbol word then .ok word else .error (.badSymbol word)

/-- The operands of an opcode that has none. -/
def parseNothing (k : Opcode) (c : Command) : List Text → Except Fault Command
  | [] => .ok c
  | _ => .error (.takesNoOperands k)

/-- The operands of `push` and `pop`: a segment and an index, which is negative for constants
only. -/
def parseCell (k : Opcode) (make : Segment → Int → Command) (operands : List Text) :
    Except Fault Command :=
  match operands with
  | [] | _ :: _ :: _ :: _ => .error (.expectsCell k)
  | word :: rest =>
    match Segment.parse? word with
    | none => .error (.unknownSegment word)
    | some s =>
      match rest with
      | [] => .error (.missingIndex k s)
      | number :: _ =>
        match parseInteger number with
        | .error f => .error f
        | .ok n => if s ≠ .constant ∧ n < 0 then .error (.negativeIndex n s) else .ok (make s n)

/-- The operand of a mark or a jump: a symbol. -/
def parseLabel (k : Opcode) (make : Text → Command) (operands : List Text) :
    Except Fault Command :=
  match operands with
  | [word] =>
    match parseSymbol word with
    | .error f => .error f
    | .ok name => .ok (make name)
  | _ => .error (.expectsLabel k)

/-- The operands of `function` and `call`: a symbol and a count. -/
def parseNameAndCount (k : Opcode) (make : Text → Int → Command) (operands : List Text) :
    Except Fault Command :=
  match operands with
  | [] | _ :: _ :: _ :: _ => .error (.expectsNameAndCount k)
  | word :: rest =>
    match parseSymbol word with
    | .error f => .error f
    | .ok name =>
      match rest with
      | [] => .error (.missingCount k name)
      | number :: _ =>
        match parseInteger number with
        | .error f => .error f
        | .ok n => if n < 0 then .error (.negativeCount n) else .ok (make name n)

/-- The command with an opcode and its operands. -/
def ofOperands (k : Opcode) (operands : List Text) : Except Fault Command :=
  match k with
  | .operate o => parseNothing k (.operate o) operands
  | .ret => parseNothing k .ret operands
  | .push => parseCell k .push operands
  | .pop => parseCell k .pop operands
  | .label => parseLabel k .label operands
  | .jump => parseLabel k .jump operands
  | .jumpIf => parseLabel k .jumpIf operands
  | .function => parseNameAndCount k .function operands
  | .call => parseNameAndCount k .call operands

/-- The command that a list of tokens stands for. -/
def ofTokens : List Text → Except Fault Command
  | [] => .error .emptyLine
  | word :: operands =>
    match Opcode.parse? word with
    | none => .error (.unknownOpcode word)
    | some k => ofOperands k operands

/-- The command on a line. -/
def parse (line : Text) : Except Fault Command := ofTokens (Text.tokens line)

/-- The function that a line starts, if it is a `function` command. -/
def declaredFunction? (line : Text) : Option Text :=
  match parse line with
  | .ok (.function name _) => some name
  | _ => none

end Command

end HackToolchain
