/-
**The assembler.**

Lines are read one after the other.  A label gets the address of the next instruction when it is
read.  An address instruction may name a label that is declared later, so names are resolved when
the program is finished: a name that is no label is a variable, and variables are given cells from
16 on in the order in which they are first named.

Main definitions:

* `Assembler` — what has been read so far;
* `Assembler.addLine` — reading a line;
* `Assembler.finish` — the program read so far;
* `assemble` — the program of a list of lines;
* `Assembler.addText` — reading all lines of a text.

A line that is refused still counts, and reading can go on after it.  Finishing changes nothing, so
a program can be finished more than once.
-/
import HackToolchain.Assembly.Program
import HackToolchain.Assembly.Statement
import HackToolchain.Text.Blank
import HackToolchain.Text.Lines

set_option relaxedAutoImplicit false
set_option autoImplicit false

namespace HackToolchain

/-- A refused line. -/
structure AssemblyError where
  line : Nat
  fault : AssemblyFault
  deriving DecidableEq

/-- The message about a refused line. -/
def AssemblyError.message (e : AssemblyError) : Text :=
  ascii "syntax err at line " ++ Numeral.ofNat e.line ++ ascii ": " ++ e.fault.text

/-- An instruction that has been read, with its line. -/
structure ReadInstruction where
  operation : Operation
  line : Nat
  source : Text
  deriving DecidableEq

/-- What has been read so far. -/
structure Assembler where
  /-- How many lines have been read. -/
  line : Nat := 0
  /-- The labels declared so far, the latest first. -/
  labels : SymbolTable := []
  /-- The instructions read so far. -/
  code : Array ReadInstruction := #[]

namespace Assembler

/-! ### Reading -/

/-- The state after a statement, found on the current line as `source`, and why the statement was
refused, if it was. -/
def addStatement (a : Assembler) (source : Text) :
    Statement → Assembler × Except AssemblyError Unit
  | .operation o =>
    ({ a with code := a.code.push { operation := o, line := a.line, source } }, .ok ())
  | .label name =>
    match a.labels.find? name with
    | some _ => (a, .error { line := a.line, fault := .duplicateLabel name })
    | none => ({ a with labels := (name, a.code.size) :: a.labels }, .ok ())

/-- The state after reading a line, and why the line was refused, if it was.  Of a refused line
only the number stays. -/
def addLine (a : Assembler) (line : Text) : Assembler × Except AssemblyError Unit :=
  let a := { a with line := a.line + 1 }
  let t := Text.trim (Text.code line)
  if t.isEmpty then (a, .ok ())
  else
    match Statement.parse t with
    | .error f => (a, .error { line := a.line, fault := f })
    | .ok s => a.addStatement t s

/-- Reads lines up to the first that is refused. -/
def addLines (a : Assembler) : List Text → Assembler × Except AssemblyError Unit
  | [] => (a, .ok ())
  | line :: rest =>
    match a.addLine line with
    | (b, .ok ()) => b.addLines rest
    | (b, .error e) => (b, .error e)

/-! ### Finishing -/

/-- The name that an instruction refers to and that is to be resolved. -/
def reference? (i : ReadInstruction) : Option Text :=
  match i.operation with
  | .load (.symbol name) => some name
  | _ => none

/-- The table of variables after a reference to `name`. -/
def allot (labels cells : SymbolTable) (name : Text) : SymbolTable :=
  if (labels.find? name).isSome || (cells.find? name).isSome then cells
  else cells ++ [(name, Program.variableBase + cells.length)]

/-- The variables of the instructions read so far. -/
def cells (a : Assembler) : SymbolTable :=
  (a.code.toList.filterMap reference?).foldl (allot a.labels) []

/-- The kind and word of an operation. -/
def resolve (labels cells : SymbolTable) : Operation → InstructionKind × Word
  | .load (.constant n) => (.constant, Word.ofAddress n)
  | .load (.predefined n) => (.cell, Word.ofAddress n)
  | .load (.symbol name) =>
    match labels.find? name with
    | some n => (.label, Word.ofAddress n)
    | none => (.cell, Word.ofAddress ((cells.find? name).getD 0))
  | .compute c => (.compute, c.word)

/-- The program read so far. -/
def finish (a : Assembler) : Program :=
  let cells := a.cells
  { instructions := a.code.toList.map fun i =>
      let r := resolve a.labels cells i.operation
      { kind := r.1, code := r.2.digits, line := i.line, source := i.source }
    labels := a.labels
    cells }

/-! ### Texts -/

/-- The length that no line of a text of assembly reaches. -/
def lineLimit : Nat := 65536

/-- Why a text of assembly is refused. -/
inductive TextError where
  | line (e : AssemblyError)
  | overlong
  deriving DecidableEq

/-- The message about a refused text. -/
def TextError.message : TextError → Text
  | line e => e.message
  | overlong => Text.overlongMessage

/-- Reads the lines of a text.  Lines before one that is too long are read. -/
def addText (a : Assembler) (t : Text) : Assembler × Except TextError Unit :=
  let r := Text.readLines lineLimit t
  match a.addLines r.lines with
  | (b, .error e) => (b, .error (.line e))
  | (b, .ok ()) => (b, if r.overlong then .error .overlong else .ok ())

end Assembler

/-- The program of a list of lines. -/
def assemble (lines : List Text) : Except AssemblyError Program :=
  match ({} : Assembler).addLines lines with
  | (a, .ok ()) => .ok a.finish
  | (_, .error e) => .error e

/-- The program of a text. -/
def assembleText (t : Text) : Except Assembler.TextError Program :=
  match ({} : Assembler).addText t with
  | (a, .ok ()) => .ok a.finish
  | (_, .error e) => .error e

end HackToolchain
