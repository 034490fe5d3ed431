/-
**Using the assembler step by step.**

An assembler can be used on its own: lines are added one after the other, a line that is refused is
reported and the next one can be added, and the program can be finished at any time and more than
once.

A session keeps the instructions as they will stand in the program.  An instruction that names a label
or a variable cannot be completed when it is read, so its index is remembered, and finishing the
program fills it in where it stands.  What was filled in before is overwritten: a name that was taken
for a variable may have become a label since.

Main definitions:

* `Draft` — an instruction with the name that it is to be filled in from;
* `AssemblySession` — what has been read so far;
* `AssemblySession.addLine`, `AssemblySession.addText` — reading a line, and all lines of a text;
* `AssemblySession.fill`, `AssemblySession.finish` — filling in one instruction, and the program;
* `AssemblyStep`, `AssemblySession.perform` — one use of a session, and what it gives.
-/
import HackToolchain.Assembly.Assembler

set_option relaxedAutoImplicit false
set_option autoImplicit false

namespace HackToolchain

/-- An instruction that has been read, with the name that it refers to.  The name is empty if the
instruction is complete. -/
structure Draft extends Instruction where
  symbol : Text := []
  deriving DecidableEq

/-- What has been read so far. -/
structure AssemblySession where
  /-- How many lines have been read. -/
  line : Nat := 0
  /-- The labels declared so far, the latest first. -/
  labels : SymbolTable := []
  /-- The instructions read so far. -/
  drafts : Array Draft := #[]
  /-- The indices of the instructions that are to be filled in. -/
  references : Array Nat := #[]

namespace AssemblySession

/-! ### Reading -/

/-- The session with one more instruction. -/
def push (s : AssemblySession) (d : Draft) : AssemblySession := { s with drafts := s.drafts.push d }

/-- The session after an operation, found on the current line as `source`. -/
def addOperation (s : AssemblySession) (source : Text) : Operation → AssemblySession
  | .load (.constant n) =>
    s.push { kind := .constant, code := (Word.ofAddress n).digits, line := s.line, source }
  | .load (.predefined n) =>
    s.push { kind := .cell, code := (Word.ofAddress n).digits, line := s.line, source }
  | .load (.symbol name) =>
    { s with references := s.references.push s.drafts.size }.push
      { kind := .label, code := [], line := s.line, source, symbol := name }
  | .compute c => s.push { kind := .compute, code := c.word.digits, line := s.line, source }

/-- The session after a statement, found on the current line as `source`, and why the statement was
refused, if it was. -/
def addStatement (s : AssemblySession) (source : Text) :
    Statement → AssemblySession × Except AssemblyError Unit
  | .operation o => (s.addOperation source o, .ok ())
  | .label name =>
    match s.labels.find? name with
    | some _ => (s, .error { line := s.line, fault := .duplicateLabel name })
    | none => ({ s with labels := (name, s.drafts.size) :: s.labels }, .ok ())

/-- The session after reading a line, and why the line was refused, if it was. -/
def addLine (s : AssemblySession) (line : Text) : AssemblySession × Except AssemblyError Unit :=
  let s := { s with line := s.line + 1 }
  let t := Text.trim (Text.code line)
  if t.isEmpty then (s, .ok ())
  else
    match Statement.parse t with
    | .error f => (s, .error { line := s.line, fault := f })
    | .ok st => s.addStatement t st

/-- Reads lines up to the first that is refused. -/
def addLines (s : AssemblySession) : List Text → AssemblySession × Except AssemblyError Unit
  | [] => (s, .ok ())
  | line :: rest =>
    match s.addLine line with
    | (s', .ok ()) => s'.addLines rest
    | (s', .error e) => (s', .error e)

/-- Reads the lines of a text.  Lines before one that is too long are read. -/
def addText (s : AssemblySession) (t : Text) : AssemblySession × Except Assembler.TextError Unit :=
  let r := Text.readLines Assembler.lineLimit t
  match s.addLines r.lines with
  | (s', .error e) => (s', .error (.line e))
  | (s', .ok ()) => (s', if r.overlong then .error .overlong else .ok ())

/-! ### Finishing -/

/-- The instructions and the table of variables after the instruction with an index has been filled
in.  A name that is no label is a variable, which is given the next cell when it is first met. -/
def fill (labels : SymbolTable) (done : Array Draft × SymbolTable) (index : Nat) :
    Array Draft × SymbolTable :=
  match done.1[index]? with
  | none => done
  | some d =>
    let cells := Assembler.allot labels done.2 d.symbol
    let r := Assembler.resolve labels cells (.load (.symbol d.symbol))
    (done.1.setIfInBounds index { d with kind := r.1, code := r.2.digits }, cells)

/-- The session with all instructions filled in, and the program read so far. -/
def finish (s : AssemblySession) : AssemblySession × Program :=
  let r := s.references.foldl (fill s.labels) (s.drafts, [])
  ({ s with drafts := r.1 },
    { instructions := r.1.toList.map Draft.toInstruction, labels := s.labels, cells := r.2 })

end AssemblySession

/-! ### Steps -/

/-- One use of a session. -/
inductive AssemblyStep where
  /-- Add a line. -/
  | line (t : Text)
  /-- Finish the program. -/
  | finish
  deriving DecidableEq

/-- What a step gives. -/
inductive AssemblyAnswer where
  | accepted
  | refused (e : AssemblyError)
  | program (p : Program)
  deriving DecidableEq

/-- The session after a step, and what the step gives. -/
def AssemblySession.perform (s : AssemblySession) : AssemblyStep → AssemblySession × AssemblyAnswer
  | .line t =>
    match s.addLine t with
    | (s', .ok ()) => (s', .accepted)
    | (s', .error e) => (s', .refused e)
  | .finish =>
    let r := s.finish
    (r.1, .program r.2)

end HackToolchain
