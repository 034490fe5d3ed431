/-
**What a command line does.**

The program compiles the units found at a path and saves their assembly, or compares generated
files with reference files.

Main definitions:

* `Request`, `Request.parse` — what a command line asks for;
* `RunFailure` — why it was not done;
* `Outcome`, `Request.run` — the files, the printed text and the failure after a run;
* `runCommandLine` — reading and doing in one.

All units are compiled before anything is saved.  After that the units are finished one by one: a
unit is checked, its program and its assembly are saved, and a failure leaves the units before it
saved and those after it untouched.
-/
import HackToolchain.Assembly.Assembler
import HackToolchain.CommandLine.Flags
import HackToolchain.Files.Discover
import HackToolchain.Unit.Compile

set_option relaxedAutoImplicit false
set_option autoImplicit false

namespace HackToolchain

/-! ### Requests -/

/-- The flags of the program, without those for its log. -/
def programFlags : List Flag :=
  [{ name := ascii "path", effect := .text fun v s => { s with path := v } },
   { name := ascii "output", letter := some 111, effect := .text fun v s => { s with output := v } },
   { name := ascii "verbose", effect := .switch fun v s => { s with verbose := v } },
   { name := ascii "wi", effect := .switch fun v s => { s with bootstrap := v } },
   { name := ascii "whole", effect := .switch fun v s => { s with whole := v } },
   { name := ascii "entry", effect := .text fun v s => { s with entry := v } },
   { name := ascii "annotate", effect := .switch fun v s => { s with annotate := v } },
   { name := ascii "static-mode", effect := .text fun v s => { s with staticMode := v } },
   { name := ascii "check", effect := .switch fun v s => { s with check := v } },
   { name := ascii "binary", effect := .switch fun v s => { s with binary := v } },
   -- shows the units that were found, and sets nothing that the rest of a run depends on
   { name := ascii "dump", effect := .switch fun _ s => s }]

/-- What a command line asks for. -/
inductive Request where
  | compile (s : Settings)
  | compare (generated reference : Text)
  deriving DecidableEq

namespace Request

/-- The word that asks for a comparison. -/
def compareWord : Text := ascii "compare"

/-- A request to compile, from words that hold at most one path. -/
def parseCompile (words : List Text) : Except UsageError Request :=
  match readWords programFlags words with
  | .error e => .error e
  | .ok (s, []) => .ok (.compile s)
  | .ok (s, [path]) => .ok (.compile { s with path })
  | .ok (_, plain) => .error (.tooManyWords 1 plain.length)

/-- A request to compare, from words that hold two paths and no flag. -/
def parseCompare (words : List Text) : Except UsageError Request :=
  match readWords [] words with
  | .error e => .error e
  | .ok (_, [generated, reference]) => .ok (.compare generated reference)
  | .ok (_, plain) => .error (.wrongWords 2 plain.length)

/-- What a command line asks for. -/
def parse (words : List Text) : Except UsageError Request :=
  if firstWord? programFlags words = some compareWord then
    parseCompare (withoutWord programFlags compareWord words)
  else parseCompile words

end Request

/-! ### Failures -/

/-- What is wrong with generated assembly. -/
inductive CheckError where
  | assembly (e : AssemblyError)
  | misplaced (e : Program.VariableError)
  deriving DecidableEq

/-- The message about generated assembly. -/
def CheckError.message : CheckError → Text
  | assembly e => e.message
  | misplaced e => e.message

/-- Why a request was not fulfilled. -/
inductive RunFailure where
  | usage (e : UsageError)
  | staticMode (word : Text)
  | source (e : SourceError)
  | noUnits (path : Text)
  | unit (e : UnitError)
  | check (unit : Text) (e : CheckError)
  | saveProgram (e : FileError)
  | saveAssembly (path : Text) (e : FileError)
  | file (e : FileError)
  | mismatches (count : Nat)
  deriving DecidableEq

/-- The message about a request. -/
def RunFailure.message : RunFailure → Text
  | usage e => e.message
  | staticMode word => StaticMode.unknownMessage word
  | source e => e.message
  | noUnits path => ascii "no vm files found at " ++ path
  | unit e => e.message
  | check name e => ascii "check " ++ name ++ ascii ": " ++ e.message
  | saveProgram e => e.message
  | saveAssembly path e =>
    ascii "failed to save to path: " ++ path ++ ascii ", err: " ++ e.message
  | file e => e.message
  | mismatches n => Numeral.ofNat n ++ ascii " files differ from the reference"

/-- The files after a run, what was printed, and the failure, if there was one. -/
structure Outcome where
  files : FileTree
  /-- What was printed, apart from the units that `--dump` shows. -/
  printed : Text := []
  failure : Option RunFailure := none
  deriving DecidableEq

/-! ### Compiling -/

/-- The program of generated assembly, if it assembles and its variables lie below the stack. -/
def checkAssembly (lines : List Text) : Except CheckError Program :=
  match assemble lines with
  | .error e => .error (.assembly e)
  | .ok p =>
    match p.checkVariables with
    | .error e => .error (.misplaced e)
    | .ok () => .ok p

/-- Where the program of a unit is saved: next to its assembly. -/
def CompilationUnit.binaryOutput (u : CompilationUnit) : Text :=
  Path.stem u.output ++ ascii ".hack"

/-- Checks a unit and saves its program, as far as this is asked for. -/
def finishProgram (s : Settings) (t : FileTree) (u : CompilationUnit) (lines : List Text) :
    FileTree × Except RunFailure Unit :=
  if s.check || s.binary then
    match checkAssembly lines with
    | .error e => (t, .error (.check u.name e))
    | .ok p =>
      if s.binary then
        match t.save u.binaryOutput p.codes with
        | (t', .error e) => (t', .error (.saveProgram e))
        | (t', .ok ()) => (t', .ok ())
      else (t, .ok ())
  else (t, .ok ())

/-- Finishes compiled units one by one.  The text printed so far stands in front. -/
def finishUnits (s : Settings) (t : FileTree) (printed : Text) :
    List (CompilationUnit × List Text) → Outcome
  | [] => { files := t, printed }
  | (u, lines) :: rest =>
    match finishProgram s t u lines with
    | (t, .error e) => { files := t, printed, failure := some e }
    | (t, .ok ()) =>
      let printed := if s.verbose then
          printed ++ Text.join [Text.lineFeed] lines ++ [Text.lineFeed]
        else printed
      match t.save u.output lines with
      | (t, .error e) => { files := t, printed, failure := some (.saveAssembly u.output e) }
      | (t, .ok ()) => finishUnits s t printed rest

/-- The units that settings ask for, each with its assembly. -/
def compileUnits (s : Settings) (t : FileTree) :
    Except RunFailure (List (CompilationUnit × List Text)) :=
  match StaticMode.parse? s.staticMode with
  | none => .error (.staticMode s.staticMode)
  | some mode =>
    match t.discover { output := s.output, whole := s.whole, entry := s.entry } s.path with
    | .error e => .error (.source e)
    | .ok units =>
      if units.isEmpty then .error (.noUnits s.path)
      else
        let options : CompileOptions :=
          { bootstrap := s.bootstrap, entry := s.entry, annotate := s.annotate, statics := mode }
        match compileAll units options with
        | .error e => .error (.unit e)
        | .ok results => .ok (units.zip results)

/-- Compiles the units that settings ask for and saves the results. -/
def runCompile (s : Settings) (t : FileTree) : Outcome :=
  match compileUnits s t with
  | .error e => { files := t, failure := some e }
  | .ok work => finishUnits s t [] work

/-! ### Comparing -/

/-- The line that shows a mismatch. -/
def FileTree.SizeMismatch.line (m : FileTree.SizeMismatch) : Text :=
  m.name ++ ascii ": " ++ Numeral.ofNat m.generated ++ ascii " bytes, reference has "
    ++ Numeral.ofNat m.reference ++ ascii " bytes"

/-- Shows the generated files whose size differs from that of their reference. -/
def runCompare (generated reference : Text) (t : FileTree) : Outcome :=
  match t.compareSizes generated reference with
  | .error e => { files := t, failure := some (.file e) }
  | .ok ms =>
    { files := t
      printed := Text.joinLines (ms.map FileTree.SizeMismatch.line)
      failure := if ms.isEmpty then none else some (.mismatches ms.length) }

/-- Does what was asked for. -/
def Request.run (t : FileTree) : Request → Outcome
  | compile s => runCompile s t
  | compare generated reference => runCompare generated reference t

/-- Reads a command line and does what it asks for. -/
def runCommandLine (t : FileTree) (words : List Text) : Outcome :=
  match Request.parse words with
  | .error e => { files := t, failure := some (.usage e) }
  | .ok r => r.run t

end HackToolchain
