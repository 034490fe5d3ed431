/-
**Compiling a unit.**

All lines of a unit are read before any code is written, so a line that is no command is reported
before a command without code, wherever the two stand.

Main definitions:

* `CompileOptions`, `CompileError`;
* `CompilationUnit.commands` — the commands of a unit, each with its place in the source;
* `CompilationUnit.items`, `CompilationUnit.compile` — the assembly of a unit, as items and as
  lines;
* `compileLines` — the assembly of a single unnamed module;
* `compileAll` — the assembly of several units.
-/
import HackToolchain.Codegen.Generator
import HackToolchain.Unit.Basic

set_option relaxedAutoImplicit false
set_option autoImplicit false

namespace HackToolchain

/-- The function that is called first, unless another one is chosen. -/
def defaultEntry : Text := ascii "Sys.init"

/-- What may be chosen about the code of a unit. -/
structure CompileOptions where
  /-- Whether to set up the stack and call the entry function. -/
  bootstrap : Bool := true
  /-- The function to call first. -/
  entry : Text := defaultEntry
  /-- Whether to put the source of each command before its code. -/
  annotate : Bool := false
  /-- How static cells are named. -/
  statics : StaticMode := .index
  deriving DecidableEq

/-- Why a unit has no assembly. -/
inductive CompileError where
  /-- The entry function has a name that is no symbol. -/
  | entryPoint (name : Text)
  /-- A line of a module is at fault. -/
  | line (module : Text) (line : SourceLine) (fault : Fault)
  deriving DecidableEq

namespace CompileError

/-- The fault behind the error. -/
def fault : CompileError → Fault
  | entryPoint name => .badEntryPoint name
  | line _ _ f => f

/-- The message of an error.  It shows the line and where it stands. -/
def message : CompileError → Text
  | entryPoint name => (Fault.badEntryPoint name).message
  | line module l f =>
    ascii "SyntaxError: " ++ f.message ++ ascii " near " ++ Text.quote l.text ++ ascii " at "
      ++ (if module.isEmpty then [] else module ++ ascii " ")
      ++ ascii "line " ++ Numeral.ofInt l.number

end CompileError

/-- A command with its place in the source. -/
structure PlacedCommand where
  module : Text
  line : SourceLine
  command : Command
  deriving DecidableEq

/-- The command on a line of a module. -/
def placeCommand (module : Text) (l : SourceLine) : Except CompileError PlacedCommand :=
  match Command.parse l.text with
  | .ok command => .ok { module, line := l, command }
  | .error f => .error (.line module l f)

/-- The commands of modules, in order. -/
def placeCommands (modules : List Module) : Except CompileError (List PlacedCommand) :=
  (modules.flatMap fun m => m.lines.map fun l => (m.name, l)).mapM fun p => placeCommand p.1 p.2

/-- The comment that shows the source of a command. -/
def PlacedCommand.annotation (c : PlacedCommand) : Text :=
  c.module ++ ascii ":" ++ Numeral.ofInt c.line.number ++ ascii " " ++ c.line.text

/-- The state after a placed command, and its code. -/
def Generator.writePlaced (g : Generator) (annotate : Bool) (c : PlacedCommand) :
    Generator × Except CompileError (List Item) :=
  let r := { g with module := c.module }.write c.command
  (r.1, match r.2 with
    | .error f => .error (.line c.module c.line f)
    | .ok items => .ok ((if annotate then Code.annotation c.annotation else []) ++ items))

/-- The code of placed commands, after the code that stands reversed in `done`. -/
def Generator.writeAll (annotate : Bool) (g : Generator) (done : List (List Item)) :
    List PlacedCommand → Except CompileError (List Item)
  | [] => .ok done.reverse.flatten
  | c :: cs =>
    match g.writePlaced annotate c with
    | (_, .error e) => .error e
    | (g', .ok items) => writeAll annotate g' (items :: done) cs

namespace CompilationUnit

/-- The commands of a unit, the module that declares the entry function first. -/
def commands (u : CompilationUnit) (entry : Text) : Except CompileError (List PlacedCommand) :=
  placeCommands (orderModules u.modules entry)

/-- The code before the first command, with the state after it. -/
def preamble (u : CompilationUnit) (o : CompileOptions) : Generator × List Item :=
  let g : Generator := { mode := o.statics }
  if o.bootstrap then
    let r := g.start (if u.modules.any (·.declares o.entry) then o.entry else [])
    (r.1, (if o.annotate then Code.annotation (ascii "bootstrap") else []) ++ r.2)
  else (g, [])

/-- The assembly of a unit. -/
def items (u : CompilationUnit) (o : CompileOptions) : Except CompileError (List Item) :=
  if o.bootstrap ∧ o.entry ≠ [] ∧ Text.isSymbol o.entry = false then .error (.entryPoint o.entry)
  else
    match u.commands o.entry with
    | .error e => .error e
    | .ok cs =>
      let start := u.preamble o
      start.1.writeAll o.annotate [start.2] cs

/-- The lines of the assembly of a unit. -/
def compile (u : CompilationUnit) (o : CompileOptions) : Except CompileError (List Text) :=
  (u.items o).map render

end CompilationUnit

/-- The unit with a single unnamed module of the given lines. -/
def CompilationUnit.ofLines (lines : List Text) : CompilationUnit :=
  { modules := [{ lines := (lines.zipIdx 1).map fun p => { number := p.2, text := p.1 } }] }

/-- The assembly of a single unnamed module. -/
def compileLines (lines : List Text) (o : CompileOptions) : Except CompileError (List Text) :=
  (CompilationUnit.ofLines lines).compile o

/-- Which of several units has no assembly, and why. -/
structure UnitError where
  unit : Text
  error : CompileError
  deriving DecidableEq

/-- The message about a unit. -/
def UnitError.message (e : UnitError) : Text :=
  ascii "unit " ++ e.unit ++ ascii ": " ++ e.error.message

/-- The assembly of one of several units. -/
def CompilationUnit.compileNamed (o : CompileOptions) (u : CompilationUnit) :
    Except UnitError (List Text) :=
  match u.compile o with
  | .ok lines => .ok lines
  | .error e => .error { unit := u.name, error := e }

/-- The assembly of several units, or the first error in their order. -/
def compileAll (units : List CompilationUnit) (o : CompileOptions) :
    Except UnitError (List (List Text)) :=
  units.mapM (CompilationUnit.compileNamed o)

end HackToolchain
