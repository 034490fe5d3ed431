/-
**Modules and compilation units.**

A compilation unit is a program: its modules share one numbering of labels and one set of static
cells.  The module that declares the entry function goes first.

Main definitions:

* `SourceLine`, `Module`, `CompilationUnit`;
* `stripLines` — the lines of a source, without comments, empty lines and surrounding white space;
* `Module.declares` — whether a module declares a function;
* `orderModules` — the modules that declare the entry function before the others.

Main results:

* `orderModules_perm` — no module is lost or added by putting them in order.
-/
import HackToolchain.Command.Parse
import HackToolchain.Text.Lines

set_option relaxedAutoImplicit false
set_option autoImplicit false

namespace HackToolchain

/-- A line with its number in the source. -/
structure SourceLine where
  number : Int
  text : Text
  deriving DecidableEq

/-- A named sequence of lines. -/
structure Module where
  name : Text := []
  lines : List SourceLine := []
  deriving DecidableEq

/-- A program made of modules, and where its assembly is saved. -/
structure CompilationUnit where
  name : Text := []
  modules : List Module := []
  output : Text := []
  deriving DecidableEq

/-! ### Reading a source -/

/-- A source line that is too long to be read. -/
structure OverlongLine where
  number : Nat
  deriving DecidableEq

/-- The message about a line that is too long. -/
def OverlongLine.message (e : OverlongLine) : Text :=
  ascii "line " ++ Numeral.ofNat e.number ++ ascii ": " ++ Text.overlongMessage

/-- The length that no source line reaches. -/
def sourceLineLimit : Nat := 1048576

/-- The line with the number `n`, without its comment and the white space around it, if anything
is left. -/
def stripLine (line : Text) (n : Nat) : Option SourceLine :=
  let t := Text.trim (Text.code line)
  if t.isEmpty then none else some { number := n, text := t }

/-- The lines of a source that hold a command, numbered from one. -/
def stripLines (source : Text) : Except OverlongLine (List SourceLine) :=
  let r := Text.readLines sourceLineLimit source
  if r.overlong then .error { number := r.lines.length + 1 }
  else .ok ((r.lines.zipIdx 1).filterMap fun p => stripLine p.1 p.2)

/-! ### Order of modules -/

/-- Whether a line of the module declares the function. -/
def Module.declares (m : Module) (function : Text) : Bool :=
  m.lines.any fun l => Command.declaredFunction? l.text == some function

/-- The modules that declare `entry`, then the others, both in the order given. -/
def orderModules (modules : List Module) (entry : Text) : List Module :=
  modules.filter (·.declares entry) ++ modules.filter (!·.declares entry)

theorem orderModules_perm (modules : List Module) (entry : Text) :
    (orderModules modules entry).Perm modules :=
  List.filter_append_perm _ _

theorem mem_orderModules {modules : List Module} {entry : Text} {m : Module} :
    m ∈ orderModules modules entry ↔ m ∈ modules :=
  (orderModules_perm modules entry).mem_iff

end HackToolchain
