/-
**Finding the units in a file tree.**

A source file is a unit of its own.  In a directory, each source file is a unit, and each
directory that directly holds source files is a unit of all of them.  On request the directory
itself is one unit.  Entries are taken in the order of their names.

Main definitions:

* `FileTree.readModule` — the module in a source file;
* `FileTree.discover` — the units at a path.
-/
import HackToolchain.Files.Save
import HackToolchain.Unit.Basic

set_option relaxedAutoImplicit false
set_option autoImplicit false

namespace HackToolchain

/-- The extension of source files. -/
def sourceExtension : Text := ascii ".vm"

/-- Whether a name is that of a source file. -/
def isSourceName (name : Text) : Bool := Path.extension name == sourceExtension

/-- What may be chosen about the search for units. -/
structure DiscoverOptions where
  /-- The directory for all results, or nothing for results next to their sources. -/
  output : Text := []
  /-- Whether a directory is one unit of all its source files. -/
  whole : Bool := false
  /-- The entry function, whose module goes first. -/
  entry : Text := []
  deriving DecidableEq

/-- Why sources could not be read. -/
inductive SourceError where
  | file (e : FileError)
  /-- The source is a directory. -/
  | directory (path : Text)
  /-- A line of the source is too long. -/
  | overlong (path : Text) (e : OverlongLine)
  /-- The path leads to a file that is no source. -/
  | notSource (path : Text)
  /-- The directory holds no source. -/
  | noSources (path : Text)
  deriving DecidableEq

/-- The message about sources. -/
def SourceError.message : SourceError → Text
  | file e => e.message
  | directory path =>
    ascii "read " ++ path ++ ascii ": line 1: " ++ (FileError.reading path .isDirectory).message
  | overlong path e => ascii "read " ++ path ++ ascii ": " ++ e.message
  | notSource path => path ++ ascii " is not a " ++ sourceExtension ++ ascii " file"
  | noSources path => ascii "no " ++ sourceExtension ++ ascii " files in " ++ path

namespace FileTree

/-- The module in a source file.  It is named for the file. -/
def readModule (t : FileTree) (path : Text) : Except SourceError Module :=
  match t.openEntry path with
  | .error e => .error (.file e)
  | .ok .directory => .error (.directory path)
  | .ok (.file content) =>
    match stripLines content with
    | .error e => .error (.overlong path e)
    | .ok lines => .ok { name := Path.stem (Path.base path), lines }

/-- The unit of a source file. -/
def fileUnit (t : FileTree) (o : DiscoverOptions) (path : Text) :
    Except SourceError CompilationUnit :=
  match t.readModule path with
  | .error e => .error e
  | .ok m =>
    let directory := if o.output.isEmpty then Path.directory path else o.output
    .ok {
      name := m.name
      modules := [m]
      output := Path.join directory (m.name ++ assemblyExtension) }

/-- The unit of the source files directly in a directory. -/
def directoryUnit (t : FileTree) (o : DiscoverOptions) (path : Text) :
    Except SourceError CompilationUnit :=
  match t.readDirectory path with
  | .error e => .error (.file e)
  | .ok entries =>
    let sources := entries.filter fun p => !p.2.isDirectory && isSourceName p.1
    match sources.mapM fun p => t.readModule (Path.join path p.1) with
    | .error e => .error e
    | .ok modules =>
      let name := Path.base (Path.clean path)
      let directory := if o.output.isEmpty then path else o.output
      .ok {
        name
        modules := orderModules modules o.entry
        output := Path.join directory (name ++ assemblyExtension) }

/-- The unit of an entry of the directory `root`, if it is one. -/
def entryUnit (t : FileTree) (o : DiscoverOptions) (root name : Text) (e : Entry) :
    Except SourceError (Option CompilationUnit) :=
  let path := Path.join root name
  if e.isDirectory then
    (t.directoryUnit o path).map fun u => if u.modules.isEmpty then none else some u
  else if isSourceName name then (t.fileUnit o path).map some
  else .ok none

/-- The units at a path. -/
def discover (t : FileTree) (o : DiscoverOptions) (root : Text) :
    Except SourceError (List CompilationUnit) :=
  match t.stat root with
  | .error e => .error (.file e)
  | .ok (.file _) =>
    if isSourceName root then (t.fileUnit o root).map fun u => [u] else .error (.notSource root)
  | .ok .directory =>
    if o.whole then
      match t.directoryUnit o root with
      | .error e => .error e
      | .ok u => if u.modules.isEmpty then .error (.noSources root) else .ok [u]
    else
      match t.readDirectory root with
      | .error e => .error (.file e)
      | .ok entries =>
        (entries.mapM fun p => t.entryUnit o root p.1 p.2).map fun l => l.filterMap id

end FileTree

end HackToolchain
