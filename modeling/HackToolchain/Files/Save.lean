/-
**Saving and comparing files.**

A file is saved through a temporary file in the same directory, which then takes its place.  So a
path holds either what it held before or all of the new content, and a failure leaves nothing
behind.

Saving takes several calls, one after the other, and the device may fail at each of them.  What has
been written by then may be in the temporary file in part only.

Main definitions:

* `SaveStep`, `Device` — the calls that saving takes, and a device on which they may fail;
* `FileTree.saveOn`, `FileTree.save` — saving lines, on any device and on one that does not fail;
* `FileTree.compareSizes` — the generated files whose size differs from that of their reference.
-/
import HackToolchain.Files.Tree

set_option relaxedAutoImplicit false
set_option autoImplicit false

namespace HackToolchain

/-- The extension of assembly files. -/
def assemblyExtension : Text := ascii ".asm"

/-! ### Devices -/

/-- The calls that saving takes.  Lines are numbered from zero on. -/
inductive SaveStep where
  | create
  | write (line : Nat)
  | flush
  | close
  | permit
  | replace
  deriving DecidableEq

/-- A device on which calls may fail. -/
structure Device where
  /-- Why a call fails, if it does. -/
  fault : SaveStep → Option FileCause := fun _ => none
  /-- How many bytes are in the file when writing fails, unless fewer have been written. -/
  stored : Nat := 0

namespace Device

/-- Whether a call fails. -/
def attempt (d : Device) (s : SaveStep) (error : FileCause → FileError) : Except FileError Unit :=
  match d.fault s with
  | some c => .error (error c)
  | none => .ok ()

/-- The first of the lines, numbered from `n` on, that cannot be written, and why. -/
def firstFault? (d : Device) (n : Nat) : List Text → Option (Nat × FileCause)
  | [] => none
  | _ :: rest =>
    match d.fault (.write n) with
    | some c => some (n, c)
    | none => d.firstFault? (n + 1) rest

/-- How many lines have been written when writing fails, and why it fails.  Lines are collected, and
what is left is written at the end. -/
def writeFault? (d : Device) (lines : List Text) : Option (Nat × FileCause) :=
  match d.firstFault? 0 lines with
  | some f => some f
  | none => (d.fault .flush).map fun c => (lines.length, c)

end Device

namespace FileTree

/-! ### Saving -/

/-- The tree with lines in the file at a location, each followed by a line feed, and why they are not
all there, if they are not. -/
def fill (t : FileTree) (d : Device) (l : Location) (shown : Text) (lines : List Text) :
    FileTree × Except FileError Unit :=
  match d.writeFault? lines with
  | some (n, c) =>
    (t.put l (.file ((Text.joinLines (lines.take n)).take d.stored)), .error (.writing shown c))
  | none => (t.put l (.file (Text.joinLines lines)), .ok ())

/-- A temporary file for saving to a path.  Its name is made from the last name of the path, which
holds a slash if the path has slashes only. -/
def openTemporary (t : FileTree) (d : Device) (path : Text) :
    Except FileError (Location × Text × FileTree) :=
  let directory := Path.directory path
  let stem := ascii "." ++ Path.base path ++ ascii "."
  if stem.contains Text.slash then .error (.naming (stem ++ ascii "*") .separator)
  else do
    d.attempt .create (.opening (temporaryPath directory stem))
    t.createTemporary directory stem

/-- The calls that follow when the temporary file has been created. -/
def replaceBy (t : FileTree) (d : Device) (temporary : Location) (shown path : Text)
    (lines : List Text) : FileTree × Except FileError Unit :=
  let filled := t.fill d temporary shown lines
  let replaced := do
    filled.2
    d.attempt .close (.closing shown)
    d.attempt .permit (.permitting shown)
    d.attempt .replace (.replacing shown path)
    filled.1.rename temporary shown path
  match replaced with
  | .error e => (filled.1, .error e)
  | .ok saved => (saved, .ok ())

/-- The tree after saving lines to a path on a device, each followed by a line feed, and why they
were not saved, if they were not.  Then the temporary file is removed. -/
def saveOn (t : FileTree) (d : Device) (path : Text) (lines : List Text) :
    FileTree × Except FileError Unit :=
  match t.openTemporary d path with
  | .error e => (t, .error e)
  | .ok (temporary, shown, created) =>
    let r := created.replaceBy d temporary shown path lines
    match r.2 with
    | .error e => (r.1.remove temporary, .error e)
    | .ok () => (r.1, .ok ())

/-- Saving lines on a device that does not fail. -/
def save (t : FileTree) (path : Text) (lines : List Text) : FileTree × Except FileError Unit :=
  t.saveOn {} path lines

/-! ### Comparing -/

/-- A generated file whose size differs from that of its reference. -/
structure SizeMismatch where
  name : Text
  generated : Nat
  reference : Nat
  deriving DecidableEq

/-- The mismatch of an entry with its reference, if there is one.  An entry without a reference
matches. -/
def compareEntry (t : FileTree) (reference : Text) (name : Text) (e : Entry) :
    Except FileError (Option SizeMismatch) :=
  match t.stat (Path.join reference name) with
  | .error err => if err.cause = .notExist then .ok none else .error err
  | .ok r =>
    if e.size = r.size then .ok none
    else .ok (some { name, generated := e.size, reference := r.size })

/-- The assembly files directly in the directory `generated` whose size differs from that of the
entry with the same name in `reference`. -/
def compareSizes (t : FileTree) (generated reference : Text) :
    Except FileError (List SizeMismatch) :=
  match t.readDirectory generated with
  | .error e => .error e
  | .ok entries =>
    let files := entries.filter fun p =>
      !p.2.isDirectory && Path.extension p.1 == assemblyExtension
    (files.mapM fun p => t.compareEntry reference p.1 p.2).map fun l => l.filterMap id

end FileTree

end HackToolchain
