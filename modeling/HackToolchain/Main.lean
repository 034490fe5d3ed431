/-
**The command line program.**

The part of the file system that a request looks at is read into a file tree, the request is
carried out on the tree, and the files that changed are written back.  All decisions are made in
`HackToolchain.CommandLine.Run`; this module only moves bytes.
-/
import HackToolchain.CommandLine.Run

set_option relaxedAutoImplicit false
set_option autoImplicit false

namespace HackToolchain

/-! ### What a request looks at -/

/-- The paths that a request looks at, each with the depth to which directories matter. -/
def Request.paths : Request → List (Text × Nat)
  | compile s => [(s.path, 2), (Path.directory s.path, 1), (s.output, 1)]
  | compare generated reference => [(generated, 1), (reference, 1)]

/-- The paths that lead to the names on the way to a path, with the path itself. -/
def Path.onTheWay (path : Text) : List Text :=
  let names := Path.names path
  (List.range names.length).map fun n => Text.join [Text.slash] (names.take (n + 1))

/-- The location that a path has in a tree without links. -/
def FileTree.plainLocation (t : FileTree) (path : Text) : Location :=
  ((Path.names path).foldl (Path.cleanStep true) (t.origin path).reverse).reverse

/-! ### Moving bytes -/

/-- The bytes of a string. -/
def textOfString (s : String) : Text := s.toUTF8.toList

/-- The string of a text, empty if the text is no UTF-8. -/
def stringOfText (t : Text) : String := (String.fromUTF8? (ByteArray.mk t.toArray)).getD ""

/-- The names in a directory, if the path leads to one. -/
def listNames (path : String) : IO (Option (List String)) := do
  try
    let p ← IO.FS.realPath path
    return some ((← p.readDir).toList.map fun e => e.fileName)
  catch _ => return none

/-- The content of a file, if the path leads to one.  Of files that are neither source nor
assembly only the presence matters. -/
def readContent (path : String) : IO (Option Text) := do
  try
    let content ← IO.FS.readBinFile path
    let extension := Path.extension (textOfString path)
    let matters := extension == sourceExtension || extension == assemblyExtension
    return some (if matters then content.toList else [])
  catch _ => return none

/-- The tree with the entry at a path, and with what lies below it up to the given depth. -/
def loadEntry : (depth : Nat) → (path : String) → Location → FileTree → IO FileTree
  | depth, path, l, t => do
    match ← listNames path with
    | none =>
      match ← readContent path with
      | none => return t
      | some content => return t.addFile l content
    | some names =>
      let t := t.makeDirectory l
      match depth with
      | 0 => return t
      | depth + 1 =>
        names.foldlM (fun t name =>
          loadEntry depth (path ++ "/" ++ name) (l ++ [textOfString name]) t) t

/-- The tree with all that a request looks at. -/
def loadTree (r : Request) : IO FileTree := do
  let current := textOfString (← IO.currentDir).toString
  let wd := FileTree.location current
  let start := ({ workingDirectory := wd } : FileTree).makeDirectory wd
  r.paths.foldlM (fun t p => do
    let t ← (Path.onTheWay p.1).foldlM (fun t q =>
      if q.isEmpty then pure t else loadEntry 0 (stringOfText q) (t.plainLocation q) t) t
    if p.1.isEmpty then pure t
    else loadEntry p.2 (stringOfText p.1) (t.plainLocation p.1) t) start

/-- Writes a file through a temporary one. -/
def writeContent (path : String) (content : Text) : IO Unit := do
  let temporary := path ++ ".tmp"
  IO.FS.writeBinFile temporary (ByteArray.mk content.toArray)
  IO.FS.rename temporary path

/-- Carries out a command line on the file system.  The result is the exit code. -/
def runOnDisk (words : List Text) : IO UInt32 := do
  let before ← match Request.parse words with
    | .error _ => pure {}
    | .ok r => loadTree r
  let outcome := runCommandLine before words
  for (path, content) in FileTree.changes before outcome.files do
    writeContent ("/" ++ stringOfText path) content
  (← IO.getStdout).write (ByteArray.mk outcome.printed.toArray)
  match outcome.failure with
  | none => return 0
  | some f =>
    IO.eprintln ("[Translator]: " ++ stringOfText f.message)
    return 1

end HackToolchain

/-- The program. -/
def main (args : List String) : IO UInt32 :=
  HackToolchain.runOnDisk (args.map HackToolchain.textOfString)
