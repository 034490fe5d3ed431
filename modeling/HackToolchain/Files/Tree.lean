/-
**File trees.**

A file tree says which directories and files there are.  An entry stands under the list of names
that leads to it from the root; the root itself is always a directory.

Main definitions:

* `Location`, `Entry`, `FileTree` — where an entry is, what it is, and a tree of entries;
* `FileTree.find` — the entry that a path leads to;
* `FileTree.stat`, `FileTree.readDirectory`, `FileTree.openEntry` — asking for entries;
* `FileTree.createTemporary`, `FileTree.write`, `FileTree.rename`, `FileTree.remove` — changing a
  tree;
* `FileTree.changes` — the files of a tree that another tree does not have.

Main results:

* `FileTree.find?_put_self`, `FileTree.find?_put_of_ne` — what is under a location after a change.

A failing question names what was asked, the path, and the cause (`FileError`).
-/
import HackToolchain.Files.Path

set_option relaxedAutoImplicit false
set_option autoImplicit false

namespace HackToolchain

/-- The names that lead from the root to an entry. -/
abbrev Location := List Text

/-- What stands under a location. -/
inductive Entry where
  | directory
  | file (content : Text)
  deriving DecidableEq

/-- Whether an entry is a directory. -/
def Entry.isDirectory : Entry → Bool
  | directory => true
  | file _ => false

/-- The size of an entry in bytes.  A directory counts as one block. -/
def Entry.size : Entry → Nat
  | directory => 4096
  | file content => content.length

/-! ### Errors -/

/-- Why a path cannot be followed or changed.  The device has causes of its own. -/
inductive FileCause where
  | notExist | exist | isDirectory | notDirectory
  /-- The name for a new file holds a slash. -/
  | separator
  | device (text : Text)
  deriving DecidableEq

/-- The text of a cause. -/
def FileCause.text : FileCause → Text
  | notExist => ascii "no such file or directory"
  | exist => ascii "file exists"
  | isDirectory => ascii "is a directory"
  | notDirectory => ascii "not a directory"
  | separator => ascii "pattern contains path separator"
  | device text => text

/-- A failed question or change: what was to be done, the path, and the cause. -/
inductive FileError where
  | stat (path : Text) (cause : FileCause)
  | opening (path : Text) (cause : FileCause)
  | naming (pattern : Text) (cause : FileCause)
  | reading (path : Text) (cause : FileCause)
  | writing (path : Text) (cause : FileCause)
  | closing (path : Text) (cause : FileCause)
  | permitting (path : Text) (cause : FileCause)
  | replacing (old new : Text) (cause : FileCause)
  deriving DecidableEq

namespace FileError

/-- The cause of an error. -/
def cause : FileError → FileCause
  | stat _ c | opening _ c | naming _ c | reading _ c | writing _ c | closing _ c | permitting _ c
  | replacing _ _ c => c

/-- The message of an error. -/
def message : FileError → Text
  | stat path c => ascii "stat " ++ path ++ ascii ": " ++ c.text
  | opening path c => ascii "open " ++ path ++ ascii ": " ++ c.text
  | naming pattern c => ascii "createtemp " ++ pattern ++ ascii ": " ++ c.text
  | reading path c => ascii "read " ++ path ++ ascii ": " ++ c.text
  | writing path c => ascii "write " ++ path ++ ascii ": " ++ c.text
  | closing path c => ascii "close " ++ path ++ ascii ": " ++ c.text
  | permitting path c => ascii "chmod " ++ path ++ ascii ": " ++ c.text
  | replacing old new c => ascii "rename " ++ old ++ ascii " " ++ new ++ ascii ": " ++ c.text

end FileError

/-! ### Order of names -/

/-- The list with a named value in front of the first that has a later name. -/
def insertByName {α : Type} (p : Text × α) : List (Text × α) → List (Text × α)
  | [] => [p]
  | q :: rest => if Text.le p.1 q.1 then p :: q :: rest else q :: insertByName p rest

/-- Named values in the order of their names. -/
def sortByName {α : Type} (l : List (Text × α)) : List (Text × α) := l.foldr insertByName []

/-! ### Trees -/

/-- The entries below the root, and the directory in which relative paths start. -/
structure FileTree where
  entries : List (Location × Entry) := []
  workingDirectory : Location := []
  deriving DecidableEq

namespace FileTree

/-- What stands under a location. -/
def find? (t : FileTree) (l : Location) : Option Entry :=
  if l = [] then some .directory else t.entries.lookup l

/-- The entries with `e` under the location `l`. -/
def putEntry (l : Location) (e : Entry) : List (Location × Entry) → List (Location × Entry)
  | [] => [(l, e)]
  | (k, old) :: rest => if k = l then (l, e) :: rest else (k, old) :: putEntry l e rest

/-- The tree with `e` under the location `l`. -/
def put (t : FileTree) (l : Location) (e : Entry) : FileTree :=
  { t with entries := putEntry l e t.entries }

/-- The tree without an entry under the location `l`. -/
def remove (t : FileTree) (l : Location) : FileTree :=
  { t with entries := t.entries.filter fun p => p.1 != l }

theorem lookup_putEntry (k l : Location) (e : Entry) (es : List (Location × Entry)) :
    (putEntry l e es).lookup k = if k = l then some e else es.lookup k := by
  induction es with
  | nil =>
      by_cases h : k = l
      · simp [putEntry, h]
      · simp [putEntry, List.lookup_cons, beq_false_of_ne h, h]
  | cons p es ih =>
      obtain ⟨q, old⟩ := p
      by_cases hq : q = l
      · by_cases h : k = l
        · simp [putEntry, hq, h]
        · simp [putEntry, List.lookup_cons, hq, beq_false_of_ne h, h]
      · by_cases h : k = q
        · simp [putEntry, hq, h]
        · simp [putEntry, List.lookup_cons, hq, beq_false_of_ne h, ih]

theorem find?_put_self (t : FileTree) {l : Location} (e : Entry) (h : l ≠ []) :
    (t.put l e).find? l = some e := by
  simp [find?, put, h, lookup_putEntry]

theorem find?_put_of_ne (t : FileTree) {k l : Location} (e : Entry) (h : k ≠ l) :
    (t.put l e).find? k = t.find? k := by
  simp [find?, put, h, lookup_putEntry]

/-! ### Following paths -/

/-- The entry that names lead to from a location.  Every name, also an empty one, asks for a
directory to look in. -/
def walk (t : FileTree) (l : Location) : List Text → Except FileCause (Location × Entry)
  | [] =>
    match t.find? l with
    | none => .error .notExist
    | some e => .ok (l, e)
  | name :: rest =>
    match t.find? l with
    | none => .error .notExist
    | some (.file _) => .error .notDirectory
    | some .directory =>
      if name = [] ∨ name = Path.here then t.walk l rest
      else if name = Path.above then t.walk l.dropLast rest
      else t.walk (l ++ [name]) rest

/-- The location at which a path starts. -/
def origin (t : FileTree) (path : Text) : Location :=
  if Path.isRooted path then [] else t.workingDirectory

/-- The entry that a path leads to.  The empty path leads nowhere. -/
def find (t : FileTree) (path : Text) : Except FileCause (Location × Entry) :=
  if path.isEmpty then .error .notExist else t.walk (t.origin path) (Path.names path)

/-- The location that the last name of a path has or would have. -/
def findPlace (t : FileTree) (path : Text) : Except FileCause Location :=
  if path.isEmpty then .error .notExist
  else
    let names := Path.names path
    match t.walk (t.origin path) (names.dropLast ++ [Path.here]) with
    | .error c => .error c
    | .ok (l, _) => .ok (l ++ (names.getLast?).toList)

/-! ### Questions -/

/-- The entry that a path leads to. -/
def stat (t : FileTree) (path : Text) : Except FileError Entry :=
  match t.find path with
  | .error c => .error (.stat path c)
  | .ok (_, e) => .ok e

/-- The entry that a path leads to, for reading. -/
def openEntry (t : FileTree) (path : Text) : Except FileError Entry :=
  match t.find path with
  | .error c => .error (.opening path c)
  | .ok (_, e) => .ok e

/-- The entries directly in a directory, with their names, in the order of the names. -/
def children (t : FileTree) (l : Location) : List (Text × Entry) :=
  sortByName (t.entries.filterMap fun p =>
    if p.1.dropLast = l then p.1.getLast?.map fun name => (name, p.2) else none)

/-- The entries of the directory that a path leads to. -/
def readDirectory (t : FileTree) (path : Text) : Except FileError (List (Text × Entry)) :=
  match t.find path with
  | .error c => .error (.opening path c)
  | .ok (_, .file _) => .error (.opening path .notDirectory)
  | .ok (l, .directory) => .ok (t.children l)

/-! ### Changes -/

/-- The length of the longest name in a tree. -/
def longestName (t : FileTree) : Nat :=
  t.entries.foldl (fun n p => p.1.foldl (fun n name => max n name.length) n) 0

/-- The path of a new file in a directory, with a star for the part of its name that makes it new. -/
def temporaryPath (directory stem : Text) : Text :=
  (if directory.getLast? = some Text.slash then directory else directory ++ [Text.slash])
    ++ stem ++ ascii "*"

/-- A new file in the directory that a path leads to: its location, its path as it is shown, and the
tree with it.  The new name is longer than any other. -/
def createTemporary (t : FileTree) (directory stem : Text) :
    Except FileError (Location × Text × FileTree) :=
  let shown := temporaryPath directory stem
  match t.find directory with
  | .error c => .error (.opening shown c)
  | .ok (_, .file _) => .error (.opening shown .notDirectory)
  | .ok (l, .directory) =>
    let place := l ++ [stem ++ List.replicate (t.longestName + 1) 48]
    .ok (place, shown, t.put place (.file []))

/-- The tree after the entry at `old` has taken the place of what `new` leads to.  A directory is
not replaced. -/
def rename (t : FileTree) (old : Location) (shown new : Text) : Except FileError FileTree :=
  let isDirectory := match t.find new with
    | .ok (_, e) => e.isDirectory
    | .error _ => false
  if isDirectory then .error (.replacing shown new .exist)
  else
    match t.findPlace new with
    | .error c => .error (.replacing shown new c)
    | .ok place =>
      match t.find? old with
      | none => .error (.replacing shown new .notExist)
      | some e => .ok ((t.remove old).put place e)

/-! ### Building and comparing trees -/

/-- The tree with a directory at a location and at all locations on the way. -/
def makeDirectory (t : FileTree) (l : Location) : FileTree :=
  (List.range l.length).foldl (fun t n => t.put (l.take (n + 1)) .directory) t

/-- The location of a path that goes down from the root. -/
def location (path : Text) : Location :=
  (Path.names path).filter fun name => name != [] && name != Path.here

/-- The tree with a file at a location and directories on the way. -/
def addFile (t : FileTree) (l : Location) (content : Text) : FileTree :=
  (t.makeDirectory l.dropLast).put l (.file content)

/-- The files of `new` that `old` does not have with the same content, as paths from the root, in
the order of the paths. -/
def changes (old new : FileTree) : List (Text × Text) :=
  sortByName (new.entries.filterMap fun p =>
    match p.2 with
    | .directory => none
    | .file content =>
      if old.find? p.1 = some p.2 then none else some (Text.join [Text.slash] p.1, content))

end FileTree

end HackToolchain
