/-
**Paths.**

A path is a text in which slashes separate names.  These functions look at the text alone, and
know nothing of files.

Main definitions:

* `Path.clean` — the shortest path with the same meaning;
* `Path.join`, `Path.base`, `Path.directory` — putting paths together and taking them apart;
* `Path.extension`, `Path.stem` — the part of a name from its last dot on, and the part before.
-/
import HackToolchain.Text.Basic

set_option relaxedAutoImplicit false
set_option autoImplicit false

namespace HackToolchain.Path

/-- The name of the current directory. -/
def here : Text := ascii "."

/-- The name of the directory above. -/
def above : Text := ascii ".."

/-- The names in a path, with empty ones where slashes meet or stand at an end. -/
def names (path : Text) : List Text := Text.pieces (· == Text.slash) path

/-- Whether a path starts at the root. -/
def isRooted (path : Text) : Bool := path.head? == some Text.slash

/-- The names of a clean path, the last first, after one more name.  A step up takes back a name,
unless there is none to take back. -/
def cleanStep (rooted : Bool) (done : List Text) (name : Text) : List Text :=
  if name = [] ∨ name = here then done
  else if name = above then
    match done with
    | [] => if rooted then [] else [above]
    | last :: rest => if last = above then above :: done else rest
  else name :: done

/-- The path without empty names, steps to the current directory, and steps up that can be taken
back.  The empty path is the current directory. -/
def clean (path : Text) : Text :=
  let rooted := isRooted path
  let kept := ((names path).foldl (cleanStep rooted) []).reverse
  let body := Text.join [Text.slash] kept
  if rooted then Text.slash :: body else if body.isEmpty then here else body

/-- The path of `name` in `directory`.  An empty directory counts as none. -/
def join (directory name : Text) : Text :=
  if directory.isEmpty then (if name.isEmpty then [] else clean name)
  else clean (directory ++ [Text.slash] ++ name)

/-- The last name of a path, not counting slashes at its end. -/
def base (path : Text) : Text :=
  if path.isEmpty then here
  else
    let trimmed := (path.reverse.dropWhile (· == Text.slash)).reverse
    if trimmed.isEmpty then [Text.slash]
    else (trimmed.reverse.takeWhile (· != Text.slash)).reverse

/-- The path of the directory that holds the last name. -/
def directory (path : Text) : Text := clean (path.reverse.dropWhile (· != Text.slash)).reverse

/-- The part of the last name from its last dot on. -/
def extension (path : Text) : Text :=
  let last := (path.reverse.takeWhile (· != Text.slash)).reverse
  let after := last.reverse.takeWhile (· != 46)
  if after.length = last.length then [] else 46 :: after.reverse

/-- The path without its extension. -/
def stem (path : Text) : Text := path.take (path.length - (extension path).length)

end HackToolchain.Path
