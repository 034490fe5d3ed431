/-
**Lines of bounded length.**

A line ends at a line feed or at the end of the text, and one carriage return before its end is
not part of it.  A reader has a limit on the length of a line: lines are delivered up to the first
one that reaches the limit, and that line is reported instead of all that follow.
-/
import HackToolchain.Text.Basic

set_option relaxedAutoImplicit false
set_option autoImplicit false

namespace HackToolchain.Text

/-- The lines of a text, without their line feeds.  What follows the last line feed is a line
unless it is empty. -/
def rawLines (t : Text) : List Text :=
  let ps := pieces (· == lineFeed) t
  if ps.getLast? = some [] then ps.dropLast else ps

/-- A line without a carriage return at its end. -/
def chomp (line : Text) : Text :=
  if line.getLast? = some carriageReturn then line.dropLast else line

/-- The lines of a text before the first that has `limit` bytes or more, and whether there is such
a line. -/
structure BoundedLines where
  lines : List Text
  overlong : Bool

/-- Reads the lines of a text.  The limit counts the bytes before the line feed, a carriage return
included. -/
def readLines (limit : Nat) (t : Text) : BoundedLines :=
  let raw := rawLines t
  { lines := (raw.takeWhile fun l => decide (l.length < limit)).map chomp
    overlong := raw.any fun l => decide (limit ≤ l.length) }

/-- What is said of a line that reaches the limit. -/
def overlongMessage : Text := ascii "bufio.Scanner: token too long"

end HackToolchain.Text
