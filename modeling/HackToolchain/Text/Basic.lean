/-
**Texts as byte strings.**

Sources, file names, symbols and generated lines are sequences of bytes.  Nothing guarantees that
they are valid UTF-8, so they are kept as lists of bytes and decoded only where a rule speaks of
characters (`HackToolchain.Text.Utf8`).

Main definitions:

* `Text` — a byte string;
* `ascii` — the text of a literal;
* `Text.pieces` — cutting a list at the elements that satisfy a test;
* `Text.joinLines` — every line followed by a line feed;
* `Text.le` — the order of texts, byte by byte;
* `Text.code` — the part of a line before its comment.

Lines may be a million bytes long, so everything here is a fold or one of the library's own list
functions: a right fold costs no stack, and its equations are those of the plain recursion.
-/

set_option relaxedAutoImplicit false
set_option autoImplicit false

namespace HackToolchain

/-- A byte string. -/
abbrev Text := List UInt8

/-- The text of an ASCII literal, one byte for each character. -/
def ascii (s : String) : Text := s.toList.map Char.toUInt8

namespace Text

/-! ### Bytes with a part to play -/

/-- The byte that ends a line. -/
def lineFeed : UInt8 := 10

/-- The byte that may stand before the end of a line. -/
def carriageReturn : UInt8 := 13

/-- The byte that, doubled, starts a comment, and that separates the parts of a path. -/
def slash : UInt8 := 47

/-! ### Cutting and joining -/

/-- One step of `pieces`: an element that satisfies the test opens a new piece before the others,
any other element joins the first piece. -/
def piecesStep {α : Type} (p : α → Bool) (a : α) (rest : List α × List (List α)) :
    List α × List (List α) :=
  if p a then ([], rest.1 :: rest.2) else (a :: rest.1, rest.2)

/-- The pieces of a list between the elements that satisfy `p`.  There is always at least one
piece; elements that satisfy `p` are in none. -/
def pieces {α : Type} (p : α → Bool) (l : List α) : List (List α) :=
  let r := l.foldr (piecesStep p) ([], [])
  r.1 :: r.2

@[simp] theorem pieces_nil {α : Type} (p : α → Bool) : pieces p [] = [[]] := rfl

theorem pieces_cons_of_pos {α : Type} {p : α → Bool} {a : α} (l : List α) (h : p a = true) :
    pieces p (a :: l) = [] :: pieces p l := by
  simp [pieces, piecesStep, h]

theorem pieces_cons_of_neg {α : Type} {p : α → Bool} {a : α} (l : List α) (h : p a = false) :
    pieces p (a :: l) = (a :: (pieces p l).head (by simp [pieces])) :: (pieces p l).tail := by
  simp [pieces, piecesStep, h]

/-- The lines one after the other, each followed by a line feed. -/
def joinLines (lines : List Text) : Text := lines.flatMap (· ++ [lineFeed])

/-- The texts one after the other with `separator` between neighbours. -/
def join (separator : Text) : List Text → Text
  | [] => []
  | t :: rest => t ++ rest.flatMap (separator ++ ·)

/-! ### Order -/

/-- The order of texts, byte by byte. -/
def le : Text → Text → Bool
  | [], _ => true
  | _ :: _, [] => false
  | a :: s, b :: t => if a = b then le s t else decide (a < b)

/-! ### Comments -/

/-- One step of `code`: a slash before a slash drops all that follows.  The second component is
the byte that stands next. -/
def codeStep (b : UInt8) (rest : Text × Option UInt8) : Text × Option UInt8 :=
  (if b = slash ∧ rest.2 = some slash then [] else b :: rest.1, some b)

/-- The part of a line before its first `//`, or all of it. -/
def code (line : Text) : Text := (line.foldr codeStep ([], none)).1

theorem foldr_codeStep_snd (line : Text) : (line.foldr codeStep ([], none)).2 = line.head? := by
  cases line <;> rfl

@[simp] theorem code_nil : code [] = [] := rfl

theorem code_cons (b : UInt8) (line : Text) :
    code (b :: line) = if b = slash ∧ line.head? = some slash then [] else b :: code line := by
  simp [code, codeStep, foldr_codeStep_snd]

end Text

end HackToolchain
