/-
**Data memory.**

The memory has 32768 cells.  It is kept as a perfect binary tree: the lowest bit of an address
chooses a half, the other bits the cell in it.  Reading and writing a cell follow fifteen bits, a
fresh memory shares all its subtrees, and two memories with the same cells are equal.

Main definitions:

* `CellTree`, `CellTree.get`, `CellTree.set` — trees of cells;
* `Memory` — the data memory;
* `Memory.changes` — the cells in which two memories differ.

Main results:

* `CellTree.get_set_self` — a cell holds what was last written to it.
-/
import HackToolchain.Word

set_option relaxedAutoImplicit false
set_option autoImplicit false

namespace HackToolchain

/-- A perfect binary tree of cells, of the given depth. -/
inductive CellTree : Nat → Type where
  | leaf (w : Word) : CellTree 0
  | node {n : Nat} (even odd : CellTree n) : CellTree (n + 1)

namespace CellTree

/-- The tree all of whose cells hold `w`. -/
def fill (w : Word) : (n : Nat) → CellTree n
  | 0 => leaf w
  | n + 1 =>
    let t := fill w n
    node t t

/-- The contents of the cell with an address. -/
def get : {n : Nat} → CellTree n → Nat → Word
  | _, leaf w, _ => w
  | _, node even odd, a => if a % 2 = 0 then even.get (a / 2) else odd.get (a / 2)

/-- The tree after writing a word to the cell with an address. -/
def set : {n : Nat} → CellTree n → Nat → Word → CellTree n
  | _, leaf _, _, v => leaf v
  | _, node even odd, a, v =>
    if a % 2 = 0 then node (even.set (a / 2) v) odd else node even (odd.set (a / 2) v)

@[simp] theorem get_fill (w : Word) (n a : Nat) : (fill w n).get a = w := by
  induction n generalizing a with
  | zero => rfl
  | succ n ih => simp [fill, get, ih]

@[simp] theorem get_set_self {n : Nat} (t : CellTree n) (a : Nat) (v : Word) :
    (t.set a v).get a = v := by
  induction t generalizing a with
  | leaf w => rfl
  | node even odd ihe iho =>
      by_cases h : a % 2 = 0
      · simp [set, get, h, ihe]
      · simp [set, get, h, iho]

/-- The cells of the second tree that differ from those of the first, in front of `rest`.  The
cells of a tree have the addresses `base`, `base + stride`, and so on. -/
def changes (base stride : Nat) : {n : Nat} → CellTree n → CellTree n → List (Nat × Word) →
    List (Nat × Word)
  | _, leaf u, leaf v, rest => if u = v then rest else (base, v) :: rest
  | _, node e o, node e' o', rest =>
    changes base (2 * stride) e e' (changes (base + stride) (2 * stride) o o' rest)

end CellTree

/-- The data memory. -/
abbrev Memory := CellTree 15

namespace Memory

/-- The number of cells. -/
def size : Nat := 32768

/-- The memory whose cells are all zero. -/
def zero : Memory := CellTree.fill 0 15

/-- The cells of `new` that differ from those of `old`, in the order of their addresses. -/
def changes (old new : Memory) : List (Nat × Word) :=
  (CellTree.changes 0 1 old new []).mergeSort fun p q => decide (p.1 ≤ q.1)

end Memory

end HackToolchain
