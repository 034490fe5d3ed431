/-
**Lines that hold no code.**

Empty lines and comments are counted when assembly is read, and that is all they do: without them the
same instructions are read, with the same labels and variables, and a line is refused for the same
reason.  Only the numbers of the lines differ.

Main definitions:

* `Text.holdsCode` — a line that holds more than a comment;
* `Program.unnumbered`, `outcome` — a program and the result of assembling, without numbers of lines;
* `Assembler.Alike` — the same has been read, but for the numbers of lines.

Main results:

* `Assembler.Alike.addLine`, `Assembler.Alike.addLines_filter` — what reading a line preserves, and
  what reading lines preserves;
* `outcome_assemble_filter` — **lines that hold no code can be left out**.
-/
import HackToolchain.Proofs.Assembly.Linking

set_option relaxedAutoImplicit false
set_option autoImplicit false

namespace HackToolchain

/-- Whether a line holds more than a comment and white space. -/
def Text.holdsCode (line : Text) : Bool := !(Text.trim (Text.code line)).isEmpty

/-! ### Results without numbers of lines -/

/-- The program without the numbers of its lines. -/
def Program.unnumbered (p : Program) : Program :=
  { p with instructions := p.instructions.map fun i => { i with line := 0 } }

/-- The result of assembling without numbers of lines. -/
def outcome : Except AssemblyError Program → Except AssemblyFault Program
  | .ok p => .ok p.unnumbered
  | .error e => .error e.fault

namespace Assembler

/-- What stays of an instruction without the number of its line. -/
def unnumbered (i : ReadInstruction) : Operation × Text := (i.operation, i.source)

/-- The same has been read, but for the numbers of lines. -/
structure Alike (a b : Assembler) : Prop where
  labels : a.labels = b.labels
  code : a.code.toList.map unnumbered = b.code.toList.map unnumbered

namespace Alike

variable {a b : Assembler}

theorem refl (a : Assembler) : Alike a a := ⟨rfl, rfl⟩

theorem size (h : Alike a b) : a.code.size = b.code.size := by
  have hlength := congrArg List.length h.code
  rwa [List.length_map, List.length_map, Array.length_toList, Array.length_toList] at hlength

theorem count_left (h : Alike a b) : Alike a.count b := ⟨h.labels, h.code⟩

theorem count_right (h : Alike a b) : Alike a b.count := ⟨h.labels, h.code⟩

theorem addStatement (h : Alike a b) (source : Text) (st : Statement) :
    (a.addStatement source st).2.mapError AssemblyError.fault
        = (b.addStatement source st).2.mapError AssemblyError.fault ∧
      Alike (a.addStatement source st).1 (b.addStatement source st).1 := by
  cases st with
  | operation o =>
      refine ⟨rfl, h.labels, ?_⟩
      simp only [Assembler.addStatement, Array.toList_push, List.map_append, h.code]
      rfl
  | label name =>
      simp only [Assembler.addStatement, h.labels, h.size]
      cases b.labels.find? name with
      | some n => exact ⟨rfl, h⟩
      | none => exact ⟨rfl, rfl, h.code⟩

/-- A line is read alike, and refused alike. -/
theorem addLine (h : Alike a b) (line : Text) :
    (a.addLine line).2.mapError AssemblyError.fault = (b.addLine line).2.mapError AssemblyError.fault ∧
      Alike (a.addLine line).1 (b.addLine line).1 := by
  have hcount := h.count_left.count_right
  simp only [Assembler.addLine]
  split
  · exact ⟨rfl, hcount⟩
  · cases Statement.parse (Text.trim (Text.code line)) with
    | error f => exact ⟨rfl, hcount⟩
    | ok st => exact hcount.addStatement _ st

/-- Lines are read alike if those that hold no code are left out. -/
theorem addLines_filter (h : Alike a b) (lines : List Text) :
    (a.addLines lines).2.mapError AssemblyError.fault
        = (b.addLines (lines.filter Text.holdsCode)).2.mapError AssemblyError.fault ∧
      Alike (a.addLines lines).1 (b.addLines (lines.filter Text.holdsCode)).1 := by
  induction lines generalizing a b with
  | nil => exact ⟨rfl, h⟩
  | cons line lines ih =>
      by_cases hcode : line.holdsCode = true
      · obtain ⟨hanswer, hnext⟩ := h.addLine line
        rw [List.filter_cons_of_pos hcode]
        simp only [Assembler.addLines]
        rcases ha : a.addLine line with ⟨a', r⟩
        rcases hb : b.addLine line with ⟨b', r'⟩
        rw [ha, hb] at hanswer hnext
        cases r with
        | ok u =>
            cases r' with
            | ok u' => exact ih hnext
            | error e => cases hanswer
        | error e =>
            cases r' with
            | ok u' => cases hanswer
            | error e' => exact ⟨hanswer, hnext⟩
      · have hempty : (Text.trim (Text.code line)).isEmpty = true := by
          simpa [Text.holdsCode] using hcode
        have hskip : a.addLine line = (a.count, .ok ()) := by
          simp only [Assembler.addLine, hempty]
          rfl
        rw [List.filter_cons_of_neg hcode]
        simp only [Assembler.addLines, hskip]
        exact ih h.count_left

theorem cells (h : Alike a b) : a.cells = b.cells := by
  have hrefs : ∀ code : List ReadInstruction, code.filterMap reference?
      = (code.map unnumbered).filterMap fun q => reference? ⟨q.1, 0, q.2⟩ := by
    intro code
    rw [List.filterMap_map]
    rfl
  rw [Assembler.cells, Assembler.cells, hrefs, hrefs, h.code, h.labels]

theorem finish (h : Alike a b) : a.finish.unnumbered = b.finish.unnumbered := by
  have hinstructions : ∀ c : Assembler, c.finish.unnumbered.instructions
      = (c.code.toList.map unnumbered).map fun q =>
        { kind := (resolve c.labels c.cells q.1).1
          code := (resolve c.labels c.cells q.1).2.digits
          line := 0
          source := q.2 } := by
    intro c
    simp only [Program.unnumbered, Assembler.finish, List.map_map]
    rfl
  have hprogram : ∀ p q : Program, p.instructions = q.instructions → p.labels = q.labels →
      p.cells = q.cells → p = q := by
    rintro ⟨_, _, _⟩ ⟨_, _, _⟩ rfl rfl rfl
    rfl
  refine hprogram _ _ ?_ h.labels h.cells
  rw [hinstructions, hinstructions, h.code, h.labels, h.cells]

end Alike

end Assembler

theorem outcome_assemble (lines : List Text) :
    outcome (assemble lines)
      = ((({} : Assembler).addLines lines).2.mapError AssemblyError.fault).map fun _ =>
        (({} : Assembler).addLines lines).1.finish.unnumbered := by
  rw [assemble]
  rcases ({} : Assembler).addLines lines with ⟨a, _ | _⟩ <;> rfl

/-- **Lines that hold no code can be left out**: but for the numbers of lines, the same program is
assembled, or the same fault is found. -/
theorem outcome_assemble_filter (lines : List Text) :
    outcome (assemble lines) = outcome (assemble (lines.filter Text.holdsCode)) := by
  obtain ⟨hanswer, hread⟩ := (Assembler.Alike.refl {}).addLines_filter lines
  rw [outcome_assemble, outcome_assemble, hanswer, hread.finish]

end HackToolchain
