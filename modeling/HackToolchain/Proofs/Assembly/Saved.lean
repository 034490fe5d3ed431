/-
**Assembly that was saved.**

Assembly is saved with a line feed behind each line.  Whoever reads the text again gets lines without
the carriage returns at their ends, and nothing behind the last line feed.  Neither can be told from
the program: of a line the assembler sees the part before its comment, without the white space around
it, and it counts each line that it is given, also if nothing of it is left.

Main results:

* `Assembler.addLine_congr`, `Assembler.addLines_map_chomp` — carriage returns at the ends of lines make
  no difference to the assembler;
* `Assembler.addText_joinLines` — a saved text is read as its lines are;
* `FileTree.find?_place_of_save` — where a save leaves its text;
* `saved_assembly_reads_back` — **saved assembly is read back as the same program**, or refused with the
  same message.
-/
import HackToolchain.Proofs.Assembly.Sessions
import HackToolchain.Proofs.Files.Saving
import HackToolchain.Proofs.Text.Stripping

set_option relaxedAutoImplicit false
set_option autoImplicit false

namespace HackToolchain

namespace Assembler

/-- The assembler sees of a line what is left when it is stripped. -/
theorem addLine_congr (a : Assembler) {line line' : Text}
    (h : Text.trim (Text.code line) = Text.trim (Text.code line')) :
    a.addLine line = a.addLine line' := by
  rw [addLine, addLine, h]

/-- **Carriage returns at the ends of lines make no difference.** -/
theorem addLines_map_chomp (a : Assembler) (lines : List Text) :
    a.addLines (lines.map Text.chomp) = a.addLines lines := by
  induction lines generalizing a with
  | nil => rfl
  | cons line lines ih =>
      rw [List.map_cons, addLines, addLines, a.addLine_congr (Text.trim_code_chomp line)]
      rcases a.addLine line with ⟨b, e | u⟩
      · rfl
      · exact ih b

/-- **A saved text is read as its lines are.** -/
theorem addText_joinLines (a : Assembler) {lines : List Text}
    (h : ∀ line ∈ lines, Text.lineFeed ∉ line ∧ line.length < 65536) :
    a.addText (Text.joinLines lines)
      = ((a.addLines lines).1, (a.addLines lines).2.mapError TextError.line) := by
  have hraw : Text.rawLines (Text.joinLines lines) = lines :=
    Text.rawLines_joinLines fun line hline => (h line hline).1
  have hread : Text.readLines lineLimit (Text.joinLines lines)
      = { lines := lines.map Text.chomp, overlong := false } := by
    rw [Text.readLines_of_forall, hraw]
    intro line hline
    rw [hraw] at hline
    exact (h line hline).2
  simp only [addText, hread, addLines_map_chomp]
  rcases a.addLines lines with ⟨b, e | u⟩ <;> rfl

end Assembler

/-- The program of a saved text is the program of its lines. -/
theorem assembleText_joinLines {lines : List Text}
    (h : ∀ line ∈ lines, Text.lineFeed ∉ line ∧ line.length < 65536) :
    assembleText (Text.joinLines lines) = (assemble lines).mapError Assembler.TextError.line := by
  rw [assembleText, assemble, Assembler.addText_joinLines _ h]
  rcases ({} : Assembler).addLines lines with ⟨b, e | u⟩ <;> rfl

/-- A save that succeeds leaves its text in the place of the path. -/
theorem FileTree.find?_place_of_save {t t' : FileTree} {path : Text} {lines : List Text}
    (h : t.save path lines = (t', .ok ())) :
    ∃ place, t.findPlace path = .ok place ∧
      t'.find? place = some (.file (Text.joinLines lines)) := by
  rcases t.save_cases path lines with ⟨e, hfail⟩ | ⟨place, hplace, -, hsave⟩
  · rw [hfail] at h
    cases h
  · rw [hsave] at h
    injection h with htree
    refine ⟨place, hplace, ?_⟩
    rw [← htree]
    refine find?_put_self t _ ?_
    -- the last name of a path is part of its place
    obtain ⟨-, l, -, rfl⟩ := findPlace_eq_ok_iff.1 hplace
    have hnames : Path.names path ≠ [] := List.cons_ne_nil _ _
    rw [List.getLast?_eq_some_getLast hnames]
    exact List.concat_ne_nil _ l

/-- **Saved assembly is read back.**  Of lines that hold no line feed and that are not too long, the
saved text gives the same program as the lines, with the numbers and the texts of the lines it comes
from, or is refused with the same message; and this text is what a save leaves in its place. -/
theorem saved_assembly_reads_back {lines : List Text}
    (h : ∀ line ∈ lines, Text.lineFeed ∉ line ∧ line.length < 65536) :
    assembleText (Text.joinLines lines) = (assemble lines).mapError Assembler.TextError.line ∧
    (assembleText (Text.joinLines lines)).mapError Assembler.TextError.message
      = (assemble lines).mapError AssemblyError.message ∧
    (({} : AssemblySession).addText (Text.joinLines lines)).2.map
        (fun _ => (({} : AssemblySession).addText (Text.joinLines lines)).1.finish.2)
      = (assemble lines).mapError Assembler.TextError.line ∧
    ∀ (t t' : FileTree) (path : Text), t.save path lines = (t', .ok ()) →
      ∃ place, t.findPlace path = .ok place ∧
        t'.find? place = some (.file (Text.joinLines lines)) := by
  have hread := assembleText_joinLines h
  refine ⟨hread, ?_, ?_, fun t t' path hsave => FileTree.find?_place_of_save hsave⟩
  · rw [hread]
    cases assemble lines <;> rfl
  · rw [AssemblySession.finish_addText, hread]

/-- A loop on lines that end in carriage returns, with a line that holds nothing else. -/
def carriageReturned : List Text :=
  [ascii "@x\r", ascii "\r", ascii "(x)\r // here\r", ascii "0;JMP \r\r"]

/-- The text of the loop gives the program of its lines, and it is what a save leaves. -/
theorem carriageReturned_reads_back :
    (∃ p, assemble carriageReturned = .ok p ∧
      assembleText (Text.joinLines carriageReturned) = .ok p ∧ p.labels = [(ascii "x", 1)] ∧
      p.instructions.map (fun i => (i.line, i.source)) = [(1, ascii "@x"), (4, ascii "0;JMP")]) ∧
    ∃ place, ({} : FileTree).findPlace (ascii "x.asm") = .ok place ∧
      (({} : FileTree).save (ascii "x.asm") carriageReturned).1.find? place
        = some (.file (Text.joinLines carriageReturned)) := by
  obtain ⟨hread, -, -, hsaved⟩ := @saved_assembly_reads_back carriageReturned (by decide)
  have hprogram : (assemble carriageReturned).map
      (fun p => (p.labels, p.instructions.map fun i => (i.line, i.source)))
        = .ok ([(ascii "x", 1)], [(1, ascii "@x"), (4, ascii "0;JMP")]) := by
    decide +kernel
  obtain ⟨p, hp, hparts⟩ := map_eq_ok_iff.1 hprogram
  injection hparts with hlabels hinstructions
  have hsave : (({} : FileTree).save (ascii "x.asm") carriageReturned).2 = .ok () := by
    decide +kernel
  refine ⟨⟨p, hp, ?_, hlabels, hinstructions⟩, hsaved _ _ _ (Prod.ext rfl hsave)⟩
  rw [hread, hp]
  rfl

end HackToolchain
