/-
**Printed units.**

The same command can be written on a line in many ways: letter case, white space, plus signs and leading
zeros are lost when it is read.  Compiling a unit without showing its sources uses only what is read on
the lines: the order of the modules, the call of the entry function and the code of each command are the
same for two units whose modules have the same names and read the same.  So a unit may be printed, each
line as its command, and keeps its assembly.

Main definitions:

* `Module.Reading`, `Module.reading` — the name of a module and what is read on its lines;
* `PlacedCommand.content` — a command and its module, without its line;
* `SourceLine.printed`, `Module.printed`, `CompilationUnit.printed` — lines written as their commands.

Main results:

* `map_reading_orderModules` — modules are put in order by what is read on their lines;
* `Generator.writeAll_of_content_eq` — the code of commands does not depend on their lines;
* `CompilationUnit.compile_of_reading_eq` — **units that read the same have the same assembly**;
* `CompilationUnit.printed_compiles_alike` — **printing undoes reading, so a printed unit has the
  assembly of the unit**.
-/
import HackToolchain.Proofs.Command.Printing
import HackToolchain.Proofs.Unit.Limits

set_option relaxedAutoImplicit false
set_option autoImplicit false

namespace HackToolchain

/-! ### What is read in a module -/

/-- The name of a module and what is read on its lines. -/
structure Module.Reading where
  name : Text
  results : List (Except Fault Command)

/-- What is read in a module. -/
def Module.reading (m : Module) : Module.Reading where
  name := m.name
  results := m.lines.map fun l => Command.parse l.text

/-- The function that is started, if the result is a command that starts one. -/
def startedFunction? : Except Fault Command → Option Text
  | .ok (.function name _) => some name
  | _ => none

/-- Whether a function is started by a command that was read. -/
def Module.Reading.declares (function : Text) (r : Module.Reading) : Bool :=
  r.results.any fun c => startedFunction? c == some function

theorem Command.declaredFunction?_eq (line : Text) :
    declaredFunction? line = startedFunction? (parse line) := by
  unfold declaredFunction? startedFunction?
  rfl

/-- Whether a module declares a function is seen in what is read. -/
theorem Module.declares_eq (m : Module) (function : Text) :
    m.declares function = m.reading.declares function := by
  simp only [declares, Reading.declares, reading, List.any_map, Command.declaredFunction?_eq]
  rfl

/-- **Modules are put in order by what is read on their lines.** -/
theorem map_reading_orderModules (modules : List Module) (entry : Text) :
    (orderModules modules entry).map Module.reading
      = (modules.map Module.reading).filter (·.declares entry)
        ++ (modules.map Module.reading).filter (!·.declares entry) := by
  simp only [orderModules, List.map_append, List.filter_map, Module.declares_eq]
  rfl

/-- The results of modules, each with the name of its module. -/
def Module.Reading.all (rs : List Module.Reading) : List (Text × Except Fault Command) :=
  rs.flatMap fun r => r.results.map fun c => (r.name, c)

theorem map_sourceLines (modules : List Module) :
    (sourceLines modules).map (fun q => (q.1, Command.parse q.2.text))
      = Module.Reading.all (modules.map Module.reading) := by
  simp only [sourceLines, Module.Reading.all, Module.reading, List.map_flatMap, List.flatMap_map,
    List.map_map]
  rfl

/-! ### Code without sources -/

/-- A command and its module. -/
def PlacedCommand.content (c : PlacedCommand) : Text × Command := (c.module, c.command)

/-- The code of a command does not depend on its line. -/
theorem Generator.writePlaced_of_content_eq {g g' : Generator} {c c' : PlacedCommand}
    {items : List Item} (hc : c.content = c'.content)
    (h : g.writePlaced false c = (g', .ok items)) : g.writePlaced false c' = (g', .ok items) := by
  obtain ⟨code, hwrite, hitems⟩ := writePlaced_eq_ok h
  injection hc with hmodule hcommand
  rw [hmodule, hcommand] at hwrite
  simp only [writePlaced, hwrite, hitems]
  rfl

/-- **The code of commands does not depend on their lines.** -/
theorem Generator.writeAll_of_content_eq {g : Generator} {done : List (List Item)}
    {cs cs' : List PlacedCommand} {items : List Item}
    (hcs : cs.map PlacedCommand.content = cs'.map PlacedCommand.content)
    (h : g.writeAll false done cs = .ok items) : g.writeAll false done cs' = .ok items := by
  induction cs generalizing g done cs' with
  | nil =>
      rw [List.map_nil, eq_comm, List.map_eq_nil_iff] at hcs
      rwa [hcs]
  | cons c cs ih =>
      rw [List.map_cons, eq_comm] at hcs
      obtain ⟨c', cs'', rfl, hc, hrest⟩ := List.map_eq_cons_iff.1 hcs
      simp only [writeAll] at h ⊢
      cases hw : g.writePlaced false c with
      | mk g' r =>
          rw [hw] at h
          cases r with
          | error e => cases h
          | ok code =>
              -- both lists leave the generator in the same state
              rw [writePlaced_of_content_eq hc.symm hw]
              exact ih hrest.symm h

namespace CompilationUnit

/-! ### Units that read the same -/

/-- The command that was read, with its module. -/
def contentOf? (q : Text × Except Fault Command) : Option (Text × Command) :=
  q.2.toOption.map fun c => (q.1, c)

/-- The commands of a unit, without their lines, are seen in what is read. -/
theorem map_content_stream (u : CompilationUnit) (entry : Text) :
    (u.stream entry).map PlacedCommand.content
      = (Module.Reading.all ((orderModules u.modules entry).map Module.reading)).filterMap
          contentOf? := by
  rw [← map_sourceLines, List.filterMap_map, stream, List.map_filterMap]
  congr 1
  funext q
  simp only [Function.comp_apply, contentOf?]
  cases Command.parse q.2.text with
  | error f => rfl
  | ok c => rfl

/-- Whether all lines of a unit are commands is seen in what is read. -/
theorem readable_iff (u : CompilationUnit) :
    u.Readable ↔ ∀ r ∈ u.modules.map Module.reading, ∀ result ∈ r.results,
      ∃ c : Command, result = .ok c := by
  simp only [Readable, List.forall_mem_map, Module.reading]

/-- Whether a unit declares a function is seen in what is read. -/
theorem any_declares_eq (u : CompilationUnit) (function : Text) :
    u.modules.any (·.declares function)
      = (u.modules.map Module.reading).any (·.declares function) := by
  simp only [List.any_map, Module.declares_eq]
  rfl

/-- A unit whose lines are all commands has these commands. -/
theorem commands_eq_ok_iff {u : CompilationUnit} {entry : Text} {cs : List PlacedCommand} :
    u.commands entry = .ok cs ↔ u.Readable ∧ u.stream entry = cs := by
  rcases commands_cases u entry with ⟨hu, hcommands⟩ | ⟨_, module, line, _, f, hsplit, -, hf, herror⟩
  · rw [hcommands, Except.ok.injEq, and_iff_right hu]
  · rw [herror]
    refine iff_of_false nofun ?_
    rintro ⟨hu, -⟩
    have hmem : (module, line) ∈ sourceLines (orderModules u.modules entry) := by
      rw [hsplit]
      exact List.mem_append_right _ (List.mem_cons_self ..)
    obtain ⟨m, hm, l, hl, heq⟩ := mem_sourceLines.1 hmem
    obtain ⟨c, hc⟩ := hu m hm l hl
    injection heq with hmodule hline
    rw [hline, hc] at hf
    cases hf

section Readings

variable {u v : CompilationUnit}
  (hread : u.modules.map Module.reading = v.modules.map Module.reading)

include hread

theorem map_content_stream_of_reading_eq (entry : Text) :
    (u.stream entry).map PlacedCommand.content = (v.stream entry).map PlacedCommand.content := by
  rw [map_content_stream, map_content_stream, map_reading_orderModules, map_reading_orderModules,
    hread]

/-- Units that read the same begin with the same code. -/
theorem preamble_of_reading_eq (o : CompileOptions) : u.preamble o = v.preamble o := by
  rw [preamble, preamble, any_declares_eq, any_declares_eq, hread]

/-- **Units that read the same have the same assembly**, unless their sources are shown in it. -/
theorem compile_of_reading_eq {o : CompileOptions} (ho : o.annotate = false) {lines : List Text}
    (h : u.compile o = .ok lines) : v.compile o = .ok lines := by
  obtain ⟨items, hitems, rfl⟩ := map_eq_ok_iff.1 h
  refine map_eq_ok_iff.2 ⟨items, ?_, rfl⟩
  unfold CompilationUnit.items at hitems ⊢
  split at hitems
  · cases hitems
  · next hentry =>
      cases hcommands : u.commands o.entry with
      | error e => rw [hcommands] at hitems; cases hitems
      | ok cs =>
          obtain ⟨hu, rfl⟩ := commands_eq_ok_iff.1 hcommands
          have hv : v.Readable := by rwa [readable_iff, ← hread, ← readable_iff]
          rw [hcommands, ho, preamble_of_reading_eq hread] at hitems
          rw [if_neg hentry, commands_eq_ok_iff.2 ⟨hv, rfl⟩, ho]
          exact Generator.writeAll_of_content_eq (map_content_stream_of_reading_eq hread _) hitems

end Readings

end CompilationUnit

/-! ### Printed units -/

/-- A line with its command as it is printed.  A line that is no command stays as it is. -/
def SourceLine.printed (l : SourceLine) : SourceLine :=
  match Command.parse l.text with
  | .ok c => { l with text := c.text }
  | .error _ => l

/-- A module with its lines printed. -/
def Module.printed (m : Module) : Module := { m with lines := m.lines.map SourceLine.printed }

/-- A unit with its modules printed. -/
def CompilationUnit.printed (u : CompilationUnit) : CompilationUnit :=
  { u with modules := u.modules.map Module.printed }

theorem SourceLine.printed_of_parse {l : SourceLine} {c : Command}
    (h : Command.parse l.text = .ok c) : l.printed = { l with text := c.text } := by
  rw [printed, h]

/-- A printed line reads like the line. -/
theorem SourceLine.parse_printed (l : SourceLine) :
    Command.parse l.printed.text = Command.parse l.text := by
  cases h : Command.parse l.text with
  | error f => rw [printed, h, h]
  | ok c => rw [printed_of_parse h, Command.parse_text (Command.valid_of_parse h)]

/-- A printed module reads like the module. -/
theorem Module.reading_printed (m : Module) : m.printed.reading = m.reading := by
  simp only [reading, printed, List.map_map, Function.comp_def, SourceLine.parse_printed]

theorem Module.declares_printed (m : Module) (function : Text) :
    m.printed.declares function = m.declares function := by
  rw [declares_eq, declares_eq, reading_printed]

/-- Printed modules are put in order like the modules. -/
theorem orderModules_map_printed (modules : List Module) (entry : Text) :
    orderModules (modules.map Module.printed) entry
      = (orderModules modules entry).map Module.printed := by
  simp only [orderModules, List.filter_map, List.map_append, Function.comp_def,
    Module.declares_printed]

namespace CompilationUnit

theorem map_reading_printed (u : CompilationUnit) :
    u.printed.modules.map Module.reading = u.modules.map Module.reading := by
  simp only [printed, List.map_map, Function.comp_def, Module.reading_printed]

/-- A unit that is compiled has commands on all of its lines. -/
theorem readable_of_compile {u : CompilationUnit} {o : CompileOptions} {lines : List Text}
    (h : u.compile o = .ok lines) : u.Readable := by
  obtain ⟨l, hl, -⟩ := compile_eq_ok_iff.1 h
  obtain ⟨cs, hcs, -⟩ := listing_eq_ok hl
  exact (commands_eq_ok_iff.1 hcs).1

/-- **Printing a command undoes reading it**, so a unit whose lines are printed has the assembly of the
unit if sources are not shown in it.  The modules stand in the same order, and the code before the first
command is the same. -/
theorem printed_compiles_alike :
    (∀ (line : Text) (c : Command), Command.parse line = .ok c →
      Command.parse c.text = .ok c ∧ c.text = (ascii " ").intercalate c.words) ∧
    ∀ (u : CompilationUnit) (o : CompileOptions) (lines : List Text), o.annotate = false →
      u.compile o = .ok lines →
      (∀ m ∈ u.modules, ∀ l ∈ m.lines, ∃ c, Command.parse l.text = .ok c ∧
        l.printed = { number := l.number, text := c.text }) ∧
      orderModules u.printed.modules o.entry
        = (orderModules u.modules o.entry).map Module.printed ∧
      u.printed.preamble o = u.preamble o ∧ u.printed.compile o = .ok lines := by
  constructor
  · intro line c h
    exact ⟨Command.parse_text (Command.valid_of_parse h), c.text_eq_intercalate⟩
  · intro u o lines ho h
    have hread := u.map_reading_printed
    refine ⟨fun m hm l hl => ?_, orderModules_map_printed _ _, preamble_of_reading_eq hread o,
      compile_of_reading_eq hread.symm ho h⟩
    obtain ⟨c, hc⟩ := readable_of_compile h m hm l hl
    exact ⟨c, hc, SourceLine.printed_of_parse hc⟩

/-- A unit with commands in odd spellings, whose last module declares the entry function. -/
def oddlySpelled : CompilationUnit where
  modules :=
    [{ name := ascii "Main", lines :=
        [{ number := 1, text := ascii "FUNCTION  Main.run\t+02" },
         { number := 2, text := ascii "PuSH conSTANT -0007" },
         { number := 3, text := ascii "pu" ++ [0xC5, 0xBF] ++ ascii "h" ++ [0xC2, 0xA0]
            ++ ascii "Static 003" },
         { number := 4, text := ascii "\tReturn " }] },
     { name := ascii "Sys", lines :=
        [{ number := 1, text := ascii " function Sys.init -0" },
         { number := 2, text := ascii "Call Main.run 00" },
         { number := 3, text := ascii "LABEL end" },
         { number := 4, text := [0xC4, 0xB1] ++ ascii "f-GOTO end" }] }]

/-- Both units put the module that declares the entry function first, and have the same assembly. -/
theorem oddlySpelled_compiles_alike :
    Command.parse (ascii "PuSH conSTANT -0007") = .ok (.push .constant (-7)) ∧
    Command.parse (Command.push .constant (-7)).text = .ok (.push .constant (-7)) ∧
    oddlySpelled.printed.modules.map (fun m => m.lines.map SourceLine.text)
      = [["function Main.run 2", "push constant -7", "push static 3", "return"].map ascii,
         ["function Sys.init 0", "call Main.run 0", "label end", "if-goto end"].map ascii] ∧
    (orderModules oddlySpelled.printed.modules defaultEntry).map Module.name
      = [ascii "Sys", ascii "Main"] ∧
    ∃ lines, oddlySpelled.compile {} = .ok lines ∧ oddlySpelled.printed.compile {} = .ok lines := by
  have hparse : Command.parse (ascii "PuSH conSTANT -0007") = .ok (.push .constant (-7)) := by
    decide +kernel
  have hcompile : (oddlySpelled.compile {}).toOption.isSome = true := by decide +kernel
  cases h : oddlySpelled.compile {} with
  | error e => rw [h] at hcompile; cases hcompile
  | ok lines =>
      obtain ⟨-, horder, -, hprinted⟩ := printed_compiles_alike.2 oddlySpelled {} lines rfl h
      refine ⟨hparse, (printed_compiles_alike.1 _ _ hparse).1, by decide +kernel, ?_, lines, rfl,
        hprinted⟩
      rw [horder]
      decide +kernel

end CompilationUnit

end HackToolchain
