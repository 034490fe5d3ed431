/-
**Modules named for files.**

A module that is found in a file tree is named for its file.  The names of labels, functions and the
entry function are checked when commands are read, but nobody checks the name of a module, and it is
written in front of the symbols of its static cells.  So a unit can be compiled to lines that the
assembler refuses for what they say.  This module says exactly which units those are: a unit is compiled
to readable lines if and only if each module whose name is written has a name that can be referred to,
which for a name without line feeds means that it is one.

Main definitions:

* `NamesModule` — a command that refers to a static cell by the name of its module.

Main results:

* `FileTree.module_of_discover` — a module that is found is named for a file;
* `Generator.list_getElem?` — the code of each command, with the state in which it was written;
* `CompilationUnit.readable_iff_referable` — **which units are compiled to readable lines**;
* `discovered_lines_readable_iff` — **the same of all units in a file tree**, and what readable lines
  can still be refused for.
-/
import HackToolchain.Files.Discover
import HackToolchain.Proofs.Assembly.Malformed
import HackToolchain.Proofs.Files.Paths
import HackToolchain.Proofs.Unit.Labels
import HackToolchain.Proofs.Unit.Limits

set_option relaxedAutoImplicit false
set_option autoImplicit false

namespace HackToolchain

/-! ### Names of files -/

namespace Path

/-- The last name of a path holds no slash, unless it is the root. -/
theorem count_slash_base (path : Text) : (base path).count Text.slash ≤ 1 := by
  rcases base_cases path with ⟨hroot, -⟩ | hnot
  · rw [hroot]
    exact Nat.le_refl 1
  · rw [List.count_eq_zero.2 hnot]
    exact Nat.zero_le 1

theorem count_slash_stem (path : Text) : (stem path).count Text.slash ≤ path.count Text.slash :=
  (List.take_sublist _ _).count_le _

end Path

namespace FileTree

variable {t : FileTree} {d : DiscoverOptions} {root path : Text} {u : CompilationUnit}

/-- A module is named for its file. -/
theorem name_of_readModule {m : Module} (h : t.readModule path = .ok m) :
    m.name = Path.stem (Path.base path) := by
  unfold readModule at h
  split at h
  · cases h
  · cases h
  · split at h
    · cases h
    · injection h with h
      rw [← h]

theorem modules_of_fileUnit (h : t.fileUnit d path = .ok u) :
    ∀ m ∈ u.modules, ∃ p, m.name = Path.stem (Path.base p) := by
  unfold fileUnit at h
  split at h
  · cases h
  · next m hm =>
      injection h with h
      rw [← h]
      exact List.forall_mem_singleton.2 ⟨path, name_of_readModule hm⟩

theorem modules_of_directoryUnit (h : t.directoryUnit d path = .ok u) :
    ∀ m ∈ u.modules, ∃ p, m.name = Path.stem (Path.base p) := by
  unfold directoryUnit at h
  split at h
  · cases h
  · dsimp only at h
    split at h
    · cases h
    · next modules hmodules =>
        injection h with h
        rw [← h]
        intro m hm
        obtain ⟨p, -, hp⟩ := exists_of_mem_mapM hmodules (mem_orderModules.1 hm)
        exact ⟨_, name_of_readModule hp⟩

theorem modules_of_entryUnit {name : Text} {e : Entry} (h : t.entryUnit d root name e = .ok (some u)) :
    ∀ m ∈ u.modules, ∃ p, m.name = Path.stem (Path.base p) := by
  simp only [entryUnit] at h
  split at h
  · cases hu : t.directoryUnit d (Path.join root name) with
    | error e => rw [hu] at h; cases h
    | ok u' =>
        rw [hu] at h
        injection h with h
        dsimp only at h
        split at h
        · cases h
        · injection h with h
          exact h ▸ modules_of_directoryUnit hu
  · split at h
    · cases hu : t.fileUnit d (Path.join root name) with
      | error e => rw [hu] at h; cases h
      | ok u' =>
          rw [hu] at h
          injection h with h
          injection h with h
          exact h ▸ modules_of_fileUnit hu
    · injection h with h
      cases h

/-- **A module that is found is named for a file.** -/
theorem module_of_discover {units : List CompilationUnit} (h : t.discover d root = .ok units)
    (hu : u ∈ units) : ∀ m ∈ u.modules, ∃ p, m.name = Path.stem (Path.base p) := by
  unfold discover at h
  split at h
  · cases h
  · split at h
    · cases hf : t.fileUnit d root with
      | error e => rw [hf] at h; cases h
      | ok u' =>
          rw [hf] at h
          injection h with h
          rw [← h] at hu
          exact List.mem_singleton.1 hu ▸ modules_of_fileUnit hf
    · cases h
  · split at h
    · split at h
      · cases h
      · next u' hd =>
          split at h
          · cases h
          · injection h with h
            rw [← h] at hu
            exact List.mem_singleton.1 hu ▸ modules_of_directoryUnit hd
    · split at h
      · cases h
      · next entries _ =>
          cases hl : entries.mapM fun p => t.entryUnit d root p.1 p.2 with
          | error e => rw [hl] at h; cases h
          | ok l =>
              rw [hl] at h
              injection h with h
              rw [← h] at hu
              obtain ⟨x, hx, rfl⟩ := List.mem_filterMap.1 hu
              obtain ⟨p, -, hp⟩ := exists_of_mem_mapM hl hx
              exact modules_of_entryUnit hp

theorem count_slash_of_discover {units : List CompilationUnit} (h : t.discover d root = .ok units)
    (hu : u ∈ units) : ∀ m ∈ u.modules, m.name.count Text.slash ≤ 1 := by
  intro m hm
  obtain ⟨p, hp⟩ := module_of_discover h hu m hm
  rw [hp]
  exact Nat.le_trans (Path.count_slash_stem _) (Path.count_slash_base p)

end FileTree

/-! ### Commands that write the name of their module -/

/-- The command with an index refers to a static cell by the name of its module: the module is named,
and if static cells are named for their uses, a function has been started before. -/
structure NamesModule (mode : StaticMode) (cs : List PlacedCommand) (k : Nat) (c : PlacedCommand) :
    Prop where
  command : cs[k]? = some c
  static : c.command.staticIndex? ≠ none
  named : c.module ≠ []
  started : mode = .occurrence → ∃ c' ∈ cs.take k, c'.command.startsFunction = true

namespace Generator

/-- A static cell is found under a symbol in a named module or in a function, depending on the way of
naming static cells. -/
theorem staticName?_ne_none_iff {g : Generator} {i : Int} :
    g.staticName? i ≠ none ↔
      (g.mode = .index → g.module ≠ []) ∧ (g.mode = .occurrence → g.function ≠ []) := by
  unfold staticName?
  split
  · next hmode => cases hf : g.function <;> simp [hmode]
  · next hmode => cases hm : g.module <;> simp [hmode]

/-- **The code of each command, with the state in which it was written**: the state knows the module of
the command, and whether a function has been started. -/
theorem list_getElem? {annotate : Bool} {g : Generator} {cs : List PlacedCommand}
    {r : Generator × List (PlacedCommand × List Item)} (h : g.list annotate cs = .ok r)
    (hcs : ∀ c ∈ cs, c.command.Valid) {k : Nat} {e : PlacedCommand × List Item}
    (he : r.2[k]? = some e) :
    ∃ (g₁ g₂ : Generator) (code : List Item), g₁.mode = g.mode ∧ g₁.module = e.1.module ∧
      g₁.Wrote e.1.command g₂ code ∧
      e.2 = (if annotate then Code.annotation (PlacedCommand.annotation e.1) else []) ++ code ∧
      (g₁.function = [] ↔
        g.function = [] ∧ ∀ c ∈ cs.take k, c.command.startsFunction = false) := by
  induction cs generalizing g r k with
  | nil =>
      injection h with h
      subst h
      cases he
  | cons c cs ih =>
      obtain ⟨g', items, es, hw, hl, hr⟩ := list_cons h
      obtain ⟨code, hwrite, hitems⟩ := writePlaced_eq_ok hw
      have hc := hcs c (List.mem_cons_self ..)
      have hwrote := wrote_of_write hc hwrite
      rw [hr] at he
      cases k with
      | zero =>
          injection he with he
          subst he
          refine ⟨{ g with module := c.module }, g', code, rfl, rfl, hwrote, hitems, ?_⟩
          exact ⟨fun hnone => ⟨hnone, List.forall_mem_nil _⟩, fun hnone => hnone.1⟩
      | succ k =>
          obtain ⟨g₁, g₂, code', hmode, hmodule, hwrote', hcode, hfunction⟩ :=
            ih hl (fun c' hc' => hcs c' (List.mem_cons_of_mem _ hc')) he
          refine ⟨g₁, g₂, code', hmode.trans (mode_writePlaced hw), hmodule, hwrote', hcode, ?_⟩
          rw [hfunction, function_of_wrote hwrote hc, List.take_succ_cons, List.forall_mem_cons,
            and_assoc]

/-- A command that uses a static cell under a symbol loads the symbol. -/
theorem load_static_mem {g g' : Generator} {c : Command} {code : List Item} (h : g.Wrote c g' code)
    (hc : c.Valid) {n : Int} {s : Text} (hn : c.staticIndex? = some n) (hs : g.staticName? n = some s) :
    Item.load (.symbol s) ∈ code := by
  obtain ⟨t, hfound, hcode⟩ := found_of_wrote h hc hn
  have ht : t = .symbol s := by
    cases hfound with
    | number hi hnone => rw [hs] at hnone; cases hnone
    | known hi hs' | taken hi hs' =>
        rw [hs] at hs'
        injection hs' with hs'
        rw [hs']
  rw [ht] at hcode
  rcases hcode with ⟨-, rfl⟩ | ⟨-, rfl⟩
  · simp [Code.push]
  · simp [Code.pop]

/-- The state before the command with an index is written. -/
structure Before (mode : StaticMode) (cs : List PlacedCommand) (k : Nat) (c : PlacedCommand)
    (g : Generator) : Prop where
  command : cs[k]? = some c
  mode : g.mode = mode
  module : g.module = c.module
  function : g.function = [] ↔ ∀ c' ∈ cs.take k, c'.command.startsFunction = false

namespace Before

variable {mode : StaticMode} {cs : List PlacedCommand} {k : Nat} {c : PlacedCommand} {g : Generator}

theorem started_iff (h : g.Before mode cs k c) :
    g.function ≠ [] ↔ ∃ c' ∈ cs.take k, c'.command.startsFunction = true := by
  rw [Ne, h.function]
  simp

/-- A command that names its module finds its static cell under a symbol. -/
theorem exists_staticName? (h : g.Before mode cs k c) (hnames : NamesModule mode cs k c) :
    ∃ n s, c.command.staticIndex? = some n ∧ g.staticName? n = some s := by
  obtain ⟨n, hn⟩ := Option.ne_none_iff_exists'.1 hnames.static
  have hsome : g.staticName? n ≠ none := by
    rw [staticName?_ne_none_iff, h.mode, h.module, h.started_iff]
    exact ⟨fun _ => hnames.named, hnames.started⟩
  obtain ⟨s, hs⟩ := Option.ne_none_iff_exists'.1 hsome
  exact ⟨n, s, hn, hs⟩

/-- A command that finds a static cell of a named module under a symbol names the module. -/
theorem namesModule (h : g.Before mode cs k c) {n : Int} {s : Text}
    (hn : c.command.staticIndex? = some n) (hs : g.staticName? n = some s) (hnamed : c.module ≠ []) :
    NamesModule mode cs k c := by
  have hsome : g.staticName? n ≠ none := by
    rw [hs]
    exact Option.some_ne_none s
  rw [staticName?_ne_none_iff, h.mode, h.started_iff] at hsome
  exact ⟨h.command, by rw [hn]; exact Option.some_ne_none n, hnamed, hsome.2⟩

/-- The lines that load such a symbol are readable exactly if the name of the module is referable. -/
theorem readable_iff (h : g.Before mode cs k c) {n : Int} {s : Text} (hs : g.staticName? n = some s)
    (hlo : 0 ≤ n) (hnamed : c.module ≠ []) (hslash : c.module.count Text.slash ≤ 1) :
    (∀ line ∈ (Item.load (.symbol s)).lines, ReadableLine line) ↔ Referable c.module := by
  obtain ⟨w, rfl, hw⟩ := staticName?_eq_some hs hlo
  rw [h.module, staticOwner, if_neg fun hempty => hnamed (List.isEmpty_iff.1 hempty)]
  exact readable_layOut_iff hslash hw

end Before

end Generator

namespace CompilationUnit

variable {u : CompilationUnit} {o : CompileOptions} {l : Listing}

/-- **The state in which a command of a unit is written.** -/
theorem exists_state (h : u.listing o = .ok l) {k : Nat} {e : PlacedCommand × List Item}
    (he : l.entries[k]? = some e) :
    ∃ (g g' : Generator) (code : List Item), g.Before o.statics l.commands k e.1 ∧
      g.Wrote e.1.command g' code ∧
      e.2 = (if o.annotate then Code.annotation (PlacedCommand.annotation e.1) else []) ++ code := by
  obtain ⟨cs, hcs, -, hl⟩ := listing_eq_ok h
  obtain rfl : cs = l.commands := (Generator.list_commands hl).symm
  obtain ⟨g, g', code, hmode, hmodule, hwrote, hcode, hfunction⟩ :=
    Generator.list_getElem? hl (valid_of_mem_commands hcs) he
  rw [function_preamble] at hfunction
  have hcommand : l.commands[k]? = some e.1 := by
    rw [Listing.commands, List.getElem?_map, he]
    rfl
  exact ⟨g, g', code, ⟨hcommand, hmode.trans (mode_preamble u o), hmodule,
    hfunction.trans ⟨fun hnone => hnone.2, fun hnone => ⟨rfl, hnone⟩⟩⟩, hwrote, hcode⟩

/-- Where the code of a command stands in the code of a unit. -/
theorem exists_entry {k : Nat} {c : PlacedCommand} (hc : l.commands[k]? = some c) :
    ∃ is, l.entries[k]? = some (c, is) := by
  rw [Listing.commands, List.getElem?_map] at hc
  obtain ⟨⟨c', is⟩, he, rfl⟩ := Option.map_eq_some_iff.1 hc
  exact ⟨is, he⟩

/-- **Which units are compiled to readable lines**: those in which each module whose name is written
has a referable name. -/
theorem readable_iff_referable (h : u.listing o = .ok l)
    (hslash : ∀ m ∈ u.modules, m.name.count Text.slash ≤ 1) :
    (∀ line ∈ render l.items, ReadableLine line) ↔
      ∀ k c, NamesModule o.statics l.commands k c → Referable c.module := by
  have hcount : ∀ c ∈ l.commands, c.module.count Text.slash ≤ 1 := by
    intro c hc
    obtain ⟨m, hm, hname, -⟩ := module_of_mem_listing h hc
    rw [hname]
    exact hslash m hm
  constructor
  · intro hread k c hnames
    have hc : c ∈ l.commands := List.mem_of_getElem? hnames.command
    have hvalid := valid_of_mem_listing h hc
    obtain ⟨is, he⟩ := exists_entry hnames.command
    obtain ⟨g, g', code, hbefore, hwrote, hcode⟩ := exists_state h he
    obtain ⟨n, s, hn, hs⟩ := hbefore.exists_staticName? hnames
    -- the symbol is loaded by the code of the command, so its lines are among those of the unit
    have hload : Item.load (.symbol s) ∈ l.items := by
      refine List.mem_append_right _ (List.mem_flatMap.2 ⟨_, List.mem_of_getElem? he, ?_⟩)
      rw [hcode]
      exact List.mem_append_right _ (Generator.load_static_mem hwrote hvalid hn hs)
    refine (hbefore.readable_iff hs (Command.valid_static hvalid hn).1 hnames.named (hcount c hc)).1 ?_
    intro line hline
    exact hread line (List.mem_flatMap.2 ⟨_, hload, hline⟩)
  · intro hreferable line hline
    obtain ⟨i, hi, hline⟩ := List.mem_flatMap.1 hline
    rcases List.mem_append.1 hi with hi | hi
    · exact (wellFormed_preamble h i hi).readable line hline
    · obtain ⟨⟨c, is⟩, hmem, hi⟩ := List.mem_flatMap.1 hi
      obtain ⟨k, he⟩ := List.mem_iff_getElem?.1 hmem
      obtain ⟨g, g', code, hbefore, hwrote, hcode⟩ := exists_state h he
      have hc : c ∈ l.commands := List.mem_of_getElem? hbefore.command
      have hvalid := valid_of_mem_listing h hc
      rw [hcode] at hi
      rcases List.mem_append.1 hi with hi | hi
      · exact (wellFormed_shown _ _ i hi).readable line hline
      · rcases Generator.wellFormed_or_static hvalid hwrote i hi with hwf | ⟨n, s, hn, hs, rfl⟩
        · exact hwf.readable line hline
        · have hlo := (Command.valid_static hvalid hn).1
          by_cases hnamed : c.module = []
          · -- the stand-in for the name of an unnamed module is a symbol
            have hname := Generator.isName_staticName? hs hlo (Or.inl (hbefore.module.trans hnamed))
            exact Item.WellFormed.readable (i := .load (.symbol s)) hname line hline
          · have hnames := hbefore.namesModule hn hs hnamed
            exact (hbefore.readable_iff hs hlo hnamed (hcount c hc)).2 (hreferable k c hnames) line hline

end CompilationUnit

/-! ### Units in a file tree -/

/-- **Which units of a file tree are compiled to readable lines.**  The name of a module is written if
one of its commands uses a static cell under a symbol, and all lines are readable exactly if every name
that is written is referable.  Readable lines are only refused for a label that is declared again; if a
line is not readable, there is no program.  A module name without line feeds is referable exactly if it
is a name. -/
theorem discovered_lines_readable_iff {t : FileTree} {d : DiscoverOptions} {root : Text}
    {units : List CompilationUnit} (hd : t.discover d root = .ok units) {u : CompilationUnit}
    (hu : u ∈ units) {o : CompileOptions} {lines : List Text} (h : u.compile o = .ok lines) :
    ((∀ line ∈ lines, ReadableLine line) ↔
      ∀ k c, NamesModule o.statics (u.stream o.entry) k c → Referable c.module) ∧
    ((∀ line ∈ lines, ReadableLine line) →
      ∀ e, assemble lines = .error e → ∃ name, e.fault = .duplicateLabel name) ∧
    (¬(∀ line ∈ lines, ReadableLine line) → ∃ e, assemble lines = .error e) ∧
    ∀ m ∈ u.modules, m.name ≠ [] → Text.lineFeed ∉ m.name →
      (Referable m.name ↔ isName m.name = true) := by
  have hslash := FileTree.count_slash_of_discover hd hu
  obtain ⟨l, hl, rfl⟩ := CompilationUnit.compile_eq_ok_iff.1 h
  have hstream : l.commands = u.stream o.entry :=
    CompilationUnit.eq_stream_of_commands (CompilationUnit.commands_of_listing hl)
  refine ⟨?_, fun hread e he => error_of_readable hread he, fun hunread => ?_, fun m hm hne hfeed => ?_⟩
  · rw [← hstream]
    exact CompilationUnit.readable_iff_referable hl hslash
  · cases hp : assemble (render l.items) with
    | error e => exact ⟨e, rfl⟩
    | ok p => exact absurd (readable_of_assemble hp) hunread
  · exact referable_iff_isName hne (hslash m hm) hfeed

/-- A tree with one source file, whose name holds a blank. -/
def spaced : FileTree where
  entries := [([ascii "my prog.vm"], .file (ascii "push static 0"))]

/-- The module in that file. -/
def spacedModule : Module where
  name := ascii "my prog"
  lines := [{ number := 1, text := ascii "push static 0" }]

/-- The unit of that module. -/
def spacedUnit : CompilationUnit where
  name := spacedModule.name
  modules := [spacedModule]
  output := ascii "my prog.asm"

/-- The file is compiled, and its assembly is refused for the blank. -/
theorem spaced_unreadable :
    spaced.discover {} (ascii "my prog.vm") = .ok [spacedUnit] ∧
      ∃ lines, spacedUnit.compile { bootstrap := false } = .ok lines ∧
        ¬(∀ line ∈ lines, ReadableLine line) ∧ ∃ e, assemble lines = .error e := by
  have hd : spaced.discover {} (ascii "my prog.vm") = .ok [spacedUnit] := by decide +kernel
  obtain ⟨l, -, hcompile, -⟩ := CompilationUnit.exists_listing_of_test (u := spacedUnit)
    (o := { bootstrap := false }) (fun _ => True) (by decide +kernel)
  obtain ⟨hiff, -, hrefused, hreferable⟩ :=
    discovered_lines_readable_iff hd (List.mem_singleton.2 rfl) hcompile
  have hnames : ∃ c, NamesModule .index (spacedUnit.stream defaultEntry) 0 c ∧
      c.module = spacedModule.name :=
    ⟨{ module := spacedModule.name, line := ⟨1, ascii "push static 0"⟩, command := .push .statics 0 },
      ⟨by decide +kernel, by decide, by decide, fun hmode => by cases hmode⟩, rfl⟩
  have hname : ¬Referable spacedModule.name := by
    rw [hreferable spacedModule (List.mem_singleton.2 rfl) (by decide) (by decide)]
    decide
  have hunread : ¬(∀ line ∈ render l.items, ReadableLine line) := by
    intro hread
    obtain ⟨c, hc, hmodule⟩ := hnames
    exact hname (hmodule ▸ hiff.1 hread 0 c hc)
  exact ⟨hd, _, hcompile, hunread, hrefused hunread⟩

end HackToolchain
