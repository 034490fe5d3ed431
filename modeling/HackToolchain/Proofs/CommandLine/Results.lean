/-
**What a run leaves in the tree.**

A run compiles all units before it saves anything.  So if something is wrong with the sources, the
tree stays as it was.  After that the units are finished one by one, up to the first that fails.
Every file that is new or changed then is a complete result: the assembly of a unit before the
failing one, or the program of such a unit or of the failing one itself.  If no unit fails and all
results have different paths, all results are there.

Main definitions:

* `IsWork` — the units that a run is about, each with its assembly;
* `Refused` — why a run saves nothing at all;
* `FailsAt` — why a run stops at a unit;
* `ProgramSaved`, `ResultsSaved` — the files that are put into the tree for units;
* `AssemblyAt`, `ProgramAt` — a file holds the whole assembly or the whole program of a unit;
* `Leaves` — nothing is new or changed but such files.

Main results:

* `compileUnits_cases` — a run is refused, or all its units have assembly;
* `finishUnits_cases` — **units are finished up to the first that fails**;
* `ResultsSaved.nodup` — results with different paths have different places;
* `runCompile_leaves_complete_results` — **what a run leaves in the tree**.
-/
import HackToolchain.CommandLine.Run
import HackToolchain.Proofs.Files.Outputs
import HackToolchain.Proofs.Files.Saving

set_option relaxedAutoImplicit false
set_option autoImplicit false

namespace HackToolchain

/-! ### Compiling all units -/

/-- How a run searches for units. -/
def Settings.search (s : Settings) : DiscoverOptions :=
  { output := s.output, whole := s.whole, entry := s.entry }

/-- How a run compiles a unit. -/
def Settings.compileOptions (s : Settings) (mode : StaticMode) : CompileOptions :=
  { bootstrap := s.bootstrap, entry := s.entry, annotate := s.annotate, statics := mode }

/-- The units that a run is about, each with its assembly. -/
structure IsWork (s : Settings) (t : FileTree) (work : List (CompilationUnit × List Text)) : Prop where
  compiled : ∃ mode, StaticMode.parse? s.staticMode = some mode ∧
    ∀ p ∈ work, p.1.compile (s.compileOptions mode) = .ok p.2
  found : t.discover s.search s.path = .ok (work.map Prod.fst)
  nonempty : work ≠ []

/-- Why a run saves nothing at all: the way of naming static cells is unknown, the search fails or
finds no unit, or a unit has no assembly. -/
inductive Refused (s : Settings) (t : FileTree) : Prop
  | staticMode (unknown : StaticMode.parse? s.staticMode = none)
  | search (e : SourceError) (failed : t.discover s.search s.path = .error e)
  | noUnits (found : t.discover s.search s.path = .ok [])
  | unit (mode : StaticMode) (known : StaticMode.parse? s.staticMode = some mode)
      (units : List CompilationUnit) (found : t.discover s.search s.path = .ok units)
      (u : CompilationUnit) (mem : u ∈ units) (e : CompileError)
      (failed : u.compile (s.compileOptions mode) = .error e)

variable {s : Settings} {t t₀ : FileTree} {u v : CompilationUnit} {lines : List Text} {b : Text}
  {work : List (CompilationUnit × List Text)}

theorem compileNamed_eq_ok_iff {o : CompileOptions} :
    u.compileNamed o = .ok lines ↔ u.compile o = .ok lines := by
  unfold CompilationUnit.compileNamed
  cases u.compile o with
  | ok r => simp only [Except.ok.injEq]
  | error e => exact iff_of_false nofun nofun

/-- A run whose units all have assembly is not refused. -/
theorem IsWork.not_refused (h : IsWork s t work) : ¬Refused s t := by
  obtain ⟨⟨mode, hmode, hcompiled⟩, hfound, hne⟩ := h
  rintro (hnone | ⟨e, hfailed⟩ | hnil | ⟨mode', hmode', units, hunits, u, hu, e, hfailed⟩)
  · rw [hmode] at hnone
    cases hnone
  · rw [hfound] at hfailed
    cases hfailed
  · rw [hfound] at hnil
    injection hnil with hnil
    exact hne (List.map_eq_nil_iff.1 hnil)
  · rw [hmode] at hmode'
    injection hmode' with hmode'
    rw [hfound] at hunits
    injection hunits with hunits
    subst hmode' hunits
    obtain ⟨p, hp, rfl⟩ := List.mem_map.1 hu
    rw [hcompiled p hp] at hfailed
    cases hfailed

/-- **A run is refused, or all its units have assembly.** -/
theorem compileUnits_cases (s : Settings) (t : FileTree) :
    (Refused s t ∧ ∃ f, compileUnits s t = .error f) ∨
    ∃ work, IsWork s t work ∧ compileUnits s t = .ok work := by
  unfold compileUnits
  cases hmode : StaticMode.parse? s.staticMode with
  | none => exact Or.inl ⟨.staticMode hmode, _, rfl⟩
  | some mode =>
      dsimp only
      rw [← Settings.search, ← Settings.compileOptions]
      cases hfound : t.discover s.search s.path with
      | error e => exact Or.inl ⟨.search e hfound, _, rfl⟩
      | ok units =>
          dsimp only
          split
          · next hempty =>
              rw [List.isEmpty_iff.1 hempty] at hfound
              exact Or.inl ⟨.noUnits hfound, _, rfl⟩
          · next hne =>
              cases hall : compileAll units (s.compileOptions mode) with
              | error e =>
                  obtain ⟨before, u, after, rfl, -, hu⟩ := mapM_eq_error hall
                  refine Or.inl ⟨?_, _, rfl⟩
                  cases hcompile : u.compile (s.compileOptions mode) with
                  | ok lines =>
                      rw [compileNamed_eq_ok_iff.2 hcompile] at hu
                      cases hu
                  | error e' => exact .unit mode hmode _ hfound u (by simp) e' hcompile
              | ok results =>
                  obtain ⟨ps, rfl, rfl, hps⟩ := exists_pairs_of_mapM hall
                  refine Or.inr ⟨ps, ⟨⟨mode, hmode, ?_⟩, hfound, ?_⟩, ?_⟩
                  · exact fun p hp => compileNamed_eq_ok_iff.1 (hps p hp)
                  · rintro rfl
                    exact hne rfl
                  · dsimp only
                    rw [← List.zip_of_prod rfl rfl]

/-! ### Finishing a unit -/

theorem checkAssembly_eq_ok_iff {p : Program} :
    checkAssembly lines = .ok p ↔ assemble lines = .ok p ∧ p.checkVariables = .ok () := by
  unfold checkAssembly
  cases assemble lines with
  | error e => exact iff_of_false nofun nofun
  | ok q =>
      dsimp only
      constructor
      · intro h
        split at h
        · cases h
        · next hq =>
            injection h with h
            exact h ▸ ⟨rfl, hq⟩
      · rintro ⟨hp, hvariables⟩
        injection hp with hp
        rw [hp, hvariables]

/-- Why a run stops at a unit: its assembly is refused, or a variable lies too high, or its program or
its assembly cannot be saved in the tree `files`. -/
inductive FailsAt (s : Settings) (files : FileTree) (u : CompilationUnit) (lines : List Text) :
    RunFailure → Prop
  | check (asked : s.check = true ∨ s.binary = true) (e : CheckError)
      (failed : checkAssembly lines = .error e) : FailsAt s files u lines (.check u.name e)
  | program (asked : s.binary = true) (p : Program) (assembled : assemble lines = .ok p)
      (e : FileError) (failed : files.save u.binaryOutput p.codes = (files, .error e)) :
      FailsAt s files u lines (.saveProgram e)
  | assembly (e : FileError) (failed : files.save u.output lines = (files, .error e)) :
      FailsAt s files u lines (.saveAssembly u.output e)

/-- The files that are put into the tree for the program of a unit. -/
inductive ProgramSaved (s : Settings) (t : FileTree) (u : CompilationUnit) (lines : List Text) :
    List (Location × Text) → Prop
  | saved (asked : s.binary = true) (p : Program) (assembled : assemble lines = .ok p) (k : Location)
      (place : t.findPlace u.binaryOutput = .ok k) :
      ProgramSaved s t u lines [(k, Text.joinLines p.codes)]
  | none (notAsked : s.binary = false) : ProgramSaved s t u lines []

/-- Finishing the program of a unit changes nothing, or puts the program in its place. -/
theorem finishProgram_cases (hu : FileTree.Joined u.binaryOutput) (hsame : t₀.SameDirectories t)
    (s : Settings) (lines : List Text) :
    (∃ f, FailsAt s t u lines f ∧ finishProgram s t u lines = (t, .error f)) ∨
    ∃ ws, ProgramSaved s t₀ u lines ws ∧ t₀.SameDirectories (t.storeAll ws) ∧
      finishProgram s t u lines = (t.storeAll ws, .ok ()) := by
  unfold finishProgram
  split
  · next hasked =>
      rw [Bool.or_eq_true] at hasked
      cases hcheck : checkAssembly lines with
      | error e => exact Or.inl ⟨_, .check hasked e hcheck, rfl⟩
      | ok p =>
          have hassembled := (checkAssembly_eq_ok_iff.1 hcheck).1
          dsimp only
          split
          · next hbinary =>
              obtain ⟨e, hsave⟩ | ⟨k, hk, hfree, hsave⟩ := FileTree.save_joined_cases hu t p.codes
              · rw [hsave]
                exact Or.inl ⟨_, .program hbinary p hassembled e hsave, rfl⟩
              · rw [hsave]
                refine Or.inr ⟨_, .saved hbinary p hassembled k (hsame.findPlace_iff.1 hk), ?_, rfl⟩
                exact hsame.trans (FileTree.sameDirectories_put hfree _)
          · next hbinary => exact Or.inr ⟨[], .none (Bool.eq_false_iff.2 hbinary), hsame, rfl⟩
  · next hasked =>
      rw [Bool.or_eq_true, not_or] at hasked
      exact Or.inr ⟨[], .none (Bool.eq_false_iff.2 hasked.2), hsame, rfl⟩

/-! ### Finishing all units -/

/-- The files that are put into the tree for units, in their order. -/
inductive ResultsSaved (s : Settings) (t : FileTree) :
    List (CompilationUnit × List Text) → List (Location × Text) → Prop
  | nil : ResultsSaved s t [] []
  | cons {u : CompilationUnit} {lines : List Text} {program : List (Location × Text)} {k : Location}
      {work : List (CompilationUnit × List Text)} {ws : List (Location × Text)}
      (first : ProgramSaved s t u lines program) (place : t.findPlace u.output = .ok k)
      (rest : ResultsSaved s t work ws) :
      ResultsSaved s t ((u, lines) :: work) (program ++ (k, Text.joinLines lines) :: ws)

/-- The paths of the results of a unit have proper names. -/
def JoinedResults (u : CompilationUnit) : Prop :=
  FileTree.Joined u.output ∧ FileTree.Joined u.binaryOutput

/-- **Units are finished up to the first that fails.**  `t₀` is a tree with the same directories, in
which all places are looked up. -/
theorem finishUnits_cases (hwork : ∀ p ∈ work, JoinedResults p.1) (hsame : t₀.SameDirectories t)
    (printed : Text) :
    (∃ ws, ResultsSaved s t₀ work ws ∧ t₀.SameDirectories (t.storeAll ws) ∧
      (finishUnits s t printed work).files = t.storeAll ws ∧
      (finishUnits s t printed work).failure = none) ∨
    ∃ before p after ws program f, work = before ++ p :: after ∧ ResultsSaved s t₀ before ws ∧
      (program = [] ∨ ProgramSaved s t₀ p.1 p.2 program) ∧
      t₀.SameDirectories (t.storeAll (ws ++ program)) ∧
      FailsAt s (t.storeAll (ws ++ program)) p.1 p.2 f ∧
      (finishUnits s t printed work).files = t.storeAll (ws ++ program) ∧
      (finishUnits s t printed work).failure = some f := by
  induction work generalizing t printed with
  | nil => exact Or.inl ⟨[], .nil, hsame, rfl, rfl⟩
  | cons p work ih =>
      obtain ⟨u, lines⟩ := p
      obtain ⟨⟨houtput, hbinary⟩, hrest⟩ := List.forall_mem_cons.1 hwork
      unfold finishUnits
      obtain ⟨f, hf, hprogram⟩ | ⟨program, hsaved, hsame', hprogram⟩ :=
        finishProgram_cases hbinary hsame s lines
      · rw [hprogram]
        exact Or.inr ⟨[], (u, lines), work, [], [], f, rfl, .nil, Or.inl rfl, hsame, hf, rfl, rfl⟩
      · rw [hprogram]
        dsimp only
        obtain ⟨e, hsave⟩ | ⟨k, hk, hfree, hsave⟩ :=
          FileTree.save_joined_cases houtput (t.storeAll program) lines
        · rw [hsave]
          exact Or.inr ⟨[], (u, lines), work, [], program, _, rfl, .nil, Or.inr hsaved, hsame',
            .assembly e hsave, rfl, rfl⟩
        · rw [hsave]
          dsimp only
          -- both results of the unit are in the tree, and the other units start from there
          have hput (ws : List (Location × Text)) :
              ((t.storeAll program).put k (.file (Text.joinLines lines))).storeAll ws
                = t.storeAll (program ++ (k, Text.joinLines lines) :: ws) := by
            rw [FileTree.storeAll_append]
            rfl
          have hplace := hsame'.findPlace_iff.1 hk
          obtain ⟨ws, hws, hdirs, hfiles, hnone⟩ |
              ⟨before, p, after, ws, last, f, rfl, hws, hlast, hdirs, hf, hfiles, hfailure⟩ :=
            ih hrest (hsame'.trans (FileTree.sameDirectories_put hfree (Text.joinLines lines)))
              (if s.verbose then printed ++ Text.join [Text.lineFeed] lines ++ [Text.lineFeed]
                else printed)
          · rw [hput] at hdirs hfiles
            exact Or.inl ⟨_, .cons hsaved hplace hws, hdirs, hfiles, hnone⟩
          · rw [hput] at hdirs hf hfiles
            have happend : program ++ (k, Text.joinLines lines) :: (ws ++ last)
                = (program ++ (k, Text.joinLines lines) :: ws) ++ last := by simp
            rw [happend] at hdirs hf hfiles
            exact Or.inr ⟨(u, lines) :: before, p, after, _, last, f, rfl, .cons hsaved hplace hws,
              hlast, hdirs, hf, hfiles, hfailure⟩

/-! ### Files and units -/

variable {files : FileTree} {p q : CompilationUnit × List Text} {w : Location × Text} {k : Location}
  {ws : List (Location × Text)}

/-- A file is the assembly of a unit, in its place. -/
def IsAssemblyOf (t : FileTree) (p : CompilationUnit × List Text) (w : Location × Text) : Prop :=
  t.findPlace p.1.output = .ok w.1 ∧ w.2 = Text.joinLines p.2

/-- A file is the program of a unit, in its place. -/
def IsProgramOf (t : FileTree) (p : CompilationUnit × List Text) (w : Location × Text) : Prop :=
  ∃ program, assemble p.2 = .ok program ∧ t.findPlace p.1.binaryOutput = .ok w.1 ∧
    w.2 = Text.joinLines program.codes

theorem ProgramSaved.mem (h : ProgramSaved s t p.1 p.2 ws) (hw : w ∈ ws) :
    s.binary = true ∧ IsProgramOf t p w := by
  cases h with
  | saved hasked program hassembled k hk =>
      rw [List.mem_singleton.1 hw]
      exact ⟨hasked, program, hassembled, hk, rfl⟩
  | none hasked => cases hw

/-- Every file that is put into the tree is a result of a unit. -/
theorem ResultsSaved.mem (h : ResultsSaved s t work ws) (hw : w ∈ ws) :
    (∃ p ∈ work, IsAssemblyOf t p w) ∨ s.binary = true ∧ ∃ p ∈ work, IsProgramOf t p w := by
  induction h with
  | nil => cases hw
  | @cons u lines program k work ws first place rest ih =>
      rcases List.mem_append.1 hw with hw | hw
      · obtain ⟨hbinary, hprogram⟩ := ProgramSaved.mem (p := (u, lines)) first hw
        exact Or.inr ⟨hbinary, (u, lines), List.mem_cons_self .., hprogram⟩
      · rcases List.mem_cons.1 hw with rfl | hw
        · exact Or.inl ⟨(u, lines), List.mem_cons_self .., place, rfl⟩
        · rcases ih hw with ⟨p, hp, hassembly⟩ | ⟨hbinary, p, hp, hprogram⟩
          · exact Or.inl ⟨p, List.mem_cons_of_mem _ hp, hassembly⟩
          · exact Or.inr ⟨hbinary, p, List.mem_cons_of_mem _ hp, hprogram⟩

/-- The results of every unit are put into the tree. -/
theorem ResultsSaved.exists_mem (h : ResultsSaved s t work ws) (hp : p ∈ work) :
    (∃ w ∈ ws, IsAssemblyOf t p w) ∧ (s.binary = true → ∃ w ∈ ws, IsProgramOf t p w) := by
  induction h with
  | nil => cases hp
  | @cons u lines program k work ws first place rest ih =>
      rcases List.mem_cons.1 hp with rfl | hp
      · refine ⟨⟨_, List.mem_append_right _ (List.mem_cons_self ..), place, rfl⟩, fun hbinary => ?_⟩
        cases first with
        | saved hasked program hassembled k' hk' =>
            exact ⟨_, List.mem_append_left _ (List.mem_singleton.2 rfl), program, hassembled, hk', rfl⟩
        | none hasked =>
            rw [hbinary] at hasked
            cases hasked
      · have hmem {w : Location × Text} (hw : w ∈ ws) :
            w ∈ program ++ (k, Text.joinLines lines) :: ws :=
          List.mem_append_right _ (List.mem_cons_of_mem _ hw)
        obtain ⟨⟨w, hw, hassembly⟩, hprogram⟩ := ih hp
        refine ⟨⟨w, hmem hw, hassembly⟩, fun hbinary => ?_⟩
        obtain ⟨w', hw', hprogram⟩ := hprogram hbinary
        exact ⟨w', hmem hw', hprogram⟩

/-! ### Different places -/

namespace FileTree.SavedBelow

/-- The program of a unit is saved beside its assembly. -/
theorem binaryOutput_eq (hb : b ≠ []) {names : List Text} {n : Text} (hn : Text.slash ∉ n)
    (h : u.output = Path.under b (names ++ [n ++ assemblyExtension])) :
    u.binaryOutput = Path.under b (names ++ [n ++ ascii ".hack"]) := by
  have hd := Path.under_ne_nil hb names
  have hprogram : Path.IsProper (n ++ ascii ".hack") :=
    Path.isProper_append hn (by decide) (by decide)
  rw [Path.under_concat, Path.join_eq hd (isProper_append_assemblyExtension hn),
    ← List.append_assoc] at h
  have hstem : Path.stem u.output = Path.front (Path.under b names) ++ n := by
    rw [h]
    exact Path.stem_append (by decide) (by decide) _
  rw [CompilationUnit.binaryOutput, hstem, Path.under_concat, Path.join_eq hd hprogram,
    List.append_assoc]

/-- The paths of the results of a unit below a directory. -/
theorem paths (hb : b ≠ []) (h : SavedBelow b u) :
    ∃ names n, (∀ m ∈ names, Path.IsProper m) ∧ Path.IsProper (n ++ assemblyExtension) ∧
      Path.IsProper (n ++ ascii ".hack") ∧
      u.output = Path.under b (names ++ [n ++ assemblyExtension]) ∧
      u.binaryOutput = Path.under b (names ++ [n ++ ascii ".hack"]) := by
  obtain ⟨names, n, hnames, hn, houtput⟩ := h
  exact ⟨names, n, hnames, isProper_append_assemblyExtension hn,
    Path.isProper_append hn (by decide) (by decide), houtput, binaryOutput_eq hb hn houtput⟩

theorem joinedResults (hb : b ≠ []) (h : SavedBelow b u) : JoinedResults u := by
  obtain ⟨names, n, -, hassembly, hprogram, houtput, hbinary⟩ := h.paths hb
  rw [Path.under_concat] at houtput hbinary
  exact ⟨⟨_, _, Path.under_ne_nil hb names, hassembly, houtput⟩,
    ⟨_, _, Path.under_ne_nil hb names, hprogram, hbinary⟩⟩

/-- Programs in the same place belong to units whose assembly has the same path. -/
theorem output_eq_of_binaryOutput (hb : b ≠ []) (hu : SavedBelow b u) (hv : SavedBelow b v)
    (hku : t.findPlace u.binaryOutput = .ok k) (hkv : t.findPlace v.binaryOutput = .ok k) :
    u.output = v.output := by
  obtain ⟨names, n, hnames, -, hn, huout, hubin⟩ := hu.paths hb
  obtain ⟨names', n', hnames', -, hn', hvout, hvbin⟩ := hv.paths hb
  rw [hubin] at hku
  rw [hvbin] at hkv
  obtain ⟨rfl, hlast⟩ := List.append_inj' (names_eq_of_findPlace hb hnames hn hku hnames' hn' hkv) rfl
  injection hlast with hlast
  rw [huout, hvout, List.append_cancel_right hlast]

/-- Assembly and programs have different places. -/
theorem output_place_ne (hb : b ≠ []) (hu : SavedBelow b u) (hv : SavedBelow b v)
    (hku : t.findPlace u.output = .ok k) : t.findPlace v.binaryOutput ≠ .ok k := by
  intro hkv
  obtain ⟨names, n, hnames, hn, -, huout, -⟩ := hu.paths hb
  obtain ⟨names', n', hnames', -, hn', -, hvbin⟩ := hv.paths hb
  rw [huout] at hku
  rw [hvbin] at hkv
  obtain ⟨-, hlast⟩ := List.append_inj' (names_eq_of_findPlace hb hnames hn hku hnames' hn' hkv) rfl
  injection hlast with hlast
  -- the two paths end with different bytes
  have hbyte := congrArg List.getLast? hlast
  rw [List.getLast?_append, List.getLast?_append] at hbyte
  change some (109 : UInt8) = some 107 at hbyte
  cases hbyte

end FileTree.SavedBelow

/-- A file that was put into the tree for other units lies in another place than the assembly and the
program of a unit whose assembly has another path. -/
theorem place_ne_of_mem (hb : b ≠ []) (hbelow : ∀ p ∈ work, FileTree.SavedBelow b p.1)
    (hu : FileTree.SavedBelow b u) (hother : ∀ p ∈ work, u.output ≠ p.1.output)
    (h : ResultsSaved s t work ws)
    (hk : t.findPlace u.output = .ok k ∨ t.findPlace u.binaryOutput = .ok k) (hw : w ∈ ws) :
    k ≠ w.1 := by
  rintro rfl
  rcases h.mem hw with ⟨p, hp, hplace, -⟩ | ⟨-, p, hp, program, -, hplace, -⟩
  · rcases hk with hk | hk
    · exact hother p hp (hu.output_eq hb (hbelow p hp) hk hplace)
    · exact (hbelow p hp).output_place_ne hb hu hplace hk
  · rcases hk with hk | hk
    · exact hu.output_place_ne hb (hbelow p hp) hk hplace
    · exact hother p hp (hu.output_eq_of_binaryOutput hb (hbelow p hp) hk hplace)

/-- **Results with different paths have different places.** -/
theorem ResultsSaved.nodup (hb : b ≠ []) (hbelow : ∀ p ∈ work, FileTree.SavedBelow b p.1)
    (hpaths : (work.map (·.1.output)).Nodup) (h : ResultsSaved s t work ws) :
    (ws.map Prod.fst).Nodup := by
  induction h with
  | nil => exact List.nodup_nil
  | @cons u lines program k work ws first place rest ih =>
      rw [List.forall_mem_cons] at hbelow
      rw [List.map_cons, List.nodup_cons] at hpaths
      have hother : ∀ p ∈ work, u.output ≠ p.1.output := by
        intro p hp heq
        exact hpaths.1 (heq ▸ List.mem_map_of_mem hp)
      have hfresh {k : Location}
          (hk : t.findPlace u.output = .ok k ∨ t.findPlace u.binaryOutput = .ok k) :
          k ∉ ws.map Prod.fst := by
        intro hmem
        obtain ⟨w, hw, hkw⟩ := List.mem_map.1 hmem
        exact place_ne_of_mem hb hbelow.2 hbelow.1 hother rest hk hw hkw.symm
      have hassembly : ((k, Text.joinLines lines) :: ws).map Prod.fst |>.Nodup :=
        List.nodup_cons.2 ⟨hfresh (Or.inl place), ih hbelow.2 hpaths.2⟩
      cases first with
      | none hasked => exact hassembly
      | saved hasked program hassembled k' hk' =>
          have hprogram : k' ∉ ((k, Text.joinLines lines) :: ws).map Prod.fst := by
            rw [List.map_cons, List.mem_cons, not_or]
            refine ⟨?_, hfresh (Or.inr hk')⟩
            rintro rfl
            exact hbelow.1.output_place_ne hb hbelow.1 place hk'
          exact List.nodup_cons.2 ⟨hprogram, hassembly⟩

/-! ### What is left -/

/-- The path of a unit's assembly leads to a file that holds all lines of it, each followed by a line
feed. -/
def AssemblyAt (files : FileTree) (p : CompilationUnit × List Text) (k : Location) : Prop :=
  files.find p.1.output = .ok (k, .file (p.2.map (· ++ [10])).flatten)

/-- The path of a unit's program leads to a file that holds the codes of all its instructions, each
followed by a line feed. -/
def ProgramAt (files : FileTree) (p : CompilationUnit × List Text) (k : Location) : Prop :=
  ∃ program, assemble p.2 = .ok program ∧ files.find p.1.binaryOutput
    = .ok (k, .file (program.instructions.map (·.code ++ [10])).flatten)

/-- All directories are as in the tree `t`, and every location holds what it holds there, the assembly
of one of the units `assembled`, or, if programs are asked for, the program of one of the units
`linked`. -/
structure Leaves (s : Settings) (t files : FileTree)
    (assembled linked : List (CompilationUnit × List Text)) : Prop where
  directories : t.SameDirectories files
  locations : ∀ k, files.find? k = t.find? k ∨ (∃ p ∈ assembled, AssemblyAt files p k) ∨
    s.binary = true ∧ ∃ p ∈ linked, ProgramAt files p k

theorem FileTree.Joined.ne_nil {path : Text} (hpath : FileTree.Joined path)
    (h : t.findPlace path = .ok k) : k ≠ [] := by
  obtain ⟨d, n, hd, hn, rfl⟩ := hpath
  obtain ⟨l, -, rfl⟩ := (FileTree.findPlace_join_iff hd hn).1 h
  exact List.concat_ne_nil n l

theorem IsAssemblyOf.assemblyAt (hp : JoinedResults p.1) (hsame : t.SameDirectories files)
    (h : IsAssemblyOf t p w) (hfile : files.find? w.1 = some (.file w.2)) :
    AssemblyAt files p w.1 := by
  obtain ⟨hplace, hcontent⟩ := h
  rw [hcontent, Text.joinLines_eq_flatten] at hfile
  exact FileTree.find_of_findPlace hp.1 (hsame.findPlace_iff.2 hplace) hfile

theorem IsProgramOf.programAt (hp : JoinedResults p.1) (hsame : t.SameDirectories files)
    (h : IsProgramOf t p w) (hfile : files.find? w.1 = some (.file w.2)) :
    ProgramAt files p w.1 := by
  obtain ⟨program, hassembled, hplace, hcontent⟩ := h
  rw [hcontent, Text.joinLines_eq_flatten, Program.codes, List.map_map] at hfile
  exact ⟨program, hassembled, FileTree.find_of_findPlace hp.2 (hsame.findPlace_iff.2 hplace) hfile⟩

/-- Putting results of units into a tree leaves results of these units. -/
theorem leaves_storeAll {assembled linked : List (CompilationUnit × List Text)}
    (hassembled : ∀ p ∈ assembled, JoinedResults p.1) (hlinked : ∀ p ∈ linked, JoinedResults p.1)
    (hsame : t.SameDirectories (t.storeAll ws))
    (hws : ∀ w ∈ ws, (∃ p ∈ assembled, IsAssemblyOf t p w) ∨
      s.binary = true ∧ ∃ p ∈ linked, IsProgramOf t p w) :
    (∀ w ∈ ws, w.1 ≠ []) ∧ Leaves s t (t.storeAll ws) assembled linked := by
  have hne : ∀ w ∈ ws, w.1 ≠ [] := by
    intro w hw
    rcases hws w hw with ⟨p, hp, hplace, -⟩ | ⟨-, p, hp, program, -, hplace, -⟩
    · exact (hassembled p hp).1.ne_nil hplace
    · exact (hlinked p hp).2.ne_nil hplace
  refine ⟨hne, hsame, fun k => ?_⟩
  rcases FileTree.find?_storeAll t hne k with hkeep | ⟨w, hw, rfl, hfile⟩
  · exact Or.inl hkeep
  · rcases hws w hw with ⟨p, hp, hassembly⟩ | ⟨hbinary, p, hp, hprogram⟩
    · exact Or.inr (Or.inl ⟨p, hp, hassembly.assemblyAt (hassembled p hp) hsame hfile⟩)
    · exact Or.inr (Or.inr ⟨hbinary, p, hp, hprogram.programAt (hlinked p hp) hsame hfile⟩)

/-- The paths of all results of a run lie below one directory. -/
theorem IsWork.savedBelow (ht : t.WellFormed) (h : IsWork s t work) :
    ∃ b, b ≠ [] ∧ ∀ p ∈ work, FileTree.SavedBelow b p.1 := by
  obtain ⟨b, hb, hbelow⟩ := FileTree.exists_savedBelow ht h.found
  exact ⟨b, hb, fun p hp => hbelow p.1 (List.mem_map_of_mem hp)⟩

/-- After all units have been finished, only complete results are left, and all of them if they have
different paths. -/
theorem ResultsSaved.leaves (hb : b ≠ []) (hbelow : ∀ p ∈ work, FileTree.SavedBelow b p.1)
    (h : ResultsSaved s t work ws) (hsame : t.SameDirectories (t.storeAll ws)) :
    Leaves s t (t.storeAll ws) work work ∧
    ((work.map (·.1.output)).Nodup → ∀ p ∈ work, (∃ k, AssemblyAt (t.storeAll ws) p k) ∧
      (s.binary = true → ∃ k, ProgramAt (t.storeAll ws) p k)) := by
  have hjoined : ∀ p ∈ work, JoinedResults p.1 := fun p hp => (hbelow p hp).joinedResults hb
  obtain ⟨hne, hleaves⟩ := leaves_storeAll hjoined hjoined hsame fun w hw => h.mem hw
  refine ⟨hleaves, fun hpaths p hp => ?_⟩
  have hall {w : Location × Text} (hw : w ∈ ws) : (t.storeAll ws).find? w.1 = some (.file w.2) :=
    FileTree.find?_storeAll_of_mem t hne (h.nodup hb hbelow hpaths) hw
  obtain ⟨⟨w, hw, hassembly⟩, hprogram⟩ := h.exists_mem hp
  refine ⟨⟨w.1, hassembly.assemblyAt (hjoined p hp) hsame (hall hw)⟩, fun hbinary => ?_⟩
  obtain ⟨w', hw', hprogram⟩ := hprogram hbinary
  exact ⟨w'.1, hprogram.programAt (hjoined p hp) hsame (hall hw')⟩

/-- After a unit has failed, only complete results of the units before it are left, and possibly its
own program. -/
theorem ResultsSaved.leaves_of_failure {before : List (CompilationUnit × List Text)}
    {program : List (Location × Text)} (hjoined : ∀ q ∈ before ++ [p], JoinedResults q.1)
    (h : ResultsSaved s t before ws) (hprogram : program = [] ∨ ProgramSaved s t p.1 p.2 program)
    (hsame : t.SameDirectories (t.storeAll (ws ++ program))) :
    Leaves s t (t.storeAll (ws ++ program)) before (before ++ [p]) := by
  refine (leaves_storeAll (fun q hq => hjoined q (List.mem_append_left _ hq)) hjoined hsame ?_).2
  intro w hw
  rcases List.mem_append.1 hw with hw | hw
  · rcases h.mem hw with ⟨q, hq, hassembly⟩ | ⟨hbinary, q, hq, hw⟩
    · exact Or.inl ⟨q, hq, hassembly⟩
    · exact Or.inr ⟨hbinary, q, List.mem_append_left _ hq, hw⟩
  · rcases hprogram with rfl | hprogram
    · cases hw
    · obtain ⟨hbinary, hw⟩ := hprogram.mem hw
      exact Or.inr ⟨hbinary, p, List.mem_append_right _ (List.mem_singleton.2 rfl), hw⟩

/-- **What a run leaves in the tree.**  A run that is refused changes nothing.  Any other run that
fails stops at a unit, and every file that is new or changed is the complete assembly of a unit before
it, or the complete program of such a unit or of itself.  A run that does not fail leaves complete
results only, and all of them if they have different paths. -/
theorem runCompile_leaves_complete_results (ht : t.WellFormed) (s : Settings) :
    (Refused s t → (runCompile s t).files = t ∧ (runCompile s t).failure ≠ none) ∧
    (¬Refused s t → ∃ work, IsWork s t work ∧
      ((∃ before p after f, work = before ++ p :: after ∧ (runCompile s t).failure = some f ∧
          FailsAt s (runCompile s t).files p.1 p.2 f ∧
          Leaves s t (runCompile s t).files before (before ++ [p])) ∨
        ((runCompile s t).failure = none ∧ Leaves s t (runCompile s t).files work work ∧
          ((work.map (·.1.output)).Nodup → ∀ p ∈ work, (∃ k, AssemblyAt (runCompile s t).files p k) ∧
            (s.binary = true → ∃ k, ProgramAt (runCompile s t).files p k))))) := by
  rcases compileUnits_cases s t with ⟨hrefused, f, hcompile⟩ | ⟨work, hwork, hcompile⟩
  · refine ⟨fun _ => ?_, fun hnot => absurd hrefused hnot⟩
    rw [runCompile, hcompile]
    exact ⟨rfl, nofun⟩
  · refine ⟨fun hrefused => absurd hrefused hwork.not_refused, fun _ => ⟨work, hwork, ?_⟩⟩
    obtain ⟨b, hb, hbelow⟩ := hwork.savedBelow ht
    have hjoined : ∀ p ∈ work, JoinedResults p.1 := fun p hp => (hbelow p hp).joinedResults hb
    rw [runCompile, hcompile]
    dsimp only
    obtain ⟨ws, hsaved, hsame, hfiles, hnone⟩ |
        ⟨before, p, after, ws, program, f, rfl, hsaved, hprogram, hsame, hf, hfiles, hfailure⟩ :=
      finishUnits_cases (s := s) hjoined (FileTree.SameDirectories.refl t) []
    · rw [hfiles]
      exact Or.inr ⟨hnone, hsaved.leaves hb hbelow hsame⟩
    · rw [hfiles]
      refine Or.inl ⟨before, p, after, f, rfl, hfailure, hf, ?_⟩
      refine hsaved.leaves_of_failure (fun q hq => hjoined q ?_) hprogram hsame
      rw [← List.singleton_append, ← List.append_assoc]
      exact List.mem_append_left _ hq

/-- Two sources, of which the second has a name that no symbol can hold. -/
def halfway : FileTree where
  entries :=
    [([ascii "a.vm"], .file (ascii "push constant 1")),
     ([ascii "b c.vm"], .file (ascii "push static 0"))]

/-- Programs are asked for, and the stack is not set up. -/
def halfwaySettings : Settings := { bootstrap := false, binary := true }

/-- The run stops at the second source, and leaves the assembly and the program of the first. -/
theorem halfway_leaves_complete_results :
    (runCompile halfwaySettings halfway).files.find (ascii "a.asm")
      = .ok ([ascii "a.asm"], .file (ascii "@1\nD=A\n@SP\nA=M\nM=D\n@SP\nM=M+1\n")) ∧
    (runCompile halfwaySettings halfway).files.find (ascii "a.hack")
      = .ok ([ascii "a.hack"], .file (ascii "0000000000000001\n1110110000010000\n0000000000000000\n"
        ++ ascii "1111110000100000\n1110001100001000\n0000000000000000\n1111110111001000\n")) ∧
    ∃ work before p after f, IsWork halfwaySettings halfway work ∧ work = before ++ p :: after ∧
      (runCompile halfwaySettings halfway).failure = some f ∧
      FailsAt halfwaySettings (runCompile halfwaySettings halfway).files p.1 p.2 f ∧
      Leaves halfwaySettings halfway (runCompile halfwaySettings halfway).files before
        (before ++ [p]) := by
  have hrun := runCompile_leaves_complete_results (t := halfway) (by decide +kernel) halfwaySettings
  obtain ⟨hfails, hchanged⟩ : (runCompile halfwaySettings halfway).failure ≠ none ∧
      (runCompile halfwaySettings halfway).files ≠ halfway := by decide +kernel
  refine ⟨by decide +kernel, by decide +kernel, ?_⟩
  obtain ⟨work, hwork, ⟨before, p, after, f, hsplit, hfailure, hf, hleaves⟩ | ⟨hnone, -⟩⟩ :=
    hrun.2 fun hrefused => hchanged (hrun.1 hrefused).1
  · exact ⟨work, before, p, after, f, hwork, hsplit, hfailure, hf, hleaves⟩
  · exact absurd hnone hfails

end HackToolchain
